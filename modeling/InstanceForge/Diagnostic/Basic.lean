/-!
# Diagnostics

What is reported about a run: how severe it is, a code that tells its kind, a message, what it
is about, and notes and suggestions. A report is rendered as lines of plain or coloured text.
-/

namespace InstanceForge

inductive Severity where
  | note
  | warning
  | error
  deriving DecidableEq

namespace Severity

def name : Severity -> String
  | note => "note"
  | warning => "warning"
  | error => "error"

def byName : List (String × Severity) :=
  [note, warning, error].map fun s => (s.name, s)

def rank : Severity -> Nat
  | note => 0
  | warning => 1
  | error => 2

def isAtLeast (a b : Severity) : Bool :=
  b.rank <= a.rank

def isError (s : Severity) : Bool :=
  s = error

def colour : Severity -> String
  | note => "\x1b[1;36m"
  | warning => "\x1b[1;33m"
  | error => "\x1b[1;31m"

end Severity

/-- The two families of diagnostic codes. -/
inductive Category where
  | error
  | warning
  deriving DecidableEq

namespace Category

def name : Category -> String
  | error => "Error"
  | warning => "Warning"

def byName : List (String × Category) :=
  [error, warning].map fun c => (c.name, c)

def letter : Category -> Char
  | error => 'E'
  | warning => 'W'

end Category

/-- The kind of a diagnostic: a number of sixteen bits within a category. -/
structure DiagnosticCode where
  category : Category
  number : Fin 65536
  deriving DecidableEq

namespace DiagnosticCode

/-- Digits with as many zeros in front as make three. -/
def padded (digits : List Char) : List Char :=
  List.replicate (3 - digits.length) '0' ++ digits

def text (c : DiagnosticCode) : String :=
  String.ofList (c.category.letter :: padded (Nat.toDigits 10 c.number.val))

end DiagnosticCode

structure Diagnostic where
  severity : Severity
  code : DiagnosticCode
  message : String
  subject : Option String
  notes : List String
  help : List String
  deriving DecidableEq

namespace Diagnostic

/-- A diagnostic without subject, notes and suggestions. -/
def bare (severity : Severity) (code : DiagnosticCode) (message : String) : Diagnostic :=
  { severity := severity, code := code, message := message, subject := none, notes := [],
    help := [] }

def plainHeading (d : Diagnostic) : String :=
  d.severity.name ++ "[" ++ d.code.text ++ "]: " ++ d.message ++ "\n"

def colouredHeading (d : Diagnostic) : String :=
  d.severity.colour ++ d.severity.name ++ "[" ++ d.code.text ++ "]\x1b[0m\x1b[1m: " ++ d.message ++
    "\x1b[0m\n"

def subjectLine (d : Diagnostic) : String :=
  match d.subject with
  | some subject => "  --> " ++ subject ++ "\n"
  | none => ""

def footnote (label text : String) : String :=
  "   = " ++ label ++ ": " ++ text ++ "\n"

def render (coloured : Bool) (d : Diagnostic) : String :=
  (if coloured then d.colouredHeading else d.plainHeading) ++ d.subjectLine ++
    String.join (d.notes.map (footnote "note")) ++ String.join (d.help.map (footnote "help"))

end Diagnostic

end InstanceForge

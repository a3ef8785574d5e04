/-!
# Command-line options

Reads the options and words of one command. An option has a long name after two dashes, and
perhaps a letter after one. Its value follows it, or is attached. Each option is given at most
once unless it may be repeated, and everything after a bare `--` is a word.
-/

namespace InstanceForge

inductive OptionKind where
  | flag
  | value
  | values
  | choice (names : List String)
  | help
  | version
  deriving DecidableEq

structure OptionRule where
  name : String
  letter : Option Char
  kind : OptionKind
  deriving DecidableEq

/-- An option that is given, a flag with an empty value. -/
structure GivenOption where
  name : String
  value : String
  deriving DecidableEq

/-- Why a command line asks for nothing to be run. -/
inductive ArgumentStop where
  | help
  | version
  | usage
  deriving DecidableEq

namespace Options

/-- Adds an option with its value, if the option may be given and the value is one of its values. -/
def give (rule : OptionRule) (value : String) (given : List GivenOption) :
    Except ArgumentStop (List GivenOption) :=
  if rule.kind != .values && given.any (fun g => g.name == rule.name) then .error .usage
  else
    match rule.kind with
    | .choice names => if value ∈ names then .ok (given ++ [⟨rule.name, value⟩]) else .error .usage
    | _ => .ok (given ++ [⟨rule.name, value⟩])

/-- What an option without a value does; nothing if it needs a value. -/
def give? (rule : OptionRule) (given : List GivenOption) :
    Except ArgumentStop (Option (List GivenOption)) :=
  match rule.kind with
  | .help => .error .help
  | .version => .error .version
  | .flag => (give rule "" given).map some
  | _ => .ok none

/-- Whether an argument is a word: it does not begin with a dash, or is one. -/
def isWord (arg : String) : Bool :=
  match arg.toList with
  | '-' :: _ :: _ => false
  | _ => true

def splitValue : List Char -> String × Option String
  | cs =>
      match cs.span (· != '=') with
      | (name, '=' :: value) => (String.ofList name, some (String.ofList value))
      | (name, _) => (String.ofList name, none)

/-- The value that is attached to a letter, with an equals sign or without. -/
def attached : List Char -> String
  | '=' :: value => String.ofList value
  | value => String.ofList value

/-- The options that were given so far, and one that waits for its value. -/
abbrev Pending := List GivenOption × Option OptionRule

def letters (rules : List OptionRule) : List GivenOption -> List Char ->
    Except ArgumentStop Pending
  | given, [] => .ok (given, none)
  | given, c :: rest =>
      match rules.find? fun r => r.letter = some c with
      | none => .error .usage
      | some rule =>
          match give? rule given with
          | .error stop => .error stop
          | .ok (some next) => letters rules next rest
          | .ok none =>
              if rest.isEmpty then .ok (given, some rule)
              else (give rule (attached rest) given).map fun next => (next, none)

def long (rules : List OptionRule) (given : List GivenOption) (cs : List Char) :
    Except ArgumentStop Pending :=
  let (name, value) := splitValue cs
  match rules.find? fun r => r.name = name with
  | none => .error .usage
  | some rule =>
      match rule.kind, value with
      | .flag, some _ => .error .usage
      | .help, some _ => .error .usage
      | .version, some _ => .error .usage
      | _, some v => (give rule v given).map fun next => (next, none)
      | _, none =>
          match give? rule given with
          | .error stop => .error stop
          | .ok (some next) => .ok (next, none)
          | .ok none => .ok (given, some rule)

def option (rules : List OptionRule) (given : List GivenOption) (arg : String) :
    Except ArgumentStop Pending :=
  match arg.toList with
  | '-' :: '-' :: cs => long rules given cs
  | cs => letters rules given (cs.drop 1)

/-- Reads arguments up to the first word; gives the options and all arguments from the word on. -/
def leading (rules : List OptionRule) : Option OptionRule -> List GivenOption -> List String ->
    Except ArgumentStop (List GivenOption × List String)
  | none, given, [] => .ok (given, [])
  | some _, _, [] => .error .usage
  | some rule, given, arg :: rest =>
      if isWord arg then
        match give rule arg given with
        | .error stop => .error stop
        | .ok next => leading rules none next rest
      else .error .usage
  | none, given, arg :: rest =>
      if isWord arg then .ok (given, arg :: rest)
      else if arg = "--" then .error .usage
      else
        match option rules given arg with
        | .error stop => .error stop
        | .ok (next, pending) => leading rules pending next rest

def all (rules : List OptionRule) : Nat -> Option OptionRule -> List GivenOption ->
    List String -> Except ArgumentStop (List GivenOption × List String)
  | _, none, given, [] => .ok (given, [])
  | _, some _, _, [] => .error .usage
  | count, some rule, given, arg :: rest =>
      if isWord arg then
        match give rule arg given with
        | .error stop => .error stop
        | .ok next => all rules count none next rest
      else .error .usage
  | count, none, given, arg :: rest =>
      if isWord arg then
        match count with
        | 0 => .error .usage
        | n + 1 => (all rules n none given rest).map fun r => (r.1, arg :: r.2)
      else if arg = "--" then
        if rest.length <= count then .ok (given, rest) else .error .usage
      else
        match option rules given arg with
        | .error stop => .error stop
        | .ok (next, pending) => all rules count pending next rest

def has (given : List GivenOption) (name : String) : Bool :=
  given.any fun g => g.name == name

def value? (given : List GivenOption) (name : String) : Option String :=
  (given.find? fun g => g.name == name).map (·.value)

def chosen? {α : Type} (byName : List (String × α)) (given : List GivenOption) (name : String) :
    Option α :=
  match value? given name with
  | some value => byName.lookup value
  | none => none

def values (given : List GivenOption) (name : String) : List String :=
  (given.filter fun g => g.name == name).map (·.value)

end Options

end InstanceForge

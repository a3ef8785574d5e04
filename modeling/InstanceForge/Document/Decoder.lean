import InstanceForge.Document.Json.Reader
import InstanceForge.Document.Toml.Reader

/-!
# Decoding document values

A record is written as an object, whose unknown keys are ignored and whose known keys may not
repeat, or as a list of its members in order, whose last members may be missing. What stands
after them is ignored in TOML and refused in JSON. A choice is written as its name, or as an
object with its name as only key.
-/

namespace InstanceForge

inductive DocumentFormat where
  | toml
  | json
  deriving DecidableEq

def DocumentFormat.read : DocumentFormat -> String -> Option Datum
  | .toml, s => Toml.read s
  | .json, s => Json.read s

namespace Decoder

def literalText? : Literal -> Option String
  | .text s => some s
  | .unpaired => none

def valuesOf (key : String) (entries : List (Literal × Datum)) : List Datum :=
  (entries.filter fun e => e.1 = .text key).map (·.2)

/-- The value of a member that may be missing and may not repeat. -/
def member? (entries : List (Literal × Datum)) (key : String) : Option (Option Datum) :=
  match valuesOf key entries with
  | [] => some none
  | [value] => some (some value)
  | _ => none

/-- Whether a list may go on after the members of a record. -/
def allowsSurplus : DocumentFormat -> Bool
  | .toml => true
  | .json => false

/-- The first items of a list, so many, those that are missing left open. -/
def openItems (count : Nat) (items : List Datum) : List (Option Datum) :=
  (items.take count).map some ++ List.replicate (count - items.length) none

/-- The members of a record, in the order of their names; a missing one is left open. -/
def members? (format : DocumentFormat) (names : List String) :
    Datum -> Option (List (Option Datum))
  | .table entries =>
      if entries.all fun e => (literalText? e.1).isSome then names.mapM (member? entries)
      else none
  | .list items =>
      if allowsSurplus format || items.length <= names.length then
        some (openItems names.length items)
      else none
  | _ => none

/-- The members of a record that, written as a list, has at least so many items. -/
def membersFrom? (format : DocumentFormat) (least : Nat) (names : List String) (d : Datum) :
    Option (List (Option Datum)) :=
  match d with
  | .list items => if least <= items.length then members? format names d else none
  | _ => members? format names d

def required {α : Type} (decode : Datum -> Option α) : Option Datum -> Option α
  | some d => decode d
  | none => none

def withDefault {α : Type} (value : α) (decode : Datum -> Option α) : Option Datum -> Option α
  | some d => decode d
  | none => some value

/-- A member that stands for nothing when it is missing or null. -/
def optional {α : Type} (decode : Datum -> Option α) : Option Datum -> Option (Option α)
  | none => some none
  | some .null => some none
  | some d => (decode d).map some

def text (d : Datum) : Option String :=
  d.toText?

def listOf {α : Type} (decode : Datum -> Option α) : Datum -> Option (List α)
  | .list items => items.mapM decode
  | _ => none

def textOrTexts : Datum -> Option (List String)
  | .text (.text s) => some [s]
  | .list items => items.mapM text
  | _ => none

def natUpTo (bound : Nat) : Datum -> Option Nat
  | .number n =>
      match n.toNat? with
      | some k => if k <= bound then some k else none
      | none => none
  | _ => none

def isVoid (format : DocumentFormat) : Datum -> Bool
  | .null => format = .json
  | .table [] => format = .toml
  | .list [] => format = .toml
  | _ => false

def choiceName? (format : DocumentFormat) : Datum -> Option String
  | .text (.text s) => some s
  | .table [(.text s, payload)] => if isVoid format payload then some s else none
  | _ => none

def choice {α : Type} (format : DocumentFormat) (options : List (String × α)) (d : Datum) :
    Option α :=
  match choiceName? format d with
  | some name => options.lookup name
  | none => none

end Decoder

end InstanceForge

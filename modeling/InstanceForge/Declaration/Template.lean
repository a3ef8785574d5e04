import InstanceForge.Graph.Basic
import InstanceForge.Text.Basic

/-!
# Initializer templates

A derivation engine gives the expression that computes an instance. The template engine reads a
template as pieces: characters that stand for themselves, doubled braces that stand for one,
and placeholders between braces. The pieces are then filled in, and what is filled in is never
read again.
-/

namespace InstanceForge

inductive DerivationError where
  | unknownPlaceholder (name : String)
  | unbalancedBrace (brace : Char) (offset : Nat)
  | unsupported (reason : String)
  deriving DecidableEq

def DerivationError.message : DerivationError -> String
  | unknownPlaceholder name =>
      "unknown placeholder `\x7b" ++ name ++ "\x7d` in initializer template"
  | unbalancedBrace brace offset =>
      "unbalanced `" ++ String.singleton brace ++ "` at byte " ++ toString offset ++
        " of initializer template"
  | unsupported reason => reason

/-- Gives the initializer of a capability for a type. -/
structure Engine where
  derive : TypeNode -> String -> Except DerivationError String

inductive Placeholder where
  | path
  | fullName
  | simpleName
  | binding
  | capability
  | capabilitySnake
  deriving DecidableEq

namespace Placeholder

def byName : List (String × Placeholder) :=
  [("type", path), ("name", fullName), ("simple", simpleName), ("binding", binding),
    ("capability", capability), ("capability_snake", capabilitySnake)]

def value (p : Placeholder) (node : TypeNode) (capability : String) : String :=
  match p with
  | path => (Name.path? node.typeName).getD node.typeName
  | fullName => node.typeName
  | simpleName => Name.simple node.typeName
  | binding => node.bindingName
  | .capability => capability
  | capabilitySnake => Name.snake capability

end Placeholder

namespace Template

inductive Piece where
  | char (c : Char)
  | placeholder (p : Placeholder)
  deriving DecidableEq

/-- A placeholder that is being read: where its brace stands, and its characters so far. -/
structure Opened where
  offset : Nat
  name : List Char

def placeholder? (name : List Char) : Except DerivationError Placeholder :=
  match Placeholder.byName.lookup (String.ofList (Text.trimChars name)) with
  | some p => .ok p
  | none => .error (.unknownPlaceholder (String.ofList name))

/-- Reads pieces from a byte offset on, inside a placeholder or outside. -/
def piecesFrom : Option Opened -> Nat -> List Char -> Except DerivationError (List Piece)
  | none, _, [] => .ok []
  | some opened, _, [] => .error (.unbalancedBrace '{' opened.offset)
  | some opened, offset, c :: rest =>
      if c = '}' then
        match placeholder? opened.name with
        | .error e => .error e
        | .ok p =>
            match piecesFrom none (offset + 1) rest with
            | .error e => .error e
            | .ok pieces => .ok (.placeholder p :: pieces)
      else if c = '{' then .error (.unbalancedBrace '{' opened.offset)
      else piecesFrom (some { opened with name := opened.name ++ [c] }) (offset + c.utf8Size) rest
  | none, offset, '{' :: '{' :: rest =>
      match piecesFrom none (offset + 2) rest with
      | .error e => .error e
      | .ok pieces => .ok (.char '{' :: pieces)
  | none, offset, '}' :: '}' :: rest =>
      match piecesFrom none (offset + 2) rest with
      | .error e => .error e
      | .ok pieces => .ok (.char '}' :: pieces)
  | none, offset, c :: rest =>
      if c = '{' then piecesFrom (some ⟨offset, []⟩) (offset + 1) rest
      else if c = '}' then .error (.unbalancedBrace '}' offset)
      else
        match piecesFrom none (offset + c.utf8Size) rest with
        | .error e => .error e
        | .ok pieces => .ok (.char c :: pieces)

theorem piecesFrom_nil (offset : Nat) : piecesFrom none offset [] = .ok [] := by
  rw [piecesFrom]

def pieces (template : String) : Except DerivationError (List Piece) :=
  piecesFrom none 0 template.toList

def Piece.fill (node : TypeNode) (capability : String) : Piece -> String
  | char c => String.singleton c
  | placeholder p => p.value node capability

def fill (template : String) (node : TypeNode) (capability : String) :
    Except DerivationError String :=
  match pieces template with
  | .error e => .error e
  | .ok ps => .ok (String.join (ps.map (Piece.fill node capability)))

/-- The template that is used if none is configured. -/
def standard : String :=
  "derive::\x7bcapability_snake\x7d::<\x7btype\x7d>()"

end Template

namespace Engine

def ofTemplate (template : String) : Engine where
  derive := Template.fill template

/-- The engine that refuses some types, with a reason for each, and leaves others to another. -/
def refusing (reasons : List (String × String)) (engine : Engine) : Engine where
  derive node capability :=
    match reasons.lookup node.typeName with
    | some reason => .error (.unsupported reason)
    | none => engine.derive node capability

end Engine

end InstanceForge

import InstanceForge.Declaration.Basic

/-!
# Derived declarations

Declarations with their initializers, and how they are grouped: shared ones into one bundle for
each capability, those beside a type into one block.
-/

namespace InstanceForge

structure DerivedDeclaration where
  declaration : Declaration
  initializer : String
  deriving DecidableEq

def DerivedDeclaration.toDatum (d : DerivedDeclaration) : Datum :=
  .ofEntries (d.declaration.entries ++ [("initializer", .ofString d.initializer)])

/-- The derived declarations of one run in the order of their generation. -/
structure DeclarationSet where
  scope : Scope
  declarations : List DerivedDeclaration
  deriving DecidableEq

structure Bundle where
  capability : String
  declarations : List DerivedDeclaration
  deriving DecidableEq

structure TypeBlock where
  node : TypeNode
  declarations : List DerivedDeclaration
  deriving DecidableEq

inductive BlockError where
  | noDeclarations
  | severalTypes (first other : String)
  deriving DecidableEq

def BlockError.message (e : BlockError) : String :=
  "internal generator error: " ++
    match e with
    | noDeclarations => "local block without declarations"
    | severalTypes first other => "local block spans `" ++ first ++ "` and `" ++ other ++ "`"

namespace DeclarationSet

def size (s : DeclarationSet) : Nat :=
  s.declarations.length

/-- Adds a declaration to the bundle of its capability, or opens one for it at the end. -/
def addToBundles (d : DerivedDeclaration) : List Bundle -> List Bundle
  | [] => [⟨d.declaration.capability, [d]⟩]
  | b :: rest =>
      if b.capability = d.declaration.capability then
        { b with declarations := b.declarations ++ [d] } :: rest
      else b :: addToBundles d rest

/-- The declarations by capability; bundles and declarations keep their first order. -/
def bundles (s : DeclarationSet) : List Bundle :=
  s.declarations.foldl (fun acc d => addToBundles d acc) []

/-- The one block of declarations that are all for one type. -/
def block (s : DeclarationSet) : Except BlockError TypeBlock :=
  match s.declarations with
  | [] => .error .noDeclarations
  | first :: rest =>
      let node := first.declaration.node
      match (first :: rest).find? fun d => !d.declaration.node.sameType node with
      | some other => .error (.severalTypes node.typeName other.declaration.node.typeName)
      | none => .ok ⟨node, first :: rest⟩

def entries (s : DeclarationSet) : List (String × Datum) :=
  [("scope", .ofString s.scope.name),
    ("declarations", .list (s.declarations.map DerivedDeclaration.toDatum))]

def toDatum (s : DeclarationSet) : Datum :=
  .ofEntries s.entries

end DeclarationSet

end InstanceForge

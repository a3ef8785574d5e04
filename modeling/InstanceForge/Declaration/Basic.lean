import InstanceForge.Graph.Basic

/-!
# Declarations

One memoized instance is declared for each type of a graph and each requested capability. Its
identifier is the binding form of the simple type name followed by the capability; two
declarations never share one.
-/

namespace InstanceForge

/--
Where declarations are placed: in one bundle for each capability, over all types of a graph, or
beside the definition of the root type alone.
-/
inductive Scope where
  | shared
  | besideType
  deriving DecidableEq

namespace Scope

def name : Scope -> String
  | shared => "shared"
  | besideType => "local"

def byName : List (String × Scope) :=
  [shared, besideType].map fun s => (s.name, s)

end Scope

structure Declaration where
  node : TypeNode
  capability : String
  identifier : String
  scope : Scope
  deriving DecidableEq

inductive PlanError where
  | emptyCapabilitySet
  | duplicateIdentifier (identifier : String)
      (existingType existingCapability conflictingType conflictingCapability : String)
  deriving DecidableEq

def PlanError.message : PlanError -> String
  | emptyCapabilitySet => "no capability names were requested"
  | duplicateIdentifier identifier existingType existingCapability conflictingType
      conflictingCapability =>
      "duplicate identifier `" ++ identifier ++ "`: generated for `" ++ existingType ++ "` (" ++
        existingCapability ++ ") and again for `" ++ conflictingType ++ "` (" ++
        conflictingCapability ++ ")"

namespace Declaration

def identifierFor (typeName capability : String) : String :=
  Name.lowerCamel typeName ++ capability

def ofPair (scope : Scope) (node : TypeNode) (capability : String) : Declaration :=
  { node := node
    capability := capability
    identifier := identifierFor node.typeName capability
    scope := scope }

def entries (d : Declaration) : List (String × Datum) :=
  [("type_node", d.node.toDatum), ("capability_name", .ofString d.capability),
    ("identifier", .ofString d.identifier), ("scope", .ofString d.scope.name)]

def candidates (scope : Scope) (nodes : List TypeNode) (capabilities : List String) :
    List Declaration :=
  nodes.flatMap fun node => capabilities.map fun capability => ofPair scope node capability

/-- Takes declarations as long as identifiers do not repeat. -/
def takeDistinct : List Declaration -> List Declaration -> Except PlanError (List Declaration)
  | taken, [] => .ok taken
  | taken, d :: rest =>
      match taken.find? fun e => e.identifier == d.identifier with
      | some e =>
          .error (.duplicateIdentifier d.identifier e.node.typeName e.capability d.node.typeName
            d.capability)
      | none => takeDistinct (taken ++ [d]) rest

/-- Plans the declarations of a graph, types outermost and capabilities in the given order. -/
def plan (g : TypeGraph) (capabilities : List String) (scope : Scope) :
    Except PlanError (List Declaration) :=
  match capabilities with
  | [] => .error .emptyCapabilitySet
  | _ :: _ => takeDistinct [] (candidates scope g.nodes capabilities)

end Declaration

end InstanceForge

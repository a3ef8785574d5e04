import InstanceForge.Document.Datum
import InstanceForge.Graph.Cycle
import InstanceForge.Name
import InstanceForge.Schema.Provider

/-!
# Type graphs

The composite types that are reached from a root, each once and the root first, with the edges
that say whose fields refer to whom.
-/

namespace InstanceForge

/-- A composite type, and the binding name that its memoized values are named after. -/
structure TypeNode where
  bindingName : String
  typeName : String
  deriving DecidableEq

namespace TypeNode

def ofType (typeName : String) : TypeNode :=
  { bindingName := Name.lowerCamel typeName, typeName := typeName }

/-- Nodes stand for the same type if their type names agree. -/
def sameType (a b : TypeNode) : Bool :=
  a.typeName == b.typeName

def toDatum (n : TypeNode) : Datum :=
  .ofEntries [("binding_name", .ofString n.bindingName), ("type_name", .ofString n.typeName)]

end TypeNode

inductive Refusal where
  | notComposite
  | unresolved (referencedBy : Option String)
  | cyclic (members : List String)
  deriving DecidableEq

def Refusal.message : Refusal -> String
  | notComposite => "has no field schema"
  | unresolved (some field) => "is referenced by `" ++ field ++ "` but is not a known type"
  | unresolved none => "is not a known type"
  | cyclic members =>
      "is part of a reference cycle through " ++
        String.intercalate ", " (members.map fun m => "`" ++ m ++ "`")

structure GraphError where
  typeName : String
  reason : Refusal
  deriving DecidableEq

def GraphError.message (e : GraphError) : String :=
  "unsupported type kind: `" ++ e.typeName ++ "` " ++ e.reason.message

/-- Nodes in the order of their discovery, and edges between their positions. -/
structure TypeGraph where
  nodes : List TypeNode
  edges : Cycle.Edges
  deriving DecidableEq

namespace TypeGraph

/-- The graph of given nodes without edges; of nodes for the same type the first is kept. -/
def ofNodes (nodes : List TypeNode) : TypeGraph :=
  { nodes := List.eraseDupsBy TypeNode.sameType nodes, edges := [] }

def root? (g : TypeGraph) : Option TypeNode :=
  g.nodes.head?

def size (g : TypeGraph) : Nat :=
  g.nodes.length

/-- The nodes that the fields of a node refer to, in the order of the fields. -/
def children (g : TypeGraph) (index : Nat) : List TypeNode :=
  g.edges.filterMap fun e => if e.1 = index then g.nodes[e.2]? else none

def toDatum (g : TypeGraph) : Datum :=
  .ofEntries [("nodes", .list (g.nodes.map TypeNode.toDatum))]

/-- Why a name cannot be a root, if it cannot. -/
def rootError? (S : Provider) (root : String) : Option GraphError :=
  if S.isComposite root then none
  else if S.resolves root then some ⟨root, .notComposite⟩
  else some ⟨root, .unresolved none⟩

/-- The graph of the root alone; its fields are not looked at. -/
def single (S : Provider) (root : String) : Except GraphError TypeGraph :=
  match rootError? S root with
  | some e => .error e
  | none => .ok { nodes := [TypeNode.ofType root], edges := [] }

end TypeGraph

end InstanceForge

/-!
# Cycles of references

Nodes are numbered from zero, and edges are pairs of numbers. Of the nodes that reach themselves
the least is taken, and with it all nodes that reach it and are reached from it.
-/

namespace InstanceForge

namespace Cycle

abbrev Edges := List (Nat × Nat)

def targets (edges : Edges) (node : Nat) : List Nat :=
  edges.filterMap fun e => if e.1 = node then some e.2 else none

/-- The ends of edges from some nodes that were not seen before, each once. -/
def fresh (edges : Edges) (seen nodes : List Nat) : List Nat :=
  (edges.filterMap fun e =>
    if nodes.contains e.1 && !seen.contains e.2 then some e.2 else none).eraseDups

/-- What was seen and all that is reached from the nodes that were seen last, in so many steps. -/
def closeWithin (edges : Edges) : Nat -> List Nat -> List Nat -> List Nat
  | 0, seen, _ => seen
  | n + 1, seen, last =>
      match fresh edges seen last with
      | [] => seen
      | node :: more => closeWithin edges n (seen ++ node :: more) (node :: more)

def reached (edges : Edges) (node : Nat) : List Nat :=
  let first := (targets edges node).eraseDups
  closeWithin edges edges.length first first

def isCyclic (edges : Edges) (node : Nat) : Bool :=
  (reached edges node).contains node

/-- The nodes that are on a cycle with a node, in ascending order. -/
def component (count : Nat) (edges : Edges) (node : Nat) : List Nat :=
  let forward := reached edges node
  (List.range count).filter fun other =>
    forward.contains other && (reached edges other).contains node

/-- The cycle of the least node that reaches itself, in ascending order. -/
def find? (count : Nat) (edges : Edges) : Option (List Nat) :=
  match (List.range count).find? (isCyclic edges) with
  | some node => some (component count edges node)
  | none => none

def inRange (count : Nat) (edges : Edges) : Bool :=
  edges.all fun e => e.1 < count && e.2 < count

end Cycle

end InstanceForge

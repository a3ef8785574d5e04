import InstanceForge.Proofs.Graph.Closure
import Mathlib.Data.List.MinMax
import Mathlib.Data.List.Sort

/-!
# Strong components

The cycle that is found is the strong component of the least node on a cycle. So whoever lists the
strong components finds it too: of the components on a cycle it is the one with the least node.
-/

namespace InstanceForge

namespace Cycle

open Relation

variable {count : Nat} {edges others : Edges} {a b : Nat}

def Mutual (edges : Edges) (a b : Nat) : Prop :=
  ReflTransGen (Joins edges) a b ∧ ReflTransGen (Joins edges) b a

theorem mutual_iff_mem_reached :
    Mutual edges a b ↔ a = b ∨ b ∈ reached edges a ∧ a ∈ reached edges b := by
  simp only [Mutual, reflTransGen_iff_eq_or_transGen, mem_reached]
  by_cases h : a = b
  · simp [h]
  · simp [h, Ne.symm h]

instance (edges : Edges) (a b : Nat) : Decidable (Mutual edges a b) :=
  decidable_of_iff _ mutual_iff_mem_reached.symm

/-- A node on a cycle reaches itself, so that those it is mutual with are reached by edges. -/
theorem mutual_iff_of_cyclic (h : TransGen (Joins edges) a a) :
    Mutual edges a b ↔ TransGen (Joins edges) a b ∧ TransGen (Joins edges) b a := by
  constructor
  · intro hmutual
    exact ⟨h.trans_left hmutual.1, h.trans_right hmutual.2⟩
  · intro hboth
    exact ⟨hboth.1.to_reflTransGen, hboth.2.to_reflTransGen⟩

theorem cyclic_of_mutual (hne : a ≠ b) (h : Mutual edges a b) : TransGen (Joins edges) a a := by
  have hforth := (reflTransGen_iff_eq_or_transGen.1 h.1).resolve_left (Ne.symm hne)
  exact hforth.trans_left h.2

theorem lt_of_inRange (hrange : inRange count edges = true) (h : Joins edges a b) :
    a < count ∧ b < count := by
  simpa using List.all_eq_true.1 hrange (a, b) h

theorem lt_of_cyclic (hrange : inRange count edges = true) (h : TransGen (Joins edges) a a) :
    a < count := by
  cases h with
  | single hjoins => exact (lt_of_inRange hrange hjoins).2
  | tail _ hjoins => exact (lt_of_inRange hrange hjoins).2

/-! ## One component -/

theorem pairwise_component (count : Nat) (edges : Edges) (a : Nat) :
    (component count edges a).Pairwise (· < ·) :=
  List.pairwise_lt_range.sublist (component_sublist count edges a)

theorem component_eq_of_mem (h : b ∈ component count edges a) :
    component count edges b = component count edges a := by
  obtain ⟨-, hab, hba⟩ := mem_component.1 h
  unfold component
  refine List.filter_congr fun node _ => ?_
  rw [Bool.eq_iff_iff]
  simp only [Bool.and_eq_true, List.contains_iff_mem, mem_reached]
  constructor
  · intro hnode
    exact ⟨hab.trans hnode.1, hnode.2.trans hba⟩
  · intro hnode
    exact ⟨hba.trans hnode.1, hnode.2.trans hab⟩

theorem headD_mem_component (hlt : a < count) (h : TransGen (Joins edges) a a) :
    (component count edges a).headD 0 ∈ component count edges a := by
  have hmem : a ∈ component count edges a := mem_component.2 ⟨hlt, h, h⟩
  cases hnodes : component count edges a with
  | nil => simp [hnodes] at hmem
  | cons first rest => simp

/-! ## The same edges -/

theorem joins_congr (h : ∀ e, e ∈ others ↔ e ∈ edges) : Joins others = Joins edges := by
  funext a b
  exact propext (h (a, b))

theorem component_congr (h : Joins others = Joins edges) (count a : Nat) :
    component count others a = component count edges a := by
  unfold component
  refine List.filter_congr fun node _ => ?_
  rw [Bool.eq_iff_iff]
  simp only [Bool.and_eq_true, List.contains_iff_mem, mem_reached, h]

theorem find?_congr (h : Joins others = Joins edges) (count : Nat) :
    find? count others = find? count edges := by
  apply Option.ext
  intro members
  rw [find?_eq_some_iff, find?_eq_some_iff]
  have hleast : ∀ a, LeastCyclic count others a ↔ LeastCyclic count edges a := by
    intro a
    constructor
    · intro hleast
      exact ⟨hleast.lt_count, h ▸ hleast.cyclic, h ▸ hleast.least⟩
    · intro hleast
      exact ⟨hleast.lt_count, h ▸ hleast.cyclic, h ▸ hleast.least⟩
  simp only [hleast, component_congr h]

/-! ## All components -/

/-- Whether a component is on a cycle: it has several nodes, or one that is joined with itself. -/
def isLooped (edges : Edges) : List Nat -> Bool
  | [node] => edges.contains (node, node)
  | _ => true

/-- Of some components on cycles the one with the least node, each in ascending order. -/
def leastComponent? (edges : Edges) (components : List (List Nat)) : Option (List Nat) :=
  ((components.filter (isLooped edges)).map fun c => c.mergeSort).argmin fun c => c.headD 0

/-- The strong components of the nodes, each once, in any order and with their nodes in any
order. -/
structure StrongComponents (count : Nat) (edges : Edges) (components : List (List Nat)) :
    Prop where
  ne_nil : ∀ c ∈ components, c ≠ []
  nodup : components.flatten.Nodup
  covers : ∀ a < count, ∃ c ∈ components, a ∈ c
  mem_iff : ∀ c ∈ components, ∀ a ∈ c, a < count ∧ ∀ b < count, b ∈ c ↔ Mutual edges a b

namespace StrongComponents

variable {components : List (List Nat)} {c : List Nat}

theorem lt_count (h : StrongComponents count edges components) (hc : c ∈ components)
    (ha : a ∈ c) : a < count :=
  (h.mem_iff c hc a ha).1

theorem mutual_of_mem (h : StrongComponents count edges components) (hc : c ∈ components)
    (ha : a ∈ c) (hb : b ∈ c) : Mutual edges a b :=
  ((h.mem_iff c hc a ha).2 b (h.lt_count hc hb)).1 hb

/-- The test of a component tells whether its nodes are on a cycle. -/
theorem isLooped_iff (hrange : inRange count edges = true)
    (h : StrongComponents count edges components) (hc : c ∈ components) (ha : a ∈ c) :
    isLooped edges c = true ↔ TransGen (Joins edges) a a := by
  match c with
  | [] => simp at ha
  | [node] =>
      obtain rfl : a = node := by simpa using ha
      rw [isLooped, List.contains_iff_mem]
      constructor
      · intro hjoins
        exact .single hjoins
      · intro hcyclic
        obtain ⟨next, hjoins, hback⟩ := TransGen.head'_iff.1 hcyclic
        -- the next node on the way back is in the component, which has one node only
        have hnext := (lt_of_inRange hrange hjoins).2
        have hmem := ((h.mem_iff _ hc a ha).2 next hnext).2 ⟨.single hjoins, hback⟩
        obtain rfl : next = a := by simpa using hmem
        exact hjoins
  | first :: second :: rest =>
      have hnodup := (List.nodup_flatten.1 h.nodup).1 _ hc
      have hne : first ≠ second := by
        rintro rfl
        simp at hnodup
      simp only [isLooped, true_iff]
      by_cases hfirst : a = first
      · exact cyclic_of_mutual (hfirst ▸ hne) (h.mutual_of_mem hc ha (by simp))
      · exact cyclic_of_mutual hfirst (h.mutual_of_mem hc ha (by simp))

/-- A component on a cycle is, in ascending order, the component of each of its nodes. -/
theorem mergeSort_eq (h : StrongComponents count edges components) (hc : c ∈ components)
    (ha : a ∈ c) (hcyclic : TransGen (Joins edges) a a) :
    c.mergeSort = component count edges a := by
  have hnodup := (List.nodup_flatten.1 h.nodup).1 c hc
  have hcomponent := pairwise_component count edges a
  have hsorted : c.mergeSort.Pairwise (· ≤ ·) := by simpa using c.pairwise_mergeSort' (· ≤ ·)
  refine List.Perm.eq_of_pairwise (fun _ _ _ _ => Nat.le_antisymm) hsorted ?_ ?_
  · exact hcomponent.imp Nat.le_of_lt
  · refine (List.mergeSort_perm c _).trans ?_
    rw [List.perm_ext_iff_of_nodup hnodup (hcomponent.imp Nat.ne_of_lt)]
    intro node
    rw [mem_component, ← mutual_iff_of_cyclic hcyclic]
    constructor
    · intro hnode
      exact ⟨h.lt_count hc hnode, h.mutual_of_mem hc ha hnode⟩
    · intro hnode
      exact ((h.mem_iff c hc a ha).2 node hnode.1).2 hnode.2

/-- The components that are left are those of the nodes on cycles. -/
theorem mem_looped_iff (hrange : inRange count edges = true)
    (h : StrongComponents count edges components) {members : List Nat} :
    members ∈ (components.filter (isLooped edges)).map (fun c => c.mergeSort) ↔
      ∃ a, TransGen (Joins edges) a a ∧ members = component count edges a := by
  simp only [List.mem_map, List.mem_filter]
  constructor
  · rintro ⟨c, ⟨hc, hlooped⟩, rfl⟩
    obtain ⟨a, rest, hcons⟩ := List.exists_cons_of_ne_nil (h.ne_nil c hc)
    have ha : a ∈ c := by simp [hcons]
    have hcyclic := (h.isLooped_iff hrange hc ha).1 hlooped
    exact ⟨a, hcyclic, h.mergeSort_eq hc ha hcyclic⟩
  · rintro ⟨a, hcyclic, rfl⟩
    obtain ⟨c, hc, ha⟩ := h.covers a (lt_of_cyclic hrange hcyclic)
    exact ⟨c, ⟨hc, (h.isLooped_iff hrange hc ha).2 hcyclic⟩, h.mergeSort_eq hc ha hcyclic⟩

/-- Picking from the strong components finds the same cycle. -/
theorem leastComponent?_eq (hrange : inRange count edges = true)
    (h : StrongComponents count edges components) :
    leastComponent? edges components = find? count edges := by
  cases hfind : find? count edges with
  | none =>
      rw [leastComponent?, List.argmin_eq_none, List.eq_nil_iff_forall_not_mem]
      intro members hmembers
      obtain ⟨a, hcyclic, -⟩ := (h.mem_looped_iff hrange).1 hmembers
      exact find?_eq_none_iff.1 hfind a (lt_of_cyclic hrange hcyclic) hcyclic
  | some found =>
      obtain ⟨a, hleast, rfl⟩ := find?_eq_some_iff.1 hfind
      have hmem := (h.mem_looped_iff hrange).2 ⟨a, hleast.cyclic, rfl⟩
      cases hpick : leastComponent? edges components with
      | none =>
          rw [leastComponent?, List.argmin_eq_none] at hpick
          rw [hpick] at hmem
          simp at hmem
      | some picked =>
          obtain ⟨hpicked, hle, -⟩ := List.argmin_eq_some_iff.1 hpick
          obtain ⟨b, hcyclic, rfl⟩ := (h.mem_looped_iff hrange).1 hpicked
          have hfirst := headD_mem_component (lt_of_cyclic hrange hcyclic) hcyclic
          have hcomponent := component_eq_of_mem hfirst
          obtain ⟨-, hbfirst, hfirstb⟩ := mem_component.1 hfirst
          -- the first node picked is on a cycle and no greater than the least such node
          have hahead : (component count edges a).headD 0 = a := by
            simp [List.headD_eq_head?_getD, hleast.head?_component]
          have hfirstle := hle _ hmem
          rw [hahead] at hfirstle
          have hnotlt : ¬ (component count edges b).headD 0 < a :=
            fun hlt => hleast.least _ hlt (hfirstb.trans hbfirst)
          have hsame : (component count edges b).headD 0 = a := by omega
          rw [← hcomponent, hsame]

end StrongComponents

/--
A cycle is found exactly if there is one: of the least node on a cycle, all nodes that are mutual
with it, in ascending order. Only the set of edges matters, and picking from the strong components
finds the same, whatever lists them.
-/
theorem find?_strong (count : Nat) (edges : Edges) (hrange : inRange count edges = true) :
    (find? count edges = none ↔ ∀ node, ¬ TransGen (Joins edges) node node) ∧
    (∀ members, find? count edges = some members ->
      members.Pairwise (· < ·) ∧
      ∃ least, TransGen (Joins edges) least least ∧
        (∀ smaller < least, ¬ TransGen (Joins edges) smaller smaller) ∧
        ∀ node, node ∈ members ↔ Mutual edges least node) ∧
    (∀ others, (∀ e, e ∈ others ↔ e ∈ edges) -> find? count others = find? count edges) ∧
    ∀ components, StrongComponents count edges components ->
      leastComponent? edges components = find? count edges := by
  refine ⟨?_, ?_, fun others h => find?_congr (joins_congr h) count,
    fun components h => h.leastComponent?_eq hrange⟩
  · rw [find?_eq_none_iff]
    constructor
    · intro h node hcyclic
      exact h node (lt_of_cyclic hrange hcyclic) hcyclic
    · intro h node _
      exact h node
  · intro members hfind
    obtain ⟨least, hleast, rfl⟩ := find?_eq_some_iff.1 hfind
    refine ⟨pairwise_component count edges least, least, hleast.cyclic, hleast.least, ?_⟩
    intro node
    rw [mem_component, mutual_iff_of_cyclic hleast.cyclic]
    constructor
    · exact And.right
    · intro hboth
      exact ⟨lt_of_cyclic hrange (hboth.2.trans hboth.1), hboth⟩

def tangledEdges : Edges :=
  [(0, 1), (1, 3), (3, 1), (1, 2), (2, 1), (4, 4), (1, 3), (3, 4)]

theorem find?_tangledEdges :
    inRange 5 tangledEdges = true ∧ find? 5 tangledEdges = some [1, 2, 3] ∧
      StrongComponents 5 tangledEdges [[4], [2, 3, 1], [0]] ∧
      leastComponent? tangledEdges [[4], [2, 3, 1], [0]] = some [1, 2, 3] ∧
      find? 5 ((3, 1) :: tangledEdges.reverse) = some [1, 2, 3] := by
  have hrange : inRange 5 tangledEdges = true := by decide
  have hfind : find? 5 tangledEdges = some [1, 2, 3] := by decide
  have hstrong : StrongComponents 5 tangledEdges [[4], [2, 3, 1], [0]] :=
    ⟨by decide, by decide, by decide, by decide⟩
  obtain ⟨-, -, hedges, hpick⟩ := find?_strong 5 tangledEdges hrange
  refine ⟨hrange, hfind, hstrong, (hpick _ hstrong).trans hfind, (hedges _ ?_).trans hfind⟩
  intro e
  have hknown : (3, 1) ∈ tangledEdges := by decide
  rw [List.mem_cons, List.mem_reverse]
  constructor
  · rintro (rfl | he)
    · exact hknown
    · exact he
  · exact .inr

end Cycle

end InstanceForge

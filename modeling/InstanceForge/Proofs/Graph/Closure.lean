import InstanceForge.Graph.Cycle
import InstanceForge.Proofs.Graph.FirstOccurrence
import Mathlib.Data.List.Perm.Subperm
import Mathlib.Logic.Relation

/-!
# Closure of edges

The rounds of `Cycle.reached` give exactly the nodes at the end of one or more edges, so a node is
cyclic if it reaches itself, and the cycle that is found is the strong component of the least
cyclic node.
-/

namespace InstanceForge

namespace Cycle

open Relation FirstOccurrence

def Joins (edges : Edges) (a b : Nat) : Prop :=
  (a, b) ∈ edges

theorem mem_targets {edges : Edges} {a b : Nat} : b ∈ targets edges a ↔ Joins edges a b := by
  unfold targets Joins
  constructor
  · intro h
    obtain ⟨⟨x, y⟩, hmem, heq⟩ := List.mem_filterMap.1 h
    split at heq
    · next hx =>
        simp only [Option.some.injEq] at heq
        subst hx
        subst heq
        exact hmem
    · simp at heq
  · intro h
    exact List.mem_filterMap.2 ⟨(a, b), h, by simp⟩

theorem mem_fresh {edges : Edges} {seen nodes : List Nat} {b : Nat} :
    b ∈ fresh edges seen nodes ↔ b ∉ seen ∧ ∃ a ∈ nodes, Joins edges a b := by
  unfold fresh Joins
  rw [List.mem_eraseDups, List.mem_filterMap]
  constructor
  · rintro ⟨⟨x, y⟩, hmem, heq⟩
    split at heq
    · next hcond =>
        simp only [Option.some.injEq] at heq
        subst heq
        simp only [Bool.and_eq_true, Bool.not_eq_true', List.contains_eq_mem,
          decide_eq_false_iff_not, decide_eq_true_eq] at hcond
        exact ⟨hcond.2, x, hcond.1, hmem⟩
    · simp at heq
  · rintro ⟨hnew, a, ha, hmem⟩
    exact ⟨(a, b), hmem, by simp [ha, hnew]⟩

/-! ## Rounds -/

/-- What holds between the rounds: only the nodes that were seen last may lead to unseen ones. -/
structure Closing (edges : Edges) (start : Nat) (seen last : List Nat) : Prop where
  nodup : seen.Nodup
  reached : ∀ b ∈ seen, TransGen (Joins edges) start b
  first : ∀ b, Joins edges start b -> b ∈ seen
  last_subset : ∀ a ∈ last, a ∈ seen
  closed : ∀ a ∈ seen, a ∉ last -> ∀ b, Joins edges a b -> b ∈ seen

namespace Closing

variable {edges : Edges} {start : Nat} {seen last : List Nat}

theorem ofTargets (edges : Edges) (start : Nat) :
    Closing edges start (targets edges start).eraseDups (targets edges start).eraseDups where
  nodup := nodup_eraseDups _
  reached _ hb := .single (mem_targets.1 (List.mem_eraseDups.1 hb))
  first _ hb := List.mem_eraseDups.2 (mem_targets.2 hb)
  last_subset _ ha := ha
  closed _ ha hlast := absurd ha hlast

/-- One round keeps the invariant. -/
theorem next (h : Closing edges start seen last) :
    Closing edges start (seen ++ fresh edges seen last) (fresh edges seen last) where
  nodup := by
    rw [List.nodup_append]
    refine ⟨h.nodup, nodup_eraseDups _, ?_⟩
    intro a ha b hb hab
    exact (mem_fresh.1 hb).1 (hab ▸ ha)
  reached b hb := by
    rcases List.mem_append.1 hb with hb | hb
    · exact h.reached b hb
    · obtain ⟨_, a, ha, hab⟩ := mem_fresh.1 hb
      exact (h.reached a (h.last_subset a ha)).tail hab
  first b hb := List.mem_append_left _ (h.first b hb)
  last_subset _ ha := List.mem_append_right _ ha
  closed a ha hnew b hab := by
    have haseen : a ∈ seen := (List.mem_append.1 ha).resolve_right hnew
    by_cases hb : b ∈ seen
    · exact List.mem_append_left _ hb
    · by_cases halast : a ∈ last
      · exact List.mem_append_right _ (mem_fresh.2 ⟨hb, a, halast, hab⟩)
      · exact absurd (h.closed a haseen halast b hab) hb

/-- Every seen node ends an edge of its own, so there are no more of them than edges. -/
theorem length_le (h : Closing edges start seen last) : seen.length <= edges.length := by
  have hsub : seen ⊆ edges.map Prod.snd := by
    intro b hb
    obtain ⟨a, _, hab⟩ := TransGen.tail'_iff.1 (h.reached b hb)
    exact List.mem_map.2 ⟨(a, b), hab, rfl⟩
  have hle := (h.nodup.subperm hsub).length_le
  simpa using hle

theorem mem_iff_of_fresh_nil (h : Closing edges start seen last)
    (hnil : fresh edges seen last = []) {b : Nat} :
    b ∈ seen ↔ TransGen (Joins edges) start b := by
  have hclosed : ∀ a ∈ seen, ∀ c, Joins edges a c -> c ∈ seen := by
    intro a ha c hac
    have hnext := h.next.closed a (List.mem_append_left _ ha) (by simp [hnil]) c hac
    simpa [hnil] using hnext
  constructor
  · exact h.reached b
  · intro hreach
    induction hreach with
    | single hab => exact h.first _ hab
    | tail _ hbc ih => exact hclosed _ ih _ hbc

end Closing

/-- Enough rounds see everything: each but the last sees a new node, and there are no more nodes
to see than edges. -/
theorem mem_closeWithin {edges : Edges} {start : Nat} {rounds : Nat} {seen last : List Nat}
    (h : Closing edges start seen last) (henough : edges.length <= rounds + seen.length) {b : Nat} :
    b ∈ closeWithin edges rounds seen last ↔ TransGen (Joins edges) start b := by
  induction rounds generalizing seen last with
  | zero =>
      have hnil : fresh edges seen last = [] := by
        have hle := h.next.length_le
        rw [List.length_append] at hle
        exact List.length_eq_zero_iff.1 (by omega)
      exact h.mem_iff_of_fresh_nil hnil
  | succ rounds ih =>
      unfold closeWithin
      split
      · next hnil => exact h.mem_iff_of_fresh_nil hnil
      · next node more hfresh =>
          have hnext := h.next
          rw [hfresh] at hnext
          apply ih hnext
          rw [List.length_append, List.length_cons]
          omega

theorem mem_reached {edges : Edges} {a b : Nat} :
    b ∈ reached edges a ↔ TransGen (Joins edges) a b :=
  mem_closeWithin (Closing.ofTargets edges a) (Nat.le_add_right _ _)

/-! ## Cycles -/

theorem isCyclic_iff {edges : Edges} {a : Nat} :
    isCyclic edges a = true ↔ TransGen (Joins edges) a a := by
  unfold isCyclic
  rw [List.contains_iff_mem, mem_reached]

theorem mem_component {count : Nat} {edges : Edges} {a b : Nat} :
    b ∈ component count edges a ↔
      b < count ∧ TransGen (Joins edges) a b ∧ TransGen (Joins edges) b a := by
  unfold component
  simp only [List.mem_filter, List.mem_range, Bool.and_eq_true, List.contains_iff_mem,
    mem_reached]

theorem component_sublist (count : Nat) (edges : Edges) (a : Nat) :
    (component count edges a).Sublist (List.range count) :=
  List.filter_sublist

/-- A node below the count that reaches itself, while no smaller one does. -/
structure LeastCyclic (count : Nat) (edges : Edges) (a : Nat) : Prop where
  lt_count : a < count
  cyclic : TransGen (Joins edges) a a
  least : ∀ b < a, ¬ TransGen (Joins edges) b b

/-- The component of the least cyclic node begins with it. -/
theorem LeastCyclic.head?_component {count : Nat} {edges : Edges} {a : Nat}
    (h : LeastCyclic count edges a) : (component count edges a).head? = some a := by
  unfold component
  rw [List.head?_filter, List.find?_range_eq_some]
  refine ⟨?_, List.mem_range.2 h.lt_count, ?_⟩
  · simp only [Bool.and_eq_true, List.contains_iff_mem, mem_reached]
    exact ⟨h.cyclic, h.cyclic⟩
  · intro b hb
    rw [Bool.not_eq_true', Bool.eq_false_iff]
    simp only [ne_eq, Bool.and_eq_true, List.contains_iff_mem, mem_reached]
    intro hboth
    exact h.least b hb (hboth.2.trans hboth.1)

theorem find?_eq_some_iff {count : Nat} {edges : Edges} {members : List Nat} :
    find? count edges = some members ↔
      ∃ a, LeastCyclic count edges a ∧ members = component count edges a := by
  unfold find?
  constructor
  · intro h
    split at h
    · next a ha =>
        obtain ⟨hcyclic, hrange, hleast⟩ := List.find?_range_eq_some.1 ha
        refine ⟨a, ⟨List.mem_range.1 hrange, isCyclic_iff.1 hcyclic, ?_⟩, by simpa using h.symm⟩
        intro b hb hbb
        have hnot := hleast b hb
        rw [isCyclic_iff.2 hbb] at hnot
        simp at hnot
    · simp at h
  · rintro ⟨a, h, rfl⟩
    have hfind : (List.range count).find? (isCyclic edges) = some a := by
      rw [List.find?_range_eq_some]
      refine ⟨isCyclic_iff.2 h.cyclic, List.mem_range.2 h.lt_count, ?_⟩
      intro b hb
      rw [Bool.not_eq_true', Bool.eq_false_iff]
      exact fun hbb => h.least b hb (isCyclic_iff.1 hbb)
    rw [hfind]

theorem find?_eq_none_iff {count : Nat} {edges : Edges} :
    find? count edges = none ↔ ∀ a < count, ¬ TransGen (Joins edges) a a := by
  have hsearch : find? count edges = none ↔
      (List.range count).find? (isCyclic edges) = none := by
    unfold find?
    cases (List.range count).find? (isCyclic edges) <;> simp
  rw [hsearch, List.find?_eq_none]
  simp only [List.mem_range, isCyclic_iff]

end Cycle

end InstanceForge

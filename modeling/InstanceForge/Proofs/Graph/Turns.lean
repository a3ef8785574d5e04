import InstanceForge.Proofs.Graph.Fault
import Mathlib.Data.List.Flatten
import Mathlib.Data.List.Perm.Basic

/-!
# Turns of the search

The search takes one name after the other from the front of those to visit. A name may stand there
several times, but it is visited on the first turn that takes it and passed over on the others. So
each name to visit, the root apart, was put there for a reference of its own of a type that was
visited, and there are no more turns than the root and these references. All that this needs is that
the root reaches finitely many types: cycles do not keep the search going.
-/

namespace InstanceForge

namespace Provider

def referenceCount (S : Provider) (names : List String) : Nat :=
  (names.flatMap S.references).length

theorem referenceCount_concat (S : Provider) (names : List String) (name : String) :
    S.referenceCount (names ++ [name]) =
      S.referenceCount names + (S.references name).length := by
  simp [referenceCount]

/-- Distinct names make no more references than any names that they are among. -/
theorem referenceCount_le_of_subset (S : Provider) {names others : List String}
    (hnodup : names.Nodup) (hsub : names ⊆ others) :
    S.referenceCount names <= S.referenceCount others := by
  obtain ⟨kept, hperm, hkept⟩ := hnodup.subperm hsub
  calc S.referenceCount names
      = S.referenceCount kept := (hperm.flatMap_right S.references).length_eq.symm
    _ <= S.referenceCount others := (hkept.flatMap S.references).length_le

end Provider

namespace Search

open FirstOccurrence

/-- What becomes of the name at the front: it was visited before and is passed over, or it is
visited and its references are put behind the others, or it is visited and refused because it
mentions a name without a type. -/
inductive Turn where
  | passed (name : String)
  | expanded (name : String)
  | refused (name : String)
  deriving DecidableEq

def Turn.name : Turn -> String
  | passed name => name
  | expanded name => name
  | refused name => name

def Turn.visited? : Turn -> Option String
  | passed _ => none
  | expanded name => some name
  | refused name => some name

def Turn.expanded? : Turn -> Option String
  | passed _ => none
  | expanded name => some name
  | refused _ => none

inductive Turns (S : Provider) (first : Search) : List Turn -> Search -> Prop where
  | refl : Turns S first [] first
  | passed {turns : List Turn} {s : Search} {name : String} {rest : List String} :
      Turns S first turns s -> s.pending = name :: rest -> name ∈ s.visited ->
      Turns S first (turns ++ [.passed name]) { s with pending := rest }
  | expanded {turns : List Turn} {s : Search} {name : String} {rest : List String} :
      Turns S first turns s -> s.pending = name :: rest -> name ∉ s.visited ->
      S.firstUnresolved? name = none ->
      Turns S first (turns ++ [.expanded name]) (s.visit S name rest)

/-- The search ends after turns: nothing is left to visit, or a name is refused. -/
inductive Ends (S : Provider) (first : Search) : List Turn -> Except GraphError Search -> Prop where
  | finished {turns : List Turn} {s : Search} :
      Turns S first turns s -> s.pending = [] -> Ends S first turns (.ok s)
  | refused {turns : List Turn} {s : Search} {name field mention : String} {rest : List String} :
      Turns S first turns s -> s.pending = name :: rest -> name ∉ s.visited ->
      S.firstUnresolved? name = some (field, mention) ->
      Ends S first (turns ++ [.refused name])
        (.error ⟨mention, .unresolved (some (name ++ "." ++ field))⟩)

variable {S : Provider} {root name : String} {first s : Search} {turns : List Turn}
  {rest : List String} {out : Except GraphError Search}

/-! ## The account of the turns -/

/-- What holds after turns from the start. -/
structure Accounted (S : Provider) (root : String) (turns : List Turn) (s : Search) : Prop where
  consistent : Consistent S root s
  reached : ∀ name ∈ s.pending, S.Reaches root name
  visited_eq : turns.filterMap Turn.visited? = s.visited
  expanded_eq : turns.filterMap Turn.expanded? = s.visited
  first_taken : (turns.map Turn.name).eraseDups = s.visited
  length_le : turns.length + s.pending.length <= 1 + S.referenceCount s.visited

theorem reaches_of_mem_start (S : Provider) (root : String) :
    ∀ name ∈ (start root).pending, S.Reaches root name := by
  intro name hname
  rw [List.mem_singleton.1 hname]
  exact .root

theorem accounted_start (S : Provider) (root : String) : Accounted S root [] (start root) where
  consistent := .start S root
  reached := reaches_of_mem_start S root
  visited_eq := rfl
  expanded_eq := rfl
  first_taken := rfl
  length_le := Nat.le_refl 1

/-- To pass a name over takes one away from those to visit. -/
theorem Accounted.passed (h : Accounted S root turns s) (hp : s.pending = name :: rest)
    (hv : name ∈ s.visited) :
    Accounted S root (turns ++ [.passed name]) { s with pending := rest } where
  consistent := h.consistent.skip hp hv
  reached next hnext := h.reached next (hp ▸ List.mem_cons_of_mem _ hnext)
  visited_eq := by simp [Turn.visited?, h.visited_eq]
  expanded_eq := by simp [Turn.expanded?, h.expanded_eq]
  first_taken := by
    have hmem : name ∈ turns.map Turn.name := by
      rw [← List.mem_eraseDups, h.first_taken]
      exact hv
    rw [List.map_append, List.map_singleton, Turn.name, eraseDups_concat_of_mem hmem]
    exact h.first_taken
  length_le := by
    have hle := h.length_le
    rw [hp, List.length_cons] at hle
    rw [List.length_append, List.length_singleton]
    dsimp only
    omega

/-- A name that was not visited is taken for the first time. -/
theorem Accounted.eraseDups_taken (h : Accounted S root turns s) (hv : name ∉ s.visited) :
    (turns.map Turn.name ++ [name]).eraseDups = s.visited ++ [name] := by
  have hnew : name ∉ turns.map Turn.name := by
    rw [← List.mem_eraseDups, h.first_taken]
    exact hv
  rw [eraseDups_concat_of_notMem hnew, h.first_taken]

/-- To visit a name puts no more than its references behind the others. -/
theorem Accounted.expanded (h : Accounted S root turns s) (hp : s.pending = name :: rest)
    (hv : name ∉ s.visited) :
    Accounted S root (turns ++ [.expanded name]) (s.visit S name rest) where
  consistent := h.consistent.visit hp (h.reached name (hp ▸ List.mem_cons_self)) hv
  reached := reaches_of_mem_pending_visit (h.reached name (hp ▸ List.mem_cons_self))
    fun next hnext => h.reached next (hp ▸ List.mem_cons_of_mem _ hnext)
  visited_eq := by simp [Turn.visited?, h.visited_eq, visit]
  expanded_eq := by simp [Turn.expanded?, h.expanded_eq, visit]
  first_taken := by
    rw [List.map_append, List.map_singleton, Turn.name]
    exact h.eraseDups_taken hv
  length_le := by
    have hle := h.length_le
    have hfound := List.length_filter_le
      (fun next => !(s.visited ++ [name]).contains next) (S.references name)
    rw [hp, List.length_cons] at hle
    simp only [visit, S.referenceCount_concat, List.length_append, List.length_singleton]
    omega

theorem Turns.accounted (h : Turns S (start root) turns s) : Accounted S root turns s := by
  induction h with
  | refl => exact accounted_start S root
  | passed _ hp hv ih => exact ih.passed hp hv
  | expanded _ hp hv _ ih => exact ih.expanded hp hv

/-- However many types are reached, all turns are paid for by references among them. -/
theorem Accounted.length_le_of_reaches (h : Accounted S root turns s) {names : List String}
    (hnames : ∀ name, S.Reaches root name -> name ∈ names) :
    turns.length <= 1 + S.referenceCount names := by
  have hle := h.length_le
  have hsub : s.visited ⊆ names := fun name hname => hnames name (h.consistent.reached name hname)
  have hcount := S.referenceCount_le_of_subset h.consistent.nodup hsub
  omega

/-! ## The account of a search that ended -/

/-- Each type is visited at most once, on the first turn that takes its name, and expanded only if
it is visited; no more names are taken than the root and the references that were followed. -/
structure Settled (S : Provider) (turns : List Turn) : Prop where
  nodup : (turns.filterMap Turn.visited?).Nodup
  first_taken : turns.filterMap Turn.visited? = (turns.map Turn.name).eraseDups
  expanded_prefix : turns.filterMap Turn.expanded? <+: turns.filterMap Turn.visited?
  length_le : turns.length <= 1 + S.referenceCount (turns.filterMap Turn.expanded?)

theorem Accounted.settled (h : Accounted S root turns s) : Settled S turns where
  nodup := h.visited_eq ▸ h.consistent.nodup
  first_taken := h.visited_eq.trans h.first_taken.symm
  expanded_prefix := by simp only [h.expanded_eq, h.visited_eq, List.prefix_refl]
  length_le := by
    have hle := h.length_le
    rw [h.expanded_eq]
    omega

/-- A name that is refused is visited, but its references are not followed. -/
theorem Accounted.settled_refused (h : Accounted S root turns s) (hp : s.pending = name :: rest)
    (hv : name ∉ s.visited) : Settled S (turns ++ [.refused name]) := by
  have hvisited : (turns ++ [Turn.refused name]).filterMap Turn.visited? = s.visited ++ [name] := by
    rw [List.filterMap_append, h.visited_eq]
    rfl
  have hexpanded : (turns ++ [Turn.refused name]).filterMap Turn.expanded? = s.visited := by
    rw [List.filterMap_append, h.expanded_eq]
    exact List.append_nil _
  constructor
  · rw [hvisited, ← List.concat_eq_append]
    exact h.consistent.nodup.concat hv
  · rw [hvisited, List.map_append, List.map_singleton, Turn.name, h.eraseDups_taken hv]
  · rw [hvisited, hexpanded]
    exact List.prefix_append _ _
  · have hle := h.length_le
    rw [hp, List.length_cons] at hle
    rw [hexpanded, List.length_append, List.length_singleton]
    omega

theorem Ends.settled (h : Ends S (start root) turns out) : Settled S turns := by
  cases h with
  | finished hturns _ => exact hturns.accounted.settled
  | refused hturns hp hv _ => exact hturns.accounted.settled_refused hp hv

/-! ## The search by turns -/

section Steps

variable {finite : S.FinitelyReaches root} {reached : ∀ name ∈ s.pending, S.Reaches root name}

theorem run_of_mem (hp : s.pending = name :: rest) (hv : name ∈ s.visited)
    (hrest : ∀ next ∈ rest, S.Reaches root next) :
    run S root finite s reached = run S root finite { s with pending := rest } hrest := by
  obtain ⟨pending, visited, references⟩ := s
  subst hp
  rw [run]
  exact dif_pos hv

theorem run_of_notMem (hp : s.pending = name :: rest) (hv : name ∉ s.visited)
    (hnone : S.firstUnresolved? name = none)
    (hvisit : ∀ next ∈ (s.visit S name rest).pending, S.Reaches root next) :
    run S root finite s reached = run S root finite (s.visit S name rest) hvisit := by
  obtain ⟨pending, visited, references⟩ := s
  subst hp
  rw [run]
  refine (dif_neg hv).trans ?_
  rw [hnone]

theorem run_of_refused {field mention : String} (hp : s.pending = name :: rest)
    (hv : name ∉ s.visited) (hfault : S.firstUnresolved? name = some (field, mention)) :
    run S root finite s reached =
      .error ⟨mention, .unresolved (some (name ++ "." ++ field))⟩ := by
  obtain ⟨pending, visited, references⟩ := s
  subst hp
  rw [run]
  refine (dif_neg hv).trans ?_
  rw [hfault]

theorem run_of_pending_nil (hp : s.pending = []) : run S root finite s reached = .ok s := by
  obtain ⟨pending, visited, references⟩ := s
  subst hp
  rw [run]

end Steps

/-- Turns do not change how the search ends. -/
theorem Turns.run_eq (h : Turns S (start root) turns s) (finite : S.FinitelyReaches root) :
    run S root finite (start root) (reaches_of_mem_start S root) =
      run S root finite s h.accounted.reached := by
  induction h with
  | refl => rfl
  | passed hturns hp hv ih => exact ih.trans (run_of_mem hp hv _)
  | expanded hturns hp hv hnone ih => exact ih.trans (run_of_notMem hp hv hnone _)

theorem Ends.eq_run (h : Ends S (start root) turns out) (finite : S.FinitelyReaches root) :
    out = run S root finite (start root) (reaches_of_mem_start S root) := by
  cases h with
  | finished hturns hp => rw [hturns.run_eq finite, run_of_pending_nil hp]
  | refused hturns hp hv hfault => rw [hturns.run_eq finite, run_of_refused hp hv hfault]

/-- After any turns more of them lead to the end. -/
theorem Turns.exists_ends (h : Turns S first turns s) (finite : S.FinitelyReaches root)
    (reached : ∀ name ∈ s.pending, S.Reaches root name) :
    ∃ more, Ends S first (turns ++ more) (run S root finite s reached) := by
  induction s, reached using Search.run.induct_unfolding S root finite generalizing turns with
  | case1 s _ hp =>
      refine ⟨[], ?_⟩
      rw [List.append_nil]
      exact .finished h hp
  | case2 s _ name rest hp _ _ hv ih =>
      obtain ⟨more, hmore⟩ := ih (h.passed hp hv)
      exact ⟨.passed name :: more, by simpa using hmore⟩
  | case3 s _ name rest hp _ _ hv field mention hfault =>
      exact ⟨[.refused name], .refused h hp hv hfault⟩
  | case4 s _ name rest hp _ _ hv hnone ih =>
      obtain ⟨more, hmore⟩ := ih (h.expanded hp hv hnone)
      exact ⟨.expanded name :: more, by simpa using hmore⟩

/--
From a root that reaches finitely many types, by cycles or not, the turns come to an end: their
number is bounded, and whatever turns were taken, some more lead to the outcome that the search is
defined to have. No other outcome is reached, the types in it are those that were visited and
expanded, each of them once, and no more names were taken than one and the references in the types
that were expanded.
-/
theorem ends_of_finitelyReaches (S : Provider) (root : String) (finite : S.FinitelyReaches root) :
    (∃ bound, ∀ turns s, Turns S (start root) turns s -> turns.length <= bound) ∧
    (∀ turns s, Turns S (start root) turns s -> ∃ more, Ends S (start root) (turns ++ more)
      (run S root finite (start root) (reaches_of_mem_start S root))) ∧
    ∀ turns out, Ends S (start root) turns out ->
      out = run S root finite (start root) (reaches_of_mem_start S root) ∧ Settled S turns ∧
      ∀ s, out = .ok s -> turns.filterMap Turn.visited? = s.visited ∧
        turns.filterMap Turn.expanded? = s.visited := by
  refine ⟨?_, fun turns s hturns => ?_, fun turns out hends => ?_⟩
  · obtain ⟨names, hnames⟩ := finite
    exact ⟨1 + S.referenceCount names, fun turns s hturns =>
      hturns.accounted.length_le_of_reaches hnames⟩
  · rw [hturns.run_eq finite]
    exact hturns.exists_ends finite hturns.accounted.reached
  · refine ⟨hends.eq_run finite, hends.settled, fun s hout => ?_⟩
    cases hends with
    | finished hturns _ =>
        cases hout
        exact ⟨hturns.accounted.visited_eq, hturns.accounted.expanded_eq⟩
    | refused => cases hout

def mutualPair : Registry :=
  ⟨[⟨"Order", .record, [⟨"first", .named "Item"⟩, ⟨"others", .sequence (.named "Item")⟩]⟩,
    ⟨"Item", .record, [⟨"order", .optional (.named "Order")⟩]⟩]⟩

/-- The record that is referred to twice is taken twice and visited once, and the one that was
visited before is not put among those to visit again. -/
theorem ends_mutualPair :
    mutualPair.provider.FinitelyReaches "Order" ∧ mutualPair.provider.OnCycle "Order" ∧
      ∃ s, run mutualPair.provider "Order" (mutualPair.finitelyReaches "Order") (start "Order")
          (reaches_of_mem_start _ _) = .ok s ∧ s.visited = ["Order", "Item"] ∧
        Ends mutualPair.provider (start "Order")
          [.expanded "Order", .expanded "Item", .passed "Item"] (.ok s) ∧
        Settled mutualPair.provider [.expanded "Order", .expanded "Item", .passed "Item"] := by
  have hturns : Turns mutualPair.provider (start "Order")
      [.expanded "Order", .expanded "Item", .passed "Item"]
      ⟨[], ["Order", "Item"], [(0, "Item"), (0, "Item"), (1, "Order")]⟩ :=
    .passed (.expanded (.expanded .refl rfl (by decide) (by decide)) rfl (by decide) (by decide))
      rfl (by decide)
  have hends := Ends.finished hturns rfl
  obtain ⟨hrun, hsettled, hnames⟩ := (ends_of_finitelyReaches mutualPair.provider "Order"
    (mutualPair.finitelyReaches "Order")).2.2 _ _ hends
  have hforth : "Item" ∈ mutualPair.provider.references "Order" := by decide
  have hback : "Order" ∈ mutualPair.provider.references "Item" := by decide
  exact ⟨mutualPair.finitelyReaches "Order", .tail (.single hforth) hback, _, hrun.symm, rfl,
    hends, hsettled⟩

end Search

end InstanceForge

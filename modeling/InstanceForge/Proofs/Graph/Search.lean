import InstanceForge.Proofs.Graph.Closure
import InstanceForge.Proofs.Graph.Order

/-!
# Runs of the search

Each step of the search keeps the visited and the pending names, taken together, in the order of
discovery. So a search visits the types in that order up to the first that mentions a name
without a type, and the edges of a finished search are the references between its names.
-/

namespace InstanceForge

open Relation FirstOccurrence

namespace Provider

variable {S : Provider} {root : String}

def referenceLog (S : Provider) (names : List String) : List (Nat × String) :=
  names.zipIdx.flatMap fun p => (S.references p.1).map fun next => (p.2, next)

theorem referenceLog_concat (S : Provider) (names : List String) (name : String) :
    S.referenceLog (names ++ [name]) =
      S.referenceLog names ++ (S.references name).map fun next => (names.length, next) := by
  unfold referenceLog
  rw [List.zipIdx_append, List.flatMap_append]
  simp

theorem mem_referenceLog {names : List String} {i : Nat} {next : String} :
    (i, next) ∈ S.referenceLog names ↔ ∃ name, names[i]? = some name ∧ S.Refers name next := by
  unfold referenceLog Refers
  rw [List.mem_flatMap]
  constructor
  · rintro ⟨⟨name, k⟩, hmem, hnext⟩
    obtain ⟨found, hfound, heq⟩ := List.mem_map.1 hnext
    obtain ⟨rfl, rfl⟩ := Prod.mk.inj heq
    exact ⟨name, List.mem_zipIdx_iff_getElem?.1 hmem, hfound⟩
  · rintro ⟨name, hname, hnext⟩
    exact ⟨(name, i), List.mem_zipIdx_iff_getElem?.2 hname, List.mem_map.2 ⟨next, hnext, rfl⟩⟩

/-- The error for the first of some types that mentions a name without a type. -/
def faultAmong? (S : Provider) (names : List String) : Option GraphError :=
  names.findSome? fun owner =>
    (S.firstUnresolved? owner).map fun m => ⟨m.2, .unresolved (some (owner ++ "." ++ m.1))⟩

/-- The provider that takes every name for a type. -/
def trusting (S : Provider) : Provider :=
  { S with resolves := fun _ => true }

theorem firstUnresolved?_trusting (S : Provider) (name : String) :
    S.trusting.firstUnresolved? name = none := by
  simp [firstUnresolved?, trusting]

theorem reaches_trusting {a b : String} : S.trusting.Reaches a b ↔ S.Reaches a b := by
  rw [reaches_iff, reaches_iff]
  exact Iff.rfl

theorem discoveryOrder_trusting {names : List String} :
    S.trusting.DiscoveryOrder root names ↔ S.DiscoveryOrder root names := by
  constructor
  · intro h
    exact ⟨fun name => (h.mem_iff name).trans reaches_trusting, h.eq_eraseDups⟩
  · intro h
    exact ⟨fun name => (h.mem_iff name).trans reaches_trusting.symm, h.eq_eraseDups⟩

end Provider

namespace Search

variable {S : Provider} {root : String} {s : Search}

def complete (S : Provider) (names : List String) : Search :=
  { pending := [], visited := names, references := S.referenceLog names }

/-! ## Steps -/

/-- What holds between the steps of a search. -/
structure Consistent (S : Provider) (root : String) (s : Search) : Prop where
  nodup : s.visited.Nodup
  order : (s.visited ++ s.pending).eraseDups =
    (root :: s.visited.flatMap S.references).eraseDups
  references : s.references = S.referenceLog s.visited
  reached : ∀ name ∈ s.visited, S.Reaches root name

theorem Consistent.start (S : Provider) (root : String) : Consistent S root (start root) where
  nodup := List.nodup_nil
  order := rfl
  references := rfl
  reached _ h := absurd h List.not_mem_nil

theorem Consistent.trusting (h : Consistent S root s) : Consistent S.trusting root s where
  nodup := h.nodup
  order := h.order
  references := h.references
  reached name hname := Provider.reaches_trusting.2 (h.reached name hname)

/-- A name that was visited before is passed over. -/
theorem Consistent.skip (h : Consistent S root s) {name : String} {rest : List String}
    (hp : s.pending = name :: rest) (hv : name ∈ s.visited) :
    Consistent S root { s with pending := rest } where
  nodup := h.nodup
  order := by
    have horder := h.order
    rw [hp, eraseDups_append_cons_of_mem hv] at horder
    exact horder
  references := h.references
  reached := h.reached

/-- A name that was not visited before becomes the last visited name. -/
theorem Consistent.visit (h : Consistent S root s) {name : String} {rest : List String}
    (hp : s.pending = name :: rest) (hname : S.Reaches root name) (hv : name ∉ s.visited) :
    Consistent S root (s.visit S name rest) where
  nodup := by
    change (s.visited ++ [name]).Nodup
    rw [List.nodup_append]
    refine ⟨h.nodup, by simp, ?_⟩
    intro a ha b hb hab
    rw [List.mem_singleton] at hb
    exact hv (hb ▸ hab ▸ ha)
  order := by
    have hjoined : s.visited ++ [name] ++ rest = s.visited ++ s.pending := by
      rw [hp, List.append_assoc, List.singleton_append]
    change ((s.visited ++ [name]) ++ (rest ++ (S.references name).filter
      fun next => !(s.visited ++ [name]).contains next)).eraseDups =
        (root :: (s.visited ++ [name]).flatMap S.references).eraseDups
    rw [← List.append_assoc, eraseDups_append_filter, hjoined, List.flatMap_append,
      List.flatMap_singleton, ← List.cons_append]
    exact eraseDups_append_congr h.order _
  references := by
    change s.references ++ (S.references name).map (fun next => (s.visited.length, next)) =
      S.referenceLog (s.visited ++ [name])
    rw [Provider.referenceLog_concat, h.references]
  reached other hother := by
    rcases List.mem_append.1 hother with hother | hother
    · exact h.reached other hother
    · rw [List.mem_singleton.1 hother]
      exact hname

/-- When nothing is left to visit, the visited names are all that the root reaches. -/
theorem Consistent.discoveryOrder (h : Consistent S root s) (hp : s.pending = []) :
    S.DiscoveryOrder root s.visited := by
  refine .of_eq_eraseDups ?_ h.reached
  have horder := h.order
  rw [hp, List.append_nil, eraseDups_of_nodup h.nodup] at horder
  exact horder

/-! ## Runs -/

theorem Consistent.eq_complete (h : Consistent S root s) (hp : s.pending = []) :
    s = complete S s.visited := by
  cases s with
  | mk pending visited references =>
      have hnil : pending = [] := hp
      have hlog : references = S.referenceLog visited := h.references
      rw [hnil, hlog, complete]

/-- A search on a provider that knows every name ends, whatever was visited before, with all
that the root reaches in the order of discovery. -/
theorem Consistent.exists_discoveryOrder (h : Consistent S root s)
    (finite : S.FinitelyReaches root) (reached : ∀ name ∈ s.pending, S.Reaches root name) :
    ∃ rest, S.DiscoveryOrder root (s.visited ++ rest) := by
  have hfinite : S.trusting.FinitelyReaches root := by
    obtain ⟨names, hnames⟩ := finite
    exact ⟨names, fun name hname => hnames name (Provider.reaches_trusting.1 hname)⟩
  have hreached : ∀ name ∈ s.pending, S.trusting.Reaches root name :=
    fun name hname => Provider.reaches_trusting.2 (reached name hname)
  have htrusting := h.trusting
  clear h finite reached
  induction s, hreached using Search.run.induct S.trusting root hfinite with
  | case1 s _ hp =>
      refine ⟨[], Provider.discoveryOrder_trusting.1 ?_⟩
      rw [List.append_nil]
      exact htrusting.discoveryOrder hp
  | case2 s _ name rest hp _ _ hv ih => exact ih (htrusting.skip hp hv)
  | case3 s _ name rest hp _ _ hv field mention hfault =>
      rw [Provider.firstUnresolved?_trusting] at hfault
      simp at hfault
  | case4 s _ name rest hp hname _ hv _ ih =>
      obtain ⟨more, hmore⟩ := ih (htrusting.visit hp hname hv)
      exact ⟨name :: more, by simpa [Search.visit] using hmore⟩

/-- A search continues in the order of discovery, up to the first type that mentions a name
without a type. -/
theorem Consistent.run_eq (h : Consistent S root s) (finite : S.FinitelyReaches root)
    (reached : ∀ name ∈ s.pending, S.Reaches root name) :
    ∃ rest, S.DiscoveryOrder root (s.visited ++ rest) ∧
      run S root finite s reached =
        match S.faultAmong? rest with
        | some e => .error e
        | none => .ok (complete S (s.visited ++ rest)) := by
  induction s, reached using Search.run.induct_unfolding S root finite with
  | case1 s _ hp =>
      refine ⟨[], ?_, ?_⟩
      · rw [List.append_nil]
        exact h.discoveryOrder hp
      · rw [List.append_nil, ← h.eq_complete hp]
        rfl
  | case2 s _ name rest hp _ _ hv ih => exact ih (h.skip hp hv)
  | case3 s _ name rest hp hname hrest hv field mention hfault =>
      have hvisit := h.visit hp hname hv
      obtain ⟨more, hmore⟩ := hvisit.exists_discoveryOrder finite
        (reaches_of_mem_pending_visit hname hrest)
      refine ⟨name :: more, by simpa [Search.visit] using hmore, ?_⟩
      simp [Provider.faultAmong?, hfault]
  | case4 s _ name rest hp hname _ hv hnone ih =>
      obtain ⟨more, hmore, hrun⟩ := ih (h.visit hp hname hv)
      have hvisited : (s.visit S name rest).visited ++ more = s.visited ++ name :: more := by
        simp [Search.visit]
      rw [hvisited] at hmore hrun
      refine ⟨name :: more, hmore, ?_⟩
      rw [hrun]
      simp [Provider.faultAmong?, hnone]

/-! ## Edges -/

theorem idxOf?_eq_some_iff {names : List String} (hnodup : names.Nodup) {name : String}
    {i : Nat} : names.idxOf? name = some i ↔ names[i]? = some name := by
  rw [List.idxOf?_eq_some_iff]
  constructor
  · rintro ⟨hlt, heq, _⟩
    rw [List.getElem?_eq_getElem hlt, heq]
  · intro h
    obtain ⟨hlt, heq⟩ := List.getElem?_eq_some_iff.1 h
    refine ⟨hlt, heq, fun j hj hsame => ?_⟩
    have hij := (List.getElem_inj hnodup).1 (hsame.trans heq.symm)
    omega

theorem joins_edges {names : List String} (h : S.DiscoveryOrder root names) {i j : Nat} :
    Cycle.Joins (complete S names).edges i j ↔
      ∃ a b, names[i]? = some a ∧ names[j]? = some b ∧ S.Refers a b := by
  unfold Cycle.Joins edges complete
  rw [List.mem_eraseDups, List.mem_filterMap]
  constructor
  · rintro ⟨⟨k, b⟩, hmem, heq⟩
    obtain ⟨l, hl, heq⟩ := Option.map_eq_some_iff.1 heq
    obtain ⟨rfl, rfl⟩ := Prod.mk.inj heq
    obtain ⟨a, ha, hab⟩ := Provider.mem_referenceLog.1 hmem
    exact ⟨a, b, ha, (idxOf?_eq_some_iff h.nodup).1 hl, hab⟩
  · rintro ⟨a, b, ha, hb, hab⟩
    refine ⟨(i, b), Provider.mem_referenceLog.2 ⟨a, ha, hab⟩, ?_⟩
    rw [(idxOf?_eq_some_iff h.nodup).2 hb]
    rfl

/-- Positions reach each other along edges as their names do along references. -/
theorem transGen_joins_edges {names : List String} (h : S.DiscoveryOrder root names)
    {i j : Nat} {a b : String} (ha : names[i]? = some a) (hb : names[j]? = some b) :
    TransGen (Cycle.Joins (complete S names).edges) i j ↔ TransGen S.Refers a b := by
  constructor
  · intro hreach
    induction hreach generalizing b with
    | single hij =>
        obtain ⟨a', b', ha', hb', hab⟩ := (joins_edges h).1 hij
        rw [ha, Option.some.injEq] at ha'
        rw [hb, Option.some.injEq] at hb'
        exact .single (ha' ▸ hb' ▸ hab)
    | tail _ hkj ih =>
        obtain ⟨c, b', hc, hb', hcb⟩ := (joins_edges h).1 hkj
        rw [hb, Option.some.injEq] at hb'
        exact (ih hc).tail (hb' ▸ hcb)
  · intro hreach
    induction hreach generalizing j with
    | single hab => exact .single ((joins_edges h).2 ⟨a, _, ha, hb, hab⟩)
    | @tail c d hac hcd ih =>
        -- the type before the last is reached as well, so it has a position
        have hc : c ∈ names := by
          rw [h.mem_iff, Provider.reaches_iff]
          have hroot := Provider.reaches_iff.1 ((h.mem_iff a).1 (List.mem_of_getElem? ha))
          exact hroot.trans hac.to_reflTransGen
        obtain ⟨k, hk⟩ := List.getElem?_of_mem hc
        exact (ih hk).tail ((joins_edges h).2 ⟨c, d, hk, hb, hcd⟩)

end Search

end InstanceForge

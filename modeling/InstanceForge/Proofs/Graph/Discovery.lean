import InstanceForge.Proofs.Graph.Fault

/-!
# Discovered type graphs

The types of a discoverable root are discovered in their breadth-first order, and a root that is
not discoverable is refused with its fault.
-/

namespace InstanceForge

open Relation

namespace TypeGraph

open Provider Search

variable {S : Provider} {root : String} {names : List String}

/-! ## Cycles among the visited names -/

theorem transGen_self_iff (h : S.DiscoveryOrder root names) {i : Nat} {a : String}
    (ha : names[i]? = some a) :
    TransGen (Cycle.Joins (complete S names).edges) i i ↔ S.OnCycle a :=
  transGen_joins_edges h ha ha

theorem firstOnCycle_of_leastCyclic (h : S.DiscoveryOrder root names) {i : Nat} {first : String}
    (hleast : Cycle.LeastCyclic names.length (complete S names).edges i)
    (hfirst : names[i]? = some first) : S.FirstOnCycle names first := by
  refine ⟨(transGen_self_iff h hfirst).1 hleast.cyclic, names.take i, names.drop (i + 1), ?_, ?_⟩
  · obtain ⟨hlt, heq⟩ := List.getElem?_eq_some_iff.1 hfirst
    rw [← heq, List.getElem_cons_drop, List.take_append_drop]
  · intro name hname
    obtain ⟨k, hk⟩ := List.getElem?_of_mem hname
    have hki : k < i := by
      have hlt := (List.getElem?_eq_some_iff.1 hk).choose
      rw [List.length_take] at hlt
      omega
    rw [List.getElem?_take_of_lt hki] at hk
    exact fun hcycle => hleast.least k hki ((transGen_self_iff h hk).2 hcycle)

theorem filterMap_range_getElem? (names : List String) :
    (List.range names.length).filterMap (fun i => names[i]?) = names := by
  have hrange : List.range names.length = names.zipIdx.map Prod.snd := by
    rw [List.zipIdx_map_snd, List.range_eq_range']
  rw [hrange, List.filterMap_map]
  have hsame : ∀ p ∈ names.zipIdx, ((fun i => names[i]?) ∘ Prod.snd) p = some p.1 := by
    intro p hp
    exact List.mem_zipIdx_iff_getElem?.1 hp
  rw [List.filterMap_congr hsame]
  simp

theorem component_sublist (names : List String) (edges : Cycle.Edges) (i : Nat) :
    ((Cycle.component names.length edges i).filterMap fun index => names[index]?).Sublist
      names := by
  have hsub := (Cycle.component_sublist names.length edges i).filterMap fun index => names[index]?
  rwa [filterMap_range_getElem?] at hsub

/-- The component that is found, read as names. -/
theorem component_of_leastCyclic (h : S.DiscoveryOrder root names) {i : Nat} {first : String}
    (hleast : Cycle.LeastCyclic names.length (complete S names).edges i)
    (hfirst : names[i]? = some first) :
    S.Component names first
      ((Cycle.component names.length (complete S names).edges i).filterMap
        fun index => names[index]?) where
  sublist := component_sublist names _ i
  nodup := (component_sublist names _ i).nodup h.nodup
  head? := by
    have hhead := hleast.head?_component
    cases hcomponent : Cycle.component names.length (complete S names).edges i with
    | nil => simp [hcomponent] at hhead
    | cons index rest =>
        rw [hcomponent, List.head?_cons, Option.some.injEq] at hhead
        subst hhead
        rw [List.filterMap_cons, hfirst]
        rfl
  mem_iff name := by
    have hcycle := (transGen_self_iff h hfirst).1 hleast.cyclic
    rw [List.mem_filterMap, reaches_iff, reaches_iff]
    constructor
    · rintro ⟨j, hj, hname⟩
      obtain ⟨_, hforth, hback⟩ := Cycle.mem_component.1 hj
      exact ⟨((transGen_joins_edges h hfirst hname).1 hforth).to_reflTransGen,
        ((transGen_joins_edges h hname hfirst).1 hback).to_reflTransGen⟩
    · rintro ⟨hforth, hback⟩
      have hmem : name ∈ names := by
        have hroot := reaches_iff.1 ((h.mem_iff first).1 (List.mem_of_getElem? hfirst))
        rw [h.mem_iff, reaches_iff]
        exact hroot.trans hforth
      obtain ⟨j, hj⟩ := List.getElem?_of_mem hmem
      refine ⟨j, Cycle.mem_component.2 ⟨(List.getElem?_eq_some_iff.1 hj).choose, ?_, ?_⟩, hj⟩
      · exact (transGen_joins_edges h hfirst hj).2 (hcycle.trans_left hforth)
      · exact (transGen_joins_edges h hj hfirst).2 (TransGen.trans_right hback hcycle)

/-! ## Finished searches -/

theorem ofSearch_of_find?_eq_none {s : Search}
    (h : Cycle.find? s.visited.length s.edges = none) :
    ofSearch s = .ok { nodes := s.visited.map TypeNode.ofType, edges := s.edges } := by
  simp only [ofSearch, h]

theorem ofSearch_of_find?_eq_some {s : Search} {members : List Nat} {first : String}
    (h : Cycle.find? s.visited.length s.edges = some members)
    (hfirst : (members.filterMap fun index => s.visited[index]?).head? = some first) :
    ofSearch s = .error ⟨first, .cyclic (members.filterMap fun index => s.visited[index]?)⟩ := by
  cases hnames : members.filterMap fun index => s.visited[index]? with
  | nil => simp [hnames] at hfirst
  | cons head rest =>
      rw [hnames, List.head?_cons, Option.some.injEq] at hfirst
      simp only [ofSearch, h, hnames, hfirst]

theorem ofSearch_of_acyclic (h : S.DiscoveryOrder root names)
    (hacyclic : ∀ name ∈ names, ¬ S.OnCycle name) :
    ofSearch (complete S names) =
      .ok { nodes := names.map TypeNode.ofType, edges := (complete S names).edges } := by
  apply ofSearch_of_find?_eq_none
  rw [Cycle.find?_eq_none_iff]
  intro i hi hcycle
  have hname := List.getElem?_eq_getElem hi
  exact hacyclic _ (List.mem_of_getElem? hname) ((transGen_self_iff h hname).1 hcycle)

theorem ofSearch_of_cyclic (h : S.DiscoveryOrder root names)
    (hcyclic : ∃ name ∈ names, S.OnCycle name) :
    ∃ first members, S.FirstOnCycle names first ∧ S.Component names first members ∧
      ofSearch (complete S names) = .error ⟨first, .cyclic members⟩ := by
  obtain ⟨name, hname, hcycle⟩ := hcyclic
  obtain ⟨k, hk⟩ := List.getElem?_of_mem hname
  have hklt := (List.getElem?_eq_some_iff.1 hk).choose
  cases hfind : Cycle.find? names.length (complete S names).edges with
  | none =>
      have hnot := Cycle.find?_eq_none_iff.1 hfind k hklt
      exact absurd ((transGen_self_iff h hk).2 hcycle) hnot
  | some members =>
      obtain ⟨i, hleast, rfl⟩ := Cycle.find?_eq_some_iff.1 hfind
      have hfirst := List.getElem?_eq_getElem hleast.lt_count
      have hcomponent := component_of_leastCyclic h hleast hfirst
      exact ⟨_, _, firstOnCycle_of_leastCyclic h hleast hfirst, hcomponent,
        ofSearch_of_find?_eq_some hfind hcomponent.head?⟩

/-! ## Discovery -/

/-- The graph of some types, all of whose references are among them. -/
def ofNames (S : Provider) (names : List String) : TypeGraph :=
  { nodes := names.map TypeNode.ofType, edges := (complete S names).edges }

theorem rootError?_eq_none_iff : rootError? S root = none ↔ S.isComposite root = true := by
  unfold rootError?
  split
  · next h => simp [h]
  · next h => split <;> simp [h]

theorem fault_of_rootError? {e : GraphError} (h : rootError? S root = some e) :
    S.Fault root names e := by
  unfold rootError? at h
  split at h
  · simp at h
  · next hcomposite =>
      rw [Bool.not_eq_true] at hcomposite
      split at h
      · next hresolves =>
          rw [← Option.some.inj h]
          exact .notComposite hcomposite hresolves
      · next hresolves =>
          rw [Bool.not_eq_true] at hresolves
          rw [← Option.some.inj h]
          exact .unknown hcomposite hresolves

theorem discover_of_isComposite (finite : S.FinitelyReaches root)
    (hroot : S.isComposite root = true) :
    ∃ names, S.DiscoveryOrder root names ∧
      discover S root finite =
        match S.faultAmong? names with
        | some e => .error e
        | none => ofSearch (complete S names) := by
  obtain ⟨names, horder, hrun⟩ := (Consistent.start S root).run_eq finite (by
    intro name h
    rw [List.mem_singleton.1 h]
    exact .root)
  refine ⟨names, horder, ?_⟩
  unfold discover
  rw [rootError?_eq_none_iff.2 hroot]
  simp only [hrun]
  cases S.faultAmong? names with
  | none => rfl
  | some e => rfl

/-- A root is discovered or has a fault, and it is refused with that fault. -/
theorem discover_cases (finite : S.FinitelyReaches root) :
    ∃ names, S.DiscoveryOrder root names ∧
      ((S.Discoverable root ∧ discover S root finite = .ok (ofNames S names)) ∨
        ∃ e, S.Fault root names e ∧ discover S root finite = .error e) := by
  cases hroot : rootError? S root with
  | some e =>
      obtain ⟨names, horder⟩ := (Consistent.start S root).exists_discoveryOrder finite (by
        intro name h
        rw [List.mem_singleton.1 h]
        exact .root)
      refine ⟨names, horder, .inr ⟨e, fault_of_rootError? hroot, ?_⟩⟩
      simp only [discover, hroot]
  | none =>
      have hcomposite := rootError?_eq_none_iff.1 hroot
      obtain ⟨names, horder, hdiscover⟩ := discover_of_isComposite finite hcomposite
      refine ⟨names, horder, ?_⟩
      rw [faultAmong?_eq] at hdiscover
      cases hfind : (S.mentionsAmong names).find? fun m => !S.resolves m.name with
      | some m =>
          rw [hfind] at hdiscover
          exact .inr ⟨m.error, .unresolved hcomposite hfind, hdiscover⟩
      | none =>
          rw [hfind] at hdiscover
          have hall : ∀ m ∈ S.mentionsAmong names, S.resolves m.name = true := by
            intro m hm
            simpa using List.find?_eq_none.1 hfind m hm
          by_cases hcyclic : ∃ name ∈ names, S.OnCycle name
          · obtain ⟨first, members, hfirst, hmembers, heq⟩ := ofSearch_of_cyclic horder hcyclic
            exact .inr ⟨_, .cyclic hcomposite hall hfirst hmembers, hdiscover.trans heq⟩
          · have hacyclic : ∀ name ∈ names, ¬ S.OnCycle name :=
              fun name hname hcycle => hcyclic ⟨name, hname, hcycle⟩
            refine .inl ⟨⟨hcomposite, (resolved_iff horder).1 hall, ?_⟩,
              hdiscover.trans (ofSearch_of_acyclic horder hacyclic)⟩
            exact fun name hreach => hacyclic name ((horder.mem_iff name).2 hreach)

theorem root?_of_discover {finite : S.FinitelyReaches root} {g : TypeGraph}
    (h : discover S root finite = .ok g) : g.root? = some (TypeNode.ofType root) := by
  obtain ⟨names, horder, ⟨_, hok⟩ | ⟨e, _, herror⟩⟩ := discover_cases (S := S) finite
  · rw [hok, Except.ok.injEq] at h
    rw [← h, root?, ofNames, List.head?_map, horder.head?, Option.map_some]
  · rw [herror] at h
    cases h

theorem root?_of_single {g : TypeGraph} (h : single S root = .ok g) :
    g.root? = some (TypeNode.ofType root) := by
  unfold single at h
  split at h
  · cases h
  · rw [Except.ok.injEq] at h
    rw [← h]
    rfl

/-! ## Nodes of one type -/

theorem map_typeName_eraseDupsBy (nodes : List TypeNode) :
    (List.eraseDupsBy TypeNode.sameType nodes).map TypeNode.typeName =
      (nodes.map TypeNode.typeName).eraseDups := by
  match nodes with
  | [] => rfl
  | first :: rest =>
      have hsame : (rest.map TypeNode.typeName).filter (fun name => !name == first.typeName) =
          (rest.filter fun node => !node.sameType first).map TypeNode.typeName := by
        rw [List.filter_map]
        rfl
      rw [List.map_cons, List.eraseDups_cons, hsame, ← map_typeName_eraseDupsBy]
      simp only [List.eraseDupsBy_cons, List.map_cons, Bool.decide_eq_false]
termination_by nodes.length
decreasing_by exact Nat.lt_succ_of_le (List.length_filter_le _ _)

theorem nodup_typeName_ofNodes (nodes : List TypeNode) :
    ((ofNodes nodes).nodes.map TypeNode.typeName).Nodup := by
  rw [ofNodes, map_typeName_eraseDupsBy]
  exact FirstOccurrence.nodup_eraseDups _

theorem nodup_typeName_of_discover {finite : S.FinitelyReaches root} {g : TypeGraph}
    (h : discover S root finite = .ok g) : (g.nodes.map TypeNode.typeName).Nodup := by
  obtain ⟨names, horder, ⟨_, hok⟩ | ⟨e, _, herror⟩⟩ := discover_cases (S := S) finite
  · rw [hok, Except.ok.injEq] at h
    rw [← h, ofNames, List.map_map]
    exact (List.map_id' names).symm ▸ horder.nodup
  · rw [herror] at h
    cases h

theorem nodup_typeName_of_single {g : TypeGraph} (h : single S root = .ok g) :
    (g.nodes.map TypeNode.typeName).Nodup := by
  unfold single at h
  split at h
  · cases h
  · rw [Except.ok.injEq] at h
    simp [← h]

/-! ## Discoverable roots -/

/-- A graph is found exactly for a discoverable root, and its nodes are the types that the root
reaches: the root first, each once, in breadth-first order and so by distance. -/
theorem discover_eq_ok_iff_discoverable (S : Provider) (root : String)
    (finite : S.FinitelyReaches root) :
    ((∃ g, discover S root finite = .ok g) ↔ S.Discoverable root) ∧
      ∀ g, discover S root finite = .ok g ->
        ∃ names, g.nodes = names.map TypeNode.ofType ∧
          names.head? = some root ∧
          (∀ name, name ∈ names ↔ S.Reaches root name) ∧
          names.Nodup ∧
          names = (root :: names.flatMap S.references).eraseDups ∧
          names.Pairwise (S.NoFarther root) := by
  obtain ⟨names, horder, hcases⟩ := discover_cases (S := S) finite
  rcases hcases with ⟨hdisc, hok⟩ | ⟨e, hfault, herror⟩
  · refine ⟨⟨fun _ => hdisc, fun _ => ⟨_, hok⟩⟩, ?_⟩
    intro g hg
    rw [hok, Except.ok.injEq] at hg
    exact ⟨names, hg ▸ rfl, horder.head?, horder.mem_iff, horder.nodup, horder.eq_eraseDups,
      horder.pairwise_noFarther⟩
  · refine ⟨⟨?_, fun hdisc => (hfault.not_discoverable horder hdisc).elim⟩, ?_⟩
    · rintro ⟨g, hg⟩
      simp [herror] at hg
    · intro g hg
      simp [herror] at hg

def diamond : Registry :=
  ⟨[⟨"Order", .record, [⟨"billing", .named "Address"⟩,
      ⟨"lines", .map (.named "String") (.sequence (.named "Line"))⟩]⟩,
    ⟨"Line", .record, [⟨"target", .optional (.named "Address")⟩]⟩,
    ⟨"Address", .record, []⟩]⟩

theorem discoverable_diamond : diamond.provider.Discoverable "Order" := by
  have hclosed : ∀ a ∈ ["Order", "Line", "Address"],
      ∀ b ∈ diamond.provider.references a, b ∈ ["Order", "Line", "Address"] := by decide
  have hmem : ∀ {name}, diamond.provider.Reaches "Order" name ->
      name ∈ ["Order", "Line", "Address"] := mem_of_reaches (by decide) hclosed
  refine ⟨by decide, fun name h => ?_, fun name h => ?_⟩
  · exact (by decide : ∀ name ∈ ["Order", "Line", "Address"],
      ∀ mention ∈ diamond.provider.mentions name,
        diamond.provider.resolves mention = true) name (hmem h)
  · exact not_onCycle_of_rank (fun a => ["Order", "Line", "Address"].idxOf a) hclosed
      (by decide) (hmem h)

theorem discoveryOrder_diamond :
    diamond.provider.DiscoveryOrder "Order" ["Order", "Address", "Line"] := by
  refine .of_eq_eraseDups (by decide) ?_
  intro name h
  simp only [List.mem_cons, List.not_mem_nil, or_false] at h
  rcases h with rfl | rfl | rfl
  · exact .root
  · exact .step .root (by decide)
  · exact .step .root (by decide)

theorem discover_eq_ofNames_diamond (finite : diamond.provider.FinitelyReaches "Order") :
    discover diamond.provider "Order" finite =
      .ok (ofNames diamond.provider ["Order", "Address", "Line"]) := by
  obtain ⟨names, horder, ⟨_, hok⟩ | ⟨e, hfault, _⟩⟩ := discover_cases finite
  · rw [hok, horder.unique discoveryOrder_diamond]
  · exact (hfault.not_discoverable horder discoverable_diamond).elim

/-- The type behind the first field goes before the one behind the second, on which it is also
reached. -/
theorem discover_diamond :
    diamond.provider.FinitelyReaches "Order" ∧
      ∃ g, discover diamond.provider "Order" (diamond.finitelyReaches "Order") = .ok g ∧
        g.nodes = ["Order", "Address", "Line"].map TypeNode.ofType := by
  have hspec := discover_eq_ok_iff_discoverable diamond.provider "Order"
    (diamond.finitelyReaches "Order")
  obtain ⟨g, hg⟩ := hspec.1.2 discoverable_diamond
  obtain ⟨names, hnodes, _, hmem, _, heq, _⟩ := hspec.2 g hg
  have hnames : names = ["Order", "Address", "Line"] :=
    DiscoveryOrder.unique ⟨hmem, heq⟩ discoveryOrder_diamond
  exact ⟨diamond.finitelyReaches "Order", g, hg, hnames ▸ hnodes⟩

/-- A root is refused exactly with its fault. -/
theorem discover_eq_error_iff_fault (S : Provider) (root : String)
    (finite : S.FinitelyReaches root) :
    ∃ names, S.DiscoveryOrder root names ∧
      (∀ other, S.DiscoveryOrder root other -> other = names) ∧
      ∀ e, discover S root finite = .error e ↔ S.Fault root names e := by
  obtain ⟨names, horder, hcases⟩ := discover_cases (S := S) finite
  refine ⟨names, horder, fun other hother => hother.unique horder, fun e => ?_⟩
  rcases hcases with ⟨hdisc, hok⟩ | ⟨found, hfault, herror⟩
  · constructor
    · intro h
      simp [hok] at h
    · intro h
      exact (h.not_discoverable horder hdisc).elim
  · rw [herror, Except.error.injEq]
    constructor
    · intro h
      exact h ▸ hfault
    · intro h
      exact hfault.unique horder.nodup h

def tangle : Registry :=
  ⟨[⟨"Order", .record, [⟨"items", .sequence (.named "Item")⟩]⟩,
    ⟨"Item", .record, [⟨"order", .optional (.named "Order")⟩,
      ⟨"price", .map (.named "String") (.named "Money")⟩]⟩]⟩

theorem discoveryOrder_tangle :
    tangle.provider.DiscoveryOrder "Order" ["Order", "Item"] := by
  refine .of_eq_eraseDups (by decide) ?_
  intro name h
  simp only [List.mem_cons, List.not_mem_nil, or_false] at h
  rcases h with rfl | rfl
  · exact .root
  · exact .step .root (by decide)

/-- The name without a type goes before the cycle, although it is met after it. -/
theorem discover_tangle :
    tangle.provider.FinitelyReaches "Order" ∧
      discover tangle.provider "Order" (tangle.finitelyReaches "Order") =
        .error ⟨"Money", .unresolved (some "Item.price")⟩ := by
  obtain ⟨names, horder, _, hiff⟩ := discover_eq_error_iff_fault tangle.provider "Order"
    (tangle.finitelyReaches "Order")
  have hnames : names = ["Order", "Item"] := horder.unique discoveryOrder_tangle
  subst hnames
  have hfault : tangle.provider.Fault "Order" ["Order", "Item"]
      ⟨"Money", .unresolved (some ("Item" ++ "." ++ "price"))⟩ := .unresolved (by decide) rfl
  exact ⟨tangle.finitelyReaches "Order", (hiff _).2 hfault⟩

end TypeGraph

end InstanceForge

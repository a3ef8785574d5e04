import InstanceForge.Proofs.Graph.Discovery
import Mathlib.Data.List.Induction
import Mathlib.Data.Nat.Find

/-!
# Edges of discovered graphs

The edges of a discovered graph are the references between its types, each once and no more. The
children of a type come in the order of its fields, every type but the root has a parent before
it, and along the graph the first parents never go back. No edges lead around in a cycle.
-/

namespace InstanceForge

open Relation FirstOccurrence

namespace Search

open Provider

variable {S : Provider} {root : String} {names : List String}

theorem nodup_edges (s : Search) : s.edges.Nodup :=
  nodup_eraseDups _

theorem idxOf?_of_mem_referenceLog (h : S.DiscoveryOrder root names) {i : Nat} {next : String}
    (hmem : (i, next) ∈ S.referenceLog names) :
    ∃ j, names.idxOf? next = some j ∧ names[j]? = some next := by
  obtain ⟨name, hname, hrefers⟩ := mem_referenceLog.1 hmem
  have hreach := (h.mem_iff name).1 (List.mem_of_getElem? hname)
  obtain ⟨j, hj⟩ := List.getElem?_of_mem ((h.mem_iff next).2 (.step hreach hrefers))
  exact ⟨j, (idxOf?_eq_some_iff h.nodup).2 hj, hj⟩

/-- Of the log of references those of one position are the references of the name there. -/
theorem filterMap_referenceLog (S : Provider) (names : List String) (i : Nat) :
    ((S.referenceLog names).filterMap fun r => if r.1 = i then some r.2 else none) =
      names[i]?.elim [] S.references := by
  induction names using List.reverseRecOn with
  | nil => rfl
  | append_singleton names name ih =>
      rw [referenceLog_concat, List.filterMap_append, ih, List.filterMap_map]
      rcases Nat.lt_trichotomy i names.length with hlt | rfl | hgt
      · have hne : names.length ≠ i := by omega
        simp [List.getElem?_append_left hlt, hne]
      · simp
      · have hne : names.length ≠ i := by omega
        have hend : (names ++ [name])[i]? = none := by
          rw [List.getElem?_eq_none_iff, List.length_append, List.length_singleton]
          omega
        simp [List.getElem?_eq_none (Nat.le_of_lt hgt), hne, hend]

/-- The ends of the edges from a position are the references of the name there, each where it is
first written. -/
theorem filterMap_edges (h : S.DiscoveryOrder root names) (i : Nat) :
    ((complete S names).edges.filterMap fun e => if e.1 = i then names[e.2]? else none) =
      (names[i]?.elim [] S.references).eraseDups := by
  have hinj : ∀ e e' : Nat × Nat, ∀ b, (if e.1 = i then names[e.2]? else none) = some b ->
      (if e'.1 = i then names[e'.2]? else none) = some b -> e = e' := by
    rintro ⟨_, j⟩ ⟨_, j'⟩ b he he'
    obtain ⟨rfl, hj⟩ := Option.ite_none_right_eq_some.1 he
    obtain ⟨rfl, hj'⟩ := Option.ite_none_right_eq_some.1 he'
    have hlt := (List.getElem?_eq_some_iff.1 hj).choose
    exact Prod.ext rfl ((List.getElem?_inj hlt h.nodup).1 (hj.trans hj'.symm))
  -- no reference of the log is dropped, because every one of them has a position
  have hlog : ∀ r ∈ S.referenceLog names,
      (((names.idxOf? r.2).map fun index => (r.1, index)).bind
          fun e => if e.1 = i then names[e.2]? else none) =
        if r.1 = i then some r.2 else none := by
    rintro ⟨k, next⟩ hr
    obtain ⟨j, hidx, hj⟩ := idxOf?_of_mem_referenceLog h hr
    simp only [hidx, Option.map_some, Option.bind_some, hj]
  unfold edges complete
  rw [← eraseDups_filterMap hinj, List.filterMap_filterMap, List.filterMap_congr hlog,
    filterMap_referenceLog]

end Search

namespace TypeGraph

open Provider Search

variable {S : Provider} {root : String} {names : List String}

theorem getElem?_nodes_ofNames {i : Nat} {node : TypeNode} :
    (ofNames S names).nodes[i]? = some node ↔
      ∃ name, names[i]? = some name ∧ TypeNode.ofType name = node := by
  rw [ofNames, List.getElem?_map, Option.map_eq_some_iff]

theorem size_ofNames : (ofNames S names).size = names.length :=
  List.length_map _

theorem children_ofNames (h : S.DiscoveryOrder root names) (i : Nat) :
    (ofNames S names).children i =
      (names[i]?.elim [] S.references).eraseDups.map TypeNode.ofType := by
  rw [← filterMap_edges h, List.map_filterMap]
  refine List.filterMap_congr fun e _ => ?_
  by_cases he : e.1 = i
  · simp [he, ofNames]
  · simp [he]

/-! ## Edges -/

theorem refers_iff {a b : String} :
    S.Refers a b ↔ ∃ fields f, S.fieldsOf a = some fields ∧ f ∈ fields ∧
      b ∈ f.type.innermost ∧ S.isComposite b = true := by
  rw [Refers, Provider.references, List.mem_filter, mentions, List.mem_flatMap]
  cases hfields : S.fieldsOf a with
  | none => simp
  | some fields =>
      simp only [Option.getD_some, Option.some.injEq, exists_and_left, exists_eq_left']
      constructor
      · rintro ⟨⟨f, hf, hname⟩, hcomposite⟩
        exact ⟨f, hf, hname, hcomposite⟩
      · rintro ⟨f, hf, hname, hcomposite⟩
        exact ⟨⟨f, hf, hname⟩, hcomposite⟩

theorem mem_edges_ofNames (h : S.DiscoveryOrder root names) {i j : Nat} :
    (i, j) ∈ (ofNames S names).edges ↔
      ∃ a b, names[i]? = some a ∧ names[j]? = some b ∧ S.Refers a b :=
  joins_edges h

theorem not_transGen_ofNames (h : S.DiscoveryOrder root names) (hdisc : S.Discoverable root)
    (i : Nat) : ¬ TransGen (Cycle.Joins (ofNames S names).edges) i i := by
  intro hcycle
  obtain ⟨_, hjoins, _⟩ := TransGen.head'_iff.1 hcycle
  obtain ⟨a, _, ha, _, _⟩ := (joins_edges h).1 hjoins
  exact hdisc.acyclic a ((h.mem_iff a).1 (List.mem_of_getElem? ha))
    ((transGen_self_iff h ha).1 hcycle)

/-! ## Parents -/

structure FirstParent (g : TypeGraph) (i j : Nat) : Prop where
  edge : (i, j) ∈ g.edges
  first : ∀ k < i, (k, j) ∉ g.edges

theorem FirstParent.le {g : TypeGraph} {i j k : Nat} (h : g.FirstParent i j)
    (hk : (k, j) ∈ g.edges) : i <= k := by
  by_contra hlt
  exact h.first k (by omega) hk

theorem exists_firstParent {g : TypeGraph} {j k : Nat} (h : (k, j) ∈ g.edges) :
    ∃ i, i <= k ∧ g.FirstParent i j := by
  have hfind : ∃ i, (i, j) ∈ g.edges := ⟨k, h⟩
  exact ⟨Nat.find hfind, Nat.find_min' hfind h, Nat.find_spec hfind,
    fun i hi => Nat.find_min hfind hi⟩

theorem exists_firstParent_lt (h : S.DiscoveryOrder root names) {j : Nat} (hpos : 0 < j)
    (hlt : j < names.length) : ∃ i < j, (ofNames S names).FirstParent i j := by
  have hj := List.getElem?_eq_getElem hlt
  obtain ⟨k, parent, hkj, hk, hrefers⟩ := h.exists_parent_lt hj hpos
  obtain ⟨i, hik, hi⟩ := exists_firstParent ((mem_edges_ofNames h).2 ⟨_, _, hk, hj, hrefers⟩)
  exact ⟨i, Nat.lt_of_le_of_lt hik hkj, hi⟩

theorem firstParent_le_firstParent (h : S.DiscoveryOrder root names) {i j k l : Nat}
    (hpos : 0 < j) (hjl : j <= l) (hi : (ofNames S names).FirstParent i j)
    (hk : (ofNames S names).FirstParent k l) : i <= k := by
  obtain ⟨_, a, _, ha, _⟩ := (mem_edges_ofNames h).1 hi.edge
  obtain ⟨parent, b, hparent, hb, hrefers⟩ := (mem_edges_ofNames h).1 hk.edge
  rcases h.root_or_parent_of_le ha hb hjl hparent hrefers with hroot | ⟨m, q, hmk, hm, hqa⟩
  · exact absurd hroot (h.ne_root ha hpos)
  · have hedge := (mem_edges_ofNames h).2 ⟨q, a, hm, ha, hqa⟩
    exact Nat.le_trans (hi.le hedge) hmk

/--
The edges of a discovered graph lead from each type to the composite types that its fields are made
of, each edge once, and the children of a type are these types in the order of the fields. Every
type but the root has a parent before it, the first parents go up along the graph, and no edges
lead around in a cycle.
-/
theorem edges_of_discover {S : Provider} {root : String} {finite : S.FinitelyReaches root}
    {g : TypeGraph} (h : discover S root finite = .ok g) :
    (∀ i j, (i, j) ∈ g.edges ↔
      ∃ a b fields f, g.nodes[i]? = some a ∧ g.nodes[j]? = some b ∧
        S.fieldsOf a.typeName = some fields ∧ f ∈ fields ∧ b.typeName ∈ f.type.innermost ∧
        S.isComposite b.typeName = true) ∧
    g.edges.Nodup ∧ (∀ e ∈ g.edges, e.1 < g.size ∧ e.2 < g.size) ∧
    (∀ i a, g.nodes[i]? = some a -> g.children i =
      ((S.mentions a.typeName).filter S.isComposite).eraseDups.map TypeNode.ofType) ∧
    g.root? = some (TypeNode.ofType root) ∧
    (∀ j, 0 < j -> j < g.size -> ∃ i < j, g.FirstParent i j) ∧
    (∀ i j k l, 0 < j -> j <= l -> g.FirstParent i j -> g.FirstParent k l -> i <= k) ∧
    ∀ i, ¬ TransGen (Cycle.Joins g.edges) i i := by
  have hroot := root?_of_discover h
  obtain ⟨names, horder, ⟨hdisc, hok⟩ | ⟨e, _, herror⟩⟩ := discover_cases (S := S) finite
  · rw [hok, Except.ok.injEq] at h
    subst h
    refine ⟨fun i j => ?_, nodup_edges _, ?_, fun i a ha => ?_, hroot, fun j hpos hlt => ?_,
      fun i j k l => firstParent_le_firstParent horder, not_transGen_ofNames horder hdisc⟩
    · rw [mem_edges_ofNames horder]
      constructor
      · rintro ⟨a, b, ha, hb, hrefers⟩
        obtain ⟨fields, f, hfields, hf, hname, hcomposite⟩ := refers_iff.1 hrefers
        exact ⟨.ofType a, .ofType b, fields, f, getElem?_nodes_ofNames.2 ⟨a, ha, rfl⟩,
          getElem?_nodes_ofNames.2 ⟨b, hb, rfl⟩, hfields, hf, hname, hcomposite⟩
      · rintro ⟨_, _, fields, f, hi, hj, hfields, hf, hname, hcomposite⟩
        obtain ⟨a, ha, rfl⟩ := getElem?_nodes_ofNames.1 hi
        obtain ⟨b, hb, rfl⟩ := getElem?_nodes_ofNames.1 hj
        exact ⟨a, b, ha, hb, refers_iff.2 ⟨fields, f, hfields, hf, hname, hcomposite⟩⟩
    · rintro ⟨i, j⟩ he
      obtain ⟨a, b, ha, hb, _⟩ := (mem_edges_ofNames horder).1 he
      rw [size_ofNames]
      exact ⟨(List.getElem?_eq_some_iff.1 ha).choose, (List.getElem?_eq_some_iff.1 hb).choose⟩
    · obtain ⟨name, hname, rfl⟩ := getElem?_nodes_ofNames.1 ha
      rw [children_ofNames horder, hname]
      rfl
    · rw [size_ofNames] at hlt
      exact exists_firstParent_lt horder hpos hlt
  · rw [herror] at h
    cases h

/-- A type with two parents: the first of them is the root, and there is an edge from each. -/
theorem edges_diamond :
    ∃ g, discover diamond.provider "Order" (diamond.finitelyReaches "Order") = .ok g ∧
      g.edges = [(0, 1), (0, 2), (2, 1)] ∧
      g.children 0 = ["Address", "Line"].map TypeNode.ofType ∧
      g.FirstParent 0 1 ∧ (∃ i < 2, g.FirstParent i 2) ∧
      ∀ i, ¬ TransGen (Cycle.Joins g.edges) i i := by
  have hdiscover := discover_eq_ofNames_diamond (diamond.finitelyReaches "Order")
  obtain ⟨-, -, -, hchildren, -, hparent, -, hacyclic⟩ := edges_of_discover hdiscover
  refine ⟨_, hdiscover, by decide, ?_, ⟨by decide, by decide⟩, hparent 2 (by decide) (by decide),
    hacyclic⟩
  exact (hchildren 0 _ rfl).trans (by decide)

end TypeGraph

end InstanceForge

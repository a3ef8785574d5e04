import InstanceForge.Proofs.Graph.Search

/-!
# Faults of a root

What a root has to be for its types to be discovered, and what is wrong with it otherwise. The
faults are ranked: a root that is not composite goes before a name without a type, and that
before a cycle, so a root has at most one fault.
-/

namespace InstanceForge

open Relation

namespace Provider

variable {S : Provider} {root : String}

structure Mention where
  owner : String
  field : String
  name : String

/-- All that some types mention, type by type, field by field, and a map's key before its value. -/
def mentionsAmong (S : Provider) (names : List String) : List Mention :=
  names.flatMap fun owner => ((S.fieldsOf owner).getD []).flatMap fun f =>
    f.type.innermost.map fun name => ⟨owner, f.name, name⟩

def Mention.error (m : Mention) : GraphError :=
  ⟨m.name, .unresolved (some (m.owner ++ "." ++ m.field))⟩

theorem faultAmong?_eq (S : Provider) (names : List String) :
    S.faultAmong? names =
      ((S.mentionsAmong names).find? fun m => !S.resolves m.name).map Mention.error := by
  unfold faultAmong? mentionsAmong
  rw [List.find?_flatMap, List.map_findSome?]
  congr 1
  funext owner
  unfold firstUnresolved?
  rw [Function.comp_apply, List.find?_flatMap, List.map_findSome?, List.map_findSome?]
  congr 1
  funext f
  simp only [Function.comp_apply, List.find?_map, Option.map_map]
  rfl

theorem forall_mentionsAmong {names : List String} :
    (∀ m ∈ S.mentionsAmong names, S.resolves m.name = true) ↔
      ∀ owner ∈ names, ∀ name ∈ S.mentions owner, S.resolves name = true := by
  unfold mentionsAmong mentions
  simp only [List.mem_flatMap, List.mem_map]
  constructor
  · rintro h owner howner name ⟨f, hf, hname⟩
    exact h ⟨owner, f.name, name⟩ ⟨owner, howner, f, hf, name, hname, rfl⟩
  · rintro h m ⟨owner, howner, f, hf, name, hname, rfl⟩
    exact h owner howner name ⟨f, hf, hname⟩

/-- What a root has to be for its types to be discovered. -/
structure Discoverable (S : Provider) (root : String) : Prop where
  composite : S.isComposite root = true
  resolved : ∀ name, S.Reaches root name -> ∀ mention ∈ S.mentions name,
    S.resolves mention = true
  acyclic : ∀ name, S.Reaches root name -> ¬ S.OnCycle name

def FirstOnCycle (S : Provider) (names : List String) (first : String) : Prop :=
  S.OnCycle first ∧
    ∃ before after, names = before ++ first :: after ∧ ∀ name ∈ before, ¬ S.OnCycle name

/-- The types that are strongly connected with a type, in the order of some types. -/
structure Component (S : Provider) (names : List String) (first : String)
    (members : List String) : Prop where
  sublist : members.Sublist names
  nodup : members.Nodup
  head? : members.head? = some first
  mem_iff : ∀ name, name ∈ members ↔ S.Reaches first name ∧ S.Reaches name first

/-- What is wrong with a root whose types have an order of discovery. -/
inductive Fault (S : Provider) (root : String) (names : List String) : GraphError -> Prop where
  | notComposite : S.isComposite root = false -> S.resolves root = true ->
      Fault S root names ⟨root, .notComposite⟩
  | unknown : S.isComposite root = false -> S.resolves root = false ->
      Fault S root names ⟨root, .unresolved none⟩
  | unresolved {owner field name : String} : S.isComposite root = true ->
      (S.mentionsAmong names).find? (fun m => !S.resolves m.name) = some ⟨owner, field, name⟩ ->
      Fault S root names ⟨name, .unresolved (some (owner ++ "." ++ field))⟩
  | cyclic {first : String} {members : List String} : S.isComposite root = true ->
      (∀ m ∈ S.mentionsAmong names, S.resolves m.name = true) ->
      S.FirstOnCycle names first -> S.Component names first members ->
      Fault S root names ⟨first, .cyclic members⟩

/-! ## Faults exclude each other -/

theorem FirstOnCycle.unique {names : List String} {a b : String}
    (ha : S.FirstOnCycle names a) (hb : S.FirstOnCycle names b) : a = b := by
  obtain ⟨hcycle, _, _, hnames, hbefore⟩ := ha
  obtain ⟨hcycle', _, _, hnames', hbefore'⟩ := hb
  exact FirstOccurrence.first_unique hnames hcycle hbefore hnames' hcycle' hbefore'

theorem FirstOnCycle.mem {names : List String} {a : String} (h : S.FirstOnCycle names a) :
    a ∈ names := by
  obtain ⟨_, before, after, rfl, _⟩ := h
  simp

theorem eq_filter_of_sublist {names members : List String} (h : members.Sublist names)
    (hnodup : names.Nodup) : members = names.filter fun name => members.contains name := by
  induction h with
  | slnil => rfl
  | @cons members names name hsub ih =>
      rw [List.nodup_cons] at hnodup
      have hnew : name ∉ members := fun hmem => hnodup.1 (hsub.subset hmem)
      rw [List.filter_cons_of_neg (by simpa using hnew)]
      exact ih hnodup.2
  | @cons_cons members names name hsub ih =>
      rw [List.nodup_cons] at hnodup
      rw [List.filter_cons_of_pos (by simp)]
      congr 1
      refine (ih hnodup.2).trans (List.filter_congr ?_)
      intro other hother
      have hne : other ≠ name := fun h => hnodup.1 (h ▸ hother)
      simp [hne]

theorem Component.unique {names members other : List String} {first : String}
    (hnodup : names.Nodup) (h : S.Component names first members)
    (h' : S.Component names first other) : members = other := by
  rw [eq_filter_of_sublist h.sublist hnodup, eq_filter_of_sublist h'.sublist hnodup]
  apply List.filter_congr
  intro name _
  rw [Bool.eq_iff_iff, List.contains_iff_mem, List.contains_iff_mem, h.mem_iff, h'.mem_iff]

theorem resolved_iff {names : List String} (h : S.DiscoveryOrder root names) :
    (∀ m ∈ S.mentionsAmong names, S.resolves m.name = true) ↔
      ∀ name, S.Reaches root name -> ∀ mention ∈ S.mentions name, S.resolves mention = true := by
  rw [forall_mentionsAmong]
  simp only [h.mem_iff]

theorem Fault.unique {names : List String} {e e' : GraphError} (hnodup : names.Nodup)
    (h : Fault S root names e) (h' : Fault S root names e') : e = e' := by
  have hclash : ∀ {m : Mention}, (∀ m ∈ S.mentionsAmong names, S.resolves m.name = true) ->
      (S.mentionsAmong names).find? (fun m => !S.resolves m.name) = some m -> False := by
    intro m hall hfind
    have hm := List.find?_some hfind
    rw [hall m (List.mem_of_find?_eq_some hfind)] at hm
    simp at hm
  cases h with
  | notComposite => cases h' <;> simp_all
  | unknown => cases h' <;> simp_all
  | unresolved hcomposite hfind =>
      cases h' with
      | notComposite hnot => simp [hcomposite] at hnot
      | unknown hnot => simp [hcomposite] at hnot
      | unresolved _ hfind' =>
          have hsame := Option.some.inj (hfind.symm.trans hfind')
          simp only [Mention.mk.injEq] at hsame
          simp [hsame]
      | cyclic _ hall => exact (hclash hall hfind).elim
  | cyclic hcomposite hall hfirst hmembers =>
      cases h' with
      | notComposite hnot => simp [hcomposite] at hnot
      | unknown hnot => simp [hcomposite] at hnot
      | unresolved _ hfind => exact (hclash hall hfind).elim
      | cyclic _ _ hfirst' hmembers' =>
          cases hfirst.unique hfirst'
          rw [hmembers.unique hnodup hmembers']

theorem Fault.not_discoverable {names : List String} {e : GraphError}
    (horder : S.DiscoveryOrder root names) (h : Fault S root names e) :
    ¬ S.Discoverable root := by
  intro hdisc
  cases h with
  | notComposite hnot => simp [hdisc.composite] at hnot
  | unknown hnot => simp [hdisc.composite] at hnot
  | @unresolved owner field name _ hfind =>
      have hall := (resolved_iff horder).2 hdisc.resolved
      have hname := List.find?_some hfind
      rw [hall _ (List.mem_of_find?_eq_some hfind)] at hname
      simp at hname
  | cyclic _ _ hfirst => exact hdisc.acyclic _ ((horder.mem_iff _).1 hfirst.mem) hfirst.1

end Provider

end InstanceForge

import InstanceForge.Proofs.Graph.Discovery

/-!
# Providers that agree

A discovery asks a provider about the names that the reached types mention, and about nothing
else. Providers with the same answers to these questions, whatever their fields are called and
however the names are wrapped, have the same discovery.
-/

namespace InstanceForge

namespace Provider

/-- The root, and the names that the types which it reaches mention. -/
inductive Asked (S : Provider) (root : String) : String -> Prop where
  | root : Asked S root root
  | mention {owner name : String} :
      S.Reaches root owner -> name ∈ S.mentions owner -> Asked S root name

/--
Two providers answer a discovery from a root alike: the types that it reaches mention the same
names in the same order, and these names are the same kind of names to both.
-/
structure Agree (S S' : Provider) (root : String) : Prop where
  mentions : ∀ name, S.Reaches root name -> S.mentions name = S'.mentions name
  isComposite : ∀ name, S.Asked root name -> S.isComposite name = S'.isComposite name
  resolves : ∀ name, S.Asked root name -> S.resolves name = S'.resolves name

namespace Agree

variable {S S' : Provider} {root : String}

/-! ## Reached types -/

theorem references_eq (h : S.Agree S' root) {name : String} (hname : S.Reaches root name) :
    S.references name = S'.references name := by
  unfold references
  rw [← h.mentions name hname]
  exact List.filter_congr fun mention hmention => h.isComposite mention (.mention hname hmention)

theorem reaches_iff (h : S.Agree S' root) {name : String} :
    S.Reaches root name ↔ S'.Reaches root name := by
  constructor
  · intro hreach
    induction hreach with
    | root => exact .root
    | step hname hnext ih => exact .step ih (h.references_eq hname ▸ hnext)
  · intro hreach
    induction hreach with
    | root => exact .root
    | step _ hnext ih => exact .step ih ((h.references_eq ih).symm ▸ hnext)

/-- The types are discovered in one order. -/
theorem discoveryOrder (h : S.Agree S' root) {names : List String}
    (horder : S.DiscoveryOrder root names) : S'.DiscoveryOrder root names where
  mem_iff name := (horder.mem_iff name).trans h.reaches_iff
  eq_eraseDups := by
    have hsame : names.flatMap S.references = names.flatMap S'.references :=
      List.flatMap_congr fun name hname => h.references_eq ((horder.mem_iff name).1 hname)
    rw [← hsame]
    exact horder.eq_eraseDups

theorem complete_eq (h : S.Agree S' root) {names : List String}
    (horder : S.DiscoveryOrder root names) :
    Search.complete S names = Search.complete S' names := by
  have hlog : S.referenceLog names = S'.referenceLog names := by
    refine List.flatMap_congr fun p hp => ?_
    have hmem : p.1 ∈ names := List.mem_of_getElem? (List.mem_zipIdx_iff_getElem?.1 hp)
    rw [h.references_eq ((horder.mem_iff p.1).1 hmem)]
  unfold Search.complete
  rw [hlog]

end Agree

end Provider

/-! ## Refusals -/

/-- Two reasons that differ at most in the field by which an unknown name is referenced. -/
inductive Refusal.Alike : Refusal -> Refusal -> Prop where
  | same (r : Refusal) : Alike r r
  | field (owner f g : String) :
      Alike (.unresolved (some (owner ++ "." ++ f))) (.unresolved (some (owner ++ "." ++ g)))

structure GraphError.Alike (e e' : GraphError) : Prop where
  typeName : e.typeName = e'.typeName
  reason : e.reason.Alike e'.reason

theorem GraphError.Alike.refl (e : GraphError) : e.Alike e :=
  ⟨rfl, .same _⟩

namespace Provider

def Mention.ownerAndName (m : Mention) : String × String :=
  (m.owner, m.name)

theorem map_mentionsAmong (S : Provider) (names : List String) :
    (S.mentionsAmong names).map Mention.ownerAndName =
      names.flatMap fun owner => (S.mentions owner).map fun name => (owner, name) := by
  unfold mentionsAmong mentions
  simp only [List.map_flatMap, List.map_map]
  rfl

theorem Mention.alike_error {m m' : Mention} (h : m.ownerAndName = m'.ownerAndName) :
    m.error.Alike m'.error := by
  obtain ⟨owner, f, name⟩ := m
  obtain ⟨owner', g, name'⟩ := m'
  obtain ⟨rfl, rfl⟩ := Prod.mk.inj h
  exact ⟨rfl, .field owner f g⟩

namespace Agree

variable {S S' : Provider} {root : String} {names : List String}

theorem map_find?_eq (h : S.Agree S' root) (horder : S.DiscoveryOrder root names) :
    ((S.mentionsAmong names).find? fun m => !S.resolves m.name).map Mention.ownerAndName =
      ((S'.mentionsAmong names).find? fun m => !S'.resolves m.name).map
        Mention.ownerAndName := by
  have hmap : ∀ T : Provider,
      ((T.mentionsAmong names).find? fun m => !T.resolves m.name).map Mention.ownerAndName =
        (names.flatMap fun owner => (T.mentions owner).map fun name => (owner, name)).find?
          fun p => !T.resolves p.2 := by
    intro T
    rw [← map_mentionsAmong, List.find?_map]
    rfl
  have hsame : (names.flatMap fun owner => (S.mentions owner).map fun name => (owner, name)) =
      names.flatMap fun owner => (S'.mentions owner).map fun name => (owner, name) :=
    List.flatMap_congr fun owner howner => by
      rw [h.mentions owner ((horder.mem_iff owner).1 howner)]
  rw [hmap, hmap, ← hsame, ← List.head?_filter, ← List.head?_filter]
  congr 1
  refine List.filter_congr fun p hp => ?_
  obtain ⟨owner, howner, hp⟩ := List.mem_flatMap.1 hp
  obtain ⟨name, hname, rfl⟩ := List.mem_map.1 hp
  rw [h.resolves name (.mention ((horder.mem_iff owner).1 howner) hname)]

/-- A name without a type is found in both or in neither, and it is one name of one owner. -/
theorem faultAmong?_cases (h : S.Agree S' root) (horder : S.DiscoveryOrder root names) :
    (S.faultAmong? names = none ∧ S'.faultAmong? names = none) ∨
      ∃ e e', S.faultAmong? names = some e ∧ S'.faultAmong? names = some e' ∧ e.Alike e' := by
  have hsame := h.map_find?_eq horder
  rw [faultAmong?_eq, faultAmong?_eq]
  cases hfind : (S.mentionsAmong names).find? fun m => !S.resolves m.name with
  | none =>
      rw [hfind, Option.map_none, eq_comm, Option.map_eq_none_iff] at hsame
      rw [hsame]
      exact .inl ⟨rfl, rfl⟩
  | some m =>
      rw [hfind, Option.map_some, eq_comm, Option.map_eq_some_iff] at hsame
      obtain ⟨m', hfind', heq⟩ := hsame
      rw [hfind']
      exact .inr ⟨_, _, rfl, rfl, Mention.alike_error heq.symm⟩

end Agree

end Provider

namespace TypeGraph

open Provider

variable {S S' : Provider} {root : String}

theorem rootError?_eq_of_agree (h : S.Agree S' root) : rootError? S root = rootError? S' root := by
  unfold rootError?
  rw [h.isComposite root .root, h.resolves root .root]

/-- Providers that agree give one graph, or errors that are alike. -/
theorem discover_alike (h : S.Agree S' root) (finite : S.FinitelyReaches root)
    (finite' : S'.FinitelyReaches root) :
    (∃ g, discover S root finite = .ok g ∧ discover S' root finite' = .ok g) ∨
      ∃ e e', discover S root finite = .error e ∧ discover S' root finite' = .error e' ∧
        e.Alike e' := by
  cases hroot : rootError? S root with
  | some e =>
      have hroot' := rootError?_eq_of_agree h ▸ hroot
      refine .inr ⟨e, e, ?_, ?_, .refl e⟩
      · simp only [discover, hroot]
      · simp only [discover, hroot']
  | none =>
      have hcomposite := rootError?_eq_none_iff.1 hroot
      have hcomposite' := h.isComposite root .root ▸ hcomposite
      obtain ⟨names, horder, hdiscover⟩ := discover_of_isComposite finite hcomposite
      obtain ⟨names', horder', hdiscover'⟩ := discover_of_isComposite finite' hcomposite'
      have hnames : names' = names := horder'.unique (h.discoveryOrder horder)
      subst hnames
      rw [← h.complete_eq horder] at hdiscover'
      rw [hdiscover, hdiscover']
      rcases h.faultAmong?_cases horder with ⟨hnone, hnone'⟩ | ⟨e, e', hsome, hsome', halike⟩
      · rw [hnone, hnone']
        dsimp only
        cases ofSearch (Search.complete S names') with
        | ok g => exact .inl ⟨g, rfl, rfl⟩
        | error e => exact .inr ⟨e, e, rfl, rfl, .refl e⟩
      · rw [hsome, hsome']
        exact .inr ⟨e, e', rfl, rfl, halike⟩

end TypeGraph

end InstanceForge

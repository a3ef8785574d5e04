import InstanceForge.Proofs.Schema.Registry.Operations

/-!
# Coherent registries

In a registry that operations reach every name is declared once, only records have fields, and
no record has two of one name. The answers about a name follow from the one declaration of it.
-/

namespace InstanceForge

namespace Registry

variable {r next : Registry} {d : TypeDecl} {name : String}

/-- Every name is declared once, and every declaration is proper. -/
structure Coherent (r : Registry) : Prop where
  nodup : r.names.Nodup
  proper : ∀ d ∈ r.decls, d.Proper

/-! ## Steps -/

theorem coherent_empty : empty.Coherent :=
  ⟨List.nodup_nil, fun d hd => by cases hd⟩

theorem AcceptsAll.names_eq {doc : Schema.Document} {ds : List TypeDecl}
    (h : r.AcceptsAll doc ds) : ds.map (·.name) = doc.map Prod.fst :=
  (map_eq_map_of_forall₂ h fun _ _ hboth => hboth.1.name.symm).symm

theorem AcceptsAll.accepts {doc : Schema.Document} {ds : List TypeDecl}
    (h : r.AcceptsAll doc ds) : ∀ d ∈ ds, r.Accepts d := by
  intro d hd
  obtain ⟨_, _, _, haccepts⟩ := exists_of_forall₂ h.flip hd
  exact haccepts

/-- What an operation declares is accepted, and its names are distinct. -/
theorem Effect.accepts {op : Operation} {declared : List TypeDecl} {error : Option SchemaError}
    (h : Effect r op declared error) :
    (declared.map (·.name)).Nodup ∧ ∀ d ∈ declared, r.Accepts d := by
  cases h with
  | declared _ haccepts => exact ⟨List.nodup_singleton _, List.forall_mem_singleton.2 haccepts⟩
  | refused => exact ⟨List.nodup_nil, List.forall_mem_nil _⟩
  | malformed => exact ⟨List.nodup_nil, List.forall_mem_nil _⟩
  | merged _ hascending hall => exact ⟨hall.names_eq ▸ hascending.nodup, hall.accepts⟩
  | stopped _ _ hascending _ _ hall =>
      refine ⟨?_, hall.accepts⟩
      rw [hall.names_eq]
      exact hascending.nodup.sublist (List.filter_sublist.map _)

theorem Coherent.effect {op : Operation} {declared : List TypeDecl}
    {error : Option SchemaError} (h : r.Coherent) (heffect : Effect r op declared error)
    (hnext : next.decls = r.decls ++ declared) : next.Coherent := by
  obtain ⟨hnodup, haccepts⟩ := heffect.accepts
  constructor
  · rw [names, hnext, List.map_append, List.nodup_append]
    refine ⟨h.nodup, hnodup, ?_⟩
    rintro name hold other hnew rfl
    obtain ⟨d, hd, rfl⟩ := List.mem_map.1 hnew
    exact (haccepts d hd).fresh hold
  · rw [hnext]
    exact List.forall_mem_append.2 ⟨h.proper, fun d hd => (haccepts d hd).proper⟩

theorem Coherent.history {ops : List Operation} {log : List TypeDecl} {last : Registry}
    (h : r.Coherent) (hhistory : History r ops log last) : last.Coherent := by
  induction hhistory with
  | nil => exact h
  | cons _ heffect hnext _ ih => exact ih (h.effect heffect hnext)

/-! ## Answers -/

/-- What the registry answers about names, in terms of its declarations. -/
structure Answers (r : Registry) : Prop where
  get?_eq_some_iff : ∀ name d, r.get? name = some d ↔ d ∈ r.decls ∧ d.name = name
  get?_eq_none_iff : ∀ name, r.get? name = none ↔ name ∉ r.names
  isComposite_iff : ∀ name, r.provider.isComposite name = true ↔
    ∃ fields, ⟨name, .record, fields⟩ ∈ r.decls
  fieldsOf_eq_some_iff : ∀ name fields, r.provider.fieldsOf name = some fields ↔
    ⟨name, .record, fields⟩ ∈ r.decls
  resolves_iff : ∀ name, r.provider.resolves name = true ↔ name ∈ r.names ∨ name ∈ builtinNames
  kindOf?_declared : ∀ d ∈ r.decls, r.kindOf? d.name = some d.kind
  kindOf?_undeclared : ∀ name, name ∉ r.names ->
    r.kindOf? name = if name ∈ builtinNames then some .opaqueType else none

theorem Coherent.get?_eq_some_iff (h : r.Coherent) :
    r.get? name = some d ↔ d ∈ r.decls ∧ d.name = name := by
  constructor
  · intro hget
    exact ⟨List.mem_of_find?_eq_some hget, by simpa using List.find?_some hget⟩
  · rintro ⟨hd, rfl⟩
    have hmem : d.name ∈ r.names := List.mem_map_of_mem hd
    cases hget : r.get? d.name with
    | none => exact absurd hmem (Registry.get?_eq_none_iff.1 hget)
    | some found =>
        have hname : found.name = d.name := by simpa using List.find?_some hget
        have hfound := List.mem_of_find?_eq_some hget
        rw [List.inj_on_of_nodup_map h.nodup hfound hd hname]

/-- The fields of a name are those of the record that is declared for it. -/
theorem Coherent.fieldsOf_eq_some_iff (h : r.Coherent) {fields : List Field} :
    r.provider.fieldsOf name = some fields ↔ ⟨name, .record, fields⟩ ∈ r.decls := by
  have hget : r.get? name = some ⟨name, .record, fields⟩ ↔ ⟨name, .record, fields⟩ ∈ r.decls := by
    rw [h.get?_eq_some_iff, and_iff_left rfl]
  rw [← hget, provider]
  dsimp only
  split
  · next found hfound =>
      obtain ⟨_, hname⟩ := h.get?_eq_some_iff.1 hfound
      obtain ⟨_, kind, others⟩ := found
      cases hname
      cases kind <;> simp [hfound]
  · next hnone => simp [hnone]

theorem isComposite_eq_isSome (r : Registry) (name : String) :
    r.provider.isComposite name = (r.provider.fieldsOf name).isSome := by
  simp only [provider]
  split
  · next found _ =>
      by_cases hkind : found.kind = .record <;> simp [hkind]
  · rfl

theorem kindOf?_undeclared (h : name ∉ r.names) :
    r.kindOf? name = if name ∈ builtinNames then some .opaqueType else none := by
  rw [kindOf?, get?_eq_none_iff.2 h]

theorem Coherent.kindOf?_declared (h : r.Coherent) (hd : d ∈ r.decls) :
    r.kindOf? d.name = some d.kind := by
  rw [kindOf?, h.get?_eq_some_iff.2 ⟨hd, rfl⟩]

theorem Coherent.resolves_iff (h : r.Coherent) :
    r.provider.resolves name = true ↔ name ∈ r.names ∨ name ∈ builtinNames := by
  rw [provider]
  dsimp only
  by_cases hmem : name ∈ r.names
  · obtain ⟨d, hd, rfl⟩ := List.mem_map.1 hmem
    simp [h.kindOf?_declared hd, hmem]
  · rw [kindOf?_undeclared hmem]
    by_cases hbuiltin : name ∈ builtinNames <;> simp [hbuiltin, hmem]

theorem Coherent.answers (h : r.Coherent) : r.Answers where
  get?_eq_some_iff _ _ := h.get?_eq_some_iff
  get?_eq_none_iff _ := Registry.get?_eq_none_iff
  isComposite_iff name := by
    rw [isComposite_eq_isSome, Option.isSome_iff_exists]
    exact exists_congr fun fields => h.fieldsOf_eq_some_iff
  fieldsOf_eq_some_iff _ _ := h.fieldsOf_eq_some_iff
  resolves_iff _ := h.resolves_iff
  kindOf?_declared _ hd := h.kindOf?_declared hd
  kindOf?_undeclared _ hmem := Registry.kindOf?_undeclared hmem

end Registry

end InstanceForge

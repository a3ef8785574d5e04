import InstanceForge.Proofs.Schema.Registry.Indexed
import Mathlib.Data.List.Perm.Basic

/-!
# Documents in another order

Documents are merged one after another, up to the first that is not accepted. Whether all of them
are accepted can be said without an order: each declares proper types, and no name is declared
twice. So they are accepted in every order or in none, and the registries differ in the order of
their declarations alone, which no answer about a name shows.
-/

namespace InstanceForge

namespace Registry

variable {r s next : Registry}

def extendAll (r : Registry) (sources : List (DocumentFormat × String)) :
    Except SchemaError Registry :=
  sources.foldlM (fun r source => r.extend source.1 source.2) r

def ofDocuments (sources : List (DocumentFormat × String)) : Except SchemaError Registry :=
  empty.extendAll sources

/-! ## One document -/

/-- What a document declares wherever its names are new. -/
def Declares (source : DocumentFormat × String) (ds : List TypeDecl) : Prop :=
  ∃ doc, Schema.Document.read? source.1 source.2 = some doc ∧
    List.Forall₂ (fun p d => Writes p d ∧ d.Proper) doc ds

theorem Writes.unique {p : String × Schema.WrittenType} {c d : TypeDecl} (hc : Writes p c)
    (hd : Writes p d) : c = d := by
  have hread : Relator.RightUnique fun (w : Schema.WrittenField) (f : Field) =>
      f.name = w.name ∧ TypeRef.parse w.type = .ok f.type := by
    rintro w ⟨_, type⟩ ⟨_, other⟩ ⟨rfl, htype⟩ ⟨rfl, hother⟩
    have hsame : type = other := Except.ok.inj (htype.symm.trans hother)
    rw [hsame]
  have hfields := List.right_unique_forall₂' hread hc.fields hd.fields
  cases c
  cases d
  simp only [TypeDecl.mk.injEq]
  exact ⟨hc.name.trans hd.name.symm, hc.kind.trans hd.kind.symm, hfields⟩

theorem AcceptsAll.unique {doc : Schema.Document} {cs ds : List TypeDecl}
    (hc : r.AcceptsAll doc cs) (hd : s.AcceptsAll doc ds) : cs = ds := by
  have hwrites : Relator.RightUnique Writes := fun _ _ _ hc hd => hc.unique hd
  exact List.right_unique_forall₂' hwrites (hc.imp fun _ _ h => h.1) (hd.imp fun _ _ h => h.1)

theorem acceptsAll_iff {doc : Schema.Document} {ds : List TypeDecl} :
    r.AcceptsAll doc ds ↔ List.Forall₂ (fun p d => Writes p d ∧ d.Proper) doc ds ∧
      ∀ d ∈ ds, d.name ∉ r.names := by
  constructor
  · intro h
    exact ⟨h.imp fun _ _ hboth => ⟨hboth.1, hboth.2.proper⟩, fun d hd => (h.accepts d hd).fresh⟩
  · rintro ⟨hproper, hfresh⟩
    have hall := (List.forall₂_and_left _ _).2 ⟨hfresh, hproper.flip⟩
    exact hall.flip.imp fun _ _ h => ⟨h.2.1, ⟨h.2.2, h.1⟩⟩

/-- A document whose types are all accepted is merged as a whole. -/
theorem Effect.eq_of_acceptsAll {format : DocumentFormat} {text : String}
    {doc : Schema.Document} {declared ds : List TypeDecl} {error : Option SchemaError}
    (h : Effect r (.document format text) declared error)
    (hread : Schema.Document.read? format text = some doc) (hall : r.AcceptsAll doc ds) :
    declared = ds ∧ error = none := by
  cases h with
  | declared hop => cases hop
  | refused _ hop => cases hop
  | malformed hnone =>
      rw [hread] at hnone
      cases hnone
  | merged hsome _ hmerged =>
      rw [hread, Option.some.injEq] at hsome
      subst hsome
      exact ⟨hmerged.unique hall, rfl⟩
  | stopped _ hsome _ hp hfail =>
      rw [hread, Option.some.injEq] at hsome
      subst hsome
      obtain ⟨d, _, hwrites, haccepts⟩ := exists_of_forall₂ hall hp
      exact absurd haccepts (hfail d hwrites)

theorem extend_eq_ok_iff_addDocument {format : DocumentFormat} {text : String} :
    r.extend format text = .ok next ↔ r.addDocument format text = (next, none) := by
  rw [extend]
  split
  · next other hother => simp [hother]
  · next other e hother => simp [hother]

/-- A document that is merged declares its types, and the names of all of them are new. -/
theorem extend_eq_ok_iff {source : DocumentFormat × String} :
    r.extend source.1 source.2 = .ok next ↔
      ∃ ds, Declares source ds ∧ (∀ d ∈ ds, d.name ∉ r.names) ∧ next = r.addAll ds := by
  obtain ⟨format, text⟩ := source
  obtain ⟨declared, heffect, hdecls⟩ := effect_apply r (.document format text)
  have hadded : (r.addDocument format text).1 = r.addAll declared := congrArg mk hdecls
  rw [apply] at heffect
  rw [extend_eq_ok_iff_addDocument]
  constructor
  · intro h
    rw [h] at heffect hadded
    cases heffect with
    | declared hop => cases hop
    | merged hread _ hall =>
        obtain ⟨hproper, hfresh⟩ := acceptsAll_iff.1 hall
        exact ⟨declared, ⟨_, hread, hproper⟩, hfresh, hadded⟩
  · rintro ⟨ds, ⟨doc, hread, hproper⟩, hfresh, rfl⟩
    obtain ⟨rfl, hnone⟩ := heffect.eq_of_acceptsAll hread (acceptsAll_iff.2 ⟨hproper, hfresh⟩)
    exact Prod.ext hadded hnone

/-! ## Several documents -/

theorem names_addAll (r : Registry) (ds : List TypeDecl) :
    (r.addAll ds).names = r.names ++ ds.map (·.name) := by
  simp [names, addAll]

theorem addAll_append (r : Registry) (cs ds : List TypeDecl) :
    r.addAll (cs ++ ds) = (r.addAll cs).addAll ds := by
  simp [addAll]

/-- The declarations that a document writes have its names. -/
theorem map_fst_eq_of_writes {doc : Schema.Document} {ds : List TypeDecl}
    (h : List.Forall₂ (fun p d => Writes p d ∧ d.Proper) doc ds) :
    doc.map Prod.fst = ds.map (·.name) :=
  map_eq_map_of_forall₂ h fun _ _ hboth => hboth.1.name.symm

theorem Declares.nodup {source : DocumentFormat × String} {ds : List TypeDecl}
    (h : Declares source ds) : (ds.map (·.name)).Nodup := by
  obtain ⟨doc, hread, hproper⟩ := h
  exact map_fst_eq_of_writes hproper ▸ (Schema.Document.ascending_read? hread).nodup

theorem Declares.proper {source : DocumentFormat × String} {ds : List TypeDecl}
    (h : Declares source ds) : ∀ d ∈ ds, d.Proper := by
  obtain ⟨_, _, hproper⟩ := h
  intro d hd
  obtain ⟨_, _, _, hd⟩ := exists_of_forall₂ hproper.flip hd
  exact hd

theorem nodup_names_addAll {source : DocumentFormat × String} {ds : List TypeDecl}
    (h : Declares source ds) (hr : r.names.Nodup) :
    (r.addAll ds).names.Nodup ↔ ∀ d ∈ ds, d.name ∉ r.names := by
  rw [names_addAll, List.nodup_append', and_iff_right hr, and_iff_right h.nodup,
    List.disjoint_comm]
  exact List.forall_mem_map

theorem nodup_of_nodup_names_addAll {ds : List TypeDecl} (h : (r.addAll ds).names.Nodup) :
    r.names.Nodup := by
  rw [names_addAll] at h
  exact h.of_append_left

/-- Documents are merged exactly if no name is declared twice by them and what was there. -/
theorem extendAll_eq_ok_iff {sources : List (DocumentFormat × String)} (hr : r.names.Nodup) :
    r.extendAll sources = .ok next ↔
      ∃ dss, List.Forall₂ Declares sources dss ∧ (r.addAll dss.flatten).names.Nodup ∧
        next = r.addAll dss.flatten := by
  induction sources generalizing r with
  | nil =>
      have hnone : r.addAll [] = r := congrArg mk (List.append_nil _)
      simp only [List.forall₂_nil_left_iff, exists_eq_left, List.flatten_nil, hnone]
      rw [and_iff_right hr, extendAll, List.foldlM_nil]
      constructor
      · intro h
        exact (Except.ok.inj h).symm
      · rintro rfl
        rfl
  | cons source rest ih =>
      rw [extendAll, List.foldlM_cons, bind_eq_ok_iff]
      constructor
      · rintro ⟨mid, hmid, hrest⟩
        obtain ⟨ds, hds, hfresh, rfl⟩ := extend_eq_ok_iff.1 hmid
        obtain ⟨dss, hdss, hnodup, rfl⟩ := (ih ((nodup_names_addAll hds hr).2 hfresh)).1 hrest
        rw [← addAll_append] at hnodup ⊢
        exact ⟨ds :: dss, .cons hds hdss, hnodup, rfl⟩
      · rintro ⟨_, hall, hnodup, hnext⟩
        obtain ⟨ds, dss, hds, hdss, rfl⟩ := List.forall₂_cons_left_iff.1 hall
        rw [List.flatten_cons, addAll_append] at hnodup hnext
        have hmid := nodup_of_nodup_names_addAll hnodup
        exact ⟨r.addAll ds,
          extend_eq_ok_iff.2 ⟨ds, hds, (nodup_names_addAll hds hr).1 hmid, rfl⟩,
          (ih hmid).2 ⟨dss, hdss, hnodup, hnext⟩⟩

theorem ofDocuments_eq_ok_iff {sources : List (DocumentFormat × String)} :
    ofDocuments sources = .ok r ↔
      ∃ dss, List.Forall₂ Declares sources dss ∧ r.names.Nodup ∧ r.decls = dss.flatten := by
  rw [ofDocuments, extendAll_eq_ok_iff coherent_empty.nodup]
  refine exists_congr fun dss => and_congr_right fun _ => ?_
  have hflat : empty.addAll dss.flatten = ⟨dss.flatten⟩ := rfl
  rw [hflat]
  constructor
  · rintro ⟨hnodup, rfl⟩
    exact ⟨hnodup, rfl⟩
  · rintro ⟨hnodup, hdecls⟩
    rw [← hdecls]
    exact ⟨hnodup, rfl⟩

/-! ## Documents as operations -/

def Operation.documents (sources : List (DocumentFormat × String)) : List Operation :=
  sources.map fun source => .document source.1 source.2

theorem runFrom_of_extendAll {sources : List (DocumentFormat × String)}
    (h : r.extendAll sources = .ok next) : r.runFrom (Operation.documents sources) = next := by
  induction sources generalizing r with
  | nil => exact Except.ok.inj h
  | cons source rest ih =>
      rw [extendAll, List.foldlM_cons, bind_eq_ok_iff] at h
      obtain ⟨mid, hmid, hrest⟩ := h
      have hadded : (r.apply (.document source.1 source.2)).1 = mid :=
        congrArg Prod.fst (extend_eq_ok_iff_addDocument.1 hmid)
      rw [Operation.documents, List.map_cons, runFrom, hadded]
      exact ih hrest

/-! ## Another order -/

theorem coherent_of_ofDocuments {sources : List (DocumentFormat × String)}
    (h : ofDocuments sources = .ok r) : r.Coherent := by
  obtain ⟨dss, hdss, hnodup, hdecls⟩ := ofDocuments_eq_ok_iff.1 h
  refine ⟨hnodup, fun d hd => ?_⟩
  rw [hdecls, List.mem_flatten] at hd
  obtain ⟨ds, hds, hd⟩ := hd
  obtain ⟨_, _, hdeclares⟩ := exists_of_forall₂ hdss.flip hds
  exact Declares.proper hdeclares d hd

/-- The registry kept as three structures shows what the documents declare. -/
theorem shows_of_ofDocuments {sources : List (DocumentFormat × String)}
    (h : ofDocuments sources = .ok r) :
    (IndexedRegistry.run (Operation.documents sources)).Shows r := by
  have hholds := IndexedRegistry.holds_empty.runFrom (Operation.documents sources)
  rw [runFrom_of_extendAll h] at hholds
  exact hholds.shows (coherent_of_ofDocuments h)

theorem exists_ofDocuments_of_perm {sources others : List (DocumentFormat × String)}
    (hperm : sources.Perm others) (h : ofDocuments sources = .ok r) :
    ∃ s, ofDocuments others = .ok s ∧ r.decls.Perm s.decls := by
  obtain ⟨dss, hdss, hnodup, hdecls⟩ := ofDocuments_eq_ok_iff.1 h
  obtain ⟨dss', hdss', hperm'⟩ := List.perm_comp_forall₂ hperm.symm hdss
  have hsame : r.decls.Perm dss'.flatten := hdecls ▸ hperm'.symm.flatten
  have hnodup' : (dss'.flatten.map (·.name)).Nodup := (hsame.map _).nodup_iff.1 hnodup
  exact ⟨⟨dss'.flatten⟩, ofDocuments_eq_ok_iff.2 ⟨dss', hdss', hnodup', rfl⟩, hsame⟩

/-- Registries that differ in the order of their declarations alone. -/
structure Alike (r s : Registry) : Prop where
  perm : r.decls.Perm s.decls
  get?_eq : ∀ name, r.get? name = s.get? name
  kindOf?_eq : ∀ name, r.kindOf? name = s.kindOf? name
  isComposite_eq : ∀ name, r.provider.isComposite name = s.provider.isComposite name
  fieldsOf_eq : ∀ name, r.provider.fieldsOf name = s.provider.fieldsOf name
  resolves_eq : ∀ name, r.provider.resolves name = s.provider.resolves name

theorem Coherent.get?_eq_of_perm (hr : r.Coherent) (hs : s.Coherent)
    (hperm : r.decls.Perm s.decls) (name : String) : r.get? name = s.get? name := by
  ext d
  rw [hr.get?_eq_some_iff, hs.get?_eq_some_iff, hperm.mem_iff]

theorem Coherent.alike (hr : r.Coherent) (hs : s.Coherent) (hperm : r.decls.Perm s.decls) :
    r.Alike s := by
  have hget := hr.get?_eq_of_perm hs hperm
  have hkind : ∀ name, r.kindOf? name = s.kindOf? name := by
    intro name
    rw [kindOf?, kindOf?, hget]
  refine ⟨hperm, hget, hkind, fun name => ?_, fun name => ?_, fun name => ?_⟩
  · simp only [provider, hget]
  · simp only [provider, hget]
  · simp only [provider, hkind]

/-- All that a provider answers is asked by name. -/
theorem Alike.provider_eq (h : r.Alike s) : r.provider = s.provider := by
  have hcomposite := funext h.isComposite_eq
  have hfields := funext h.fieldsOf_eq
  have hresolves := funext h.resolves_eq
  cases hr : r.provider
  cases hs : s.provider
  simp_all

/-- Documents are merged in every order or in none, into registries that are alike. -/
theorem ofDocuments_of_perm {sources others : List (DocumentFormat × String)}
    (hperm : sources.Perm others) :
    (∃ e e', ofDocuments sources = .error e ∧ ofDocuments others = .error e') ∨
      ∃ r s, ofDocuments sources = .ok r ∧ ofDocuments others = .ok s ∧ r.Alike s := by
  cases h : ofDocuments sources with
  | ok r =>
      obtain ⟨s, hs, hdecls⟩ := exists_ofDocuments_of_perm hperm h
      exact .inr ⟨r, s, rfl, hs,
        (coherent_of_ofDocuments h).alike (coherent_of_ofDocuments hs) hdecls⟩
  | error e =>
      cases h' : ofDocuments others with
      | ok s =>
          obtain ⟨r, hr, _⟩ := exists_ofDocuments_of_perm hperm.symm h'
          rw [h] at hr
          cases hr
      | error e' => exact .inl ⟨e, e', rfl, rfl⟩

end Registry

end InstanceForge

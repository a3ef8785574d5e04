import InstanceForge.Proofs.Schema.Registry.Merging
import InstanceForge.Proofs.Schema.Written
import Mathlib.Data.List.Permutation

/-!
# Types that are declared twice

A type that is declared again by a later document is refused, and so is a TOML document that
defines a type twice. A JSON document may write a type twice: the registry is asked only after the
entries have been merged by name, and of the entries of one name all but the last are lost.
-/

namespace InstanceForge

namespace Registry

variable {r s next : Registry} {format : DocumentFormat} {text : String} {d : Datum}
  {name : String}

/-! ## One document -/

/-- The registry after entries of a document, with a declaration from the last of each name. -/
structure Takes (r : Registry) (format : DocumentFormat) (entries : List (Literal × Datum))
    (next : Registry) : Prop where
  size_eq : next.size = r.size + (entries.map Prod.fst).dedup.length
  decls_eq : ∃ ds, next.decls = r.decls ++ ds ∧
    ∀ c, c ∈ ds ↔ ∃ value t, Json.lookup? c.name entries = some value ∧
      Schema.Document.type? format value = some t ∧ Writes (c.name, t) c

theorem mem_iff_of_forall₂ {doc : Schema.Document} {ds : List TypeDecl}
    (h : List.Forall₂ (fun p c => Writes p c ∧ c.Proper) doc ds) (c : TypeDecl) :
    c ∈ ds ↔ ∃ t, (c.name, t) ∈ doc ∧ Writes (c.name, t) c := by
  constructor
  · intro hc
    obtain ⟨⟨name, t⟩, hp, hwrites, _⟩ := exists_of_forall₂ h.flip hc
    have hname : c.name = name := hwrites.name
    rw [hname]
    exact ⟨t, hp, hwrites⟩
  · rintro ⟨t, hp, hwrites⟩
    obtain ⟨other, hother, hwrites', _⟩ := exists_of_forall₂ h hp
    exact hwrites.unique hwrites' ▸ hother

/-- What a document declares that is merged. -/
theorem declares_of_extend (h : r.extend format text = .ok next) :
    ∃ d doc ds, format.read text = some d ∧ Schema.Document.ofDatum? format d = some doc ∧
      List.Forall₂ (fun p c => Writes p c ∧ c.Proper) doc ds ∧ (∀ c ∈ ds, c.name ∉ r.names) ∧
      next = r.addAll ds := by
  obtain ⟨ds, ⟨doc, hread, hproper⟩, hfresh, hnext⟩ :=
    (@extend_eq_ok_iff r next (format, text)).1 h
  obtain ⟨d, hd, hdoc⟩ := Schema.Document.read?_eq_some_iff.1 hread
  exact ⟨d, doc, ds, hd, hdoc, hproper, hfresh, hnext⟩

theorem takes_of_extend (h : r.extend format text = .ok next) :
    ∃ d, format.read text = some d ∧ r.Takes format (Schema.Document.written d) next ∧
      (next.size = r.size + (Schema.Document.written d).length ↔
        ((Schema.Document.written d).map Prod.fst).Nodup) := by
  obtain ⟨d, doc, ds, hread, hdoc, hproper, _, rfl⟩ := declares_of_extend h
  have hsize : (r.addAll ds).size = r.size + doc.length := by
    rw [size, addAll, List.length_append, ← hproper.length_eq, size]
  refine ⟨d, hread, ⟨?_, ds, rfl, fun c => ?_⟩, ?_⟩
  · rw [hsize, Schema.Document.length_ofDatum? hdoc]
  · rw [mem_iff_of_forall₂ hproper]
    simp only [Schema.Document.mem_ofDatum?_iff hdoc]
    grind
  · rw [hsize, Nat.add_left_cancel_iff, Schema.Document.length_ofDatum?_eq_iff hdoc]

/-! ## A second document -/

/-- A proper type under a declared name is refused for its name. -/
theorem declareWritten_of_mem {t : Schema.WrittenType} {c : TypeDecl} (hwrites : Writes (name, t) c)
    (hproper : c.Proper) (hmem : c.name ∈ r.names) :
    r.declareWritten name t = .error (.duplicateType name) := by
  have hname : c.name = name := hwrites.name
  have hkind : c.kind = t.kind := hwrites.kind
  have hdeclare : ∀ kind fields, r.declare ⟨name, kind, fields⟩ = .error (.duplicateType name) :=
    fun kind fields => declare_of_mem (hname ▸ hmem)
  have hnone : t.kind ≠ .record -> t.fields.isEmpty = true := by
    intro hother
    have hnil := hproper.fields_eq_nil (hkind ▸ hother)
    have hfields := hwrites.fields
    rw [hnil, List.forall₂_nil_right_iff] at hfields
    rw [hfields]
    rfl
  rw [declareWritten]
  cases hcase : t.kind with
  | record =>
      have hnodup : repeatedField? [] c.fields = none :=
        repeatedField?_eq_none_iff.2 ⟨hproper.nodup, fun _ _ => List.not_mem_nil⟩
      dsimp only
      rw [((writes_record_iff hcase).1 hwrites).2]
      dsimp only
      rw [declareRecord, hnodup]
      exact hdeclare _ _
  | enum =>
      dsimp only
      rw [if_pos (hnone (by simp [hcase]))]
      exact hdeclare _ _
  | opaqueType =>
      dsimp only
      rw [if_pos (hnone (by simp [hcase]))]
      exact hdeclare _ _

/-- Of proper types the first with a declared name is refused, and the others do not matter. -/
theorem addTypes_of_mem {doc : Schema.Document} {ds : List TypeDecl}
    (h : List.Forall₂ (fun p c => Writes p c ∧ c.Proper) doc ds) (hnodup : (doc.map Prod.fst).Nodup)
    (hmem : ∃ c ∈ ds, c.name ∈ r.names) :
    ∃ name ∈ doc.map Prod.fst, name ∈ r.names ∧
      (r.addTypes doc).2 = some (.duplicateType name) := by
  induction h generalizing r with
  | nil =>
      obtain ⟨_, hc, _⟩ := hmem
      cases hc
  | @cons p c doc ds hboth hrest ih =>
      obtain ⟨name, t⟩ := p
      obtain ⟨hwrites, hproper⟩ := hboth
      have hname : c.name = name := hwrites.name
      obtain ⟨hnew, hnodup⟩ := List.nodup_cons.1 hnodup
      rw [addTypes]
      by_cases hfirst : c.name ∈ r.names
      · rw [declareWritten_of_mem hwrites hproper hfirst]
        exact ⟨name, List.mem_cons_self, hname ▸ hfirst, rfl⟩
      · rw [declareWritten_eq_ok_iff.2 ⟨c, hwrites, ⟨hproper, hfirst⟩, rfl⟩]
        dsimp only
        obtain ⟨other, hother, hdeclared⟩ := hmem
        have hlater : other ∈ ds :=
          (List.mem_cons.1 hother).resolve_left fun heq => hfirst (heq ▸ hdeclared)
        obtain ⟨twice, htwice, hold, herror⟩ := ih (r := r.add c) hnodup
          ⟨other, hlater, by rw [names_add]; exact List.mem_append_left _ hdeclared⟩
        refine ⟨twice, List.mem_cons_of_mem _ htwice, ?_, herror⟩
        rw [names_add, List.mem_append, List.mem_singleton] at hold
        refine hold.resolve_right fun heq => hnew ?_
        rw [← hname, ← heq]
        exact htwice

def IsWritten (format : DocumentFormat) (text name : String) : Prop :=
  ∃ d, format.read text = some d ∧ .text name ∈ (Schema.Document.written d).map Prod.fst

theorem IsWritten.mem_names {doc : Schema.Document} {ds : List TypeDecl}
    (h : IsWritten format text name) (hread : format.read text = some d)
    (hdoc : Schema.Document.ofDatum? format d = some doc)
    (hproper : List.Forall₂ (fun p c => Writes p c ∧ c.Proper) doc ds) :
    ∃ c ∈ ds, c.name = name := by
  obtain ⟨_, hsame, hname⟩ := h
  rw [hread, Option.some.injEq] at hsame
  subst hsame
  rw [← Schema.Document.mem_names_iff hdoc, map_fst_eq_of_writes hproper] at hname
  exact List.mem_map.1 hname

theorem mem_names_of_extend (h : r.extend format text = .ok next)
    (hname : IsWritten format text name) : name ∈ next.names := by
  obtain ⟨d, doc, ds, hread, hdoc, hproper, _, rfl⟩ := declares_of_extend h
  obtain ⟨c, hc, rfl⟩ := hname.mem_names hread hdoc hproper
  rw [names_addAll]
  exact List.mem_append_right _ (List.mem_map_of_mem hc)

/-- A document that writes a declared type is refused. -/
theorem exists_error_of_mem (hmem : name ∈ r.names) (hname : IsWritten format text name) :
    ∃ e, r.extend format text = .error e := by
  cases hresult : r.extend format text with
  | error e => exact ⟨e, rfl⟩
  | ok next =>
      obtain ⟨d, doc, ds, hread, hdoc, hproper, hfresh, rfl⟩ := declares_of_extend hresult
      obtain ⟨c, hc, rfl⟩ := hname.mem_names hread hdoc hproper
      exact absurd hmem (hfresh c hc)

/-- If nothing else is wrong with the document, it is refused for a type declared before. -/
theorem exists_duplicateType_of_mem (hmem : name ∈ r.names) (hname : IsWritten format text name)
    (halone : s.extend format text = .ok next) :
    ∃ twice, IsWritten format text twice ∧ twice ∈ r.names ∧
      r.extend format text = .error (.duplicateType twice) := by
  obtain ⟨d, doc, ds, hread, hdoc, hproper, _, _⟩ := declares_of_extend halone
  obtain ⟨c, hc, rfl⟩ := hname.mem_names hread hdoc hproper
  have hnodup := (Schema.Document.ascending_ofDatum? hdoc).nodup
  obtain ⟨twice, htwice, hold, herror⟩ := addTypes_of_mem hproper hnodup ⟨c, hc, hmem⟩
  refine ⟨twice, ⟨d, hread, (Schema.Document.mem_names_iff hdoc).1 htwice⟩, hold, ?_⟩
  rw [extend, addDocument, Schema.Document.read?_eq_some_iff.2 ⟨d, hread, hdoc⟩]
  dsimp only
  cases hadded : r.addTypes doc with
  | mk last error =>
      rw [hadded] at herror
      cases herror
      rfl

/-! ## Both formats -/

theorem extend_toml_of_twice (htwice : Toml.DefinesTwice text "types" name) :
    r.extend .toml text = .error .malformed := by
  rw [extend, addDocument, Schema.Document.read?_toml_eq_none htwice]

theorem extend_congr {other : String} {d' : Datum} (hread : format.read text = some d)
    (hother : format.read other = some d')
    (hdoc : (Schema.Document.ofDatum? format d).isSome)
    (hdoc' : (Schema.Document.ofDatum? format d').isSome)
    (hsame : ∀ name, Json.lookup? name (Schema.Document.written d) =
      Json.lookup? name (Schema.Document.written d')) :
    r.extend format text = r.extend format other := by
  obtain ⟨doc, hdoc⟩ := Option.isSome_iff_exists.1 hdoc
  obtain ⟨doc', hdoc'⟩ := Option.isSome_iff_exists.1 hdoc'
  rw [extend, extend, addDocument, addDocument,
    Schema.Document.read?_eq_some_iff.2 ⟨d, hread, hdoc⟩,
    Schema.Document.read?_eq_some_iff.2 ⟨d', hother, hdoc'⟩,
    Schema.Document.eq_of_lookup?_eq hdoc hdoc' hsame]

open Schema.Document in
/--
A JSON document that is merged declares its last entries, so it loses types exactly if it repeats
a name, and nothing but the last entries matters for what it does. A TOML document that is merged
loses none, and one that defines a type twice is refused, as a second document is.
-/
theorem extend_written (r next : Registry) (text other : String) :
    (r.extend .json text = .ok next ->
      ∃ d, Json.read text = some d ∧ r.Takes .json (written d) next ∧
        (next.size = r.size + (written d).length ↔ ((written d).map Prod.fst).Nodup)) ∧
    (∀ d d', Json.read text = some d -> Json.read other = some d' ->
      (ofDatum? .json d).isSome -> (ofDatum? .json d').isSome ->
      (∀ name, Json.lookup? name (written d) = Json.lookup? name (written d')) ->
      r.extend .json text = r.extend .json other) ∧
    (r.extend .toml text = .ok next ->
      ∃ d, Toml.read text = some d ∧ r.Takes .toml (written d) next ∧
        next.size = r.size + (written d).length) ∧
    (∀ name, Toml.DefinesTwice text "types" name -> r.extend .toml text = .error .malformed) ∧
    ∀ first second name, r.extend first text = .ok next -> IsWritten first text name ->
      IsWritten second other name ->
      (∃ e, next.extend second other = .error e) ∧
        ∀ s t : Registry, s.extend second other = .ok t -> ∃ twice, IsWritten second other twice ∧
          twice ∈ next.names ∧ next.extend second other = .error (.duplicateType twice) := by
  refine ⟨takes_of_extend, fun d d' hread hother => ?_, fun h => ?_,
    fun _ => extend_toml_of_twice, fun first second name h hname hagain => ?_⟩
  · have hread : DocumentFormat.json.read text = some d := hread
    exact extend_congr hread hother
  · obtain ⟨d, hread, htakes, hsize⟩ := takes_of_extend h
    exact ⟨d, hread, htakes, hsize.2 (nodup_written (Toml.distinctKeys_read hread))⟩
  · have hmem := mem_names_of_extend h hname
    exact ⟨exists_error_of_mem hmem hagain,
      fun _ _ halone => exists_duplicateType_of_mem hmem hagain halone⟩

def twoEntries : String :=
  "\x7b\"types\":\x7b\"A\":\x7b\"fields\":[]\x7d,\"A\":\x7b\"kind\":\"enum\"\x7d\x7d\x7d"

def lastEntry : String :=
  "\x7b\"types\":\x7b\"A\":\x7b\"kind\":\"enum\"\x7d\x7d\x7d"

def inlineEntries : String :=
  "types = \x7bA = \x7b\x7d, A = \x7b\x7d\x7d"

def enumA : Registry :=
  ⟨[⟨"A", .enum, []⟩]⟩

theorem read_twoEntries : Json.read twoEntries = some (.table [(.text "types", .table
    [(.text "A", .table [(.text "fields", .list [])]),
      (.text "A", .table [(.text "kind", .text (.text "enum"))])])]) := by
  cbv

theorem read_lastEntry : Json.read lastEntry = some (.table [(.text "types", .table
    [(.text "A", .table [(.text "kind", .text (.text "enum"))])])]) := by
  cbv

theorem definesTwice_headers : Toml.DefinesTwice "[types.A]\n[types.A]\n" "types" "A" := by
  have hcount : ((Toml.outline? "[types.A]\n[types.A]\n").map fun outline =>
      outline.defined.count ["types", "A"]) = some 2 := by decide +kernel
  obtain ⟨outline, houtline, hcount⟩ := Option.map_eq_some_iff.1 hcount
  exact .inl ⟨outline, houtline, by rw [hcount]; decide⟩

theorem definesTwice_inlineEntries : Toml.DefinesTwice inlineEntries "types" "A" := by
  let body := " \x7bA = \x7b\x7d, A = \x7b\x7d\x7d".toList
  let inner := "A = \x7b\x7d, A = \x7b\x7d\x7d".toList
  have hcount : ((Toml.entriesWithin (2 * body.length + 1) 1 (Toml.skipBlanks inner)).map
      fun r => (r.1.map Prod.fst).count ["A"]) = some 2 := by decide +kernel
  obtain ⟨⟨entries, rest⟩, hentries, hcount⟩ := Option.map_eq_some_iff.1 hcount
  refine .inr ⟨entries, ⟨_, body, inner, rest, .here _, ?_, ?_, hentries⟩, by rw [hcount]; decide⟩
  · decide +kernel
  · decide +kernel

/-- Two entries are written and the document is accepted, but the record is lost. -/
theorem record_lost : ∃ d next, Json.read twoEntries = some d ∧
    empty.extend .json twoEntries = .ok next ∧
    next.size ≠ empty.size + (Schema.Document.written d).length :=
  ⟨_, enumA, read_twoEntries, by decide +kernel, by decide⟩

open Schema.Document in
/-- Of the two entries one is lost in one format, and in the other both are refused. -/
theorem extend_written_enumA :
    (∃ d, Json.read twoEntries = some d ∧ empty.Takes .json (written d) enumA) ∧
      empty.extend .json twoEntries = empty.extend .json lastEntry ∧
      (∃ d, Toml.read "[types.A]\n" = some d ∧ (written d).length = 1) ∧
      empty.extend .toml "[types.A]\n[types.A]\n" = .error .malformed ∧
      empty.extend .toml inlineEntries = .error .malformed ∧
      enumA.extend .json lastEntry = .error (.duplicateType "A") := by
  have hjson : empty.extend .json twoEntries = .ok enumA := by decide +kernel
  have hlast : empty.extend .json lastEntry = .ok enumA := by decide +kernel
  have htoml : empty.extend .toml "[types.A]\n" = .ok ⟨[⟨"A", .record, []⟩]⟩ := by
    decide +kernel
  obtain ⟨hlost, hsame, _, _, hagain⟩ := extend_written empty enumA twoEntries lastEntry
  obtain ⟨_, _, hkept, _⟩ := extend_written empty ⟨[⟨"A", .record, []⟩]⟩ "[types.A]\n" ""
  obtain ⟨_, _, _, hheaders, _⟩ := extend_written empty empty "[types.A]\n[types.A]\n" ""
  obtain ⟨_, _, _, hinline, _⟩ := extend_written empty empty inlineEntries ""
  refine ⟨?_, ?_, ?_, hheaders "A" definesTwice_headers, hinline "A" definesTwice_inlineEntries, ?_⟩
  · obtain ⟨d, hread, htakes, _⟩ := hlost hjson
    exact ⟨d, hread, htakes⟩
  · refine hsame _ _ read_twoEntries read_lastEntry (by decide +kernel) (by decide +kernel) ?_
    intro name
    by_cases hname : "A" = name <;> simp [written, Decoder.valuesOf, Json.lookup?, hname]
  · obtain ⟨d, hread, _, hsize⟩ := hkept htoml
    exact ⟨d, hread, Nat.add_left_cancel (hsize.symm.trans rfl)⟩
  · obtain ⟨_, hduplicate⟩ := hagain .json .json "A" hjson
      ⟨_, read_twoEntries, List.mem_cons_self⟩ ⟨_, read_lastEntry, List.mem_cons_self⟩
    obtain ⟨twice, _, hold, herror⟩ := hduplicate _ _ hlast
    rwa [List.mem_singleton.1 hold] at herror

end Registry

end InstanceForge

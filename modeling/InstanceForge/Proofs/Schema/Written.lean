import InstanceForge.Document.Json.Bounds
import InstanceForge.Proofs.Document.Toml.Definitions
import InstanceForge.Proofs.Document.Toml.Keys
import InstanceForge.Proofs.Schema.Document
import Mathlib.Data.List.Dedup

/-!
# Written types

A document writes its types as the entries of an object. Of the entries of one name only the last
becomes a type of the document, so a document has as many types as its entries have names. An
object of a TOML document has each name once, and the document is not read if it defines a type
twice; an object of a JSON document may repeat a name.
-/

namespace InstanceForge

namespace Schema

namespace Document

variable {format : DocumentFormat} {entries : List (Literal × Datum)} {doc found : Document}
  {d : Datum} {name : String} {t : WrittenType}

/-- The entries that a document writes for its types: those of its member, or of its first item. -/
def written : Datum -> List (Literal × Datum)
  | .table entries =>
      match Decoder.valuesOf "types" entries with
      | [.table types] => types
      | _ => []
  | .list (.table types :: _) => types
  | _ => []

def entriesOf : Option Datum -> List (Literal × Datum)
  | some (.table entries) => entries
  | _ => []

theorem types?_entriesOf {types : Option Datum}
    (h : Decoder.withDefault [] (typeTable? format) types = some doc) :
    types? format (entriesOf types) [] = some doc := by
  cases types with
  | none => exact h
  | some value =>
      cases value with
      | table entries => exact h
      | _ => cases h

theorem valuesOf_of_members? {types : Option Datum}
    (h : Decoder.members? format ["types"] (.table entries) = some [types]) :
    Decoder.valuesOf "types" entries = types.toList := by
  rw [Decoder.members?] at h
  split at h
  · rw [List.mapM_cons, List.mapM_nil] at h
    obtain ⟨member, hmember, hrest⟩ := Option.bind_eq_some_iff.1 h
    cases hrest
    rw [Decoder.member?] at hmember
    split at hmember
    · next hnone =>
        cases hmember
        exact hnone
    · next hone =>
        cases hmember
        exact hone
    · cases hmember
  · cases h

theorem written_of_members? {types : Option Datum}
    (h : Decoder.members? format ["types"] d = some [types]) : written d = entriesOf types := by
  cases d with
  | table entries =>
      rw [written, valuesOf_of_members? h]
      cases types with
      | none => rfl
      | some value => cases value <;> rfl
  | list items =>
      rw [Decoder.members?] at h
      split at h
      · cases items with
        | nil =>
            cases h
            rfl
        | cons first rest =>
            have hfirst : Decoder.openItems 1 (first :: rest) = [some first] := by
              simp [Decoder.openItems]
            rw [List.length_singleton, hfirst] at h
            cases h
            cases first <;> rfl
      · cases h
  | _ => cases h

theorem types?_of_ofDatum? (h : ofDatum? format d = some doc) :
    types? format (written d) [] = some doc := by
  rw [ofDatum?] at h
  split at h
  · next types htypes =>
      rw [written_of_members? htypes]
      exact types?_entriesOf h
  · cases h

/-! ## The last entry of a name -/

theorem mem_put_iff {other : String} {type : WrittenType} (hdoc : Ascending doc) :
    (name, t) ∈ put other type doc ↔
      name = other ∧ t = type ∨ name ≠ other ∧ (name, t) ∈ doc := by
  rw [ascending_iff] at hdoc
  induction doc with
  | nil => simp [put]
  | cons first rest ih =>
      obtain ⟨hfirst, hrest⟩ := List.pairwise_cons.1 hdoc
      have hlt : (name, t) ∈ rest -> first.1 < name := fun h => hfirst (name, t) h
      rw [put]
      split
      · next heq => grind
      split
      · next hbefore => grind
      · next hne hbefore => grind

/-- What is read from entries: the last of each name, and what was there under other names. -/
theorem mem_types?_iff (h : types? format entries doc = some found) (hdoc : Ascending doc) :
    (name, t) ∈ found ↔
      (∃ value, Json.lookup? name entries = some value ∧ type? format value = some t) ∨
        Json.lookup? name entries = none ∧ (name, t) ∈ doc := by
  induction entries generalizing doc with
  | nil =>
      cases h
      simp [Json.lookup?]
  | cons e rest ih =>
      obtain ⟨key, value⟩ := e
      cases key with
      | unpaired => cases h
      | text other =>
          rw [types?] at h
          split at h
          · next type htype =>
              rw [ih h (ascending_put hdoc), mem_put_iff hdoc, Json.lookup?]
              cases Json.lookup? name rest with
              | some found => simp
              | none => by_cases hname : other = name <;> grind
          · cases h

theorem lookup?_eq_none_iff :
    Json.lookup? name entries = none ↔ Literal.text name ∉ entries.map Prod.fst := by
  induction entries with
  | nil => simp [Json.lookup?]
  | cons e rest ih =>
      rw [Json.lookup?, List.map_cons, List.mem_cons, not_or, ← ih]
      split <;> grind

theorem mem_of_lookup? {value : Datum} (h : Json.lookup? name entries = some value) :
    (Literal.text name, value) ∈ entries := by
  induction entries with
  | nil => cases h
  | cons e rest ih =>
      rw [Json.lookup?] at h
      split at h <;> grind

/-- Every entry is a type under a name, also one that is not the last of its name. -/
theorem forall_of_types? (h : types? format entries doc = some found) :
    ∀ e ∈ entries, ∃ name t, e.1 = .text name ∧ type? format e.2 = some t := by
  induction entries generalizing doc with
  | nil => exact List.forall_mem_nil _
  | cons e rest ih =>
      obtain ⟨key, value⟩ := e
      cases key with
      | unpaired => cases h
      | text other =>
          rw [types?] at h
          split at h
          · next type htype => exact List.forall_mem_cons.2 ⟨⟨other, type, rfl, htype⟩, ih h⟩
          · cases h

/-- The types of a document, each read from the last entry of its name. -/
theorem mem_ofDatum?_iff (h : ofDatum? format d = some doc) :
    (name, t) ∈ doc ↔
      ∃ value, Json.lookup? name (written d) = some value ∧ type? format value = some t := by
  rw [mem_types?_iff (types?_of_ofDatum? h) ascending_nil,
    or_iff_left fun hboth => List.not_mem_nil hboth.2]

theorem mem_names_iff (h : ofDatum? format d = some doc) :
    name ∈ doc.map Prod.fst ↔ Literal.text name ∈ (written d).map Prod.fst := by
  constructor
  · intro hname
    obtain ⟨⟨_, t⟩, hmem, rfl⟩ := List.mem_map.1 hname
    obtain ⟨value, hvalue, _⟩ := (mem_ofDatum?_iff h).1 hmem
    exact List.mem_map.2 ⟨_, mem_of_lookup? hvalue, rfl⟩
  · intro hkey
    have hsome : Json.lookup? name (written d) ≠ none :=
      fun hnone => lookup?_eq_none_iff.1 hnone hkey
    obtain ⟨value, hvalue⟩ := Option.ne_none_iff_exists'.1 hsome
    obtain ⟨_, t, _, ht⟩ := forall_of_types? (types?_of_ofDatum? h) _ (mem_of_lookup? hvalue)
    exact List.mem_map.2 ⟨(name, t), (mem_ofDatum?_iff h).2 ⟨value, hvalue, ht⟩, rfl⟩

/-- A document has as many types as its entries have names. -/
theorem length_ofDatum? (h : ofDatum? format d = some doc) :
    doc.length = ((written d).map Prod.fst).dedup.length := by
  have hperm : ((doc.map Prod.fst).map Literal.text).Perm ((written d).map Prod.fst).dedup := by
    refine (List.perm_ext_iff_of_nodup ?_ (List.nodup_dedup _)).2 fun key => ?_
    · exact (ascending_ofDatum? h).nodup.map fun _ _ => Literal.text.inj
    rw [List.mem_dedup, List.mem_map]
    constructor
    · rintro ⟨name, hname, rfl⟩
      exact (mem_names_iff h).1 hname
    · intro hkey
      obtain ⟨e, he, rfl⟩ := List.mem_map.1 hkey
      obtain ⟨name, _, hname, _⟩ := forall_of_types? (types?_of_ofDatum? h) e he
      rw [hname] at hkey ⊢
      exact ⟨name, (mem_names_iff h).2 hkey, rfl⟩
  rw [← hperm.length_eq, List.length_map, List.length_map]

/-- Entries that are not the last of their name have no influence on what is read. -/
theorem eq_of_lookup?_eq {d' : Datum} {doc' : Document} (h : ofDatum? format d = some doc)
    (h' : ofDatum? format d' = some doc')
    (hsame : ∀ name, Json.lookup? name (written d) = Json.lookup? name (written d')) :
    doc = doc' := by
  have hdoc := ascending_ofDatum? h
  have hdoc' := ascending_ofDatum? h'
  have hperm : doc.Perm doc' := by
    refine (List.perm_ext_iff_of_nodup hdoc.nodup.of_map hdoc'.nodup.of_map).2 ?_
    rintro ⟨name, t⟩
    rw [mem_ofDatum?_iff h, mem_ofDatum?_iff h', hsame]
  refine hperm.eq_of_pairwise ?_ hdoc hdoc'
  intro p q _ _ hlt hgt
  exact absurd hgt (List.lt_asymm hlt)

/-- No entry is lost exactly if no name is repeated. -/
theorem length_ofDatum?_eq_iff (h : ofDatum? format d = some doc) :
    doc.length = (written d).length ↔ ((written d).map Prod.fst).Nodup := by
  rw [length_ofDatum? h, ← List.length_map Prod.fst, ← List.dedup_eq_self]
  constructor
  · intro hlength
    exact (List.dedup_sublist _).eq_of_length hlength
  · intro hself
    rw [hself]

/-! ## TOML documents -/

theorem nodup_written (h : d.DistinctKeys) : ((written d).map Prod.fst).Nodup := by
  have htable : ∀ {types}, (Datum.table types).DistinctKeys -> (types.map Prod.fst).Nodup := by
    intro types htypes
    cases htypes with
    | table hkeys _ => exact hkeys
  unfold written
  split
  · next entries =>
      split
      · next types htypes =>
          have hmem : Datum.table types ∈ Decoder.valuesOf "types" entries := by
            rw [htypes]
            exact List.mem_cons_self
          obtain ⟨e, he, hvalue⟩ := List.mem_map.1 hmem
          cases h with
          | table _ hvalues => exact htable (hvalue ▸ hvalues e (List.mem_filter.1 he).1)
      · exact List.nodup_nil
  · cases h with
    | list hitems => exact htable (hitems _ List.mem_cons_self)
  · exact List.nodup_nil

/-- A document that defines a type twice is not read. -/
theorem read?_toml_eq_none {text : String} (htwice : Toml.DefinesTwice text "types" name) :
    read? .toml text = none := by
  rw [read?]
  split
  · next d hd =>
      obtain ⟨entries, ds, rfl, hmem⟩ := Toml.list_of_read htwice hd
      have hvalue : Datum.list ds ∈ Decoder.valuesOf "types" entries :=
        List.mem_map.2 ⟨_, List.mem_filter.2 ⟨hmem, decide_eq_true rfl⟩, rfl⟩
      rw [ofDatum?]
      split
      · next types htypes =>
          rw [valuesOf_of_members? htypes, Option.mem_toList] at hvalue
          cases hvalue
          rfl
      · rfl
  · rfl

end Document

end Schema

end InstanceForge

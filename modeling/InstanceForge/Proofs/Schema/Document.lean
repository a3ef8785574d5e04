import InstanceForge.Proofs.Text.ByteOrder
import InstanceForge.Schema.Document

/-!
# Order of the types of a document

The types of a schema document come in the byte order of their names, each name once.
-/

namespace InstanceForge

namespace Schema

namespace Document

def Ascending (doc : Document) : Prop :=
  doc.Pairwise fun first second => Text.bytes first.1 < Text.bytes second.1

theorem ascending_iff {doc : Document} :
    Ascending doc ↔ doc.Pairwise fun first second => first.1 < second.1 := by
  rw [Ascending]
  simp only [Text.lt_iff_bytes_lt]

theorem mem_put {name : String} {type : WrittenType} {p : String × WrittenType} {doc : Document}
    (h : p ∈ put name type doc) : p.1 = name ∨ p ∈ doc := by
  induction doc with
  | nil =>
      rw [put, List.mem_singleton] at h
      exact .inl (congrArg Prod.fst h)
  | cons first rest ih =>
      obtain ⟨other, t⟩ := first
      rw [put] at h
      split at h
      · rcases List.mem_cons.1 h with rfl | hrest
        · exact .inl rfl
        · exact .inr (List.mem_cons_of_mem _ hrest)
      split at h
      · rcases List.mem_cons.1 h with rfl | hrest
        · exact .inl rfl
        · exact .inr hrest
      · rcases List.mem_cons.1 h with rfl | hrest
        · exact .inr List.mem_cons_self
        · exact (ih hrest).imp_right (List.mem_cons_of_mem _)

theorem ascending_put {name : String} {type : WrittenType} {doc : Document}
    (h : Ascending doc) : Ascending (put name type doc) := by
  rw [ascending_iff] at h ⊢
  induction doc with
  | nil => exact List.pairwise_singleton _ _
  | cons first rest ih =>
      obtain ⟨other, t⟩ := first
      obtain ⟨hfirst, hrest⟩ := List.pairwise_cons.1 h
      rw [put]
      split
      · next heq =>
          rw [heq]
          exact List.pairwise_cons.2 ⟨hfirst, hrest⟩
      split
      · next hlt =>
          refine List.pairwise_cons.2 ⟨?_, h⟩
          intro p hp
          rcases List.mem_cons.1 hp with rfl | hp
          · exact hlt
          · exact String.lt_trans hlt (hfirst p hp)
      · next hne hlt =>
          refine List.pairwise_cons.2 ⟨?_, ih hrest⟩
          intro p hp
          rcases mem_put hp with rfl | hp
          · exact lt_of_le_of_ne (not_lt.1 hlt) (Ne.symm hne)
          · exact hfirst p hp

theorem ascending_types? {format : DocumentFormat} {entries : List (Literal × Datum)}
    {doc found : Document} (h : types? format entries doc = some found) (hdoc : Ascending doc) :
    Ascending found := by
  induction entries generalizing doc with
  | nil =>
      cases h
      exact hdoc
  | cons entry rest ih =>
      obtain ⟨key, d⟩ := entry
      cases key with
      | text name =>
          rw [types?] at h
          split at h
          · exact ih h (ascending_put hdoc)
          · cases h
      | unpaired => cases h

theorem ascending_nil : Ascending [] :=
  List.Pairwise.nil

theorem ascending_ofDatum? {format : DocumentFormat} {d : Datum} {doc : Document}
    (h : ofDatum? format d = some doc) : Ascending doc := by
  rw [ofDatum?] at h
  split at h
  · next types _ =>
      cases types with
      | none =>
          cases h
          exact ascending_nil
      | some table =>
          rw [Decoder.withDefault] at h
          unfold typeTable? at h
          split at h
          · exact ascending_types? h ascending_nil
          · cases h
  · cases h

theorem read?_eq_some_iff {format : DocumentFormat} {text : String} {doc : Document} :
    read? format text = some doc ↔
      ∃ d, format.read text = some d ∧ ofDatum? format d = some doc := by
  rw [read?]
  split
  · next d hd => simp [hd]
  · next hnone => simp [hnone]

theorem ascending_read? {format : DocumentFormat} {text : String} {doc : Document}
    (h : read? format text = some doc) : Ascending doc := by
  obtain ⟨_, _, hdoc⟩ := read?_eq_some_iff.1 h
  exact ascending_ofDatum? hdoc

theorem Ascending.nodup {doc : Document} (h : Ascending doc) : (doc.map Prod.fst).Nodup := by
  refine List.pairwise_map.2 ((ascending_iff.1 h).imp ?_)
  intro first second hlt
  exact ne_of_lt hlt

end Document

end Schema

end InstanceForge

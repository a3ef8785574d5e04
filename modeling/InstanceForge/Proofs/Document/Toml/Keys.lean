import InstanceForge.Document.Toml.Reader
import InstanceForge.Proofs.Document.Toml.Table
import Mathlib.Data.List.Nodup

/-!
# Keys of a document

In a TOML document that is read no table has a key twice, wherever in the document it stands: a
key goes into a table only where it is new, and what it stands for is changed in its place.
-/

namespace InstanceForge

inductive Datum.DistinctKeys : Datum -> Prop
  | null : DistinctKeys .null
  | boolean (b : Bool) : DistinctKeys (.boolean b)
  | number (n : Numeral) : DistinctKeys (.number n)
  | quantity : DistinctKeys .quantity
  | text (s : Literal) : DistinctKeys (.text s)
  | list {items : List Datum} (hitems : ∀ d ∈ items, DistinctKeys d) : DistinctKeys (.list items)
  | table {entries : List (Literal × Datum)} (hkeys : (entries.map Prod.fst).Nodup)
      (hvalues : ∀ e ∈ entries, DistinctKeys e.2) : DistinctKeys (.table entries)

namespace Datum

theorem distinctKeys_ofString (s : String) : (ofString s).DistinctKeys :=
  .text _

theorem distinctKeys_moment : moment.DistinctKeys := by
  refine .table (List.nodup_singleton _) fun e he => ?_
  rw [List.mem_singleton.1 he]
  exact .null

end Datum

namespace Toml

variable {items next : Items} {key : String} {item : Item}

/-! ## Tables under construction -/

def Item.Distinct (item : Item) : Prop :=
  item.toDatum.DistinctKeys

def Items.Distinct (items : Items) : Prop :=
  (Datum.table (Item.entries items)).DistinctKeys

namespace Items

theorem distinct_iff :
    items.Distinct ↔ (items.map Prod.fst).Nodup ∧ ∀ e ∈ items, e.2.Distinct := by
  have hkeys : (Item.entries items).map Prod.fst = (items.map Prod.fst).map Literal.text := by
    rw [Item.entries_eq_map, List.map_map, List.map_map]
    rfl
  have hnodup : ((Item.entries items).map Prod.fst).Nodup ↔ (items.map Prod.fst).Nodup := by
    rw [hkeys, List.nodup_map_iff fun _ _ => Literal.text.inj]
  have hvalues : (∀ e ∈ Item.entries items, e.2.DistinctKeys) ↔ ∀ e ∈ items, e.2.Distinct := by
    rw [Item.entries_eq_map]
    exact List.forall_mem_map
  constructor
  · intro h
    cases h with
    | table hk hv => exact ⟨hnodup.1 hk, hvalues.1 hv⟩
  · rintro ⟨hk, hv⟩
    exact .table (hnodup.2 hk) (hvalues.2 hv)

theorem distinct_nil : Items.Distinct [] :=
  distinct_iff.2 ⟨List.nodup_nil, fun _ he => absurd he List.not_mem_nil⟩

theorem distinct_elements {tables : List Items} :
    (Item.elements tables).Distinct ↔ ∀ t ∈ tables, Items.Distinct t := by
  rw [Item.Distinct, Item.toDatum, Item.elementsData_eq_map]
  constructor
  · intro h
    cases h with
    | list hitems => exact fun t ht => hitems _ (List.mem_map_of_mem ht)
  · intro h
    exact .list (List.forall_mem_map.2 h)

theorem Distinct.get? (h : items.Distinct) (hget : items.get? key = some item) : item.Distinct :=
  (distinct_iff.1 h).2 _ (mem_of_get? hget)

theorem Distinct.set (h : items.Distinct) (hitem : item.Distinct) :
    (Items.set key item items).Distinct := by
  obtain ⟨hkeys, hvalues⟩ := distinct_iff.1 h
  refine distinct_iff.2 ⟨?_, fun e he => ?_⟩
  · rw [keys_set]
    split
    · exact hkeys
    · next hnew => exact List.nodup_append'.2 ⟨hkeys, List.nodup_singleton _, by simpa using hnew⟩
  · rcases mem_set he with rfl | he
    · exact hitem
    · exact hvalues e he

/-- A change at the end of a path that leaves no key twice leaves none twice in the whole. -/
theorem Changes.distinct {change : Items -> Items -> Prop} {path : List String}
    (hchange : ∀ t t', t.Distinct -> change t t' -> t'.Distinct)
    (h : Changes change path items next) (hitems : items.Distinct) : next.Distinct := by
  induction h with
  | here hstep => exact hchange _ _ hitems hstep
  | make _ _ _ ih => exact hitems.set (ih distinct_nil)
  | enter hsome _ ih => exact hitems.set (ih (hitems.get? hsome))
  | last hsome _ ih =>
      have hall := distinct_elements.1 (hitems.get? hsome)
      rw [List.forall_mem_append, List.forall_mem_singleton] at hall
      refine hitems.set (distinct_elements.2 ?_)
      rw [List.forall_mem_append, List.forall_mem_singleton]
      exact ⟨hall.1, ih hall.2⟩

theorem Distinct.add? {path : List String} {value : Datum} (hitems : items.Distinct)
    (hvalue : value.DistinctKeys) (h : add? path value items = some next) : next.Distinct := by
  obtain ⟨_, _, _, hchanges⟩ := changes_of_add? h
  refine hchanges.distinct ?_ hitems
  rintro t _ ht ⟨_, rfl⟩
  exact ht.set hvalue

theorem Distinct.addAll? {entries : List (List String × Datum)} (hitems : items.Distinct)
    (hvalues : ∀ e ∈ entries, e.2.DistinctKeys) (h : addAll? entries items = some next) :
    next.Distinct := by
  induction entries generalizing items with
  | nil =>
      cases h
      exact hitems
  | cons e rest ih =>
      obtain ⟨hvalue, hrest⟩ := List.forall_mem_cons.1 hvalues
      obtain ⟨t, ht, hmore⟩ := addAll?_cons h
      exact ih (hitems.add? hvalue ht) hrest hmore

end Items

/-! ## Sections -/

def Section.Distinct (s : Section) : Prop :=
  ∀ e ∈ s.entries, e.2.DistinctKeys

theorem Section.Places.distinct {s : Section} (h : s.Places key items next) (hs : s.Distinct)
    (hitems : items.Distinct) : next.Distinct := by
  cases h with
  | table _ _ hinner => exact hitems.set (Items.distinct_nil.addAll? hs hinner)
  | complete _ hsome hinner =>
      exact hitems.set (Items.Distinct.addAll? (hitems.get? hsome) hs hinner)
  | first _ _ hinner =>
      refine hitems.set (Items.distinct_elements.2 (List.forall_mem_singleton.2 ?_))
      exact Items.distinct_nil.addAll? hs hinner
  | further _ hsome hinner =>
      refine hitems.set (Items.distinct_elements.2 ?_)
      rw [List.forall_mem_append, List.forall_mem_singleton]
      exact ⟨Items.distinct_elements.1 (hitems.get? hsome), Items.distinct_nil.addAll? hs hinner⟩

theorem Items.Distinct.foldlM {sections : List Section} (hitems : items.Distinct)
    (hsections : ∀ s ∈ sections, s.Distinct)
    (h : sections.foldlM (fun items s => s.addTo? items) items = some next) : next.Distinct := by
  induction sections generalizing items with
  | nil =>
      cases h
      exact hitems
  | cons s rest ih =>
      obtain ⟨hs, hrest⟩ := List.forall_mem_cons.1 hsections
      rw [List.foldlM_cons] at h
      obtain ⟨t, ht, hmore⟩ := Option.bind_eq_some_iff.1 h
      obtain ⟨_, _, _, hchanges⟩ := Section.changes_of_addTo? ht
      exact ih (hchanges.distinct (fun _ _ hd hp => hp.distinct hs hd) hitems) hrest hmore

theorem distinctKeys_assemble? {entries : List (List String × Datum)} {sections : List Section}
    {d : Datum} (hentries : ∀ e ∈ entries, e.2.DistinctKeys)
    (hsections : ∀ s ∈ sections, s.Distinct) (h : assemble? entries sections = some d) :
    d.DistinctKeys := by
  rw [assemble?] at h
  split at h
  · cases h
  · next start hstart =>
      split at h
      · next items hitems =>
          cases h
          exact (Items.distinct_nil.addAll? hentries hstart).foldlM hsections hitems
      · cases h

/-! ## Reading -/

theorem distinctKeys_scalar? {cs rest : List Char} {d : Datum}
    (h : scalar? cs = some (d, rest)) : d.DistinctKeys := by
  rw [scalar?] at h
  split at h
  · cases h
    exact Datum.distinctKeys_moment
  · obtain ⟨_, _, hd⟩ := Option.map_eq_some_iff.1 h
    cases hd
    exact .quantity

/-- What is read within a bound: a value, the values of a list, and the entries of a table. -/
structure DistinctWithin (n : Nat) : Prop where
  value : ∀ {depth : Nat} {cs rest : List Char} {d : Datum},
    valueWithin n depth cs = some (d, rest) -> d.DistinctKeys
  items : ∀ {depth : Nat} {cs rest : List Char} {ds : List Datum},
    itemsWithin n depth cs = some (ds, rest) -> ∀ d ∈ ds, d.DistinctKeys
  entries : ∀ {depth : Nat} {cs rest : List Char} {es : List (List String × Datum)},
    entriesWithin n depth cs = some (es, rest) -> ∀ e ∈ es, e.2.DistinctKeys

theorem distinctKeys_valueWithin {n depth : Nat} {cs rest : List Char} {d : Datum}
    (ih : DistinctWithin n) (h : valueWithin (n + 1) depth cs = some (d, rest)) :
    d.DistinctKeys := by
  unfold valueWithin at h
  split at h
  · obtain ⟨_, _, hd⟩ := Option.map_eq_some_iff.1 h
    cases hd
    exact Datum.distinctKeys_ofString _
  · obtain ⟨_, _, hd⟩ := Option.map_eq_some_iff.1 h
    cases hd
    exact Datum.distinctKeys_ofString _
  · split at h
    · split at h
      · cases h
        exact .list fun _ hd => absurd hd List.not_mem_nil
      · obtain ⟨_, hitems, hd⟩ := Option.map_eq_some_iff.1 h
        cases hd
        exact .list (ih.items hitems)
    · cases h
  · split at h
    · split at h
      · cases h
        exact Items.distinct_nil
      · split at h
        · cases h
        · next hentries =>
            obtain ⟨_, hadded, hd⟩ := Option.map_eq_some_iff.1 h
            cases hd
            exact Items.distinct_nil.addAll? (ih.entries hentries) hadded
    · cases h
  · cases h
    exact .boolean _
  · cases h
    exact .boolean _
  · exact distinctKeys_scalar? h

theorem distinctKeys_itemsWithin {n depth : Nat} {cs rest : List Char} {ds : List Datum}
    (ih : DistinctWithin n) (h : itemsWithin (n + 1) depth cs = some (ds, rest)) :
    ∀ d ∈ ds, d.DistinctKeys := by
  rw [itemsWithin] at h
  split at h
  · cases h
  · next item _ hitem =>
      have hfirst := ih.value hitem
      split at h
      · cases h
        exact List.forall_mem_singleton.2 hfirst
      · split at h
        · cases h
          exact List.forall_mem_singleton.2 hfirst
        · obtain ⟨_, hmore, hds⟩ := Option.map_eq_some_iff.1 h
          cases hds
          exact List.forall_mem_cons.2 ⟨hfirst, ih.items hmore⟩
      · cases h

theorem distinctKeys_entriesWithin {n depth : Nat} {cs rest : List Char}
    {es : List (List String × Datum)} (ih : DistinctWithin n)
    (h : entriesWithin (n + 1) depth cs = some (es, rest)) : ∀ e ∈ es, e.2.DistinctKeys := by
  rw [entriesWithin] at h
  split at h
  · split at h
    · cases h
    · next value _ hvalue =>
        have hfirst := ih.value hvalue
        split at h
        · cases h
          exact List.forall_mem_singleton.2 hfirst
        · obtain ⟨_, hmore, hes⟩ := Option.map_eq_some_iff.1 h
          cases hes
          exact List.forall_mem_cons.2 ⟨hfirst, ih.entries hmore⟩
        · cases h
  · cases h

theorem distinctWithin (n : Nat) : DistinctWithin n := by
  induction n with
  | zero =>
      constructor
      · intro _ _ _ _ h
        cases h
      · intro _ _ _ _ h
        cases h
      · intro _ _ _ _ h
        cases h
  | succ n ih =>
      exact ⟨distinctKeys_valueWithin ih, distinctKeys_itemsWithin ih,
        distinctKeys_entriesWithin ih⟩

theorem distinctKeys_of_assignment {cs rest : List Char} {entry : List String × Datum}
    (h : assignment? cs = some (entry, rest)) : entry.2.DistinctKeys := by
  rw [assignment?] at h
  split at h
  · split at h
    · cases h
    · next hvalue =>
        obtain ⟨_, _, hentry⟩ := Option.map_eq_some_iff.1 h
        cases hentry
        exact (distinctWithin _).value hvalue
  · cases h

theorem distinctKeys_linesWithin {n : Nat} {cs : List Char} {outline : Outline}
    (h : linesWithin n cs = some outline) :
    (∀ e ∈ outline.1, e.2.DistinctKeys) ∧ ∀ s ∈ outline.2, s.Distinct := by
  induction n generalizing cs outline with
  | zero => cases h
  | succ n ih =>
      rw [linesWithin] at h
      split at h
      · cases h
        exact ⟨fun _ he => absurd he List.not_mem_nil, fun _ hs => absurd hs List.not_mem_nil⟩
      · split at h
        · exact ih h
        · cases h
      · split at h
        · cases h
        · obtain ⟨below, hbelow, rfl⟩ := Option.map_eq_some_iff.1 h
          obtain ⟨hentries, hsections⟩ := ih hbelow
          exact ⟨fun _ he => absurd he List.not_mem_nil,
            List.forall_mem_cons.2 ⟨hentries, hsections⟩⟩
      · split at h
        · cases h
        · next hentry =>
            obtain ⟨below, hbelow, rfl⟩ := Option.map_eq_some_iff.1 h
            obtain ⟨hentries, hsections⟩ := ih hbelow
            exact ⟨List.forall_mem_cons.2 ⟨distinctKeys_of_assignment hentry, hentries⟩, hsections⟩

/-- No table of a document that is read has a key twice. -/
theorem distinctKeys_read {text : String} {d : Datum} (h : read text = some d) :
    d.DistinctKeys := by
  rw [read] at h
  split at h
  · next houtline =>
      obtain ⟨hentries, hsections⟩ := distinctKeys_linesWithin houtline
      exact distinctKeys_assemble? hentries hsections h
  · cases h

end Toml

end InstanceForge

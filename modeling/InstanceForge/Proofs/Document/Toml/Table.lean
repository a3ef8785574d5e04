import InstanceForge.Document.Toml.Table
import Mathlib.Data.List.Basic

/-!
# Changes to tables

What is added to tables under construction is added at the end of a path. The way there leads
through tables, made where they are missing, and through the last element of an array of tables.
It is the same for headers and for dotted keys, which differ in what they refuse on the way.
-/

namespace InstanceForge

namespace Toml

namespace Item

theorem entries_eq_map (items : Items) :
    entries items = items.map fun e => (Literal.text e.1, e.2.toDatum) := by
  induction items with
  | nil => rfl
  | cons e rest ih => rw [entries, ih, List.map_cons]

theorem elementsData_eq_map (tables : List Items) :
    elementsData tables = tables.map fun t => Datum.table (entries t) := by
  induction tables with
  | nil => rfl
  | cons t rest ih => rw [elementsData, ih, List.map_cons]

end Item

namespace Items

variable {items next : Items} {key : String} {item : Item}

/-! ## One key -/

theorem get?_cons (e : String × Item) (rest : Items) (key : String) :
    Items.get? (e :: rest) key = if e.1 = key then some e.2 else Items.get? rest key := by
  rw [get?, List.find?_cons]
  split
  · next h => rw [if_pos (eq_of_beq h), Option.map_some]
  · next h => rw [if_neg (ne_of_beq_false h), get?]

theorem get?_eq_none_iff : items.get? key = none ↔ key ∉ items.map Prod.fst := by
  induction items with
  | nil => simp [get?]
  | cons e rest ih => grind [get?_cons]

theorem mem_of_get? (h : items.get? key = some item) : (key, item) ∈ items := by
  rw [get?, Option.map_eq_some_iff] at h
  obtain ⟨e, hfind, rfl⟩ := h
  have hkey := List.find?_some hfind
  rw [beq_iff_eq] at hkey
  exact hkey ▸ List.mem_of_find?_eq_some hfind

theorem get?_set (key other : String) (item : Item) (items : Items) :
    (items.set key item).get? other = if other = key then some item else items.get? other := by
  induction items with
  | nil => grind [set, get?_cons]
  | cons e rest ih =>
      rw [set]
      split <;> grind [get?_cons]

theorem get?_set_self : (items.set key item).get? key = some item := by
  rw [get?_set, if_pos rfl]

theorem mem_set {e : String × Item} (h : e ∈ items.set key item) : e = (key, item) ∨ e ∈ items := by
  induction items with
  | nil => exact .inl (List.mem_singleton.1 h)
  | cons first rest ih =>
      rw [set] at h
      split at h <;> grind

/-- A key that is set again keeps its place, and a new one comes last. -/
theorem keys_set (key : String) (item : Item) (items : Items) :
    (items.set key item).map Prod.fst =
      if key ∈ items.map Prod.fst then items.map Prod.fst else items.map Prod.fst ++ [key] := by
  induction items with
  | nil => rfl
  | cons e rest ih =>
      rw [set]
      split <;> grind

theorem addNew?_eq_some_iff :
    addNew? key item items = some next ↔ items.get? key = none ∧ next = items.set key item := by
  rw [addNew?]
  split <;> grind

/-! ## The end of a path -/

inductive Changes (change : Items -> Items -> Prop) : List String -> Items -> Items -> Prop
  | here {items next : Items} (hchange : change items next) : Changes change [] items next
  | make {items inner : Items} {key : String} {path : List String} (origin : Origin)
      (hnone : items.get? key = none) (hinner : Changes change path [] inner) :
      Changes change (key :: path) items (items.set key (.table origin inner))
  | enter {items inner next : Items} {key : String} {path : List String} {origin : Origin}
      (hsome : items.get? key = some (.table origin inner))
      (hinner : Changes change path inner next) :
      Changes change (key :: path) items (items.set key (.table origin next))
  | last {items inner next : Items} {key : String} {path : List String} {front : List Items}
      (hsome : items.get? key = some (.elements (front ++ [inner])))
      (hinner : Changes change path inner next) :
      Changes change (key :: path) items (items.set key (.elements (front ++ [next])))

theorem changeLast?_eq_some {change : Items -> Option Items} {tables changed : List Items}
    (h : changeLast? change tables = some changed) :
    ∃ front inner next, tables = front ++ [inner] ∧ change inner = some next ∧
      changed = front ++ [next] := by
  induction tables generalizing changed with
  | nil => cases h
  | cons first rest ih =>
      cases rest with
      | nil =>
          obtain ⟨next, hnext, rfl⟩ := Option.map_eq_some_iff.1 h
          exact ⟨[], first, next, rfl, hnext, rfl⟩
      | cons second rest =>
          obtain ⟨later, hlater, rfl⟩ := Option.map_eq_some_iff.1 h
          obtain ⟨front, inner, next, hfront, hnext, rfl⟩ := ih hlater
          exact ⟨first :: front, inner, next, congrArg (first :: ·) hfront, hnext, rfl⟩

theorem changes_of_changeAt? {change : Items -> Option Items} {related : Items -> Items -> Prop}
    {path : List String} (hchange : ∀ t t', change t = some t' -> related t t')
    (h : changeAt? change path items = some next) : Changes related path items next := by
  induction path generalizing items next with
  | nil => exact .here (hchange items next h)
  | cons key path ih =>
      rw [changeAt?] at h
      split at h
      · next hnone =>
          obtain ⟨inner, hinner, rfl⟩ := Option.map_eq_some_iff.1 h
          exact .make _ hnone (ih hinner)
      · next hsome =>
          obtain ⟨inner, hinner, rfl⟩ := Option.map_eq_some_iff.1 h
          exact .enter hsome (ih hinner)
      · next hsome =>
          obtain ⟨_, hlast, rfl⟩ := Option.map_eq_some_iff.1 h
          obtain ⟨front, inner, t, rfl, hinner, rfl⟩ := changeLast?_eq_some hlast
          exact .last hsome (ih hinner)
      · cases h

theorem changes_of_addDotted? {value : Datum} {origin : Option Origin} {path : List String}
    (h : addDotted? value origin path key items = some next) :
    Changes (fun t t' => t.get? key = none ∧ t' = t.set key (.value value)) path items next := by
  induction path generalizing origin items next with
  | nil =>
      rw [addDotted?] at h
      split at h
      · exact .here (addNew?_eq_some_iff.1 h)
      · cases h
  | cons step path ih =>
      rw [addDotted?] at h
      split at h
      · next hnone =>
          obtain ⟨inner, hinner, rfl⟩ := Option.map_eq_some_iff.1 h
          exact .make _ hnone (ih hinner)
      · next hsome =>
          split at h
          · cases h
          · obtain ⟨inner, hinner, rfl⟩ := Option.map_eq_some_iff.1 h
            exact .enter hsome (ih hinner)
      · next hsome =>
          obtain ⟨_, hlast, rfl⟩ := Option.map_eq_some_iff.1 h
          obtain ⟨front, inner, t, rfl, hinner, rfl⟩ := changeLast?_eq_some hlast
          exact .last hsome (ih hinner)
      · cases h

/-- A value is added at the end of its path, under a key that is not there yet. -/
theorem changes_of_add? {path : List String} {value : Datum}
    (h : add? path value items = some next) :
    ∃ front key, path = front ++ [key] ∧
      Changes (fun t t' => t.get? key = none ∧ t' = t.set key (.value value)) front items next := by
  rw [add?] at h
  split at h
  · next key hkey =>
      exact ⟨path.dropLast, key, (List.dropLast_append_getLast? key hkey).symm,
        changes_of_addDotted? h⟩
  · cases h

theorem addAll?_cons {path : List String} {value : Datum} {rest : List (List String × Datum)}
    (h : addAll? ((path, value) :: rest) items = some next) :
    ∃ t, add? path value items = some t ∧ addAll? rest t = some next := by
  rw [addAll?] at h
  split at h
  · next t ht => exact ⟨t, ht, h⟩
  · cases h

end Items

/-! ## Sections -/

namespace Section

inductive Places (s : Section) (key : String) (items : Items) : Items -> Prop
  | table {inner : Items} (hplain : s.header.element = false) (hnone : items.get? key = none)
      (hinner : Items.addAll? s.entries [] = some inner) :
      Places s key items (items.set key (.table .header inner))
  | complete {inner next : Items} (hplain : s.header.element = false)
      (hsome : items.get? key = some (.table .longerHeader inner))
      (hinner : Items.addAll? s.entries inner = some next) :
      Places s key items (items.set key (.table .header next))
  | first {inner : Items} (helement : s.header.element = true) (hnone : items.get? key = none)
      (hinner : Items.addAll? s.entries [] = some inner) :
      Places s key items (items.set key (.elements [inner]))
  | further {inner : Items} {tables : List Items} (helement : s.header.element = true)
      (hsome : items.get? key = some (.elements tables))
      (hinner : Items.addAll? s.entries [] = some inner) :
      Places s key items (items.set key (.elements (tables ++ [inner])))

theorem places_of_place? {s : Section} {key : String} {items next : Items}
    (h : s.place? key items = some next) : Places s key items next := by
  rw [place?] at h
  split at h
  · next helement =>
      split at h
      · next hinner hnone =>
          cases h
          exact .first helement hnone hinner
      · next hinner hsome =>
          cases h
          exact .further helement hsome hinner
      · cases h
  · next hplain =>
      rw [Bool.not_eq_true] at hplain
      split at h
      · next hnone =>
          obtain ⟨inner, hinner, rfl⟩ := Option.map_eq_some_iff.1 h
          exact .table hplain hnone hinner
      · next hsome =>
          obtain ⟨inner, hinner, rfl⟩ := Option.map_eq_some_iff.1 h
          exact .complete hplain hsome hinner
      · cases h

theorem changes_of_addTo? {s : Section} {items next : Items} (h : s.addTo? items = some next) :
    ∃ front key, s.header.path = front ++ [key] ∧
      Items.Changes (s.Places key) front items next := by
  rw [addTo?] at h
  split at h
  · next key hkey =>
      exact ⟨s.header.path.dropLast, key, (List.dropLast_append_getLast? key hkey).symm,
        Items.changes_of_changeAt? (fun _ _ => places_of_place?) h⟩
  · cases h

end Section

end Toml

end InstanceForge

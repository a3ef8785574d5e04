import InstanceForge.Document.Toml.Reader
import InstanceForge.Proofs.Document.Toml.Table
import Mathlib.Data.List.Count
import Mathlib.Data.List.Nodup

/-!
# Paths that a document defines

Headers and keys define the paths of a document, and a path is defined once: what stands there
can be completed only if a longer header made it. The one exception are paths through an array of
tables, where each element begins anew. So a document in which a path is defined twice is not
read, or an array of tables stands before the end of the path. An inline table holds no arrays of
tables, and one in which a path is defined twice is not read at all.
-/

namespace InstanceForge

namespace Toml

/-- The keys and tables of a table; anything else has none. -/
def Item.inner : Item -> Items
  | .table _ items => items
  | _ => []

/-- Whether no header and no key can define this any more. -/
def Item.Settled : Item -> Prop
  | .table origin _ => origin = .header
  | _ => True

/-- The same form, and still settled. -/
def Item.Keeps : Item -> Item -> Prop
  | .value d, .value d' => d = d'
  | .table origin _, .table origin' _ => origin = .header -> origin' = .header
  | .elements _, .elements _ => True
  | _, _ => False

theorem Item.Keeps.refl (item : Item) : item.Keeps item := by
  cases item with
  | value d => rfl
  | table origin items => exact id
  | elements tables => trivial

theorem Item.Keeps.trans {a b c : Item} (hab : a.Keeps b) (hbc : b.Keeps c) : a.Keeps c := by
  cases a <;> cases b <;> cases c <;> simp_all [Item.Keeps]

theorem Item.Keeps.settled {a b : Item} (h : a.Keeps b) (ha : a.Settled) : b.Settled := by
  cases a <;> cases b <;> simp_all [Item.Keeps, Item.Settled]

theorem Item.Keeps.elements {tables : List Items} {b : Item} (h : (Item.elements tables).Keeps b) :
    ∃ tables', b = .elements tables' := by
  cases b with
  | elements tables' => exact ⟨tables', rfl⟩
  | value d => cases h
  | table origin items => cases h

namespace Items

variable {items next last : Items} {key : String} {item : Item} {path : List String}

/-- The table at the end of a path through tables, empty if there is none. -/
def within : List String -> Items -> Items
  | [], items => items
  | key :: path, items => within path ((items.get? key).elim [] Item.inner)

theorem within_empty (path : List String) : within path [] = [] := by
  induction path with
  | nil => rfl
  | cons key path ih => exact ih

theorem within_append (front path : List String) (items : Items) :
    within (front ++ path) items = within path (within front items) := by
  induction front generalizing items with
  | nil => rfl
  | cons key front ih => exact ih _

theorem within_cons (hsome : items.get? key = some item) (path : List String) :
    within (key :: path) items = within path item.inner := by
  rw [within, hsome, Option.elim_some]

theorem within_cons_of_none (hnone : items.get? key = none) (path : List String) :
    within (key :: path) items = [] := by
  rw [within, hnone, Option.elim_none, within_empty]

theorem within_set_self (key : String) (item : Item) (path : List String) (items : Items) :
    within (key :: path) (items.set key item) = within path item.inner :=
  within_cons get?_set_self path

theorem within_set_of_ne {first : String} (hne : first ≠ key) :
    within (first :: path) (items.set key item) = within (first :: path) items := by
  rw [within, within, get?_set, if_neg hne]

/-! ## What stands somewhere stays there -/

/-- Whatever stands at the end of a path keeps its form. -/
def Grows (items next : Items) : Prop :=
  ∀ path key item, (items.within path).get? key = some item ->
    ∃ item', (next.within path).get? key = some item' ∧ item.Keeps item'

theorem Grows.refl (items : Items) : items.Grows items :=
  fun _ _ item h => ⟨item, h, .refl item⟩

theorem Grows.trans (h : items.Grows next) (hnext : next.Grows last) : items.Grows last := by
  intro path key item hitem
  obtain ⟨mid, hmid, hkeeps⟩ := h path key item hitem
  obtain ⟨item', hitem', hkeeps'⟩ := hnext path key mid hmid
  exact ⟨item', hitem', hkeeps.trans hkeeps'⟩

theorem empty_grows (items : Items) : Grows [] items := by
  intro path key item h
  rw [within_empty] at h
  cases h

theorem grows_set
    (h : ∀ old, items.get? key = some old -> old.Keeps item ∧ old.inner.Grows item.inner) :
    items.Grows (items.set key item) := by
  intro path other found hfound
  cases path with
  | nil =>
      rw [within] at hfound ⊢
      by_cases hother : other = key
      · subst hother
        exact ⟨item, get?_set_self, (h found hfound).1⟩
      · exact ⟨found, by rwa [get?_set, if_neg hother], .refl found⟩
  | cons first path =>
      by_cases hfirst : first = key
      · subst hfirst
        cases hold : items.get? first with
        | none =>
            rw [within_cons_of_none hold] at hfound
            cases hfound
        | some old =>
            rw [within_cons hold] at hfound
            rw [within_set_self]
            exact (h old hold).2 path other found hfound
      · rw [within_set_of_ne hfirst]
        exact ⟨found, hfound, .refl found⟩

theorem grows_set_of_none (hnone : items.get? key = none) : items.Grows (items.set key item) := by
  refine grows_set fun old hold => ?_
  rw [hnone] at hold
  cases hold

theorem grows_set_of_some {old : Item} (hsome : items.get? key = some old)
    (hkeeps : old.Keeps item) (hinner : old.inner.Grows item.inner) :
    items.Grows (items.set key item) := by
  refine grows_set fun other hother => ?_
  rw [hsome, Option.some.injEq] at hother
  exact hother ▸ ⟨hkeeps, hinner⟩

theorem Changes.grows {change : Items -> Items -> Prop}
    (hchange : ∀ t t', change t t' -> t.Grows t') (h : Changes change path items next) :
    items.Grows next := by
  induction h with
  | here hstep => exact hchange _ _ hstep
  | make _ hnone _ _ => exact grows_set_of_none hnone
  | enter hsome _ ih => exact grows_set_of_some hsome id ih
  | last hsome _ _ => exact grows_set_of_some hsome trivial (empty_grows _)

/-! ## Settled paths and arrays on the way -/

/-- Something stands at the end of the path that cannot be defined any more. -/
def Fixed (items : Items) (path : List String) : Prop :=
  ∃ front key item, path = front ++ [key] ∧ (items.within front).get? key = some item ∧
    item.Settled

/-- An array of tables stands on the path, before its end. -/
def Arrayed (items : Items) (path : List String) : Prop :=
  ∃ front key rest tables, path = front ++ key :: rest ∧ rest ≠ [] ∧
    (items.within front).get? key = some (.elements tables)

theorem fixed_concat {front : List String} :
    items.Fixed (front ++ [key]) ↔
      ∃ item, (items.within front).get? key = some item ∧ item.Settled := by
  constructor
  · rintro ⟨front', key', item, hpath, hitem, hsettled⟩
    obtain ⟨rfl, hkey⟩ := List.append_inj' hpath rfl
    cases hkey
    exact ⟨item, hitem, hsettled⟩
  · rintro ⟨item, hitem, hsettled⟩
    exact ⟨front, key, item, rfl, hitem, hsettled⟩

theorem fixed_append {front : List String} (hpath : path ≠ []) :
    items.Fixed (front ++ path) ↔ (items.within front).Fixed path := by
  obtain ⟨init, key, rfl⟩ := (List.eq_nil_or_concat path).resolve_left hpath
  rw [List.concat_eq_append, ← List.append_assoc, fixed_concat, fixed_concat, within_append]

theorem ne_nil_of_fixed (h : items.Fixed path) : path ≠ [] := by
  obtain ⟨front, key, _, rfl, _⟩ := h
  exact List.append_ne_nil_of_right_ne_nil front (List.cons_ne_nil key [])

theorem ne_nil_of_arrayed (h : items.Arrayed path) : path ≠ [] := by
  obtain ⟨front, key, rest, _, rfl, _⟩ := h
  exact List.append_ne_nil_of_right_ne_nil front (List.cons_ne_nil key rest)

theorem arrayed_append {front : List String} (h : (items.within front).Arrayed path) :
    items.Arrayed (front ++ path) := by
  obtain ⟨init, key, rest, tables, rfl, hrest, htables⟩ := h
  exact ⟨front ++ init, key, rest, tables, (List.append_assoc ..).symm, hrest,
    by rwa [within_append]⟩

theorem Arrayed.append (h : items.Arrayed path) (more : List String) :
    items.Arrayed (path ++ more) := by
  obtain ⟨front, key, rest, tables, rfl, hrest, htables⟩ := h
  exact ⟨front, key, rest ++ more, tables, List.append_assoc ..,
    List.append_ne_nil_of_left_ne_nil hrest more, htables⟩

theorem Fixed.grows (h : items.Fixed path) (hgrows : items.Grows next) : next.Fixed path := by
  obtain ⟨front, key, item, hpath, hitem, hsettled⟩ := h
  obtain ⟨item', hitem', hkeeps⟩ := hgrows front key item hitem
  exact ⟨front, key, item', hpath, hitem', hkeeps.settled hsettled⟩

theorem Arrayed.grows (h : items.Arrayed path) (hgrows : items.Grows next) :
    next.Arrayed path := by
  obtain ⟨front, key, rest, tables, hpath, hrest, htables⟩ := h
  obtain ⟨item', hitem', hkeeps⟩ := hgrows front key _ htables
  obtain ⟨tables', rfl⟩ := hkeeps.elements
  exact ⟨front, key, rest, tables', hpath, hrest, hitem'⟩

theorem arrayed_set_cons (h : item.inner.Arrayed path) :
    (items.set key item).Arrayed (key :: path) := by
  have hinner : ((items.set key item).within [key]).Arrayed path := by
    rwa [within_set_self]
  exact arrayed_append hinner

/-- A change happens in the table at the end of its path, if no array of tables is on the way. -/
theorem Changes.within_or_arrayed {change : Items -> Items -> Prop} {rest : List String}
    (h : Changes change path items next) (hrest : rest ≠ []) :
    change (items.within path) (next.within path) ∨ next.Arrayed (path ++ rest) := by
  induction h with
  | here hstep => exact .inl hstep
  | make origin hnone _ ih =>
      rw [within_cons_of_none hnone, within_set_self]
      rw [within_empty] at ih
      exact ih.imp_right arrayed_set_cons
  | enter hsome _ ih =>
      rw [within_cons hsome, within_set_self]
      exact ih.imp_right arrayed_set_cons
  | last hsome _ _ =>
      exact .inr ⟨[], _, _, _, rfl, List.append_ne_nil_of_right_ne_nil _ hrest, get?_set_self⟩

/-! ## Definitions -/

/-- The paths are defined one after another, each of them new. -/
structure Defines (paths : List (List String)) (items next : Items) : Prop where
  grows : items.Grows next
  once : ∀ path ∈ paths, next.Arrayed path ∨
    ¬ items.Fixed path ∧ next.Fixed path ∧ paths.count path = 1

theorem Defines.trans {paths more : List (List String)} (h : Defines paths items next)
    (hmore : Defines more next last) : Defines (paths ++ more) items last := by
  refine ⟨h.grows.trans hmore.grows, fun path hpath => ?_⟩
  rw [List.count_append]
  by_cases hin : path ∈ paths
  · rcases h.once path hin with harrayed | ⟨hnew, hfixed, hcount⟩
    · exact .inl (harrayed.grows hmore.grows)
    by_cases hagain : path ∈ more
    · rcases hmore.once path hagain with harrayed | ⟨hnew', _⟩
      · exact .inl harrayed
      · exact absurd hfixed hnew'
    · rw [hcount, List.count_eq_zero_of_not_mem hagain]
      exact .inr ⟨hnew, hfixed.grows hmore.grows, rfl⟩
  · have hlater : path ∈ more := (List.mem_append.1 hpath).resolve_left hin
    rcases hmore.once path hlater with harrayed | ⟨hnew, hfixed, hcount⟩
    · exact .inl harrayed
    · rw [hcount, List.count_eq_zero_of_not_mem hin]
      exact .inr ⟨fun hbefore => hnew (hbefore.grows h.grows), hfixed, rfl⟩

theorem defines_of_add? {value : Datum} (h : add? path value items = some next) :
    Defines [path] items next := by
  obtain ⟨front, key, rfl, hchanges⟩ := changes_of_add? h
  refine ⟨hchanges.grows ?_, List.forall_mem_singleton.2 ?_⟩
  · rintro t _ ⟨hnone, rfl⟩
    exact grows_set_of_none hnone
  rcases hchanges.within_or_arrayed (List.cons_ne_nil key []) with ⟨hnone, hset⟩ | harrayed
  · refine .inr ⟨?_, ?_, List.count_singleton_self⟩
    · rw [fixed_concat, hnone]
      rintro ⟨_, hsome, _⟩
      cases hsome
    · rw [fixed_concat, hset]
      exact ⟨.value value, get?_set_self, trivial⟩
  · exact .inl harrayed

theorem defines_of_addAll? {entries : List (List String × Datum)}
    (h : addAll? entries items = some next) : Defines (entries.map Prod.fst) items next := by
  induction entries generalizing items with
  | nil =>
      cases h
      exact ⟨.refl _, fun _ hpath => absurd hpath List.not_mem_nil⟩
  | cons e rest ih =>
      obtain ⟨t, ht, hmore⟩ := addAll?_cons h
      exact (defines_of_add? ht).trans (ih hmore)

theorem Defines.nil_notMem {paths : List (List String)} (h : Defines paths items next) :
    [] ∉ paths := by
  intro hnil
  rcases h.once [] hnil with harrayed | ⟨_, hfixed, _⟩
  · exact ne_nil_of_arrayed harrayed rfl
  · exact ne_nil_of_fixed hfixed rfl

/-- A header and the keys below it define its path and those that go on with a key. -/
theorem Defines.below {paths : List (List String)} {front : List String}
    (h : Defines paths (items.within front) (next.within front)) (hgrows : items.Grows next)
    (hnew : ¬ items.Fixed front) (hfixed : next.Fixed front) :
    Defines (front :: paths.map (front ++ ·)) items next := by
  -- No path below the header is empty, so none of them is the path of the header itself.
  have hcount : ∀ path, (paths.map (front ++ ·)).count (front ++ path) = paths.count path :=
    fun path => List.count_map_of_injective _ _ (List.append_right_injective front) _
  have hself : (paths.map (front ++ ·)).count front = 0 := by
    rw [← List.count_eq_zero_of_not_mem h.nil_notMem, ← hcount [], List.append_nil]
  refine ⟨hgrows, List.forall_mem_cons.2 ⟨?_, List.forall_mem_map.2 fun path hpath => ?_⟩⟩
  · rw [List.count_cons_self, hself]
    exact .inr ⟨hnew, hfixed, rfl⟩
  · have hne : path ≠ [] := ne_of_mem_of_not_mem hpath h.nil_notMem
    have hother : front ≠ front ++ path := fun heq => hne (List.self_eq_append_right.1 heq)
    rw [List.count_cons_of_ne hother, hcount, fixed_append hne, fixed_append hne]
    exact (h.once path hpath).imp_left arrayed_append

/-! ## Inline tables -/

def Plain (items : Items) : Prop :=
  ∀ path key tables, (items.within path).get? key ≠ some (.elements tables)

theorem plain_empty : Plain [] := by
  intro path key tables h
  rw [within_empty] at h
  cases h

theorem Plain.inner (h : items.Plain) (hsome : items.get? key = some item) : item.inner.Plain := by
  intro path other tables hother
  refine h (key :: path) other tables ?_
  rwa [within_cons hsome]

theorem Plain.set (h : items.Plain) (hinner : item.inner.Plain)
    (hitem : ∀ tables, item ≠ .elements tables) : (Items.set key item items).Plain := by
  intro path other tables hother
  cases path with
  | nil =>
      rw [within, get?_set] at hother
      split at hother
      · exact hitem tables (Option.some.inj hother)
      · exact h [] other tables hother
  | cons first path =>
      by_cases hfirst : first = key
      · subst hfirst
        rw [within_set_self] at hother
        exact hinner path other tables hother
      · rw [within_set_of_ne hfirst] at hother
        exact h (first :: path) other tables hother

theorem Changes.plain {change : Items -> Items -> Prop}
    (hchange : ∀ t t', t.Plain -> change t t' -> t'.Plain) (h : Changes change path items next)
    (hitems : items.Plain) : next.Plain := by
  induction h with
  | here hstep => exact hchange _ _ hitems hstep
  | make _ _ _ ih => exact hitems.set (ih plain_empty) nofun
  | enter hsome _ ih => exact hitems.set (ih (hitems.inner hsome)) nofun
  | last hsome _ _ => exact absurd hsome (hitems [] _ _)

theorem Plain.addAll? {entries : List (List String × Datum)} (hitems : items.Plain)
    (h : addAll? entries items = some next) : next.Plain := by
  induction entries generalizing items with
  | nil =>
      cases h
      exact hitems
  | cons e rest ih =>
      obtain ⟨t, ht, hmore⟩ := addAll?_cons h
      obtain ⟨_, _, _, hchanges⟩ := changes_of_add? ht
      refine ih (hchanges.plain ?_ hitems) hmore
      rintro t _ hplain ⟨_, rfl⟩
      exact hplain.set plain_empty nofun

theorem Plain.not_arrayed (h : items.Plain) : ¬ items.Arrayed path := by
  rintro ⟨front, key, _, tables, _, _, htables⟩
  exact h front key tables htables

/-- Keys that a table gets one after another differ, where no array of tables is on the way. -/
theorem nodup_of_addAll? {entries : List (List String × Datum)}
    (h : addAll? entries [] = some next) : (entries.map Prod.fst).Nodup := by
  refine List.nodup_iff_count_le_one.2 fun path => ?_
  by_cases hpath : path ∈ entries.map Prod.fst
  · have honce := (defines_of_addAll? h).once path hpath
    obtain ⟨_, _, hcount⟩ := honce.resolve_left (plain_empty.addAll? h).not_arrayed
    exact Nat.le_of_eq hcount
  · rw [List.count_eq_zero_of_not_mem hpath]
    exact Nat.zero_le 1

end Items

/-! ## Sections -/

variable {items next last : Items}

/-- The paths that a section defines; an element of an array of tables defines none. -/
def Section.defined (s : Section) : List (List String) :=
  if s.header.element then []
  else s.header.path :: (s.entries.map Prod.fst).map (s.header.path ++ ·)

theorem Section.Places.grows {s : Section} {key : String} (h : s.Places key items next) :
    items.Grows next := by
  cases h with
  | table _ hnone _ => exact Items.grows_set_of_none hnone
  | complete _ hsome hinner =>
      exact Items.grows_set_of_some hsome (fun _ => rfl) (Items.defines_of_addAll? hinner).grows
  | first _ hnone _ => exact Items.grows_set_of_none hnone
  | further _ hsome _ => exact Items.grows_set_of_some hsome trivial (Items.empty_grows _)

/-- A header that is no element's defines a table that was not there, or not by a header. -/
theorem Section.Places.defines {s : Section} {key : String} (h : s.Places key items next)
    (hplain : s.header.element = false) :
    Items.Defines (s.entries.map Prod.fst) (items.within [key]) (next.within [key]) ∧
      ¬ items.Fixed [key] ∧ next.Fixed [key] := by
  have hone : ∀ t : Items, t.Fixed [key] ↔ ∃ item, t.get? key = some item ∧ item.Settled :=
    fun t => @Items.fixed_concat t key []
  rw [hone, hone]
  cases h with
  | table _ hnone hinner =>
      rw [Items.within_cons_of_none hnone, Items.within_set_self, hnone, Items.get?_set_self]
      refine ⟨Items.defines_of_addAll? hinner, ?_, _, rfl, rfl⟩
      rintro ⟨_, hsome, _⟩
      cases hsome
  | complete _ hsome hinner =>
      rw [Items.within_cons hsome, Items.within_set_self, hsome, Items.get?_set_self]
      refine ⟨Items.defines_of_addAll? hinner, ?_, _, rfl, rfl⟩
      rintro ⟨_, hsame, hsettled⟩
      cases hsame
      cases hsettled
  | first helement _ _ => simp [hplain] at helement
  | further helement _ _ => simp [hplain] at helement

theorem Section.defines_of_addTo? {s : Section} (h : s.addTo? items = some next) :
    Items.Defines s.defined items next := by
  obtain ⟨front, key, hpath, hchanges⟩ := changes_of_addTo? h
  have hgrows : items.Grows next := hchanges.grows fun _ _ => Places.grows
  rw [defined]
  split
  · exact ⟨hgrows, fun _ hpath => absurd hpath List.not_mem_nil⟩
  · next hplain =>
      rw [Bool.not_eq_true] at hplain
      rcases hchanges.within_or_arrayed (List.cons_ne_nil key []) with hplaces | harrayed
      · obtain ⟨hdefines, hnew, hfixed⟩ := hplaces.defines hplain
        rw [← Items.within_append, ← Items.within_append, ← hpath] at hdefines
        rw [← Items.fixed_append (List.cons_ne_nil key []), ← hpath] at hnew hfixed
        exact hdefines.below hgrows hnew hfixed
      · rw [← hpath] at harrayed
        refine ⟨hgrows, fun path hmem => .inl ?_⟩
        rcases List.mem_cons.1 hmem with rfl | hmem
        · exact harrayed
        · obtain ⟨more, _, rfl⟩ := List.mem_map.1 hmem
          exact harrayed.append more

theorem defines_of_foldlM {sections : List Section}
    (h : sections.foldlM (fun items s => s.addTo? items) items = some next) :
    Items.Defines (sections.flatMap Section.defined) items next := by
  induction sections generalizing items with
  | nil =>
      cases h
      exact ⟨.refl _, fun _ hpath => absurd hpath List.not_mem_nil⟩
  | cons s rest ih =>
      rw [List.foldlM_cons] at h
      obtain ⟨t, ht, hmore⟩ := Option.bind_eq_some_iff.1 h
      rw [List.flatMap_cons]
      exact (Section.defines_of_addTo? ht).trans (ih hmore)

/-! ## Documents -/

/-- The paths that a document defines, in the order in which they are written. -/
def Outline.defined (outline : Outline) : List (List String) :=
  outline.1.map Prod.fst ++ outline.2.flatMap Section.defined

def outline? (text : String) : Option Outline :=
  let cs := skipMark text.toList
  linesWithin (cs.length + 1) cs

theorem read_eq (text : String) :
    read text = (outline? text).bind fun outline => assemble? outline.1 outline.2 := by
  rw [read, outline?]
  split
  · next h => rw [h, Option.bind_some]
  · next h => rw [h, Option.bind_none]

/-- Of a path that a document defines twice an array of tables is the beginning. -/
theorem arrayed_of_assemble? {outline : Outline} {d : Datum} {path : List String}
    (h : assemble? outline.1 outline.2 = some d) (htwice : 1 < outline.defined.count path) :
    ∃ items : Items, d = .table (Item.entries items) ∧ items.Arrayed path := by
  rw [assemble?] at h
  split at h
  · cases h
  · next start hstart =>
      split at h
      · next items hitems =>
          have hdefines := (Items.defines_of_addAll? hstart).trans (defines_of_foldlM hitems)
          have hpath := List.count_pos_iff.1 (Nat.lt_of_succ_lt htwice)
          refine ⟨items, (Option.some.inj h).symm, (hdefines.once path hpath).resolve_right ?_⟩
          rintro ⟨_, _, honce⟩
          exact absurd honce (Nat.ne_of_gt htwice)
      · cases h

/-- An inline table that defines a path twice is no value. -/
theorem valueWithin_eq_none {n depth : Nat} {cs rest : List Char}
    {entries : List (List String × Datum)}
    (h : entriesWithin n (depth + 1) (skipBlanks cs) = some (entries, rest))
    (htwice : ¬ (entries.map Prod.fst).Nodup) :
    valueWithin (n + 1) depth ('{' :: cs) = none := by
  rw [valueWithin]
  split
  · split
    · next hclose =>
        -- A closing brace is no key, so no entries are read from it.
        rw [hclose] at h
        cases n <;> cases h
    · rw [h]
      dsimp only
      rw [Option.map_eq_none_iff]
      cases hadded : Items.addAll? entries [] with
      | none => rfl
      | some items => exact absurd (Items.nodup_of_addAll? hadded) htwice
  · rfl

/-! ## Lines with inline tables -/

/-- A text is read up to the line that starts with these characters. -/
inductive ReadsTo : List Char -> List Char -> Prop
  | here (cs : List Char) : ReadsTo cs (skipLines cs)
  | comment {cs rest left line : List Char} (hcs : skipLines cs = '#' :: rest)
      (hend : endLine? ('#' :: rest) = some left) (hmore : ReadsTo left line) : ReadsTo cs line
  | header {cs rest left line : List Char} {header : Header} (hcs : skipLines cs = '[' :: rest)
      (hheader : header? rest = some (header, left)) (hmore : ReadsTo left line) : ReadsTo cs line
  | entry {cs left line : List Char} {entry : List String × Datum}
      (hentry : assignment? (skipLines cs) = some (entry, left)) (hmore : ReadsTo left line) :
      ReadsTo cs line

/-- A line of a text gives a key an inline table that is written with these entries. -/
def WritesInline (text : String) (path : List String) (entries : List (List String × Datum)) :
    Prop :=
  ∃ line body inner rest, ReadsTo (skipMark text.toList) line ∧
    key? line = some (path, '=' :: body) ∧ skipBlanks body = '{' :: inner ∧
    entriesWithin (2 * body.length + 1) 1 (skipBlanks inner) = some (entries, rest)

/-- No comment and no header starts with a key. -/
theorem linesWithin_of_key {cs : List Char} (hkey : key? (skipLines cs) ≠ none) (n : Nat) :
    linesWithin (n + 1) cs = (assignment? (skipLines cs)).bind fun r =>
      (linesWithin n r.2).map fun below => (r.1 :: below.1, below.2) := by
  rw [linesWithin]
  split
  · next hcs => exact absurd (congrArg key? hcs) hkey
  · next hcs => exact absurd (congrArg key? hcs) hkey
  · next hcs => exact absurd (congrArg key? hcs) hkey
  · cases assignment? (skipLines cs) <;> rfl

theorem key?_ne_none_of_assignment {cs left : List Char} {entry : List String × Datum}
    (h : assignment? cs = some (entry, left)) : key? cs ≠ none := by
  intro hnone
  rw [assignment?, hnone] at h
  cases h

/-- A document is not read if one of its lines has a key but no value. -/
theorem linesWithin_eq_none {cs line : List Char} (h : ReadsTo cs line) (hkey : key? line ≠ none)
    (hline : assignment? line = none) (n : Nat) : linesWithin n cs = none := by
  induction n generalizing cs with
  | zero => rfl
  | succ n ih =>
      cases h with
      | here => rw [linesWithin_of_key hkey, hline, Option.bind_none]
      | comment hcs hend hmore =>
          rw [linesWithin, hcs]
          simp only [hend, ih hmore]
      | header hcs hheader hmore =>
          rw [linesWithin, hcs]
          simp only [hheader, ih hmore, Option.map_none]
      | entry hentry hmore =>
          rw [linesWithin_of_key (key?_ne_none_of_assignment hentry), hentry, Option.bind_some,
            ih hmore, Option.map_none]

/-- An inline table that defines a path twice makes the document unreadable. -/
theorem outline?_eq_none {text : String} {path : List String}
    {entries : List (List String × Datum)} (h : WritesInline text path entries)
    (htwice : ¬ (entries.map Prod.fst).Nodup) : outline? text = none := by
  obtain ⟨line, body, inner, rest, hreads, hkey, hbody, hentries⟩ := h
  have hline : assignment? line = none := by
    rw [assignment?, hkey]
    simp only [hbody, valueWithin_eq_none hentries htwice]
  exact linesWithin_eq_none hreads (by simp [hkey]) hline _

/-! ## Keys of an outer table -/

/--
A text defines a key of an outer table twice: by headers and keys, or in an inline table that is
the value of the outer key.
-/
def DefinesTwice (text outer key : String) : Prop :=
  (∃ outline, outline? text = some outline ∧ 1 < outline.defined.count [outer, key]) ∨
    ∃ entries, WritesInline text [outer] entries ∧ 1 < (entries.map Prod.fst).count [key]

theorem Items.Arrayed.get?_eq {outer key : String} (h : items.Arrayed [outer, key]) :
    ∃ tables, items.get? outer = some (.elements tables) := by
  obtain ⟨front, first, rest, tables, hpath, hrest, htables⟩ := h
  cases front with
  | nil =>
      obtain ⟨rfl, _⟩ := List.cons.inj hpath
      exact ⟨tables, htables⟩
  | cons _ front =>
      -- Only the last segment is left for the array, and it stands before the end.
      have hlength := congrArg List.length hpath
      have hpos := List.length_pos_of_ne_nil hrest
      simp only [List.length_cons, List.length_append, List.length_nil] at hlength
      omega

/-- If a key of an outer table is defined twice, then the outer table is a list of tables. -/
theorem list_of_read {text : String} {d : Datum} {outer key : String}
    (htwice : DefinesTwice text outer key) (h : read text = some d) :
    ∃ entries ds, d = .table entries ∧ (.text outer, .list ds) ∈ entries := by
  rw [read_eq] at h
  rcases htwice with ⟨outline, houtline, hcount⟩ | ⟨entries, hinline, hcount⟩
  · rw [houtline, Option.bind_some] at h
    obtain ⟨items, rfl, harrayed⟩ := arrayed_of_assemble? h hcount
    obtain ⟨tables, htables⟩ := harrayed.get?_eq
    refine ⟨Item.entries items, Item.elementsData tables, rfl, ?_⟩
    rw [Item.entries_eq_map]
    exact List.mem_map.2 ⟨_, Items.mem_of_get? htables, rfl⟩
  · have hrepeated : ¬ (entries.map Prod.fst).Nodup := fun hnodup =>
      absurd (List.nodup_iff_count_le_one.1 hnodup [key]) (Nat.not_le_of_lt hcount)
    rw [outline?_eq_none hinline hrepeated] at h
    cases h

end Toml

end InstanceForge

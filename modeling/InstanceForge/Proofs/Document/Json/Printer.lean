import InstanceForge.Proofs.Document.Json.Layout

/-!
# Written values read back

Both written forms of a value are layouts of it, so each is read as the value.
-/

namespace InstanceForge

namespace Json

/-- The values that can be read: a number is one that is written, and nothing is a quantity. -/
inductive Faithful : Datum -> Prop where
  | null : Faithful .null
  | boolean (b : Bool) : Faithful (.boolean b)
  | number {n : Numeral} : n.Proper -> Faithful (.number n)
  | text (l : Literal) : Faithful (.text l)
  | list {items : List Datum} : (∀ d ∈ items, Faithful d) -> Faithful (.list items)
  | table {entries : List (Literal × Datum)} : (∀ e ∈ entries, Faithful e.2) ->
      Faithful (.table entries)

theorem faithful_ofString (s : String) : Faithful (.ofString s) := .text _

theorem faithful_ofStrings (items : List String) : Faithful (.ofStrings items) := by
  refine .list fun d hd => ?_
  obtain ⟨s, _, rfl⟩ := List.mem_map.1 hd
  exact faithful_ofString s

theorem faithful_ofEntries {entries : List (String × Datum)}
    (h : ∀ e ∈ entries, Faithful e.2) : Faithful (.ofEntries entries) := by
  refine .table fun e he => ?_
  obtain ⟨e', he', rfl⟩ := List.mem_map.1 he
  exact h e' he'

/-! ## Items and entries -/

theorem blanks_nil : Blanks [] := by
  intro c hc
  cases hc

theorem blanks_space : Blanks [' '] := by
  intro c hc
  rw [List.mem_singleton.1 hc]
  decide

/-- Items with the same characters before each of them, and commas between them. -/
def itemChars (lead : List Char) (write : Datum -> List Char) : List Datum -> List Char
  | [] => []
  | [item] => lead ++ write item
  | item :: next :: rest => lead ++ (write item ++ ',' :: itemChars lead write (next :: rest))

def entryChars (lead gap : List Char) (write : Datum -> List Char) :
    List (Literal × Datum) -> List Char
  | [] => []
  | [(key, value)] => lead ++ ('"' :: (literalTail key ++ ':' :: (gap ++ write value)))
  | (key, value) :: next :: rest =>
      lead ++ ('"' :: (literalTail key ++ ':' :: (gap ++ (write value ++
        ',' :: entryChars lead gap write (next :: rest)))))

theorem layout_itemChars {lead b : List Char} (write : Datum -> List Char) {items : List Datum}
    (hlead : Blanks lead) (hb : Blanks b) (hne : items ≠ [])
    (h : ∀ d ∈ items, Layout (.value d) (write d)) :
    Layout (.items items) (itemChars lead write items ++ b) := by
  induction items with
  | nil => exact absurd rfl hne
  | cons item rest ih =>
      have hitem := h item List.mem_cons_self
      cases rest with
      | nil =>
          have hlayout := Layout.item hlead hitem hb
          rwa [← List.append_assoc] at hlayout
      | cons next more =>
          have hrest := ih (List.cons_ne_nil _ _) fun d hd => h d (List.mem_cons_of_mem _ hd)
          have hlayout := Layout.nextItem hlead hitem blanks_nil hrest
          simpa [itemChars] using hlayout

theorem layout_entryChars {lead gap b : List Char} (write : Datum -> List Char)
    {entries : List (Literal × Datum)} (hlead : Blanks lead) (hgap : Blanks gap) (hb : Blanks b)
    (hne : entries ≠ []) (h : ∀ e ∈ entries, Layout (.value e.2) (write e.2)) :
    Layout (.entries entries) (entryChars lead gap write entries ++ b) := by
  induction entries with
  | nil => exact absurd rfl hne
  | cons entry rest ih =>
      obtain ⟨key, value⟩ := entry
      have hvalue := h (key, value) List.mem_cons_self
      cases rest with
      | nil =>
          have hlayout := Layout.entry key hlead blanks_nil hgap hvalue hb
          simpa [entryChars] using hlayout
      | cons next more =>
          have hrest := ih (List.cons_ne_nil _ _) fun e he => h e (List.mem_cons_of_mem _ he)
          have hlayout := Layout.nextEntry key hlead blanks_nil hgap hvalue blanks_nil hrest
          simpa [entryChars] using hlayout

theorem layout_boolean (b : Bool) :
    Layout (.value (.boolean b)) (writeScalar (.boolean b)).toList := by
  cases b with
  | false => exact .isFalse
  | true => exact .isTrue

theorem layout_text (l : Literal) : Layout (.value (.text l)) (writeLiteral l).toList := by
  rw [toList_writeLiteral]
  exact .text l

/-! ## Without blanks -/

theorem toList_compactItems (items : List Datum) :
    (compactItems items).toList = itemChars [] (fun d => (compact d).toList) items := by
  induction items with
  | nil => rfl
  | cons item rest ih =>
      cases rest with
      | nil => rfl
      | cons next more => simp [compactItems, itemChars, ih]

theorem toList_compactEntries (entries : List (Literal × Datum)) :
    (compactEntries entries).toList =
      entryChars [] [] (fun d => (compact d).toList) entries := by
  induction entries with
  | nil => rfl
  | cons entry rest ih =>
      cases rest with
      | nil => simp [compactEntries, entryChars, toList_writeLiteral]
      | cons next more => simp [compactEntries, entryChars, toList_writeLiteral, ih]

theorem layout_compact {d : Datum} (h : Faithful d) : Layout (.value d) (compact d).toList := by
  induction h with
  | null => exact .null
  | boolean b => exact layout_boolean b
  | number hn => exact .number hn
  | text l => exact layout_text l
  | @list items _ ih =>
      cases items with
      | nil => exact .emptyList blanks_nil
      | cons item rest =>
          have hlayout := Layout.list
            (layout_itemChars _ blanks_nil blanks_nil (List.cons_ne_nil _ _) ih)
          simpa [compact, toList_compactItems] using hlayout
  | @table entries _ ih =>
      cases entries with
      | nil => exact .emptyTable blanks_nil
      | cons entry rest =>
          have hlayout := Layout.table (layout_entryChars (fun d => (compact d).toList) blanks_nil
            blanks_nil blanks_nil (List.cons_ne_nil _ _) ih)
          simpa [compact, toList_compactEntries] using hlayout

/-- A value written without blanks reads back. -/
theorem read_compact {d : Datum} (h : Faithful d) : read (compact d) = some d := by
  have hread := (layout_compact h).read blanks_nil blanks_nil
  rwa [List.nil_append, List.append_nil, String.ofList_toList] at hread

/-! ## Over several lines -/

theorem blanks_newLine (level : Nat) : Blanks (newLine level).toList := by
  intro c hc
  rw [newLine, String.toList_ofList, List.mem_cons] at hc
  rcases hc with rfl | hc
  · decide
  · rw [(List.mem_replicate.1 hc).2]
    decide

theorem toList_prettyItems (level : Nat) (items : List Datum) :
    (prettyItems level items).toList =
      itemChars (newLine level).toList (fun d => (prettyAt level d).toList) items := by
  induction items with
  | nil => rfl
  | cons item rest ih =>
      cases rest with
      | nil => simp [prettyItems, itemChars]
      | cons next more => simp [prettyItems, itemChars, ih]

theorem toList_prettyEntries (level : Nat) (entries : List (Literal × Datum)) :
    (prettyEntries level entries).toList =
      entryChars (newLine level).toList [' '] (fun d => (prettyAt level d).toList) entries := by
  induction entries with
  | nil => rfl
  | cons entry rest ih =>
      cases rest with
      | nil => simp [prettyEntries, entryChars, toList_writeLiteral]
      | cons next more => simp [prettyEntries, entryChars, toList_writeLiteral, ih]

theorem layout_prettyAt {d : Datum} (h : Faithful d) (level : Nat) :
    Layout (.value d) (prettyAt level d).toList := by
  induction h generalizing level with
  | null =>
      rw [prettyAt]
      exact .null
  | boolean b =>
      rw [prettyAt]
      exact layout_boolean b
  | number hn =>
      rw [prettyAt]
      exact .number hn
  | text l =>
      rw [prettyAt]
      exact layout_text l
  | @list items _ ih =>
      cases items with
      | nil =>
          rw [prettyAt]
          exact .emptyList blanks_nil
      | cons item rest =>
          have hlayout := Layout.list (layout_itemChars _ (blanks_newLine (level + 1))
            (blanks_newLine level) (List.cons_ne_nil _ _) fun d hd => ih d hd (level + 1))
          simpa [prettyAt, toList_prettyItems] using hlayout
  | @table entries _ ih =>
      cases entries with
      | nil =>
          rw [prettyAt]
          exact .emptyTable blanks_nil
      | cons entry rest =>
          have hlayout := Layout.table (layout_entryChars
            (fun d => (prettyAt (level + 1) d).toList) (blanks_newLine (level + 1)) blanks_space
            (blanks_newLine level) (List.cons_ne_nil _ _) fun e he => ih e he (level + 1))
          simpa [prettyAt, toList_prettyEntries] using hlayout

/-- A value written over several lines reads back, with a line feed after it or without. -/
theorem read_pretty {d : Datum} {b : String} (h : Faithful d) (hb : Blanks b.toList) :
    read (pretty d ++ b) = some d := by
  have hread := (layout_prettyAt h 0).read blanks_nil hb
  rwa [List.nil_append, ← String.toList_append, String.ofList_toList] at hread

end Json

end InstanceForge

import InstanceForge.Proofs.Document.Json.Numerals
import InstanceForge.Proofs.Document.Json.Strings

/-!
# Laid out values

A value is laid out by its written scalars, with any blanks between them. Whatever the blanks
are, the value reads back.
-/

namespace InstanceForge

namespace Json

/-! ## Layouts -/

def Blanks (cs : List Char) : Prop :=
  ∀ c ∈ cs, isBlank c = true

/-- What a stretch of a text is laid out for. -/
inductive Part where
  | value (d : Datum)
  | items (items : List Datum)
  | entries (entries : List (Literal × Datum))

/-- The texts of values, of the items of lists, and of the entries of objects. -/
inductive Layout : Part -> List Char -> Prop where
  | null : Layout (.value .null) ['n', 'u', 'l', 'l']
  | isTrue : Layout (.value (.boolean true)) ['t', 'r', 'u', 'e']
  | isFalse : Layout (.value (.boolean false)) ['f', 'a', 'l', 's', 'e']
  | number {n : Numeral} : n.Proper -> Layout (.value (.number n)) (writeNumeral n).toList
  | text (l : Literal) : Layout (.value (.text l)) ('"' :: literalTail l)
  | emptyList {b : List Char} : Blanks b -> Layout (.value (.list [])) ('[' :: (b ++ [']']))
  | list {items : List Datum} {cs : List Char} : Layout (.items items) cs ->
      Layout (.value (.list items)) ('[' :: (cs ++ [']']))
  | emptyTable {b : List Char} : Blanks b -> Layout (.value (.table [])) ('{' :: (b ++ ['}']))
  | table {entries : List (Literal × Datum)} {cs : List Char} : Layout (.entries entries) cs ->
      Layout (.value (.table entries)) ('{' :: (cs ++ ['}']))
  | item {d : Datum} {b cs b' : List Char} : Blanks b -> Layout (.value d) cs -> Blanks b' ->
      Layout (.items [d]) (b ++ (cs ++ b'))
  | nextItem {d : Datum} {items : List Datum} {b cs b' more : List Char} : Blanks b ->
      Layout (.value d) cs -> Blanks b' -> Layout (.items items) more ->
      Layout (.items (d :: items)) (b ++ (cs ++ (b' ++ ',' :: more)))
  | entry {d : Datum} {b a a' cs b' : List Char} (key : Literal) : Blanks b -> Blanks a ->
      Blanks a' -> Layout (.value d) cs -> Blanks b' ->
      Layout (.entries [(key, d)])
        (b ++ ('"' :: (literalTail key ++ (a ++ ':' :: (a' ++ (cs ++ b'))))))
  | nextEntry {d : Datum} {entries : List (Literal × Datum)} {b a a' cs b' more : List Char}
      (key : Literal) : Blanks b -> Blanks a -> Blanks a' -> Layout (.value d) cs ->
      Blanks b' -> Layout (.entries entries) more ->
      Layout (.entries ((key, d) :: entries))
        (b ++ ('"' :: (literalTail key ++ (a ++ ':' :: (a' ++ (cs ++ (b' ++ ',' :: more)))))))

/-! ## Blanks -/

theorem skipBlanks_append {b : List Char} (cs : List Char) (h : Blanks b) :
    skipBlanks (b ++ cs) = skipBlanks cs := by
  rw [skipBlanks, List.dropWhile_append_of_pos h, skipBlanks]

theorem skipBlanks_cons {c : Char} (cs : List Char) (h : isBlank c = false) :
    skipBlanks (c :: cs) = c :: cs := by
  rw [skipBlanks, List.dropWhile_cons_of_neg (by simp [h])]

theorem skipBlanks_append_cons {b cs rest : List Char} {c : Char} (hb : Blanks b)
    (hc : isBlank c = false) : skipBlanks (b ++ c :: cs ++ rest) = c :: (cs ++ rest) := by
  rw [List.append_assoc, skipBlanks_append _ hb, List.cons_append, skipBlanks_cons _ hc]

theorem endsNumber_cons {c : Char} (cs : List Char)
    (h : c.isDigit = false ∧ c ≠ '.' ∧ c ≠ 'e' ∧ c ≠ 'E') : EndsNumber (c :: cs) := by
  intro d hd
  cases hd
  exact h

theorem endsNumber_append {b : List Char} {cs : List Char} (h : Blanks b) (hcs : EndsNumber cs) :
    EndsNumber (b ++ cs) := by
  cases b with
  | nil => exact hcs
  | cons c rest =>
      have hc : isBlank c = true := h c List.mem_cons_self
      simp only [isBlank, Bool.or_eq_true, beq_iff_eq] at hc
      rcases hc with ((rfl | rfl) | rfl) | rfl <;>
        exact endsNumber_cons _ (by decide)

/-! ## Starts -/

/-- No blank and no closing bracket is at the front. -/
def Opens (cs : List Char) : Prop :=
  ∃ c more, cs = c :: more ∧ isBlank c = false ∧ c ≠ ']' ∧ c ≠ '}'

theorem Opens.skipBlanks_append {b cs : List Char} (rest : List Char) (hcs : Opens cs)
    (h : Blanks b) : skipBlanks (b ++ (cs ++ rest)) = cs ++ rest := by
  obtain ⟨c, more, rfl, hc, _⟩ := hcs
  rw [Json.skipBlanks_append _ h, List.cons_append, skipBlanks_cons _ hc]

theorem opens_writeNumeral {n : Numeral} (h : n.Proper) : Opens (writeNumeral n).toList := by
  obtain ⟨c, more, hcons, hc⟩ := exists_cons_writeNumeral h
  have hne : ∀ e : Char, e.isDigit = false -> e ≠ '-' -> c ≠ e := by
    rintro e he hminus rfl
    rcases hc with hc | hc
    · rw [he] at hc
      cases hc
    · exact hminus hc
  refine ⟨c, more, hcons, ?_, hne _ (by decide) (by decide), hne _ (by decide) (by decide)⟩
  have hspace := hne ' ' (by decide) (by decide)
  have htab := hne '\t' (by decide) (by decide)
  have hfeed := hne '\n' (by decide) (by decide)
  have hreturn := hne '\r' (by decide) (by decide)
  simp [isBlank, hspace, htab, hfeed, hreturn]

theorem Layout.opens {d : Datum} {cs : List Char} (h : Layout (.value d) cs) : Opens cs := by
  cases h with
  | null => exact ⟨'n', _, rfl, by decide⟩
  | isTrue => exact ⟨'t', _, rfl, by decide⟩
  | isFalse => exact ⟨'f', _, rfl, by decide⟩
  | number hn => exact opens_writeNumeral hn
  | text l => exact ⟨'"', _, rfl, by decide⟩
  | emptyList _ => exact ⟨'[', _, rfl, by decide⟩
  | list _ => exact ⟨'[', _, rfl, by decide⟩
  | emptyTable _ => exact ⟨'{', _, rfl, by decide⟩
  | table _ => exact ⟨'{', _, rfl, by decide⟩

theorem Layout.exists_items {items : List Datum} {cs : List Char}
    (h : Layout (.items items) cs) :
    ∃ c more, (∀ rest, skipBlanks (cs ++ rest) = c :: (more ++ rest)) ∧ c ≠ ']' := by
  cases h with
  | item hb hvalue _ =>
      obtain ⟨c, more, rfl, hc, hclose, _⟩ := hvalue.opens
      exact ⟨c, _, fun rest => skipBlanks_append_cons hb hc, hclose⟩
  | nextItem hb hvalue _ _ =>
      obtain ⟨c, more, rfl, hc, hclose, _⟩ := hvalue.opens
      exact ⟨c, _, fun rest => skipBlanks_append_cons hb hc, hclose⟩

theorem Layout.exists_entries {entries : List (Literal × Datum)} {cs : List Char}
    (h : Layout (.entries entries) cs) :
    ∃ more, ∀ rest, skipBlanks (cs ++ rest) = '"' :: (more ++ rest) := by
  have hquote : isBlank '"' = false := by decide
  cases h with
  | entry key hb _ _ _ _ => exact ⟨_, fun rest => skipBlanks_append_cons hb hquote⟩
  | nextEntry key hb _ _ _ _ _ => exact ⟨_, fun rest => skipBlanks_append_cons hb hquote⟩

/-! ## Reading -/

theorem exists_succ_of_lt {m n : Nat} (h : m < n) : ∃ k, n = k + 1 :=
  ⟨n - 1, by omega⟩

theorem exists_succ_of_length_cons {c : Char} {cs : List Char} {n : Nat}
    (h : (c :: cs).length <= n) : ∃ k, n = k + 1 :=
  exists_succ_of_lt (Nat.lt_of_lt_of_le (Nat.succ_pos cs.length) h)

theorem valueWithin_number {n : Nat} {c : Char} {cs : List Char}
    (h : c.isDigit = true ∨ c = '-') :
    valueWithin (n + 1) (c :: cs) = (numeral? (c :: cs)).map fun r => (.number r.1, r.2) := by
  unfold valueWithin
  split
  all_goals first
    | rfl
    | next heq =>
        obtain ⟨rfl, _⟩ := List.cons.inj heq
        simp at h

theorem valueWithin_list {n : Nat} {cs : List Char} {c : Char} {more : List Char}
    (h : skipBlanks cs = c :: more) (hc : c ≠ ']') :
    valueWithin (n + 1) ('[' :: cs) =
      (itemsWithin n (c :: more)).map fun r => (.list r.1, r.2) := by
  rw [valueWithin, h]
  split
  · next heq => exact absurd (List.cons.inj heq).1 hc
  · rfl

theorem valueWithin_table {n : Nat} {cs : List Char} {c : Char} {more : List Char}
    (h : skipBlanks cs = c :: more) (hc : c ≠ '}') :
    valueWithin (n + 1) ('{' :: cs) =
      (entriesWithin n (c :: more)).map fun r => (.table r.1, r.2) := by
  rw [valueWithin, h]
  split
  · next heq => exact absurd (List.cons.inj heq).1 hc
  · rfl

/-- What is laid out reads back, with enough fuel and whatever follows it. -/
def Reads : Part -> List Char -> Prop
  | .value d, cs => ∀ n rest, cs.length <= n -> EndsNumber rest ->
      valueWithin n (cs ++ rest) = some (d, rest)
  | .items items, cs => ∀ n rest, cs.length < n ->
      itemsWithin n (skipBlanks (cs ++ ']' :: rest)) = some (items, rest)
  | .entries entries, cs => ∀ n rest, cs.length < n ->
      entriesWithin n (skipBlanks (cs ++ '}' :: rest)) = some (entries, rest)

theorem reads_text (l : Literal) : Reads (.value (.text l)) ('"' :: literalTail l) := by
  intro n rest hn _
  obtain ⟨m, rfl⟩ := exists_succ_of_length_cons hn
  rw [List.cons_append, valueWithin_text, literal?_literalTail]
  rfl

theorem reads_number {n : Numeral} (h : n.Proper) :
    Reads (.value (.number n)) (writeNumeral n).toList := by
  intro fuel rest hfuel hrest
  obtain ⟨c, more, hcons, hc⟩ := exists_cons_writeNumeral h
  have hread := numeral?_writeNumeral h hrest
  rw [hcons] at hfuel hread ⊢
  obtain ⟨m, rfl⟩ := exists_succ_of_length_cons hfuel
  rw [List.cons_append] at hread ⊢
  rw [valueWithin_number hc, hread]
  rfl

theorem reads_list {items : List Datum} {cs : List Char} (h : Layout (.items items) cs)
    (ih : Reads (.items items) cs) : Reads (.value (.list items)) ('[' :: (cs ++ [']'])) := by
  intro n rest hn _
  obtain ⟨m, rfl⟩ := exists_succ_of_length_cons hn
  rw [List.length_cons, List.length_append, List.length_singleton] at hn
  obtain ⟨c, more, hstart, hc⟩ := h.exists_items
  have hread := ih m rest (by omega)
  rw [hstart] at hread
  rw [List.cons_append, List.append_assoc, List.singleton_append,
    valueWithin_list (hstart (']' :: rest)) hc, hread]
  rfl

theorem reads_table {entries : List (Literal × Datum)} {cs : List Char}
    (h : Layout (.entries entries) cs) (ih : Reads (.entries entries) cs) :
    Reads (.value (.table entries)) ('{' :: (cs ++ ['}'])) := by
  intro n rest hn _
  obtain ⟨m, rfl⟩ := exists_succ_of_length_cons hn
  rw [List.length_cons, List.length_append, List.length_singleton] at hn
  obtain ⟨more, hstart⟩ := h.exists_entries
  have hread := ih m rest (by omega)
  rw [hstart] at hread
  rw [List.cons_append, List.append_assoc, List.singleton_append,
    valueWithin_table (hstart ('}' :: rest)) (by decide), hread]
  rfl

theorem reads_item {d : Datum} {b cs b' : List Char} (hb : Blanks b)
    (hvalue : Layout (.value d) cs) (hb' : Blanks b') (ih : Reads (.value d) cs) :
    Reads (.items [d]) (b ++ (cs ++ b')) := by
  intro n rest hn
  obtain ⟨m, rfl⟩ := exists_succ_of_lt hn
  simp only [List.length_append] at hn
  have hclose : EndsNumber (b' ++ ']' :: rest) :=
    endsNumber_append hb' (endsNumber_cons _ (by decide))
  have hread := ih m (b' ++ ']' :: rest) (by omega) hclose
  rw [List.append_assoc, List.append_assoc, hvalue.opens.skipBlanks_append _ hb, itemsWithin,
    hread]
  simp only [skipBlanks_append _ hb', skipBlanks_cons rest (show isBlank ']' = false by decide)]

theorem reads_nextItem {d : Datum} {items : List Datum} {b cs b' more : List Char}
    (hb : Blanks b) (hvalue : Layout (.value d) cs) (hb' : Blanks b')
    (ih : Reads (.value d) cs) (ihmore : Reads (.items items) more) :
    Reads (.items (d :: items)) (b ++ (cs ++ (b' ++ ',' :: more))) := by
  intro n rest hn
  obtain ⟨m, rfl⟩ := exists_succ_of_lt hn
  simp only [List.length_append, List.length_cons] at hn
  have hcomma : EndsNumber (b' ++ ',' :: (more ++ ']' :: rest)) :=
    endsNumber_append hb' (endsNumber_cons _ (by decide))
  have hread := ih m (b' ++ ',' :: (more ++ ']' :: rest)) (by omega) hcomma
  have hmore := ihmore m rest (by omega)
  simp only [List.append_assoc, List.cons_append]
  rw [hvalue.opens.skipBlanks_append _ hb, itemsWithin, hread]
  simp only [skipBlanks_append _ hb', skipBlanks_cons _ (show isBlank ',' = false by decide),
    hmore, Option.map_some]

theorem reads_entry {d : Datum} {b a a' cs b' : List Char} (key : Literal) (hb : Blanks b)
    (ha : Blanks a) (ha' : Blanks a') (hvalue : Layout (.value d) cs) (hb' : Blanks b')
    (ih : Reads (.value d) cs) :
    Reads (.entries [(key, d)])
      (b ++ ('"' :: (literalTail key ++ (a ++ ':' :: (a' ++ (cs ++ b')))))) := by
  intro n rest hn
  obtain ⟨m, rfl⟩ := exists_succ_of_lt hn
  simp only [List.length_append, List.length_cons] at hn
  have hclose : EndsNumber (b' ++ '}' :: rest) :=
    endsNumber_append hb' (endsNumber_cons _ (by decide))
  have hread := ih m (b' ++ '}' :: rest) (by omega) hclose
  simp only [List.append_assoc, List.cons_append]
  rw [skipBlanks_append _ hb, skipBlanks_cons _ (show isBlank '"' = false by decide),
    entriesWithin, literal?_literalTail]
  simp only [skipBlanks_append _ ha, skipBlanks_cons _ (show isBlank ':' = false by decide),
    hvalue.opens.skipBlanks_append _ ha', hread, skipBlanks_append _ hb',
    skipBlanks_cons _ (show isBlank '}' = false by decide)]

theorem reads_nextEntry {d : Datum} {entries : List (Literal × Datum)}
    {b a a' cs b' more : List Char} (key : Literal) (hb : Blanks b) (ha : Blanks a)
    (ha' : Blanks a') (hvalue : Layout (.value d) cs) (hb' : Blanks b')
    (ih : Reads (.value d) cs) (ihmore : Reads (.entries entries) more) :
    Reads (.entries ((key, d) :: entries))
      (b ++ ('"' :: (literalTail key ++ (a ++ ':' :: (a' ++ (cs ++ (b' ++ ',' :: more))))))) := by
  intro n rest hn
  obtain ⟨m, rfl⟩ := exists_succ_of_lt hn
  simp only [List.length_append, List.length_cons] at hn
  have hcomma : EndsNumber (b' ++ ',' :: (more ++ '}' :: rest)) :=
    endsNumber_append hb' (endsNumber_cons _ (by decide))
  have hread := ih m (b' ++ ',' :: (more ++ '}' :: rest)) (by omega) hcomma
  have hmore := ihmore m rest (by omega)
  simp only [List.append_assoc, List.cons_append]
  rw [skipBlanks_append _ hb, skipBlanks_cons _ (show isBlank '"' = false by decide),
    entriesWithin, literal?_literalTail]
  simp only [skipBlanks_append _ ha, skipBlanks_cons _ (show isBlank ':' = false by decide),
    hvalue.opens.skipBlanks_append _ ha', hread, skipBlanks_append _ hb',
    skipBlanks_cons _ (show isBlank ',' = false by decide), hmore, Option.map_some]

/-- Every layout reads back. -/
theorem Layout.reads {part : Part} {cs : List Char} (h : Layout part cs) : Reads part cs := by
  induction h with
  | null =>
      intro n rest hn _
      obtain ⟨m, rfl⟩ := exists_succ_of_length_cons hn
      rfl
  | isTrue =>
      intro n rest hn _
      obtain ⟨m, rfl⟩ := exists_succ_of_length_cons hn
      rfl
  | isFalse =>
      intro n rest hn _
      obtain ⟨m, rfl⟩ := exists_succ_of_length_cons hn
      rfl
  | number hn => exact reads_number hn
  | text l => exact reads_text l
  | emptyList hb =>
      intro n rest hn _
      obtain ⟨m, rfl⟩ := exists_succ_of_length_cons hn
      rw [List.cons_append, List.append_assoc, valueWithin, skipBlanks_append _ hb]
      rfl
  | list hitems ih => exact reads_list hitems ih
  | emptyTable hb =>
      intro n rest hn _
      obtain ⟨m, rfl⟩ := exists_succ_of_length_cons hn
      rw [List.cons_append, List.append_assoc, valueWithin, skipBlanks_append _ hb]
      rfl
  | table hentries ih => exact reads_table hentries ih
  | item hb hvalue hb' ih => exact reads_item hb hvalue hb' ih
  | nextItem hb hvalue hb' hmore ih ihmore => exact reads_nextItem hb hvalue hb' ih ihmore
  | entry key hb ha ha' hvalue hb' ih => exact reads_entry key hb ha ha' hvalue hb' ih
  | nextEntry key hb ha ha' hvalue hb' hmore ih ihmore =>
      exact reads_nextEntry key hb ha ha' hvalue hb' ih ihmore

/-- A text that lays out a value, with blanks around it, is read as this value. -/
theorem Layout.read {d : Datum} {b cs b' : List Char} (h : Layout (.value d) cs) (hb : Blanks b)
    (hb' : Blanks b') : Json.read (String.ofList (b ++ (cs ++ b'))) = some d := by
  have hends : EndsNumber b' := by
    have hnil : EndsNumber [] := fun c hc => by cases hc
    have happend := endsNumber_append hb' hnil
    rwa [List.append_nil] at happend
  have hblank : skipBlanks b' = [] := by
    have happend := skipBlanks_append [] hb'
    rwa [List.append_nil] at happend
  rw [Json.read, String.toList_ofList, readChars, h.opens.skipBlanks_append _ hb,
    h.reads _ b' (by simp only [List.length_append]; omega) hends]
  simp only [hblank]

end Json

end InstanceForge

import InstanceForge.Text.Basic
import Mathlib.Data.List.Chain
import Mathlib.Data.List.DropRight

/-!
# Trimming, lines and digits

A trimmed text is what the text holds between the white space around it. The lines of a text are
told apart by line feeds alone, so a text that is known up to a line feed has a known first line.
Hexadecimal digits are read back as what they were written for.
-/

namespace InstanceForge

namespace Text

/-! ## Trimming -/

/-- What a text holds between the white space around it. -/
structure Trimmed (cs core : List Char) : Prop where
  around : ∃ front back, cs = front ++ (core ++ back) ∧
    (∀ c ∈ front, isSpace c = true) ∧ ∀ c ∈ back, isSpace c = true
  head : ∀ c, core.head? = some c -> isSpace c = false
  last : ∀ c, core.getLast? = some c -> isSpace c = false

theorem dropWhile_isSpace_of_head {cs : List Char}
    (h : ∀ c, cs.head? = some c -> isSpace c = false) : cs.dropWhile isSpace = cs := by
  cases cs with
  | nil => rfl
  | cons c rest => rw [List.dropWhile_cons_of_neg (by simp [h c rfl])]

theorem dropSpaceRight_append {core back : List Char} (hback : ∀ c ∈ back, isSpace c = true)
    (hlast : ∀ c, core.getLast? = some c -> isSpace c = false) :
    dropSpaceRight (core ++ back) = core := by
  have hreverse : ∀ c ∈ back.reverse, isSpace c = true :=
    fun c hc => hback c (List.mem_reverse.1 hc)
  have hhead : ∀ c, core.reverse.head? = some c -> isSpace c = false := by
    intro c hc
    rw [List.head?_reverse] at hc
    exact hlast c hc
  rw [dropSpaceRight, List.reverse_append, List.dropWhile_append_of_pos hreverse,
    dropWhile_isSpace_of_head hhead, List.reverse_reverse]

theorem Trimmed.trimChars_eq {cs core : List Char} (h : Trimmed cs core) :
    trimChars cs = core := by
  obtain ⟨⟨front, back, rfl, hfront, hback⟩, hhead, hlast⟩ := h
  rw [trimChars, List.dropWhile_append_of_pos hfront]
  cases core with
  | nil =>
      rw [List.nil_append, List.dropWhile_eq_nil_iff.2 hback]
      rfl
  | cons c rest =>
      rw [List.cons_append, List.dropWhile_cons_of_neg (by simp [hhead c rfl]),
        ← List.cons_append, dropSpaceRight_append hback hlast]

theorem trimmed_trimChars (cs : List Char) : Trimmed cs (trimChars cs) := by
  have hfront := List.takeWhile_append_dropWhile (p := isSpace) (l := cs)
  have hback := List.rdropWhile_append_rtakeWhile (p := isSpace) (l := cs.dropWhile isSpace)
  refine ⟨⟨cs.takeWhile isSpace, (cs.dropWhile isSpace).rtakeWhile isSpace, ?_,
    fun c => List.mem_takeWhile_imp, fun c => List.mem_rtakeWhile_imp⟩, ?_, ?_⟩
  · exact hfront.symm.trans (congrArg _ hback.symm)
  · intro c hc
    obtain ⟨more, hmore⟩ := List.rdropWhile_prefix isSpace (cs.dropWhile isSpace)
    have hhead : (cs.dropWhile isSpace).head? = some c := by
      rw [← hmore, List.head?_append]
      exact congrArg (Option.or · _) hc
    have hnot := List.head?_dropWhile_not isSpace cs
    rw [hhead] at hnot
    exact hnot
  · intro c hc
    have hne : (cs.dropWhile isSpace).rdropWhile isSpace ≠ [] := by
      intro hnil
      cases (congrArg List.getLast? hnil).symm.trans hc
    have hnot := List.rdropWhile_last_not isSpace _ hne
    rw [List.getLast_eq_iff_getLast?_eq_some hne |>.2 hc] at hnot
    simpa using hnot

theorem trimChars_eq_iff {cs core : List Char} : trimChars cs = core ↔ Trimmed cs core :=
  ⟨fun h => h ▸ trimmed_trimChars cs, Trimmed.trimChars_eq⟩

theorem trimChars_of_all {cs : List Char} (h : ∀ c ∈ cs, isSpace c = false) :
    trimChars cs = cs := by
  refine Trimmed.trimChars_eq ⟨⟨[], [], by simp, by simp, by simp⟩, ?_, ?_⟩
  · exact fun c hc => h c (List.mem_of_head? hc)
  · exact fun c hc => h c (List.mem_of_getLast? hc)

/-! ## Lines -/

theorem splitFeeds_ne_nil (cs : List Char) : splitFeeds cs ≠ [] := by
  cases cs with
  | nil => simp [splitFeeds]
  | cons c rest =>
      unfold splitFeeds
      split
      · simp
      · split <;> simp

theorem splitFeeds_append {line : List Char} (rest : List Char) (h : '\n' ∉ line) :
    splitFeeds (line ++ '\n' :: rest) = line :: splitFeeds rest := by
  induction line with
  | nil => simp [splitFeeds]
  | cons c line ih =>
      have hc : c ≠ '\n' := fun hc => h (by simp [hc])
      have hline : '\n' ∉ line := fun hmem => h (List.mem_cons_of_mem _ hmem)
      rw [List.cons_append, splitFeeds, if_neg hc, ih hline]

theorem lines_append {line : List Char} (rest : List Char) (h : '\n' ∉ line) :
    lines (line ++ '\n' :: rest) = dropReturn line :: lines rest := by
  obtain ⟨part, parts, hparts⟩ := List.exists_cons_of_ne_nil (splitFeeds_ne_nil rest)
  have hlast : (line :: splitFeeds rest).getLast? = (splitFeeds rest).getLast? := by
    rw [hparts, List.getLast?_cons_cons]
  have hfront : (line :: splitFeeds rest).dropLast = line :: (splitFeeds rest).dropLast := by
    rw [hparts, List.dropLast_cons_cons]
  unfold lines
  simp only [splitFeeds_append rest h, hlast, hfront, List.map_cons]
  split <;> rfl

theorem dropReturn_of_notMem {line : List Char} (h : '\r' ∉ line) : dropReturn line = line := by
  rw [dropReturn, if_neg]
  exact fun hlast => h (List.mem_of_getLast? hlast)

theorem dropReturn_prefix (line : List Char) : dropReturn line <+: line := by
  unfold dropReturn
  split
  · exact List.dropLast_prefix line
  · exact List.prefix_refl line

theorem exists_prefix_of_mem_lines {line cs : List Char} (h : line ∈ lines cs) :
    ∃ part ∈ splitFeeds cs, line <+: part := by
  have hfront : ∀ l ∈ (splitFeeds cs).dropLast.map dropReturn,
      ∃ part ∈ splitFeeds cs, l <+: part := by
    intro l hl
    obtain ⟨part, hpart, rfl⟩ := List.mem_map.1 hl
    exact ⟨part, List.dropLast_subset _ hpart, dropReturn_prefix part⟩
  unfold lines at h
  dsimp only at h
  split at h
  · exact hfront line h
  · exact hfront line h
  · next last _ hlast =>
      rcases List.mem_append.1 h with h | h
      · exact hfront line h
      · rw [List.mem_singleton.1 h]
        exact ⟨last, List.mem_of_getLast? hlast, List.prefix_refl last⟩

/-! ## Starts of lines -/

/-- No line but the first begins with a character. -/
def KeepsOff (mark : Char) (cs : List Char) : Prop :=
  cs.IsChain fun a b => a = '\n' -> b ≠ mark

theorem head?_eq_of_head?_splitFeeds {c : Char} {line : List Char} {cs : List Char}
    {lines : List (List Char)} (h : splitFeeds cs = line :: lines) (hline : line.head? = some c) :
    cs.head? = some c := by
  cases cs with
  | nil =>
      rw [splitFeeds, List.cons.injEq] at h
      simp [← h.1] at hline
  | cons d rest =>
      unfold splitFeeds at h
      split at h
      · rw [List.cons.injEq] at h
        simp [← h.1] at hline
      · split at h
        all_goals
          rw [List.cons.injEq] at h
          rw [← h.1] at hline
          exact hline

theorem head?_ne_of_mem_tail {mark : Char} {cs line : List Char} (h : KeepsOff mark cs)
    (hline : line ∈ (splitFeeds cs).tail) : line.head? ≠ some mark := by
  induction cs with
  | nil => simp [splitFeeds] at hline
  | cons c rest ih =>
      have hrest : KeepsOff mark rest := h.tail
      obtain ⟨first, others, hsplit⟩ := List.exists_cons_of_ne_nil (splitFeeds_ne_nil rest)
      by_cases hc : c = '\n'
      · rw [splitFeeds, if_pos hc, List.tail_cons, hsplit] at hline
        rcases List.mem_cons.1 hline with rfl | hline
        · intro hmark
          have hhead := head?_eq_of_head?_splitFeeds hsplit hmark
          exact List.IsChain.rel_head? h hhead hc rfl
        · exact ih hrest (by rw [hsplit]; exact hline)
      · simp only [splitFeeds, if_neg hc, hsplit, List.tail_cons] at hline
        exact ih hrest (by rw [hsplit]; exact hline)

/-- If no line of a text begins with a character, none of its lines does. -/
theorem head?_ne_of_mem_lines {mark : Char} {cs line : List Char} (h : KeepsOff mark cs)
    (hhead : cs.head? ≠ some mark) (hline : line ∈ lines cs) : line.head? ≠ some mark := by
  obtain ⟨part, hpart, hprefix⟩ := exists_prefix_of_mem_lines hline
  intro hmark
  have hpartHead : part.head? = some mark := by
    obtain ⟨more, rfl⟩ := hprefix
    rw [List.head?_append, hmark, Option.some_or]
  obtain ⟨first, others, hsplit⟩ := List.exists_cons_of_ne_nil (splitFeeds_ne_nil cs)
  rw [hsplit] at hpart
  rcases List.mem_cons.1 hpart with rfl | hpart
  · exact hhead (head?_eq_of_head?_splitFeeds hsplit hpartHead)
  · exact head?_ne_of_mem_tail h (by rw [hsplit]; exact hpart) hpartHead

/-! ## Hexadecimal digits -/

theorem hexValue?_hexDigit {n : Nat} (h : n < 16) : hexValue? (hexDigit n) = some n := by
  have hall : ∀ n < 16, hexValue? (hexDigit n) = some n := by decide
  exact hall n h

theorem hexDigit_ne_plus {n : Nat} (h : n < 16) : hexDigit n ≠ '+' := by
  intro heq
  have hnone : hexValue? '+' = none := by decide
  have hvalue := hexValue?_hexDigit h
  rw [heq, hnone] at hvalue
  cases hvalue

theorem isSpace_hexDigit {n : Nat} (h : n < 16) : isSpace (hexDigit n) = false := by
  have hall : ∀ n < 16, isSpace (hexDigit n) = false := by decide
  exact hall n h

theorem isSpace_eq_false_of_mem_hexByte {b : UInt8} {c : Char} (h : c ∈ hexByte b) :
    isSpace c = false := by
  have hlt : b.toNat < 256 := b.toNat_lt
  rw [hexByte, List.mem_cons, List.mem_singleton] at h
  rcases h with rfl | rfl
  · exact isSpace_hexDigit (by omega)
  · exact isSpace_hexDigit (by omega)

end Text

end InstanceForge

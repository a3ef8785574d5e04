import InstanceForge.Proofs.Document.Json.Printer
import InstanceForge.Proofs.Text.Basic

/-!
# Lines of written values

A value that is written over several lines has line feeds only where a line begins, and no line
begins with a slash.
-/

namespace InstanceForge

namespace Json

/-! ## Line feeds and slashes -/

/-- No line feed is at the end or before a slash. -/
structure Unslashed (cs : List Char) : Prop where
  keepsOff : Text.KeepsOff '/' cs
  last : cs.getLast? ≠ some '\n'

theorem Unslashed.append {xs ys : List Char} (hxs : Unslashed xs) (hys : Unslashed ys) :
    Unslashed (xs ++ ys) := by
  constructor
  · refine List.isChain_append.2 ⟨hxs.keepsOff, hys.keepsOff, fun x hx y _ hfeed => ?_⟩
    rw [hfeed] at hx
    exact absurd hx hxs.last
  · rw [List.getLast?_append]
    intro hlast
    cases hlastYs : ys.getLast? with
    | none =>
        rw [hlastYs, Option.none_or] at hlast
        exact hxs.last hlast
    | some c =>
        rw [hlastYs, Option.some_or] at hlast
        exact hys.last (hlastYs.trans hlast)

theorem unslashed_of_notMem {cs : List Char} (h : '\n' ∉ cs) : Unslashed cs := by
  constructor
  · induction cs with
    | nil => exact List.isChain_nil
    | cons c rest ih =>
        have hrest := ih fun hmem => h (List.mem_cons_of_mem _ hmem)
        refine List.isChain_cons.2 ⟨fun y _ hfeed => absurd ?_ h, hrest⟩
        rw [hfeed]
        exact List.mem_cons_self
  · exact fun hlast => h (List.mem_of_getLast? hlast)

theorem unslashed_feed {c : Char} {cs : List Char} (hc : c ≠ '/') (h : '\n' ∉ c :: cs) :
    Unslashed ('\n' :: c :: cs) := by
  have hrest := unslashed_of_notMem h
  constructor
  · refine List.isChain_cons.2 ⟨fun y hy _ => ?_, hrest.keepsOff⟩
    cases hy
    exact hc
  · rw [List.getLast?_cons_cons]
    exact hrest.last

theorem toList_newLine_succ (level : Nat) :
    (newLine (level + 1)).toList = '\n' :: ' ' :: List.replicate (2 * level + 1) ' ' := by
  rw [newLine, String.toList_ofList]
  rfl

theorem unslashed_newLine_succ (level : Nat) : Unslashed (newLine (level + 1)).toList := by
  rw [toList_newLine_succ]
  refine unslashed_feed (by decide) fun hmem => ?_
  rw [← List.replicate_succ, List.mem_replicate] at hmem
  exact absurd hmem.2 (by decide)

theorem unslashed_newLine_append {c : Char} (level : Nat) (hc : c ≠ '/') (hfeed : c ≠ '\n') :
    Unslashed ((newLine level).toList ++ [c]) := by
  have hlast : '\n' ∉ [c] := fun hmem => hfeed (List.mem_singleton.1 hmem).symm
  cases level with
  | zero => exact unslashed_feed hc hlast
  | succ level => exact (unslashed_newLine_succ level).append (unslashed_of_notMem hlast)

theorem feed_notMem_escapeChar (c : Char) : '\n' ∉ escapeChar c := by
  have hhex : ∀ n < 16, '\n' ≠ Text.hexDigit n := by decide
  unfold escapeChar
  split
  · decide
  split
  · decide
  split
  · decide
  split
  · decide
  split
  · decide
  split
  · decide
  split
  · decide
  split
  · next h =>
      simp only [List.mem_cons, List.not_mem_nil, or_false, not_or]
      exact ⟨by decide, by decide, by decide, by decide, hhex _ (by omega), hhex _ (by omega)⟩
  · next h =>
      rw [List.mem_singleton]
      rintro rfl
      exact h (by decide)

theorem feed_notMem_writeLiteral (l : Literal) : '\n' ∉ (writeLiteral l).toList := by
  rw [toList_writeLiteral]
  cases l with
  | unpaired => decide
  | text s =>
      intro hmem
      simp only [literalTail, List.mem_cons, List.mem_append, List.mem_flatMap,
        List.not_mem_nil, or_false] at hmem
      rcases hmem with heq | ⟨c, _, hc⟩ | heq
      · exact absurd heq (by decide)
      · exact feed_notMem_escapeChar c hc
      · exact absurd heq (by decide)

theorem feed_notMem_map_digitChar {ds : List Nat} (h : ∀ d ∈ ds, d < 10) :
    '\n' ∉ ds.map digitChar := by
  intro hmem
  obtain ⟨d, hd, hfeed⟩ := List.mem_map.1 hmem
  exact digitChar_ne (h d hd) (by decide) hfeed

theorem feed_notMem_signChars (negative : Bool) : '\n' ∉ signChars negative := by
  cases negative <;> decide

theorem feed_notMem_writeNumeral {n : Numeral} (h : n.Proper) :
    '\n' ∉ (writeNumeral n).toList := by
  rw [toList_writeNumeral]
  simp only [List.mem_append, not_or]
  refine ⟨feed_notMem_signChars _, feed_notMem_map_digitChar h.whole, ?_, ?_⟩
  · unfold fractionChars
    split
    · exact List.not_mem_nil
    · rw [List.mem_cons, not_or]
      exact ⟨by decide, feed_notMem_map_digitChar h.fraction⟩
  · cases hexponent : n.exponent with
    | none => exact List.not_mem_nil
    | some e =>
        rw [exponentChars, List.mem_cons, List.mem_append, not_or, not_or]
        exact ⟨by decide, feed_notMem_signChars _,
          feed_notMem_map_digitChar (h.exponent e hexponent)⟩

theorem unslashed_itemChars {lead : List Char} (write : Datum -> List Char) {items : List Datum}
    (hlead : Unslashed lead) (h : ∀ d ∈ items, Unslashed (write d)) :
    Unslashed (itemChars lead write items) := by
  have hcomma : Unslashed [','] := unslashed_of_notMem (by decide)
  induction items with
  | nil => exact unslashed_of_notMem List.not_mem_nil
  | cons item rest ih =>
      have hitem := h item List.mem_cons_self
      cases rest with
      | nil => exact hlead.append hitem
      | cons next more =>
          have hrest := ih fun d hd => h d (List.mem_cons_of_mem _ hd)
          exact hlead.append (hitem.append (hcomma.append hrest))

theorem unslashed_entryChars {lead : List Char} (write : Datum -> List Char)
    {entries : List (Literal × Datum)} (hlead : Unslashed lead)
    (h : ∀ e ∈ entries, Unslashed (write e.2)) :
    Unslashed (entryChars lead [' '] write entries) := by
  have hcomma : Unslashed [','] := unslashed_of_notMem (by decide)
  have hcolon : Unslashed [':', ' '] := unslashed_of_notMem (by decide)
  have hkey : ∀ key, Unslashed ('"' :: literalTail key) := by
    intro key
    rw [← toList_writeLiteral]
    exact unslashed_of_notMem (feed_notMem_writeLiteral key)
  induction entries with
  | nil => exact unslashed_of_notMem List.not_mem_nil
  | cons entry rest ih =>
      obtain ⟨key, value⟩ := entry
      have hvalue := h (key, value) List.mem_cons_self
      cases rest with
      | nil => exact hlead.append ((hkey key).append (hcolon.append hvalue))
      | cons next more =>
          have hrest := ih fun e he => h e (List.mem_cons_of_mem _ he)
          exact hlead.append ((hkey key).append
            (hcolon.append (hvalue.append (hcomma.append hrest))))

theorem unslashed_prettyAt {d : Datum} (h : Faithful d) (level : Nat) :
    Unslashed (prettyAt level d).toList := by
  induction h generalizing level with
  | null =>
      rw [prettyAt]
      exact unslashed_of_notMem (by decide)
  | boolean b =>
      rw [prettyAt]
      cases b <;> exact unslashed_of_notMem (by decide)
  | number hn =>
      rw [prettyAt]
      exact unslashed_of_notMem (feed_notMem_writeNumeral hn)
  | text l =>
      rw [prettyAt]
      exact unslashed_of_notMem (feed_notMem_writeLiteral l)
  | @list items _ ih =>
      cases items with
      | nil =>
          rw [prettyAt]
          exact unslashed_of_notMem (by decide)
      | cons item rest =>
          have hopen : Unslashed ['['] := unslashed_of_notMem (by decide)
          have hitems := unslashed_itemChars _ (unslashed_newLine_succ level)
            fun d hd => ih d hd (level + 1)
          have hclose := unslashed_newLine_append (c := ']') level (by decide) (by decide)
          simpa [prettyAt, toList_prettyItems] using hopen.append (hitems.append hclose)
  | @table entries _ ih =>
      cases entries with
      | nil =>
          rw [prettyAt]
          exact unslashed_of_notMem (by decide)
      | cons entry rest =>
          have hopen : Unslashed ['{'] := unslashed_of_notMem (by decide)
          have hentries := unslashed_entryChars (fun d => (prettyAt (level + 1) d).toList)
            (unslashed_newLine_succ level) fun e he => ih e he (level + 1)
          have hclose := unslashed_newLine_append (c := '}') level (by decide) (by decide)
          simpa [prettyAt, toList_prettyEntries] using hopen.append (hentries.append hclose)

theorem Layout.head?_ne_slash {d : Datum} {cs : List Char} (h : Layout (.value d) cs) :
    cs.head? ≠ some '/' := by
  cases h with
  | number hn =>
      obtain ⟨c, more, hcons, hc⟩ := exists_cons_writeNumeral hn
      rw [hcons]
      rintro ⟨⟩
      rcases hc with hc | hc <;> exact absurd hc (by decide)
  | _ => simp

/-- No line of a written value begins with a slash. -/
theorem head?_ne_slash_of_mem_lines {d : Datum} {line : List Char} (h : Faithful d)
    (hline : line ∈ Text.lines (pretty d ++ "\n").toList) : line.head? ≠ some '/' := by
  have hpretty := unslashed_prettyAt h 0
  have hhead := (layout_prettyAt h 0).head?_ne_slash
  rw [String.toList_append] at hline
  refine Text.head?_ne_of_mem_lines ?_ ?_ hline
  · refine List.isChain_append.2 ⟨hpretty.keepsOff, List.isChain_singleton _, ?_⟩
    rintro x hx y hy hfeed
    cases hy
    decide
  · rw [List.head?_append]
    cases hcs : (prettyAt 0 d).toList.head? with
    | none =>
        rw [pretty, hcs]
        decide
    | some c =>
        rw [pretty, hcs]
        rw [hcs] at hhead
        exact hhead

end Json

end InstanceForge

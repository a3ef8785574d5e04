import InstanceForge.Document.Json.Printer
import InstanceForge.Proofs.Text.Basic

/-!
# Written strings read back

The pieces of a written string are its characters, one for each.
-/

namespace InstanceForge

namespace Json

/-! ## One character -/

theorem hexWord?_of_lt {n : Nat} (h : n < 32) :
    hexWord? '0' '0' (Text.hexDigit (n / 16)) (Text.hexDigit (n % 16)) = some n := by
  have hzero : Text.hexValue? '0' = some 0 := by decide
  have hvalue : ((0 * 16 + 0) * 16 + n / 16) * 16 + n % 16 = n := by omega
  simp only [hexWord?, hzero, Text.hexValue?_hexDigit (show n / 16 < 16 by omega),
    Text.hexValue?_hexDigit (show n % 16 < 16 by omega), Option.bind_eq_bind, Option.bind_some]
  exact congrArg some hvalue

theorem piecesWithin_simple {n : Nat} {e c : Char} {rest : List Char} (he : e ≠ 'u')
    (h : simpleEscape? e = some c) :
    piecesWithin (n + 1) ('\\' :: e :: rest) =
      (piecesWithin n rest).map fun r => (some c :: r.1, r.2) := by
  rw [piecesWithin, if_neg (by decide), if_neg (by decide), if_pos rfl]
  split
  · next heq =>
      rw [h, Option.some.injEq] at heq
      rw [heq]
  · next heq =>
      rw [h] at heq
      cases heq
  · intro _ _ _ _ _ heq
    exact absurd heq he

theorem piecesWithin_escapeChar (n : Nat) (c : Char) (rest : List Char) :
    piecesWithin (n + 1) (escapeChar c ++ rest) =
      (piecesWithin n rest).map fun r => (some c :: r.1, r.2) := by
  unfold escapeChar
  split
  · next h => subst h; exact piecesWithin_simple (by decide) rfl
  split
  · next h => subst h; exact piecesWithin_simple (by decide) rfl
  split
  · next h => exact piecesWithin_simple (by decide) (by rw [← Char.ofNat_toNat c, h]; rfl)
  split
  · next h => exact piecesWithin_simple (by decide) (by rw [← Char.ofNat_toNat c, h]; rfl)
  split
  · next h => exact piecesWithin_simple (by decide) (by rw [← Char.ofNat_toNat c, h]; rfl)
  split
  · next h => exact piecesWithin_simple (by decide) (by rw [← Char.ofNat_toNat c, h]; rfl)
  split
  · next h => exact piecesWithin_simple (by decide) (by rw [← Char.ofNat_toNat c, h]; rfl)
  split
  · next h =>
      have hhigh : isHighHalf c.toNat = false := by simp [isHighHalf]; omega
      have hlow : isLowHalf c.toNat = false := by simp [isLowHalf]; omega
      simp [piecesWithin, hexWord?_of_lt h, hhigh, hlow]
  · next hquote hslash _ _ _ _ _ h =>
      simp [piecesWithin, hquote, hslash, h]

theorem escapeChar_ne_nil (c : Char) : escapeChar c ≠ [] := by
  grind [escapeChar]

/-! ## Whole strings -/

theorem piecesWithin_flatMap_escapeChar {n : Nat} (cs rest : List Char) (h : cs.length < n) :
    piecesWithin n (cs.flatMap escapeChar ++ '"' :: rest) = some (cs.map some, rest) := by
  induction cs generalizing n with
  | nil =>
      obtain ⟨m, rfl⟩ := Nat.exists_eq_add_of_lt h
      simp [piecesWithin]
  | cons c cs ih =>
      obtain ⟨m, rfl⟩ : ∃ m, n = m + 1 := ⟨n - 1, by omega⟩
      rw [List.flatMap_cons, List.append_assoc, piecesWithin_escapeChar,
        ih (by simpa using h)]
      rfl

@[simp] theorem literalOfPieces_map_some (cs : List Char) :
    literalOfPieces (cs.map some) = .text (String.ofList cs) := by
  have hpieces : (cs.map some).mapM id = some cs := by
    induction cs with
    | nil => rfl
    | cons c rest ih => simp [ih]
  rw [literalOfPieces, hpieces]

theorem toList_quote (s : String) :
    (quote s).toList = '"' :: (s.toList.flatMap escapeChar ++ ['"']) :=
  String.toList_ofList

theorem length_le_length_flatMap_escapeChar (cs : List Char) :
    cs.length <= (cs.flatMap escapeChar).length := by
  induction cs with
  | nil => exact Nat.le_refl 0
  | cons c rest ih =>
      have hpos := List.length_pos_iff.2 (escapeChar_ne_nil c)
      rw [List.flatMap_cons, List.length_append, List.length_cons]
      omega

theorem literal?_flatMap_escapeChar (s : String) (rest : List Char) :
    literal? (s.toList.flatMap escapeChar ++ '"' :: rest) = some (.text s, rest) := by
  have hlength := length_le_length_flatMap_escapeChar s.toList
  have hfuel : s.toList.length <
      (s.toList.flatMap escapeChar ++ '"' :: rest).length + 1 := by
    rw [List.length_append, List.length_cons]
    omega
  rw [literal?, piecesWithin_flatMap_escapeChar _ _ hfuel]
  simp

def literalTail : Literal -> List Char
  | .text s => s.toList.flatMap escapeChar ++ ['"']
  | .unpaired => ['\\', 'u', 'd', '8', '0', '0', '"']

theorem toList_writeLiteral (l : Literal) : (writeLiteral l).toList = '"' :: literalTail l := by
  cases l with
  | text s => exact toList_quote s
  | unpaired => rfl

/-- A written string reads back. -/
theorem literal?_literalTail (l : Literal) (rest : List Char) :
    literal? (literalTail l ++ rest) = some (l, rest) := by
  cases l with
  | text s =>
      rw [literalTail, List.append_assoc]
      exact literal?_flatMap_escapeChar s rest
  | unpaired =>
      have hword : hexWord? 'd' '8' '0' '0' = some 0xD800 := by decide
      have hhigh : isHighHalf 0xD800 = true := by decide
      have hlow : lowHalf? ('"' :: rest) = none := by rw [lowHalf?]; simp
      show (piecesWithin (rest.length + 6 + 1 + 1)
        ('\\' :: 'u' :: 'd' :: '8' :: '0' :: '0' :: '"' :: rest)).map _ = _
      simp [piecesWithin, hword, hhigh, hlow, literalOfPieces]

end Json

end InstanceForge

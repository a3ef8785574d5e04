import Mathlib.Data.String.Basic

/-!
# Byte order

Texts are ordered by their characters. This is the order of their UTF-8 bytes too: a character
is encoded by the digits of its number, and a longer encoding begins with a greater byte.
-/

namespace InstanceForge

namespace Text

def bytes (s : String) : List UInt8 :=
  s.toByteArray.data.toList

theorem bytes_eq_flatMap (s : String) : bytes s = s.toList.flatMap String.utf8EncodeChar := by
  rw [bytes, ← String.utf8Encode_toList, List.utf8Encode, List.toList_data_toByteArray]

/-! ## Digits -/

theorem ofNat_eq_ofNat_iff {n m : Nat} (hn : n < 256) (hm : m < 256) :
    UInt8.ofNat n = UInt8.ofNat m ↔ n = m := by
  rw [← UInt8.toNat_inj, UInt8.toNat_ofNat', UInt8.toNat_ofNat', Nat.mod_eq_of_lt hn,
    Nat.mod_eq_of_lt hm]

theorem ofNat_lt_ofNat_iff {n m : Nat} (hn : n < 256) (hm : m < 256) :
    UInt8.ofNat n < UInt8.ofNat m ↔ n < m := by
  rw [UInt8.lt_iff_toNat_lt, UInt8.toNat_ofNat', UInt8.toNat_ofNat', Nat.mod_eq_of_lt hn,
    Nat.mod_eq_of_lt hm]

theorem div_lt_div_or {n m : Nat} (k : Nat) (h : n < m) :
    n / k < m / k ∨ n / k = m / k ∧ n % k < m % k := by
  have hle : n / k ≤ m / k := Nat.div_le_div_right h.le
  have hn := Nat.div_add_mod n k
  have hm := Nat.div_add_mod m k
  rcases Nat.lt_or_eq_of_le hle with hlt | heq
  · exact .inl hlt
  · rw [heq] at hn
    exact .inr ⟨heq, by omega⟩

/-- Numbers are ordered as their digits to the base 64 are. -/
theorem digits_lt {n m : Nat} (h : n < m) :
    n / 262144 < m / 262144 ∨ n / 262144 = m / 262144 ∧
      (n / 4096 % 64 < m / 4096 % 64 ∨ n / 4096 % 64 = m / 4096 % 64 ∧
        (n / 64 % 64 < m / 64 % 64 ∨ n / 64 % 64 = m / 64 % 64 ∧ n % 64 < m % 64)) := by
  have hn := Nat.div_div_eq_div_mul n 64 64
  have hm := Nat.div_div_eq_div_mul m 64 64
  have hn' := Nat.div_div_eq_div_mul n 4096 64
  have hm' := Nat.div_div_eq_div_mul m 4096 64
  rcases div_lt_div_or 64 h with hfirst | hfirst
  · rcases div_lt_div_or 64 hfirst with hsecond | hsecond
    · rw [hn, hm] at hsecond
      rcases div_lt_div_or 64 hsecond with hthird | hthird <;> omega
    · omega
  · omega

/-! ## Characters -/

theorem toNat_lt (c : Char) : c.val.toNat < 1114112 := by
  have hvalid := c.valid
  rcases hvalid with hlow | ⟨_, hhigh⟩
  · exact Nat.lt_trans hlow (by decide)
  · exact hhigh

/-- The encodings of characters are ordered as the characters, whatever follows them. -/
theorem utf8EncodeChar_append_lt {c d : Char} (h : c < d) (x y : List UInt8) :
    String.utf8EncodeChar c ++ x < String.utf8EncodeChar d ++ y := by
  have hlt : c.val.toNat < d.val.toNat := h
  have hd := toNat_lt d
  unfold String.utf8EncodeChar
  dsimp only
  generalize c.val.toNat = n at *
  generalize d.val.toNat = m at *
  have hdigits := digits_lt hlt
  have hn8 : n / 262144 % 8 = n / 262144 := Nat.mod_eq_of_lt (by omega)
  have hm8 : m / 262144 % 8 = m / 262144 := Nat.mod_eq_of_lt (by omega)
  rw [hn8, hm8]
  clear hn8 hm8
  -- Encodings of one length are ordered by their digits, others by their first bytes.
  repeat' split
  all_goals
    simp (disch := omega) only [List.cons_append, List.nil_append, List.cons_lt_cons_iff,
      ofNat_eq_ofNat_iff, ofNat_lt_ofNat_iff]
    omega

/-! ## Texts -/

theorem flatMap_lt_flatMap {cs ds : List Char} (h : cs < ds) :
    cs.flatMap String.utf8EncodeChar < ds.flatMap String.utf8EncodeChar := by
  induction h with
  | nil =>
      next d rest =>
      obtain ⟨b, more, hb⟩ := List.exists_cons_of_ne_nil (String.utf8EncodeChar_ne_nil (c := d))
      rw [List.flatMap_nil, List.flatMap_cons, hb]
      exact List.nil_lt_cons _ _
  | rel hlt =>
      rw [List.flatMap_cons, List.flatMap_cons]
      exact utf8EncodeChar_append_lt hlt _ _
  | cons _ ih =>
      rw [List.flatMap_cons, List.flatMap_cons]
      exact List.append_left_lt ih

/-- One text goes before another exactly if its bytes do. -/
theorem lt_iff_bytes_lt {s t : String} : s < t ↔ bytes s < bytes t := by
  constructor
  · intro h
    rw [bytes_eq_flatMap, bytes_eq_flatMap]
    exact flatMap_lt_flatMap h
  · intro h
    rcases lt_trichotomy s t with hlt | rfl | hgt
    · exact hlt
    · exact absurd h (List.lt_irrefl _)
    · have hbytes : bytes t < bytes s := by
        rw [bytes_eq_flatMap, bytes_eq_flatMap]
        exact flatMap_lt_flatMap hgt
      exact absurd h (List.lt_asymm hbytes)

end Text

end InstanceForge

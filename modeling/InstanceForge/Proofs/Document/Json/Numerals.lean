import InstanceForge.Document.Json.Printer
import InstanceForge.Document.Json.Reader

/-!
# Written numbers read back

A number reads back if it has the digits of some written number, and if what follows it does not
go on with the number.
-/

namespace InstanceForge

/-- The digits are those of a written number: decimal, and without a leading zero. -/
structure Numeral.Proper (n : Numeral) : Prop where
  whole_ne_nil : n.whole ≠ []
  whole : ∀ d ∈ n.whole, d < 10
  leading : n.whole.head? = some 0 -> n.whole = [0]
  fraction : ∀ d ∈ n.fraction, d < 10
  exponent_ne_nil : ∀ e ∈ n.exponent, e.digits ≠ []
  exponent : ∀ e ∈ n.exponent, ∀ d ∈ e.digits, d < 10

namespace Numeral

/-! ## Natural numbers -/

theorem digitsOf_of_lt {n : Nat} (h : n < 10) : digitsOf n = [n] := by
  have hall : ∀ d < 10, (Nat.digitChar d).toNat - 48 = d := by decide
  rw [digitsOf, Nat.toDigits_of_lt_base h, List.map_singleton, hall n h]

theorem digitsOf_of_le {n : Nat} (h : 10 ≤ n) : digitsOf n = digitsOf (n / 10) ++ [n % 10] := by
  have hlast := digitsOf_of_lt (Nat.mod_lt n (by decide : 0 < 10))
  rw [digitsOf, Nat.toDigits_of_lt_base (Nat.mod_lt n (by decide))] at hlast
  rw [digitsOf, digitsOf, Nat.toDigits_of_base_le (by decide) h, List.map_append, hlast]

theorem ofDigits_digitsOf (n : Nat) : ofDigits (digitsOf n) = n := by
  rw [ofDigits, digitsOf, List.foldl_map]
  exact Nat.ofDigitChars_toDigits (by decide) (by decide)

theorem digitsOf_ne_nil (n : Nat) : digitsOf n ≠ [] := by
  simp [digitsOf]

theorem lt_of_mem_digitsOf {n d : Nat} (h : d ∈ digitsOf n) : d < 10 := by
  induction n using Nat.strongRecOn with
  | ind n ih =>
      rcases Nat.lt_or_ge n 10 with hlt | hle
      · rw [digitsOf_of_lt hlt, List.mem_singleton] at h
        omega
      · rw [digitsOf_of_le hle, List.mem_append, List.mem_singleton] at h
        rcases h with h | rfl
        · exact ih (n / 10) (by omega) h
        · exact Nat.mod_lt n (by decide)

/-- Only zero is written with a zero in front. -/
theorem digitsOf_of_head? {n : Nat} (h : (digitsOf n).head? = some 0) : n = 0 := by
  induction n using Nat.strongRecOn with
  | ind n ih =>
      rcases Nat.lt_or_ge n 10 with hlt | hle
      · rw [digitsOf_of_lt hlt] at h
        exact Option.some.inj h
      · obtain ⟨d, more, hcons⟩ := List.exists_cons_of_ne_nil (digitsOf_ne_nil (n / 10))
        rw [digitsOf_of_le hle, hcons, List.cons_append] at h
        have hzero := ih (n / 10) (by omega) (by rw [hcons]; exact h)
        omega

theorem proper_ofNat (n : Nat) : (ofNat n).Proper where
  whole_ne_nil := digitsOf_ne_nil n
  whole _ h := lt_of_mem_digitsOf h
  leading h := by
    obtain rfl := digitsOf_of_head? h
    exact digitsOf_of_lt (by decide)
  fraction _ h := by cases h
  exponent_ne_nil _ h := by cases h
  exponent _ h := by cases h

theorem toNat?_ofNat (n : Nat) : (ofNat n).toNat? = some n := by
  have hdigits := ofDigits_digitsOf n
  simp [toNat?, ofNat, hdigits]

end Numeral

namespace Json

/-! ## Digits -/

def EndsDigits (cs : List Char) : Prop :=
  ∀ c ∈ cs.head?, c.isDigit = false

/-- Nothing at the front goes on with a number. -/
def EndsNumber (cs : List Char) : Prop :=
  ∀ c ∈ cs.head?, c.isDigit = false ∧ c ≠ '.' ∧ c ≠ 'e' ∧ c ≠ 'E'

theorem EndsNumber.endsDigits {cs : List Char} (h : EndsNumber cs) : EndsDigits cs :=
  fun c hc => (h c hc).1

theorem isDigit_digitChar {d : Nat} (h : d < 10) : (digitChar d).isDigit = true := by
  have hall : ∀ d < 10, (digitChar d).isDigit = true := by decide
  exact hall d h

theorem toNat_digitChar {d : Nat} (h : d < 10) : (digitChar d).toNat - 48 = d := by
  have hall : ∀ d < 10, (digitChar d).toNat - 48 = d := by decide
  exact hall d h

theorem digitChar_ne {d : Nat} {c : Char} (h : d < 10) (hc : c.isDigit = false) :
    digitChar d ≠ c := by
  rintro rfl
  rw [isDigit_digitChar h] at hc
  cases hc

theorem digits_of_endsDigits {cs : List Char} (h : EndsDigits cs) : digits cs = ([], cs) := by
  cases cs with
  | nil => rfl
  | cons c rest => simp [digits, h c rfl]

theorem digits_map_digitChar {ds : List Nat} {rest : List Char} (hds : ∀ d ∈ ds, d < 10)
    (hrest : EndsDigits rest) : digits (ds.map digitChar ++ rest) = (ds, rest) := by
  induction ds with
  | nil => exact digits_of_endsDigits hrest
  | cons d ds ih =>
      have hd : d < 10 := hds d List.mem_cons_self
      have ih := ih fun e he => hds e (List.mem_cons_of_mem _ he)
      simp only [digits, Prod.mk.injEq] at ih
      simp [digits, isDigit_digitChar hd, toNat_digitChar hd, ih.1, ih.2]

/-! ## Parts of a number -/

def signChars (negative : Bool) : List Char :=
  if negative then ['-'] else []

def fractionChars (fraction : List Nat) : List Char :=
  if fraction.isEmpty then [] else '.' :: fraction.map digitChar

def exponentChars : Option Exponent -> List Char
  | none => []
  | some e => 'e' :: (signChars e.negative ++ e.digits.map digitChar)

theorem toList_writeNumeral (n : Numeral) :
    (writeNumeral n).toList = signChars n.negative ++
      (n.whole.map digitChar ++ (fractionChars n.fraction ++ exponentChars n.exponent)) := by
  obtain ⟨negative, whole, fraction, exponent⟩ := n
  have hsign : ∀ b : Bool, (if b then "-" else "").toList = signChars b := by
    intro b
    cases b <;> rfl
  cases exponent with
  | none => cases fraction <;> simp [writeNumeral, hsign, fractionChars, exponentChars]
  | some e => cases fraction <;> simp [writeNumeral, hsign, fractionChars, exponentChars]

theorem exists_cons_writeNumeral {n : Numeral} (h : n.Proper) :
    ∃ c more, (writeNumeral n).toList = c :: more ∧ (c.isDigit = true ∨ c = '-') := by
  obtain ⟨d, ds, hwhole⟩ := List.exists_cons_of_ne_nil h.whole_ne_nil
  have hd : d < 10 := h.whole d (by rw [hwhole]; exact List.mem_cons_self)
  rw [toList_writeNumeral, hwhole]
  cases n.negative with
  | true => exact ⟨'-', _, rfl, .inr rfl⟩
  | false => exact ⟨digitChar d, _, rfl, .inl (isDigit_digitChar hd)⟩

theorem wholePart?_map_digitChar {n : Numeral} {rest : List Char} (h : n.Proper)
    (hrest : EndsDigits rest) :
    wholePart? (n.whole.map digitChar ++ rest) = some (n.whole, rest) := by
  have hleading := h.leading
  rw [wholePart?, digits_map_digitChar h.whole hrest]
  rcases hwhole : n.whole with _ | ⟨d, _ | ⟨e, more⟩⟩
  · exact absurd hwhole h.whole_ne_nil
  · rfl
  · have hd : d ≠ 0 := by
      rintro rfl
      simp [hwhole] at hleading
    simp [hd]

theorem fractionPart?_fractionChars {fraction : List Nat} {rest : List Char}
    (h : ∀ d ∈ fraction, d < 10) (hrest : EndsDigits rest) (hpoint : rest.head? ≠ some '.') :
    fractionPart? (fractionChars fraction ++ rest) = some (fraction, rest) := by
  cases fraction with
  | nil =>
      show fractionPart? rest = _
      unfold fractionPart?
      split
      · simp at hpoint
      · rfl
  | cons d more =>
      show fractionPart? ('.' :: ((d :: more).map digitChar ++ rest)) = _
      rw [fractionPart?, digits_map_digitChar h hrest]

theorem exponentSign_signChars {negative : Bool} {ds : List Nat} {rest : List Char}
    (hne : ds ≠ []) (h : ∀ d ∈ ds, d < 10) :
    exponentSign (signChars negative ++ (ds.map digitChar ++ rest)) =
      (negative, ds.map digitChar ++ rest) := by
  cases negative with
  | true => rfl
  | false =>
      obtain ⟨d, more, rfl⟩ := List.exists_cons_of_ne_nil hne
      have hd : d < 10 := h d List.mem_cons_self
      show exponentSign (digitChar d :: (more.map digitChar ++ rest)) = _
      unfold exponentSign
      split
      · next heq => exact absurd (List.cons.inj heq).1 (digitChar_ne hd (by decide))
      · next heq => exact absurd (List.cons.inj heq).1 (digitChar_ne hd (by decide))
      · rfl

theorem exponentPart?_exponentChars {n : Numeral} {rest : List Char} (h : n.Proper)
    (hrest : EndsNumber rest) :
    exponentPart? (exponentChars n.exponent ++ rest) = some (n.exponent, rest) := by
  cases hexponent : n.exponent with
  | none =>
      cases rest with
      | nil => rfl
      | cons c more =>
          obtain ⟨_, _, he, hE⟩ := hrest c rfl
          simp [exponentChars, exponentPart?, he, hE]
  | some e =>
      have hne := h.exponent_ne_nil e hexponent
      have hds := h.exponent e hexponent
      obtain ⟨negative, ds⟩ := e
      obtain ⟨d, more, rfl⟩ := List.exists_cons_of_ne_nil hne
      show exponentPart? ('e' :: (signChars negative ++ (d :: more).map digitChar ++ rest)) = _
      simp only [exponentPart?, true_or, if_true, List.append_assoc,
        exponentSign_signChars hne hds, digits_map_digitChar hds hrest.endsDigits]

theorem endsDigits_exponentChars (exponent : Option Exponent) {rest : List Char}
    (h : EndsNumber rest) : EndsDigits (exponentChars exponent ++ rest) := by
  cases exponent with
  | none => exact h.endsDigits
  | some e =>
      intro c hc
      cases hc
      decide

theorem head?_exponentChars_ne_point {exponent : Option Exponent} {rest : List Char}
    (h : EndsNumber rest) : (exponentChars exponent ++ rest).head? ≠ some '.' := by
  cases exponent with
  | none => exact fun hpoint => (h '.' hpoint).2.1 rfl
  | some e => simp [exponentChars]

theorem endsDigits_fractionChars (fraction : List Nat) {rest : List Char}
    (h : EndsDigits rest) : EndsDigits (fractionChars fraction ++ rest) := by
  cases fraction with
  | nil => exact h
  | cons d more =>
      intro c hc
      cases hc
      decide

/-- A written number reads back. -/
theorem numeral?_writeNumeral {n : Numeral} {rest : List Char} (h : n.Proper)
    (hrest : EndsNumber rest) :
    numeral? ((writeNumeral n).toList ++ rest) = some (n, rest) := by
  have hends := endsDigits_exponentChars n.exponent hrest
  have hexponent := exponentPart?_exponentChars h hrest
  have hfraction := fractionPart?_fractionChars h.fraction hends
    (head?_exponentChars_ne_point hrest)
  have hwhole := wholePart?_map_digitChar h (endsDigits_fractionChars n.fraction hends)
  rw [toList_writeNumeral]
  simp only [List.append_assoc]
  obtain ⟨negative, whole, fraction, exponent⟩ := n
  cases negative with
  | true =>
      simp only [numeral?, signChars, if_true, List.singleton_append]
      simp [hwhole, hfraction, hexponent]
  | false =>
      obtain ⟨d, more, hcons⟩ := List.exists_cons_of_ne_nil h.whole_ne_nil
      have hd : d < 10 := h.whole d (by rw [hcons]; exact List.mem_cons_self)
      have hminus := digitChar_ne (c := '-') hd (by decide)
      dsimp only at hcons
      subst hcons
      dsimp only at hwhole hfraction hexponent
      simp only [numeral?, signChars, Bool.false_eq_true, if_false, List.nil_append]
      split
      · next heq => exact absurd (List.cons.inj heq).1 hminus
      · simp only [hwhole, hfraction, hexponent, Option.bind_eq_bind, Option.bind_some,
          Option.pure_def]

end Json

end InstanceForge

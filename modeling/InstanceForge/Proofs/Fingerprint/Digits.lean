import InstanceForge.Proofs.Basic
import InstanceForge.Proofs.Fingerprint.Hex
import Mathlib.Data.Bool.AllAny

/-!
# Texts that are fingerprints

A fingerprint is read from sixteen pairs of characters. The second of a pair is a hexadecimal
digit, and so is the first, unless it is a plus sign, which counts as a zero. What is read is
written as the text itself, in lower case and with these zeros.
-/

namespace InstanceForge

namespace Text

def IsHexDigit (c : Char) : Prop :=
  c ∈ "0123456789abcdefABCDEF".toList

instance (c : Char) : Decidable (IsHexDigit c) :=
  inferInstanceAs (Decidable (c ∈ "0123456789abcdefABCDEF".toList))

theorem toList_toLower (s : String) : s.toLower.toList = s.toList.map Char.toLower :=
  String.toList_map

theorem hexValue?_of_isHexDigit {c : Char} (h : IsHexDigit c) :
    ∃ n < 16, hexValue? c = some n ∧ hexDigit n = c.toLower := by
  have hall : ∀ c ∈ "0123456789abcdefABCDEF".toList,
      ∃ n < 16, hexValue? c = some n ∧ hexDigit n = c.toLower :=
    List.all_iff_forall_prop.1 (by decide)
  exact hall c h

theorem isHexDigit_of_hexValue? {c : Char} {n : Nat} (h : hexValue? c = some n) :
    IsHexDigit c := by
  have hsmall : c.toNat < 103 := by
    unfold hexValue? at h
    grind
  have hall : ∀ k < 103, (hexValue? (Char.ofNat k)).isSome = true -> IsHexDigit (Char.ofNat k) := by
    decide +kernel
  rw [← Char.ofNat_toNat c] at h ⊢
  exact hall c.toNat hsmall (by rw [h]; rfl)

theorem isHexDigit_ne_plus {c : Char} (h : IsHexDigit c) : c ≠ '+' := by
  rintro rfl
  exact absurd h (by decide)

end Text

namespace Fingerprint

open Text

/-- A character as it counts: a plus sign is a zero. -/
def counted (c : Char) : Char :=
  if c = '+' then '0' else c

/-- What may stand at a position: a digit, or a plus sign where a pair begins. -/
def Fits (i : Nat) (c : Char) : Prop :=
  IsHexDigit c ∨ (c = '+' ∧ i % 2 = 0)

/-! ## Pairs -/

theorem counted_of_isHexDigit {c : Char} (h : IsHexDigit c) : counted c = c :=
  if_neg (isHexDigit_ne_plus h)

theorem hexByte_toUInt8 {high low : Nat} (hhigh : high < 16) (hlow : low < 16) :
    hexByte (16 * high + low).toUInt8 = [hexDigit high, hexDigit low] := by
  have hvalue : (16 * high + low).toUInt8.toNat = 16 * high + low := by
    rw [UInt8.toNat_ofNat']
    exact Nat.mod_eq_of_lt (by omega)
  have hdiv : (16 * high + low) / 16 = high := by omega
  have hmod : (16 * high + low) % 16 = low := by omega
  rw [hexByte, hvalue, hdiv, hmod]

/-- A pair of characters that fit is read, and what is read is written as the pair in lower case,
a plus sign as a zero. -/
theorem exists_pairValue? {a b : Char} (ha : IsHexDigit a ∨ a = '+') (hb : IsHexDigit b) :
    ∃ byte, pairValue? a b = some byte ∧
      hexByte byte = [(counted a).toLower, (counted b).toLower] := by
  obtain ⟨low, hlow, hb', hlower⟩ := hexValue?_of_isHexDigit hb
  rw [counted_of_isHexDigit hb, ← hlower]
  rcases ha with ha | rfl
  · obtain ⟨high, hhigh, ha', hlower'⟩ := hexValue?_of_isHexDigit ha
    refine ⟨(16 * high + low).toUInt8, ?_, ?_⟩
    · simp only [pairValue?, hb', ha', if_neg (isHexDigit_ne_plus ha), Option.bind_eq_bind,
        Option.bind_some, Option.pure_def]
    · rw [hexByte_toUInt8 hhigh hlow, counted_of_isHexDigit ha, hlower']
  · refine ⟨low.toUInt8, ?_, ?_⟩
    · simp only [pairValue?, hb', Option.bind_eq_bind, Option.bind_some, if_true, Option.pure_def]
    · have hbyte := hexByte_toUInt8 (show 0 < 16 by decide) hlow
      rw [Nat.mul_zero, Nat.zero_add] at hbyte
      exact hbyte

theorem fits_of_pairValue? {a b : Char} {byte : UInt8} (h : pairValue? a b = some byte) :
    (IsHexDigit a ∨ a = '+') ∧ IsHexDigit b := by
  unfold pairValue? at h
  obtain ⟨low, hlow, h⟩ := Option.bind_eq_some_iff.1 h
  refine ⟨?_, isHexDigit_of_hexValue? hlow⟩
  by_cases hplus : a = '+'
  · exact .inr hplus
  · rw [if_neg hplus] at h
    obtain ⟨high, hhigh, _⟩ := Option.bind_eq_some_iff.1 h
    exact .inl (isHexDigit_of_hexValue? hhigh)

/-! ## Texts of pairs -/

/-- The characters come in pairs and each of them fits its position. -/
def Paired (cs : List Char) : Prop :=
  cs.length % 2 = 0 ∧ ∀ i c, cs[i]? = some c -> Fits i c

theorem paired_cons_cons {a b : Char} {rest : List Char} :
    Paired (a :: b :: rest) ↔ (IsHexDigit a ∨ a = '+') ∧ IsHexDigit b ∧ Paired rest := by
  have hshift : ∀ i c, Fits (i + 2) c ↔ Fits i c := by
    intro i c
    rw [Fits, Fits, Nat.add_mod_right]
  constructor
  · rintro ⟨hlength, hfits⟩
    have ha := hfits 0 a rfl
    have hb := hfits 1 b rfl
    rw [List.length_cons, List.length_cons] at hlength
    refine ⟨ha.imp_right And.left, hb.resolve_right (by simp), by omega, ?_⟩
    intro i c hc
    exact (hshift i c).1 (hfits (i + 2) c hc)
  · rintro ⟨ha, hb, hlength, hfits⟩
    refine ⟨by rw [List.length_cons, List.length_cons]; omega, ?_⟩
    intro i c hc
    match i with
    | 0 =>
        obtain rfl : a = c := Option.some.inj hc
        exact ha.imp_right fun hplus => ⟨hplus, rfl⟩
    | 1 =>
        obtain rfl : b = c := Option.some.inj hc
        exact .inl hb
    | i + 2 => exact (hshift i c).2 (hfits i c hc)

theorem exists_pairBytes? {cs : List Char} (h : Paired cs) :
    ∃ bytes, pairBytes? cs = some bytes ∧
      bytes.flatMap hexByte = cs.map fun c => (counted c).toLower := by
  induction cs using pairBytes?.induct with
  | case1 => exact ⟨[], rfl, rfl⟩
  | case2 a => cases h.1
  | case3 a b rest ih =>
      obtain ⟨ha, hb, hrest⟩ := paired_cons_cons.1 h
      obtain ⟨byte, hbyte, hwritten⟩ := exists_pairValue? ha hb
      obtain ⟨bytes, hbytes, hmap⟩ := ih hrest
      refine ⟨byte :: bytes, ?_, ?_⟩
      · rw [pairBytes?, hbyte, hbytes]
        rfl
      · rw [List.flatMap_cons, hwritten, hmap]
        rfl

theorem paired_of_pairBytes? {cs : List Char} {bytes : List UInt8}
    (h : pairBytes? cs = some bytes) : Paired cs := by
  induction cs using pairBytes?.induct generalizing bytes with
  | case1 => exact ⟨rfl, fun i c hc => by cases hc⟩
  | case2 a => cases h
  | case3 a b rest ih =>
      rw [pairBytes?] at h
      obtain ⟨byte, hbyte, h⟩ := Option.bind_eq_some_iff.1 h
      obtain ⟨more, hmore, _⟩ := Option.bind_eq_some_iff.1 h
      obtain ⟨ha, hb⟩ := fits_of_pairValue? hbyte
      exact paired_cons_cons.2 ⟨ha, hb, ih hmore⟩

theorem length_flatMap_hexByte (bytes : List UInt8) :
    (bytes.flatMap hexByte).length = 2 * bytes.length := by
  induction bytes with
  | nil => rfl
  | cons b rest ih =>
      rw [List.flatMap_cons, List.length_append, ih, List.length_cons, hexByte]
      simp only [List.length_cons, List.length_nil]
      omega

theorem parse?_eq_some_iff {s : String} {f : Fingerprint} :
    parse? s = some f ↔ pairBytes? s.toList = some f.bytes := by
  unfold parse?
  cases hbytes : pairBytes? s.toList with
  | none => simp
  | some bytes =>
      by_cases hlength : bytes.length = 16
      · simp only [dif_pos hlength, Option.some.injEq]
        constructor
        · rintro rfl
          rfl
        · rintro rfl
          rfl
      · simp only [dif_neg hlength, Option.some.injEq, false_iff, reduceCtorEq]
        rintro rfl
        exact hlength f.length_eq

/-- What is read has 32 characters that fit, and is written as them in lower case. -/
theorem written_of_parse? {s : String} {f : Fingerprint} (h : parse? s = some f) :
    s.length = 32 ∧ Paired s.toList ∧ f.toHex = (s.map counted).toLower := by
  have hpaired := paired_of_pairBytes? (parse?_eq_some_iff.1 h)
  obtain ⟨bytes, hbytes, hwritten⟩ := exists_pairBytes? hpaired
  rw [parse?_eq_some_iff.1 h, Option.some.injEq] at hbytes
  rw [← hbytes] at hwritten
  refine ⟨?_, hpaired, ?_⟩
  · have hlength := congrArg List.length hwritten
    rw [length_flatMap_hexByte, f.length_eq, List.length_map, String.length_toList] at hlength
    exact hlength.symm
  · rw [← String.toList_inj, toHex, String.toList_ofList, hwritten, Text.toList_toLower,
      String.toList_map, List.map_map]
    rfl

theorem exists_parse? {s : String} (hlength : s.length = 32)
    (hfits : ∀ i c, s.toList[i]? = some c -> Fits i c) : ∃ f, parse? s = some f := by
  have hpaired : Paired s.toList := ⟨by rw [String.length_toList, hlength], hfits⟩
  obtain ⟨bytes, hbytes, hwritten⟩ := exists_pairBytes? hpaired
  have hcount := congrArg List.length hwritten
  rw [length_flatMap_hexByte, List.length_map, String.length_toList, hlength] at hcount
  exact ⟨⟨bytes, by omega⟩, parse?_eq_some_iff.2 hbytes⟩

theorem parse_eq_ok_iff {s : String} {f : Fingerprint} : parse s = .ok f ↔ parse? s = some f := by
  unfold parse
  cases parse? s <;> simp

/--
A text is a fingerprint exactly if it has 32 characters, each a hexadecimal digit or, at an even
position, a plus sign. The fingerprint is written as the text in lower case with its plus signs as
zeros, and any other text is named in the error. So of the texts without a plus sign exactly those
of 32 hexadecimal digits are fingerprints, and they are written as themselves in lower case.
-/
theorem parse_outcome (s : String) :
    ((∃ f, parse s = .ok f) ↔
      s.length = 32 ∧ ∀ i c, s.toList[i]? = some c -> IsHexDigit c ∨ (c = '+' ∧ i % 2 = 0)) ∧
    (∀ f, parse s = .ok f -> f.toHex = (s.map fun c => if c = '+' then '0' else c).toLower) ∧
    (∀ e, parse s = .error e -> e.text = s) ∧
    ('+' ∉ s.toList ->
      ((∃ f, parse s = .ok f) ↔ s.length = 32 ∧ ∀ c ∈ s.toList, IsHexDigit c) ∧
      ∀ f, parse s = .ok f -> f.toHex = s.toLower) := by
  have haccepts : (∃ f, parse s = .ok f) ↔
      s.length = 32 ∧ ∀ i c, s.toList[i]? = some c -> Fits i c := by
    simp only [parse_eq_ok_iff]
    constructor
    · rintro ⟨f, h⟩
      obtain ⟨hlength, hpaired, _⟩ := written_of_parse? h
      exact ⟨hlength, hpaired.2⟩
    · rintro ⟨hlength, hfits⟩
      exact exists_parse? hlength hfits
  have hwritten : ∀ f, parse s = .ok f -> f.toHex = (s.map counted).toLower :=
    fun f h => (written_of_parse? (parse_eq_ok_iff.1 h)).2.2
  refine ⟨haccepts, hwritten, fun e h => ?_, fun hplus => ⟨?_, fun f h => ?_⟩⟩
  · unfold parse at h
    split at h
    · cases h
    · cases h
      rfl
  · rw [haccepts]
    refine and_congr_right fun _ => ?_
    constructor
    · intro hfits c hc
      obtain ⟨i, hi⟩ := List.getElem?_of_mem hc
      refine (hfits i c hi).resolve_right ?_
      rintro ⟨rfl, _⟩
      exact hplus hc
    · intro hdigits i c hc
      exact .inl (hdigits c (List.mem_of_getElem? hc))
  · have hsame : s.map counted = s := by
      rw [← String.toList_inj, String.toList_map]
      calc
        s.toList.map counted = s.toList.map id :=
          List.map_congr_left fun c hc => if_neg fun heq : c = '+' => hplus (heq ▸ hc)
        _ = s.toList := List.map_id _
    rw [hwritten f h, hsame]

/-- Digits of either case are a fingerprint, which is written in lower case. -/
theorem parse_mixedCase :
    '+' ∉ "0123456789abcdef0123456789ABCDEF".toList ∧
      ∃ f, parse "0123456789abcdef0123456789ABCDEF" = .ok f ∧
        f.toHex = "0123456789abcdef0123456789abcdef" := by
  have hplus : '+' ∉ "0123456789abcdef0123456789ABCDEF".toList := by decide
  obtain ⟨hdigits, hwritten⟩ := (parse_outcome "0123456789abcdef0123456789ABCDEF").2.2.2 hplus
  obtain ⟨f, hf⟩ := hdigits.2 ⟨by decide, List.all_iff_forall_prop.1 (by decide)⟩
  refine ⟨hplus, f, hf, (hwritten f hf).trans ?_⟩
  rw [← String.toList_inj, Text.toList_toLower]
  decide

/-- A text with sixteen plus signs is a fingerprint, though it is not made of digits alone. -/
theorem parse_plusSigns :
    (∃ f, parse "+1+2+3+4+5+6+7+8+9+a+b+c+d+e+f+0" = .ok f) ∧
      ¬ ∀ c ∈ "+1+2+3+4+5+6+7+8+9+a+b+c+d+e+f+0".toList, IsHexDigit c := by
  have hread : (parse "+1+2+3+4+5+6+7+8+9+a+b+c+d+e+f+0").toOption.isSome = true := by decide
  have hplus : '+' ∈ "+1+2+3+4+5+6+7+8+9+a+b+c+d+e+f+0".toList := by decide
  exact ⟨exists_of_isSome_toOption hread, fun h => absurd (h '+' hplus) (by decide)⟩

end Fingerprint

end InstanceForge

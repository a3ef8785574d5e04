import InstanceForge.Fingerprint.Basic
import InstanceForge.Proofs.Text.Basic

/-!
# Written fingerprints

The digits of a fingerprint read back as that fingerprint.
-/

namespace InstanceForge

namespace Fingerprint

theorem pairValue?_hexByte (b : UInt8) :
    pairValue? (Text.hexDigit (b.toNat / 16)) (Text.hexDigit (b.toNat % 16)) = some b := by
  have hlt : b.toNat < 256 := b.toNat_lt
  have hhigh : b.toNat / 16 < 16 := by omega
  have hlow : b.toNat % 16 < 16 := by omega
  have hbyte : (16 * (b.toNat / 16) + b.toNat % 16).toUInt8 = b := by
    rw [Nat.div_add_mod]
    exact UInt8.ofNat_toNat
  simp only [pairValue?, Text.hexValue?_hexDigit hlow, Text.hexValue?_hexDigit hhigh,
    Option.bind_eq_bind, Option.bind_some, if_neg (Text.hexDigit_ne_plus hhigh)]
  exact congrArg some hbyte

theorem pairBytes?_flatMap_hexByte (bytes : List UInt8) :
    pairBytes? (bytes.flatMap Text.hexByte) = some bytes := by
  induction bytes with
  | nil => rfl
  | cons b rest ih =>
      rw [List.flatMap_cons, Text.hexByte, List.cons_append, List.cons_append, List.nil_append,
        pairBytes?, pairValue?_hexByte, ih]
      rfl

@[simp] theorem parse?_toHex (f : Fingerprint) : parse? f.toHex = some f := by
  unfold parse? toHex
  rw [String.toList_ofList, pairBytes?_flatMap_hexByte]
  simp [f.length_eq]

theorem isSpace_eq_false_of_mem_toHex {f : Fingerprint} {c : Char} (h : c ∈ f.toHex.toList) :
    Text.isSpace c = false := by
  rw [toHex, String.toList_ofList, List.mem_flatMap] at h
  obtain ⟨b, _, hc⟩ := h
  exact Text.isSpace_eq_false_of_mem_hexByte hc

end Fingerprint

end InstanceForge

import InstanceForge.Proofs.Emit.Listing

/-!
# Digested bytes

The fingerprint of a manifest is the digest of its canonical text. That text is read back as the
members of the manifest, so no two contents run together in it, and manifests with one
fingerprint are the same manifest unless the digest has a collision.
-/

namespace InstanceForge

namespace Fingerprint

/-- Different bytes with one fingerprint. -/
def Collision (first second : ByteArray) : Prop :=
  first ≠ second ∧ ofBytes first = ofBytes second

end Fingerprint

namespace Manifest

def digested (m : Manifest) : ByteArray :=
  m.canonicalText.toUTF8

theorem fingerprint_eq_ofBytes (m : Manifest) :
    m.fingerprint = Fingerprint.ofBytes m.digested := rfl

/-- The canonical text is read as the members of the manifest. -/
theorem read_canonicalText (m : Manifest) :
    Json.read m.canonicalText = some (.ofEntries (Listing.members m)) :=
  Json.read_compact (Json.faithful_ofEntries m.faithful_of_mem_entries)

theorem canonicalText_injective : Function.Injective canonicalText := by
  intro a b h
  have hread := read_canonicalText a
  rw [h, read_canonicalText, Option.some.injEq] at hread
  exact Listing.members_injective (Listing.ofEntries_injective hread).symm

theorem digested_injective : Function.Injective digested := by
  intro a b h
  exact canonicalText_injective (String.toByteArray_inj.1 h)

/--
The digested bytes determine a manifest in every field, the binding names of its nodes among
them, and so they determine what each format renders of it or why it refuses to. Where a format
tells two manifests apart, different bytes were digested, and one fingerprint for both is a
collision.
-/
theorem digested_determines (a b : Manifest) :
    (a.digested = b.digested ↔ a = b) ∧
      (∀ format : OutputFormat, a.digested = b.digested ->
        format.emitter.emit a = format.emitter.emit b) ∧
      ∀ format : OutputFormat, format.emitter.emit a ≠ format.emitter.emit b ->
        a.digested ≠ b.digested ∧
          (a.fingerprint = b.fingerprint -> Fingerprint.Collision a.digested b.digested) := by
  have hsame : ∀ format : OutputFormat, a.digested = b.digested ->
      format.emitter.emit a = format.emitter.emit b :=
    fun format h => congrArg format.emitter.emit (digested_injective h)
  refine ⟨digested_injective.eq_iff, hsame, ?_⟩
  intro format hne
  have hdigested : a.digested ≠ b.digested := fun h => hne (hsame format h)
  rw [fingerprint_eq_ofBytes, fingerprint_eq_ofBytes]
  exact ⟨hdigested, fun hfingerprint => ⟨hdigested, hfingerprint⟩⟩

end Manifest

end InstanceForge

import InstanceForge.Emit.Stamp
import InstanceForge.Proofs.Emit.Layout
import InstanceForge.Proofs.Fingerprint.Hex
import InstanceForge.Proofs.Name
import InstanceForge.Proofs.Text.Basic

/-!
# Source files read back

A manifest is laid out only if all its types have paths. A root that is one of them is written on
one line, so the fingerprint is found on the next.
-/

namespace InstanceForge

namespace Source

theorem exists_body_of_render {m : Manifest} {text : String} (h : render m = .ok text) :
    ∃ body, Body.Of m body ∧ text = header m.root m.fingerprint ++ body.render := by
  obtain ⟨file, hfile, htext⟩ := bind_eq_ok_iff.1 h
  obtain ⟨body, hbody, hlay⟩ := bind_eq_ok_iff.1 hfile
  cases hlay
  cases htext
  exact ⟨body, of_layBody hbody, rfl⟩

/-! ## The header -/

def rootMark : String :=
  "// @generated by cachegen from `"

def rootEnd : String :=
  "`. Do not edit."

theorem header_eq (root : String) (f : Fingerprint) :
    header root f = rootMark ++ root ++ (rootEnd ++ "\n") ++ fingerprintMark ++ f.toHex ++ "\n" := by
  have hend : "`. Do not edit.\n" = rootEnd ++ "\n" := by decide +kernel
  rw [← hend]
  rfl

theorem toList_header (root : String) (f : Fingerprint) (rest : String) :
    (header root f ++ rest).toList = (rootMark.toList ++ (root.toList ++ rootEnd.toList)) ++
      '\n' :: ((fingerprintMark.toList ++ f.toHex.toList) ++ '\n' :: rest.toList) := by
  have hfeed : "\n".toList = ['\n'] := by decide
  simp [header_eq, hfeed]

theorem marked?_rootMark (cs : List Char) : Stamp.marked? (rootMark.toList ++ cs) = none := by
  have hlength : fingerprintMark.toList.length <= rootMark.toList.length := by decide +kernel
  have hother : ¬ fingerprintMark.toList <+: rootMark.toList := by decide +kernel
  rw [Stamp.marked?, if_neg]
  intro hprefix
  exact hother (List.prefix_of_prefix_length_le (List.isPrefixOf_iff_prefix.1 hprefix)
    (List.prefix_append rootMark.toList cs) hlength)

theorem marked?_fingerprintMark (cs : List Char) :
    Stamp.marked? (fingerprintMark.toList ++ cs) = some cs := by
  rw [Stamp.marked?, if_pos (List.isPrefixOf_iff_prefix.2 (List.prefix_append _ cs)),
    List.drop_left]

/-- The fingerprint is found below a root that is written on one line. -/
theorem read?_header {root : String} {f : Fingerprint} (rest : String)
    (hfeed : '\n' ∉ root.toList) (hreturn : '\r' ∉ root.toList) :
    Stamp.read? (header root f ++ rest) = some f := by
  have hhex : ∀ c, Text.isSpace c = true -> c ∉ f.toHex.toList := by
    intro c hspace hc
    rw [Fingerprint.isSpace_eq_false_of_mem_toHex hc] at hspace
    cases hspace
  have hfirst : ∀ c, c ∉ rootMark.toList -> c ∉ root.toList -> c ∉ rootEnd.toList ->
      c ∉ rootMark.toList ++ (root.toList ++ rootEnd.toList) := by
    intro c hmark hroot hend
    simp only [List.mem_append, not_or]
    exact ⟨hmark, hroot, hend⟩
  have hsecond : ∀ c, c ∉ fingerprintMark.toList -> Text.isSpace c = true ->
      c ∉ fingerprintMark.toList ++ f.toHex.toList := by
    intro c hmark hspace
    simp only [List.mem_append, not_or]
    exact ⟨hmark, hhex c hspace⟩
  have hlines : Text.lines (header root f ++ rest).toList =
      (rootMark.toList ++ (root.toList ++ rootEnd.toList)) ::
        (fingerprintMark.toList ++ f.toHex.toList) :: Text.lines rest.toList := by
    rw [toList_header,
      Text.lines_append _ (hfirst _ (by decide +kernel) hfeed (by decide +kernel)),
      Text.lines_append _ (hsecond _ (by decide +kernel) (by decide)),
      Text.dropReturn_of_notMem (hfirst _ (by decide +kernel) hreturn (by decide +kernel)),
      Text.dropReturn_of_notMem (hsecond _ (by decide +kernel) (by decide))]
  have hmarked : Stamp.markedLine? (header root f ++ rest) = some f.toHex.toList := by
    rw [Stamp.markedLine?, hlines, List.take_succ_cons, List.take_succ_cons, List.findSome?_cons,
      marked?_rootMark, List.findSome?_cons, marked?_fingerprintMark]
  rw [Stamp.read?, hmarked]
  simp only [Text.trimChars_of_all fun c hc => Fingerprint.isSpace_eq_false_of_mem_toHex hc,
    String.ofList_toList, Fingerprint.parse?_toHex]

end Source

end InstanceForge

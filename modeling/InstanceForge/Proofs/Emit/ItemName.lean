import InstanceForge.Proofs.Emit.Refusal
import InstanceForge.Proofs.Name.Spacing

/-!
# Names of items

A module is named after a capability in snake case and an accessor after an identifier. So sources
whose items have one name have the same letters, and a manifest is only refused for a repeated name
on behalf of two sources that differ in the case of letters and in underscores alone.
-/

namespace InstanceForge

namespace Source

/-- Sources of items with one name have the same letters, whatever the sources are. -/
theorem letters_eq_of_itemName_eq {scope : Scope} {a b : String}
    (h : itemName scope a = itemName scope b) : Name.letters a = Name.letters b := by
  cases scope with
  | shared =>
      have hlist := congrArg String.toList h
      rw [itemName, moduleName, moduleName, String.toList_append, String.toList_append] at hlist
      exact Name.letters_eq_of_snake_eq (String.toList_inj.1 (List.append_cancel_right hlist))
  | besideType => exact Name.letters_eq_of_snake_eq h

theorem letters_eq_of_layBody {m : Manifest} (hm : Plannable m.declarations)
    {name first second : String} (h : layBody m = .error (.duplicateName name first second)) :
    first ≠ second ∧ Name.letters first = Name.letters second := by
  cases refused_of_layBody hm h with
  | duplicateName _ _ hother hfirst hsecond =>
      exact ⟨hother, letters_eq_of_itemName_eq (hfirst.trans hsecond.symm)⟩

/--
An identifier in snake case is an identifier without upper-case letters and stays as it is; it has
the letters of the identifier in lower case, and underscores are added exactly where words begin,
between two characters that are none. Two modules or two accessors have one name only if their
sources have the same letters, which for identifiers are those of the lower case, and a manifest is
refused for a repeated name only on behalf of such sources.
-/
theorem snakeForm_and_letters :
    (∀ name, Name.isIdentifier name = true -> Name.SnakeForm name (Name.snake name) ∧
      Name.letters name = (name.toList.map Char.toLower).filter (· != '_')) ∧
    (∀ scope a b, itemName scope a = itemName scope b -> Name.letters a = Name.letters b) ∧
    ∀ m name first second, Plannable m.declarations ->
      layBody m = .error (.duplicateName name first second) ->
        first ≠ second ∧ Name.letters first = Name.letters second :=
  ⟨fun _ hname => ⟨Name.snakeForm_snake hname, Name.letters_of_isIdentifier hname⟩,
    fun _ _ _ => letters_eq_of_itemName_eq, fun _ _ _ _ hm h => letters_eq_of_layBody hm h⟩

def caseVariants : Manifest :=
  { root := "A"
    importHints := []
    declarations :=
      { scope := .shared
        declarations := ["URLCodec", "UrlCodec"].map fun capability =>
          ⟨.ofPair .shared (.ofType "A") capability, "new()"⟩ } }

theorem snakeForm_urlCodec :
    Name.SnakeForm "_URLCodec2X" "_url_codec2_x" ∧
    Name.letters "_URLCodec2X" = "urlcodec2x".toList ∧
    itemName .shared "URLCodec" = itemName .shared "UrlCodec" ∧
    Name.letters "URLCodec" = Name.letters "UrlCodec" ∧
    layBody caseVariants =
      .error (.duplicateName "url_codec_instances" "URLCodec" "UrlCodec") ∧
    "URLCodec" ≠ "UrlCodec" := by
  obtain ⟨hforms, hitems, hmanifests⟩ := snakeForm_and_letters
  obtain ⟨hform, hletters⟩ := hforms "_URLCodec2X" (by decide)
  have hsnake : Name.snake "_URLCodec2X" = "_url_codec2_x" := by decide
  have hitem : itemName .shared "URLCodec" = itemName .shared "UrlCodec" := by decide
  have hlay : layBody caseVariants =
      .error (.duplicateName "url_codec_instances" "URLCodec" "UrlCodec") := rfl
  refine ⟨hsnake ▸ hform, hletters.trans (by decide), hitem, hitems _ _ _ hitem, hlay, ?_⟩
  exact (hmanifests caseVariants _ _ _ ⟨nofun, nofun⟩ hlay).1

end Source

end InstanceForge

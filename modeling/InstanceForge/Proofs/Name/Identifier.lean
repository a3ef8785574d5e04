import InstanceForge.Declaration.Basic
import InstanceForge.Proofs.Name.Path

/-!
# Identifiers of instances

A type that has a path has an identifier as its simple name, and lowering the first character of
an identifier leaves an identifier. So an instance of such a type is named by an identifier
whenever its capability is.
-/

namespace InstanceForge

namespace Name

/-- What holds of all ASCII characters by number holds of each. -/
theorem of_lt_128 {P : Char -> Prop} (h : ∀ n < 128, P (Char.ofNat n)) {c : Char}
    (hc : c.toNat < 128) : P c := by
  have hnat := h c.toNat hc
  rwa [Char.ofNat_toNat] at hnat

theorem toNat_lt_of_isIdentRest {c : Char} (h : isIdentRest c = true) : c.toNat < 128 := by
  have hbounds := toNat_of_isIdentRest h
  omega

theorem lower_of_isIdentRest {c : Char} (h : isIdentRest c = true) : Text.lower c = [c.toLower] :=
  if_pos (toNat_lt_of_isIdentRest h)

theorem isIdentStart_toLower {c : Char} (h : isIdentStart c = true) :
    isIdentStart c.toLower = true :=
  of_lt_128 (P := fun c => isIdentStart c = true -> isIdentStart c.toLower = true)
    (by decide +kernel) (toNat_lt_of_isIdentRest (isIdentRest_of_isIdentStart h)) h

/-- The simple name of a type that has a path is an identifier. -/
theorem isIdentChars_simpleChars {name path : String} (h : path? name = some path) :
    isIdentChars (simpleChars name.toList) = true :=
  (isIdentChars_of_path? h).1 _
    (List.mem_of_getLast? (getLast?_segments (colon_notMem_of_path? h)))

/-- The binding form of a type that has a path is its simple name with one letter lowered. -/
theorem exists_lowerCamel {name path : String} (h : path? name = some path) :
    ∃ c rest, isIdentStart c = true ∧ rest.all isIdentRest = true ∧
      (lowerCamel name).toList = c.toLower :: rest := by
  have hsimple := isIdentChars_simpleChars h
  unfold lowerCamel
  split
  · next hnil =>
      rw [hnil] at hsimple
      cases hsimple
  · next c rest hcons =>
      rw [hcons, isIdentChars, Bool.and_eq_true] at hsimple
      refine ⟨c, rest, hsimple.1, hsimple.2, ?_⟩
      rw [String.toList_ofList, lower_of_isIdentRest (isIdentRest_of_isIdentStart hsimple.1),
        List.singleton_append]

theorem isIdentChars_lowerCamel {name path : String} (h : path? name = some path) :
    isIdentChars (lowerCamel name).toList = true := by
  obtain ⟨c, rest, hc, hrest, hname⟩ := exists_lowerCamel h
  rw [hname, isIdentChars, isIdentStart_toLower hc, hrest, Bool.and_self]

theorem isIdentChars_append {first second : List Char} (hfirst : isIdentChars first = true)
    (hsecond : isIdentChars second = true) : isIdentChars (first ++ second) = true := by
  have hrest := List.all_eq_true.2 fun c hc => isIdentRest_of_mem hsecond hc
  cases first with
  | nil => cases hfirst
  | cons c rest =>
      rw [isIdentChars, Bool.and_eq_true] at hfirst
      rw [List.cons_append, isIdentChars, List.all_append, hfirst.1, hfirst.2, hrest]
      rfl

end Name

/-- The identifier of an instance of a type that has a path. -/
theorem Declaration.isIdentifier_identifierFor {typeName path capability : String}
    (hpath : Name.path? typeName = some path) (hcapability : Name.isIdentifier capability = true) :
    Name.isIdentifier (identifierFor typeName capability) = true := by
  rw [Name.isIdentifier, identifierFor, String.toList_append]
  exact Name.isIdentChars_append (Name.isIdentChars_lowerCamel hpath) hcapability

end InstanceForge

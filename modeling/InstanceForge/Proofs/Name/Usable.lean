import InstanceForge.Proofs.Name.Snake

/-!
# Usable names

A name can be given to an item of source text if it is an identifier that says more than a blank
and is no reserved word. An identifier that is put together from a type and a capability is never
a blank, but it may be a reserved word. It is none if the capability begins with a capital.
-/

namespace InstanceForge

namespace Name

/-- The words that the edition of 2021 keeps for itself, the ones without a use yet last. -/
def reservedWords : List String := [
  "as", "break", "const", "continue", "crate", "else", "enum", "extern", "false", "fn", "for",
  "if", "impl", "in", "let", "loop", "match", "mod", "move", "mut", "pub", "ref", "return",
  "self", "Self", "static", "struct", "super", "trait", "true", "type", "unsafe", "use", "where",
  "while", "async", "await", "dyn",
  "abstract", "become", "box", "do", "final", "macro", "override", "priv", "typeof", "unsized",
  "virtual", "yield", "try"]

/-- A name that an item or a type can have. -/
structure Usable (name : String) : Prop where
  identifier : isIdentifier name = true
  notBlank : name ≠ "_"
  notReserved : name ∉ reservedWords

/-- A name that begins with a capital, as names of types do by convention. -/
def IsCapital (name : String) : Prop :=
  ∃ first rest, name.toList = first :: rest ∧ first.isUpper = true

variable {name capability typeName path : String}

theorem usable_iff (h : isIdentifier name = true) :
    Usable name ↔ name ≠ "_" ∧ name ∉ reservedWords :=
  ⟨fun husable => ⟨husable.notBlank, husable.notReserved⟩, fun hname => ⟨h, hname.1, hname.2⟩⟩

theorem usable_iff_of_length (h : isIdentifier name = true) (hlength : 1 < name.length) :
    Usable name ↔ name ∉ reservedWords := by
  rw [usable_iff h, and_iff_right]
  rintro rfl
  exact absurd hlength (by decide)

/-! ## Reserved words -/

theorem notMem_reservedWords_of_underscore (h : '_' ∈ name.toList) : name ∉ reservedWords := by
  have hnone : ∀ word ∈ reservedWords, '_' ∉ word.toList := by decide +kernel
  exact fun hmem => hnone name hmem h

/-- No reserved word has a capital other than its first letter. -/
theorem notMem_reservedWords_of_tail {first : Char} {rest : List Char}
    (hname : name.toList = first :: rest) (hupper : ∃ c ∈ rest, c.isUpper = true) :
    name ∉ reservedWords := by
  have hnone : reservedWords.all fun word => word.toList.tail.all fun c => !c.isUpper := by
    decide +kernel
  obtain ⟨c, hc, hupper⟩ := hupper
  intro hmem
  have hlower := List.all_eq_true.1 hnone name hmem
  rw [hname, List.tail_cons] at hlower
  simpa [hupper] using List.all_eq_true.1 hlower c hc

theorem usable_iff_of_isCapital (h : isIdentifier capability = true)
    (hcapital : IsCapital capability) : Usable capability ↔ capability ≠ "Self" := by
  have hnone : ("_" :: reservedWords).all fun word =>
      word == "Self" || word.toList.head?.all fun c => !c.isUpper := by decide +kernel
  obtain ⟨first, rest, hname, hupper⟩ := hcapital
  have hother : capability ∈ "_" :: reservedWords -> capability = "Self" := by
    intro hmem
    have hword := List.all_eq_true.1 hnone capability hmem
    simpa [hname, hupper] using hword
  rw [usable_iff h, ← not_or, ← List.mem_cons]
  refine not_congr ⟨hother, ?_⟩
  rintro rfl
  decide

/-! ## Names of items -/

/-- An identifier begins in lower case, and the capability stands further on. -/
theorem exists_identifierFor (h : path? typeName = some path) (capability : String) :
    ∃ first rest, (Declaration.identifierFor typeName capability).toList =
      first :: (rest ++ capability.toList) ∧ first.isUpper = false := by
  obtain ⟨c, rest, hc, -, hname⟩ := exists_lowerCamel h
  refine ⟨c.toLower, rest, ?_, ?_⟩
  · rw [Declaration.identifierFor, String.toList_append, hname, List.cons_append]
  · exact isUpper_toLower (isIdentRest_of_isIdentStart hc)

theorem one_lt_length_identifierFor (h : path? typeName = some path)
    (hcapability : isIdentifier capability = true) :
    1 < (Declaration.identifierFor typeName capability).length := by
  obtain ⟨first, rest, hname, -⟩ := exists_identifierFor h capability
  have hne : capability.toList ≠ [] := by
    intro hnil
    simp [isIdentifier, hnil, isIdentChars] at hcapability
  have hpos := List.length_pos_iff.2 hne
  rw [← String.length_toList, hname, List.length_cons, List.length_append]
  omega

/-- The name of an item that is rendered for a capability, and the capability as a type. -/
structure Written (capability item : String) : Prop where
  item_iff : Usable item ↔ item ∉ reservedWords
  capability_iff : Usable capability ↔ capability ≠ "_" ∧ capability ∉ reservedWords
  capital : IsCapital capability -> Usable item ∧ (Usable capability ↔ capability ≠ "Self")

/-- The identifier of a type that has a path, for a capability that is an identifier. -/
theorem written_identifierFor (h : path? typeName = some path)
    (hcapability : isIdentifier capability = true) :
    Written capability (Declaration.identifierFor typeName capability) := by
  have hitem := usable_iff_of_length (Declaration.isIdentifier_identifierFor h hcapability)
    (one_lt_length_identifierFor h hcapability)
  refine ⟨hitem, usable_iff hcapability, fun hcapital => ?_⟩
  refine ⟨hitem.2 ?_, usable_iff_of_isCapital hcapability hcapital⟩
  obtain ⟨first, rest, hname, -⟩ := exists_identifierFor h capability
  obtain ⟨c, tail, hc, hupper⟩ := hcapital
  exact notMem_reservedWords_of_tail hname ⟨c, by simp [hc], hupper⟩

/-- Likewise in snake case. -/
theorem written_snake (h : path? typeName = some path)
    (hcapability : isIdentifier capability = true) :
    Written capability (snake (Declaration.identifierFor typeName capability)) := by
  have hidentifier := Declaration.isIdentifier_identifierFor h hcapability
  have hitem := usable_iff_of_length (isIdentifier_snake hidentifier)
    (Nat.lt_of_lt_of_le (one_lt_length_identifierFor h hcapability) (length_le_snake hidentifier))
  refine ⟨hitem, usable_iff hcapability, fun hcapital => ?_⟩
  refine ⟨hitem.2 ?_, usable_iff_of_isCapital hcapability hcapital⟩
  obtain ⟨first, rest, hname, hfirst⟩ := exists_identifierFor h capability
  obtain ⟨c, tail, hc, hupper⟩ := hcapital
  exact notMem_reservedWords_of_underscore
    (underscore_mem_snake hidentifier hname hfirst ⟨c, by simp [hc], hupper⟩)

end Name

end InstanceForge

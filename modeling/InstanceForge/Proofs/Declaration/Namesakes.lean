import InstanceForge.Proofs.Declaration.Plan
import InstanceForge.Proofs.Name.Identifier

/-!
# Types of one path

All that is derived from a type name with a path is an identifier and depends on the path alone. So
two types whose names are written differently but have one path cannot be planned together.
-/

namespace InstanceForge

namespace Declaration

open Run

/-- Two types with one binding form have one identifier for each capability. -/
theorem not_nodup_identifierOf {nodes : List TypeNode} {capabilities : List String}
    {a b : TypeNode} (ha : a ∈ nodes) (hb : b ∈ nodes) (hne : a ≠ b)
    (hcapabilities : capabilities ≠ [])
    (hsame : Name.lowerCamel a.typeName = Name.lowerCamel b.typeName) :
    ¬ ((pairs nodes capabilities).map identifierOf).Nodup := by
  obtain ⟨capability, rest, rfl⟩ := List.exists_cons_of_ne_nil hcapabilities
  intro hnodup
  have hidentifier : identifierOf (a, capability) = identifierOf (b, capability) := by
    rw [identifierOf, identifierOf, identifierFor, identifierFor, hsame]
  have hpair := List.inj_on_of_nodup_map hnodup (mem_pairs.2 ⟨ha, List.mem_cons_self⟩)
    (mem_pairs.2 ⟨hb, List.mem_cons_self⟩) hidentifier
  exact hne (Prod.mk.inj hpair).1

/-- A plan is refused for a clash if its identifiers repeat. -/
theorem exists_clash {g : TypeGraph} {capabilities : List String} (scope : Scope)
    (hcapabilities : capabilities ≠ [])
    (hrepeat : ¬ ((pairs g.nodes capabilities).map identifierOf).Nodup) :
    ∃ i j p q, Clash (pairs g.nodes capabilities) i j p q ∧
      plan g capabilities scope = .error
        (.duplicateIdentifier (identifierOf q) p.1.typeName p.2 q.1.typeName q.2) := by
  rcases plan_cases g capabilities scope with ⟨hnil, _⟩ | ⟨_, ⟨hnodup, _⟩ | hclash⟩
  · exact absurd hnil hcapabilities
  · exact absurd hnodup hrepeat
  · exact hclash

/--
A path is its own path. Its last part is the simple name of each type that has it, and this is an
identifier, as are the binding form of such a type and the identifiers of its instances. Types with
one path have one binding form, and a graph with two of them is not planned, whatever is requested.
-/
theorem names_of_path? {name path : String} (h : Name.path? name = some path) :
    Name.path? path = some path ∧
    Name.simple name = Name.simple path ∧
    (Name.splitPairs path.toList).getLast? = some (Name.simple name).toList ∧
    Name.isIdentifier (Name.simple name) = true ∧
    Name.isIdentifier (Name.lowerCamel name) = true ∧
    (∀ capability, Name.isIdentifier capability = true ->
      Name.isIdentifier (identifierFor name capability) = true) ∧
    ∀ other, Name.path? other = some path -> Name.lowerCamel name = Name.lowerCamel other ∧
      ∀ (g : TypeGraph) (capabilities : List String) (scope : Scope), name ≠ other ->
        name ∈ g.nodes.map TypeNode.typeName -> other ∈ g.nodes.map TypeNode.typeName ->
        capabilities ≠ [] ->
        ∃ i j p q, Clash (pairs g.nodes capabilities) i j p q ∧
          plan g capabilities scope = .error
            (.duplicateIdentifier (identifierOf q) p.1.typeName p.2 q.1.typeName q.2) := by
  have hsimple : Name.isIdentifier (Name.simple name) = true := by
    rw [Name.isIdentifier, Name.simple, String.toList_ofList]
    exact Name.isIdentChars_simpleChars h
  refine ⟨Name.path?_path h, Name.simple_path h, Name.getLast?_splitPairs_path h, hsimple,
    Name.isIdentChars_lowerCamel h, fun _ => isIdentifier_identifierFor h, fun other hother => ?_⟩
  have hsame := Name.lowerCamel_eq_of_path?_eq h hother
  refine ⟨hsame, fun g capabilities scope hne hmem hmemOther hcapabilities => ?_⟩
  obtain ⟨a, ha, rfl⟩ := List.mem_map.1 hmem
  obtain ⟨b, hb, rfl⟩ := List.mem_map.1 hmemOther
  have hnodes : a ≠ b := fun heq => hne (congrArg TypeNode.typeName heq)
  exact exists_clash scope hcapabilities
    (not_nodup_identifierOf ha hb hnodes hcapabilities hsame)

/-- Two spellings of one path, with another type between them. -/
theorem names_mixedSeparators :
    Name.path? "shop::v2.Order" = some "shop::v2::Order" ∧
    Name.path? "shop.v2::Order" = some "shop::v2::Order" ∧
    Name.lowerCamel "shop::v2.Order" = Name.lowerCamel "shop.v2::Order" ∧
    Name.isIdentifier (identifierFor "shop::v2.Order" "Encoder") = true ∧
    ∃ e, plan ⟨["shop::v2.Order", "Line", "shop.v2::Order"].map .ofType, []⟩ ["Encoder", "Decoder"]
      .shared = .error e := by
  have hfirst : Name.path? "shop::v2.Order" = some "shop::v2::Order" := by decide
  have hsecond : Name.path? "shop.v2::Order" = some "shop::v2::Order" := by decide
  obtain ⟨-, -, -, -, -, hidentifier, hothers⟩ := names_of_path? hfirst
  obtain ⟨hsame, hplan⟩ := hothers _ hsecond
  obtain ⟨_, _, _, _, -, herror⟩ := hplan
    ⟨["shop::v2.Order", "Line", "shop.v2::Order"].map .ofType, []⟩ ["Encoder", "Decoder"] .shared
    (by decide) (by decide) (by decide) (by decide)
  exact ⟨hfirst, hsecond, hsame, hidentifier "Encoder" (by decide), _, herror⟩

end Declaration

end InstanceForge

import InstanceForge.Declaration.Derived
import InstanceForge.Proofs.Graph.FirstOccurrence
import Mathlib.Data.List.Induction

/-!
# Grouped declarations

Bundles are the stable grouping by capability, so grouping loses no declaration, neither into
bundles nor into a block.
-/

namespace InstanceForge

namespace DeclarationSet

open FirstOccurrence

variable {d : DerivedDeclaration}

/-! ## Bundles -/

def bundleOf (ds : List DerivedDeclaration) (capability : String) : Bundle :=
  ⟨capability, ds.filter fun d => d.declaration.capability == capability⟩

@[simp] theorem capability_bundleOf (ds : List DerivedDeclaration) (capability : String) :
    (bundleOf ds capability).capability = capability := rfl

theorem bundleOf_concat_of_eq (ds : List DerivedDeclaration) :
    bundleOf (ds ++ [d]) d.declaration.capability =
      ⟨d.declaration.capability,
        (bundleOf ds d.declaration.capability).declarations ++ [d]⟩ := by
  simp [bundleOf]

theorem bundleOf_concat_of_ne {ds : List DerivedDeclaration} {capability : String}
    (h : capability ≠ d.declaration.capability) :
    bundleOf (ds ++ [d]) capability = bundleOf ds capability := by
  simp [bundleOf, Ne.symm h]

theorem map_bundleOf_concat {ds : List DerivedDeclaration} {capabilities : List String}
    (h : d.declaration.capability ∉ capabilities) :
    capabilities.map (bundleOf (ds ++ [d])) = capabilities.map (bundleOf ds) :=
  List.map_congr_left fun _ hmem => bundleOf_concat_of_ne fun heq => h (heq ▸ hmem)

theorem addToBundles_of_mem {ds : List DerivedDeclaration} {capabilities : List String}
    (hnodup : capabilities.Nodup) (h : d.declaration.capability ∈ capabilities) :
    addToBundles d (capabilities.map (bundleOf ds)) =
      capabilities.map (bundleOf (ds ++ [d])) := by
  induction capabilities with
  | nil => cases h
  | cons first rest ih =>
      rw [List.nodup_cons] at hnodup
      rw [List.map_cons, List.map_cons, addToBundles, capability_bundleOf]
      by_cases heq : first = d.declaration.capability
      · subst heq
        rw [if_pos rfl, bundleOf_concat_of_eq, map_bundleOf_concat hnodup.1]
      · rw [if_neg heq, bundleOf_concat_of_ne heq,
          ih hnodup.2 ((List.mem_cons.1 h).resolve_left (Ne.symm heq))]

theorem addToBundles_of_notMem {ds : List DerivedDeclaration} {capabilities : List String}
    (h : d.declaration.capability ∉ capabilities) :
    addToBundles d (capabilities.map (bundleOf ds)) =
      capabilities.map (bundleOf ds) ++ [⟨d.declaration.capability, [d]⟩] := by
  induction capabilities with
  | nil => rfl
  | cons first rest ih =>
      rw [List.mem_cons, not_or] at h
      rw [List.map_cons, addToBundles, capability_bundleOf, if_neg (Ne.symm h.1), ih h.2]
      rfl

def capabilitiesOf (ds : List DerivedDeclaration) : List String :=
  (ds.map fun d => d.declaration.capability).eraseDups

theorem mem_capabilitiesOf {ds : List DerivedDeclaration} {capability : String} :
    capability ∈ capabilitiesOf ds ↔ ∃ d ∈ ds, d.declaration.capability = capability := by
  rw [capabilitiesOf, List.mem_eraseDups, List.mem_map]

theorem capabilitiesOf_concat (ds : List DerivedDeclaration) (d : DerivedDeclaration) :
    capabilitiesOf (ds ++ [d]) =
      if d.declaration.capability ∈ capabilitiesOf ds then capabilitiesOf ds
      else capabilitiesOf ds ++ [d.declaration.capability] := by
  unfold capabilitiesOf
  rw [List.map_append, List.map_singleton, List.eraseDups_append]
  unfold List.removeAll
  by_cases h : d.declaration.capability ∈ ds.map fun d => d.declaration.capability
  · rw [if_pos (List.mem_eraseDups.2 h), List.filter_cons_of_neg (by simpa using h)]
    simp
  · rw [if_neg (mt List.mem_eraseDups.1 h), List.filter_cons_of_pos (by simpa using h),
      List.filter_nil, eraseDups_of_nodup (List.nodup_singleton _)]

/-- Bundles come in the first order of their capabilities, and each has the declarations of its
capability in their order. -/
theorem bundles_eq (s : DeclarationSet) :
    s.bundles = (capabilitiesOf s.declarations).map (bundleOf s.declarations) := by
  unfold bundles
  induction s.declarations using List.reverseRecOn with
  | nil => rfl
  | append_singleton ds d ih =>
      rw [List.foldl_append, List.foldl_cons, List.foldl_nil, ih, capabilitiesOf_concat]
      have hnodup : (capabilitiesOf ds).Nodup := nodup_eraseDups _
      by_cases h : d.declaration.capability ∈ capabilitiesOf ds
      · rw [if_pos h, addToBundles_of_mem hnodup h]
      · have hnone : (bundleOf ds d.declaration.capability).declarations = [] := by
          rw [bundleOf, List.filter_eq_nil_iff]
          intro e he hsame
          exact h (mem_capabilitiesOf.2 ⟨e, he, by simpa using hsame⟩)
        rw [if_neg h, addToBundles_of_notMem h, List.map_append, map_bundleOf_concat h,
          List.map_singleton, bundleOf_concat_of_eq, hnone, List.nil_append]

theorem exists_bundle_of_mem {s : DeclarationSet} (h : d ∈ s.declarations) :
    ∃ b ∈ s.bundles, d ∈ b.declarations := by
  rw [bundles_eq]
  refine ⟨_, List.mem_map.2 ⟨_, mem_capabilitiesOf.2 ⟨d, h, rfl⟩, rfl⟩, ?_⟩
  exact List.mem_filter.2 ⟨h, beq_self_eq_true _⟩

theorem map_capability_bundles (s : DeclarationSet) :
    s.bundles.map (·.capability) = capabilitiesOf s.declarations := by
  rw [bundles_eq, List.map_map]
  exact List.map_id _

theorem eq_bundleOf_of_mem {s : DeclarationSet} {b : Bundle} (h : b ∈ s.bundles) :
    b = bundleOf s.declarations b.capability := by
  rw [bundles_eq] at h
  obtain ⟨capability, -, rfl⟩ := List.mem_map.1 h
  rfl

/-- A declaration is added to the declarations of the bundles, wherever it goes among them. -/
theorem perm_addToBundles (d : DerivedDeclaration) (bundles : List Bundle) :
    ((addToBundles d bundles).flatMap (·.declarations)).Perm
      (bundles.flatMap (·.declarations) ++ [d]) := by
  induction bundles with
  | nil => exact .refl _
  | cons b rest ih =>
      rw [addToBundles]
      split
      · rw [List.flatMap_cons, List.flatMap_cons, List.append_assoc, List.append_assoc]
        exact List.perm_append_comm.append_left _
      · rw [List.flatMap_cons, List.flatMap_cons, List.append_assoc]
        exact ih.append_left _

/-- Bundles have the declarations of the set, each as often as the set has it. -/
theorem perm_bundles (s : DeclarationSet) :
    (s.bundles.flatMap (·.declarations)).Perm s.declarations := by
  unfold bundles
  induction s.declarations using List.reverseRecOn with
  | nil => exact .refl _
  | append_singleton ds d ih =>
      rw [List.foldl_append, List.foldl_cons, List.foldl_nil]
      exact (perm_addToBundles d _).trans (ih.append_right _)

/-- Bundles of some declarations: one for each of their capabilities in the order in which these
first occur, with the declarations of the capability in their order. -/
structure StableGrouping (ds : List DerivedDeclaration) (bundles : List Bundle) : Prop where
  distinct : (bundles.map (·.capability)).Nodup
  order : bundles.map (·.capability) = (ds.map (·.declaration.capability)).eraseDups
  nonempty : ∀ b ∈ bundles, b.declarations ≠ []
  stable : ∀ b ∈ bundles,
    b.declarations = ds.filter fun d => d.declaration.capability == b.capability
  once : ∀ d ∈ ds, ∃! b, b ∈ bundles ∧ d ∈ b.declarations
  total : (bundles.flatMap (·.declarations)).Perm ds

theorem stableGrouping_bundles (s : DeclarationSet) :
    StableGrouping s.declarations s.bundles := by
  have hstable : ∀ b ∈ s.bundles, b.declarations =
      s.declarations.filter fun d => d.declaration.capability == b.capability :=
    fun b hb => congrArg Bundle.declarations (eq_bundleOf_of_mem hb)
  have hcapability : ∀ b ∈ s.bundles, ∀ d ∈ b.declarations,
      d.declaration.capability = b.capability := by
    intro b hb d hd
    rw [hstable b hb] at hd
    simpa using (List.mem_filter.1 hd).2
  refine ⟨?_, map_capability_bundles s, fun b hb => ?_, hstable, fun d hd => ?_, perm_bundles s⟩
  · rw [map_capability_bundles]
    exact nodup_eraseDups _
  · have hmem : b.capability ∈ capabilitiesOf s.declarations :=
      map_capability_bundles s ▸ List.mem_map.2 ⟨b, hb, rfl⟩
    obtain ⟨d, hd, hsame⟩ := mem_capabilitiesOf.1 hmem
    rw [hstable b hb]
    exact List.ne_nil_of_mem (List.mem_filter.2 ⟨hd, by simpa using hsame⟩)
  · obtain ⟨b, hb, hdb⟩ := exists_bundle_of_mem hd
    refine ⟨b, ⟨hb, hdb⟩, ?_⟩
    rintro other ⟨hother, hdother⟩
    rw [eq_bundleOf_of_mem hother, eq_bundleOf_of_mem hb, ← hcapability other hother d hdother,
      hcapability b hb d hdb]

/-! ## Blocks -/

/-- The first declaration that is for another type than the first one. -/
theorem find?_other_eq_some_iff {first other : DerivedDeclaration}
    {rest : List DerivedDeclaration} :
    (first :: rest).find? (fun d => !d.declaration.node.sameType first.declaration.node) =
        some other ↔
      ∃ front back, rest = front ++ other :: back ∧
        (∀ d ∈ front, d.declaration.node.typeName = first.declaration.node.typeName) ∧
        other.declaration.node.typeName ≠ first.declaration.node.typeName := by
  rw [List.find?_cons_of_neg (by simp [TypeNode.sameType]), List.find?_eq_some_iff_append]
  constructor
  · rintro ⟨hother, front, back, hrest, hfront⟩
    exact ⟨front, back, hrest, by simpa [TypeNode.sameType] using hfront,
      by simpa [TypeNode.sameType] using hother⟩
  · rintro ⟨front, back, hrest, hfront, hother⟩
    exact ⟨by simpa [TypeNode.sameType] using hother, front, back, hrest,
      by simpa [TypeNode.sameType] using hfront⟩

theorem find?_other_eq_none_iff {first : DerivedDeclaration} {rest : List DerivedDeclaration} :
    (first :: rest).find? (fun d => !d.declaration.node.sameType first.declaration.node) =
        none ↔
      ∀ d ∈ first :: rest, d.declaration.node.typeName = first.declaration.node.typeName := by
  simp [List.find?_eq_none, TypeNode.sameType]

/-- A block is formed of a set's declarations, all for the type of the first. -/
theorem block_eq_ok_iff {s : DeclarationSet} {b : TypeBlock} :
    s.block = .ok b ↔
      s.declarations.head?.map (·.declaration.node) = some b.node ∧
        (∀ d ∈ s.declarations, d.declaration.node.typeName = b.node.typeName) ∧
        b.declarations = s.declarations := by
  unfold block
  split
  · next hs => simp [hs]
  · next first rest hs =>
      rw [hs, List.head?_cons, Option.map_some, Option.some.injEq]
      dsimp only
      split
      · next other hother =>
          have hmem := List.mem_of_find?_eq_some hother
          obtain ⟨front, back, -, -, hdiffer⟩ := find?_other_eq_some_iff.1 hother
          constructor
          · intro h
            cases h
          · rintro ⟨hnode, hall, -⟩
            exact absurd (hnode ▸ hall other hmem) hdiffer
      · next hnone =>
          rw [Except.ok.injEq]
          constructor
          · rintro rfl
            exact ⟨rfl, find?_other_eq_none_iff.1 hnone, rfl⟩
          · rintro ⟨hnode, -, hdeclarations⟩
            rw [hnode, ← hdeclarations]

/-- No block is formed of no declarations, nor of declarations one of which is for another type
than the first. -/
theorem block_eq_error_iff {s : DeclarationSet} {e : BlockError} :
    s.block = .error e ↔
      (s.declarations = [] ∧ e = .noDeclarations) ∨
        ∃ first front other back, s.declarations = first :: (front ++ other :: back) ∧
          (∀ d ∈ front, d.declaration.node.typeName = first.declaration.node.typeName) ∧
          other.declaration.node.typeName ≠ first.declaration.node.typeName ∧
          e = .severalTypes first.declaration.node.typeName other.declaration.node.typeName := by
  unfold block
  split
  · next hs => simp [hs, eq_comm]
  · next first rest hs =>
      rw [hs]
      dsimp only
      constructor
      · intro h
        split at h
        · next other hother =>
            obtain ⟨front, back, hrest, hfront, hdiffer⟩ := find?_other_eq_some_iff.1 hother
            exact .inr ⟨first, front, other, back, by rw [hrest], hfront, hdiffer,
              (Except.error.inj h).symm⟩
        · cases h
      · rintro (⟨hnil, -⟩ | ⟨_, front, other, back, hcons, hfront, hdiffer, rfl⟩)
        · cases hnil
        · obtain ⟨rfl, hrest⟩ := List.cons.inj hcons
          rw [find?_other_eq_some_iff.2 ⟨front, back, hrest, hfront, hdiffer⟩]

theorem typeName_eq_of_block {s : DeclarationSet} {b : TypeBlock} (hblock : s.block = .ok b)
    (h : d ∈ s.declarations) : d.declaration.node.typeName = b.node.typeName :=
  (block_eq_ok_iff.1 hblock).2.1 d h

theorem declarations_of_block {s : DeclarationSet} {b : TypeBlock} (hblock : s.block = .ok b) :
    b.declarations = s.declarations :=
  (block_eq_ok_iff.1 hblock).2.2

theorem exists_mem_of_block {s : DeclarationSet} {b : TypeBlock} (hblock : s.block = .ok b) :
    ∃ d ∈ s.declarations, d.declaration.node = b.node := by
  obtain ⟨first, hfirst, hnode⟩ := Option.map_eq_some_iff.1 (block_eq_ok_iff.1 hblock).1
  exact ⟨first, List.mem_of_head? hfirst, hnode⟩

theorem exists_block {s : DeclarationSet} (hne : s.declarations ≠ []) {name : String}
    (h : ∀ d ∈ s.declarations, d.declaration.node.typeName = name) : ∃ b, s.block = .ok b := by
  obtain ⟨first, rest, hs⟩ := List.exists_cons_of_ne_nil hne
  refine ⟨⟨first.declaration.node, s.declarations⟩, block_eq_ok_iff.2 ⟨by rw [hs]; rfl, ?_, rfl⟩⟩
  intro d hd
  rw [h d hd, h first (hs ▸ List.mem_cons_self)]

end DeclarationSet

end InstanceForge

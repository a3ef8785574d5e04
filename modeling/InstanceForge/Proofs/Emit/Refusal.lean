import InstanceForge.Proofs.Emit.Layout

/-!
# Refused manifests

A manifest is refused for a name that is no identifier, for a type that has no path, or for two
names that are rendered alike. So a manifest whose names are in order is laid out exactly if no
two of its items have one name.
-/

namespace InstanceForge

namespace Source

/-- The name of the item that a source is rendered as: a module's or an accessor's. -/
def itemName : Scope -> String -> String
  | .shared => moduleName
  | .besideType => Name.snake

/-- The sources of the items of a set: its capabilities, or its identifiers. -/
def itemSources (s : DeclarationSet) : List String :=
  match s.scope with
  | .shared => DeclarationSet.capabilitiesOf s.declarations
  | .besideType => s.declarations.map (·.declaration.identifier)

/-- Why a manifest is refused, each time with the names that are to blame. -/
inductive Refused (m : Manifest) : EmitError -> Prop where
  | capability {d : DerivedDeclaration} : d ∈ m.declarations.declarations ->
      Name.isIdentifier d.declaration.capability = false ->
      Refused m (.invalidIdentifier d.declaration.capability)
  | identifier {d : DerivedDeclaration} : d ∈ m.declarations.declarations ->
      Name.isIdentifier d.declaration.identifier = false ->
      Refused m (.invalidIdentifier d.declaration.identifier)
  | typePath {d : DerivedDeclaration} : d ∈ m.declarations.declarations ->
      Name.path? d.declaration.node.typeName = none ->
      Refused m (.invalidTypePath d.declaration.node.typeName)
  | duplicateName {name first second : String} : first ∈ itemSources m.declarations ->
      second ∈ itemSources m.declarations -> first ≠ second ->
      itemName m.declarations.scope first = name ->
      itemName m.declarations.scope second = name ->
      Refused m (.duplicateName name first second)

/-! ## Single names -/

theorem identifier_eq_error_iff {name : String} {e : EmitError} :
    identifier name = .error e ↔
      Name.isIdentifier name = false ∧ e = .invalidIdentifier name := by
  unfold identifier
  split
  · next h => simp [h]
  · next h => simp [h, eq_comm]

theorem typePath_eq_error_iff {name : String} {e : EmitError} :
    typePath name = .error e ↔ Name.path? name = none ∧ e = .invalidTypePath name := by
  unfold typePath
  split
  · next h => simp [h]
  · next h => simp [h, eq_comm]

theorem reserve_eq_error_iff {taken : TakenNames} {name source : String} {e : EmitError} :
    reserve taken name source = .error e ↔
      ∃ first, taken.lookup name = some first ∧ e = .duplicateName name first source := by
  unfold reserve
  split
  · next h => simp [h, eq_comm]
  · next h => simp [h]

variable {m : Manifest}

/--
Names that are taken on behalf of sources of a manifest, with the sources that are still to come:
no source comes twice.
-/
structure Claimed (m : Manifest) (taken : TakenNames) (left : List String) : Prop where
  rendered : ∀ p ∈ taken, p.1 = itemName m.declarations.scope p.2
  distinct : (left ++ taken.map Prod.snd).Nodup
  sources : ∀ source ∈ left ++ taken.map Prod.snd, source ∈ itemSources m.declarations

theorem mem_of_lookup {taken : TakenNames} {name source : String}
    (h : taken.lookup name = some source) : (name, source) ∈ taken := by
  obtain ⟨front, back, rfl, _⟩ := List.lookup_eq_some_iff.1 h
  simp

namespace Claimed

variable {taken next : TakenNames} {name source : String} {left : List String}

/-- A source is refused only for another one that is rendered alike. -/
theorem refused_of_reserve (h : Claimed m taken (source :: left))
    (hname : itemName m.declarations.scope source = name) {e : EmitError}
    (hreserve : reserve taken name source = .error e) : Refused m e := by
  obtain ⟨first, hlookup, rfl⟩ := reserve_eq_error_iff.1 hreserve
  have hmem := mem_of_lookup hlookup
  have hfirst : first ∈ taken.map Prod.snd := List.mem_map.2 ⟨_, hmem, rfl⟩
  have hother : first ≠ source := by
    rintro rfl
    exact (List.nodup_cons.1 h.distinct).1 (List.mem_append_right _ hfirst)
  exact .duplicateName (h.sources first (List.mem_append_right _ hfirst))
    (h.sources source List.mem_cons_self) hother (h.rendered _ hmem).symm hname

theorem step (h : Claimed m taken (source :: left))
    (hname : itemName m.declarations.scope source = name)
    (hreserve : reserve taken name source = .ok next) : Claimed m next left := by
  obtain ⟨_, rfl⟩ := reserve_eq_ok_iff.1 hreserve
  have hperm : (left ++ source :: taken.map Prod.snd).Perm
      (source :: (left ++ taken.map Prod.snd)) := List.perm_middle
  refine ⟨List.forall_mem_cons.2 ⟨hname.symm, h.rendered⟩, ?_, ?_⟩
  · exact hperm.nodup_iff.2 h.distinct
  · intro other hother
    exact h.sources other (hperm.mem_iff.1 hother)

end Claimed

/-! ## Modules -/

theorem refused_of_layStatics {capability : String} {ds : List DerivedDeclaration}
    (hds : ∀ d ∈ ds, d ∈ m.declarations.declarations) {e : EmitError}
    (h : layStatics capability ds = .error e) : Refused m e := by
  induction ds with
  | nil => cases h
  | cons d rest ih =>
      rw [List.forall_mem_cons] at hds
      rcases bind_eq_error_iff.1 h with h | ⟨_, _, h⟩
      · obtain ⟨hname, rfl⟩ := identifier_eq_error_iff.1 h
        exact .identifier hds.1 hname
      rcases bind_eq_error_iff.1 h with h | ⟨_, _, h⟩
      · obtain ⟨hpath, rfl⟩ := typePath_eq_error_iff.1 h
        exact .typePath hds.1 hpath
      rcases bind_eq_error_iff.1 h with h | ⟨_, _, h⟩
      · exact ih hds.2 h
      · cases h

/-- A bundle of declarations that are all for its capability, and of at least one. -/
structure Drawn (m : Manifest) (b : Bundle) : Prop where
  subset : ∀ d ∈ b.declarations, d ∈ m.declarations.declarations
  member : ∃ d ∈ b.declarations, d.declaration.capability = b.capability

theorem refused_of_layModule {hints : List String} {b : Bundle} (hb : Drawn m b)
    {e : EmitError} (h : layModule hints b = .error e) : Refused m e := by
  rcases bind_eq_error_iff.1 h with h | ⟨_, _, h⟩
  · obtain ⟨hname, rfl⟩ := identifier_eq_error_iff.1 h
    obtain ⟨d, hd, hcapability⟩ := hb.member
    rw [← hcapability] at hname ⊢
    exact .capability (hb.subset d hd) hname
  rcases bind_eq_error_iff.1 h with h | ⟨_, _, h⟩
  · exact refused_of_layStatics hb.subset h
  · cases h

theorem refused_of_layModules (hscope : m.declarations.scope = .shared) {hints : List String}
    {taken : TakenNames} {bundles : List Bundle} (hdrawn : ∀ b ∈ bundles, Drawn m b)
    (hclaimed : Claimed m taken (bundles.map (·.capability))) {e : EmitError}
    (h : layModules hints taken bundles = .error e) : Refused m e := by
  induction bundles generalizing taken with
  | nil => cases h
  | cons b rest ih =>
      rw [List.forall_mem_cons] at hdrawn
      rw [List.map_cons] at hclaimed
      have hname : itemName m.declarations.scope b.capability = moduleName b.capability := by
        rw [hscope]
        rfl
      rcases bind_eq_error_iff.1 h with h | ⟨next, hreserve, h⟩
      · exact hclaimed.refused_of_reserve hname h
      rcases bind_eq_error_iff.1 h with h | ⟨_, _, h⟩
      · exact refused_of_layModule hdrawn.1 h
      rcases bind_eq_error_iff.1 h with h | ⟨_, _, h⟩
      · exact ih hdrawn.2 (hclaimed.step hname hreserve) h
      · cases h

/-! ## Accessors -/

theorem refused_of_layAccessors (hscope : m.declarations.scope = .besideType) {path : String}
    {taken : TakenNames} {ds : List DerivedDeclaration}
    (hds : ∀ d ∈ ds, d ∈ m.declarations.declarations)
    (hclaimed : Claimed m taken (ds.map (·.declaration.identifier))) {e : EmitError}
    (h : layAccessors path taken ds = .error e) : Refused m e := by
  induction ds generalizing taken with
  | nil => cases h
  | cons d rest ih =>
      rw [List.forall_mem_cons] at hds
      rw [List.map_cons] at hclaimed
      rcases bind_eq_error_iff.1 h with h | ⟨_, _, h⟩
      · obtain ⟨hname, rfl⟩ := identifier_eq_error_iff.1 h
        exact .capability hds.1 hname
      rcases bind_eq_error_iff.1 h with h | ⟨source, hsource, h⟩
      · obtain ⟨hname, rfl⟩ := identifier_eq_error_iff.1 h
        exact .identifier hds.1 hname
      rw [(identifier_eq_ok_iff.1 hsource).2] at h
      have hname : itemName m.declarations.scope d.declaration.identifier =
          Name.snake d.declaration.identifier := by
        rw [hscope]
        rfl
      rcases bind_eq_error_iff.1 h with h | ⟨next, hreserve, h⟩
      · exact hclaimed.refused_of_reserve hname h
      rcases bind_eq_error_iff.1 h with h | ⟨_, _, h⟩
      · exact ih hds.2 (hclaimed.step hname hreserve) h
      · cases h

/-! ## Whole manifests -/

/-- Declarations that a run can plan: beside a type they are for one type, at least one, and have
distinct identifiers. -/
structure Plannable (s : DeclarationSet) : Prop where
  block : s.scope = .besideType -> ∃ b, s.block = .ok b
  identifiers : s.scope = .besideType -> (s.declarations.map (·.declaration.identifier)).Nodup

theorem claimed_nil (hm : Plannable m.declarations) :
    Claimed m [] (itemSources m.declarations) := by
  refine ⟨fun _ h => absurd h List.not_mem_nil, ?_, ?_⟩
  · rw [List.map_nil, List.append_nil]
    unfold itemSources
    split
    · exact FirstOccurrence.nodup_eraseDups _
    · next hscope => exact hm.identifiers hscope
  · intro source h
    simpa using h

theorem drawn_of_mem_bundles {b : Bundle} (h : b ∈ m.declarations.bundles) :
    Drawn m b := by
  rw [DeclarationSet.bundles_eq] at h
  obtain ⟨capability, hcapability, rfl⟩ := List.mem_map.1 h
  obtain ⟨d, hd, hsame⟩ := DeclarationSet.mem_capabilitiesOf.1 hcapability
  refine ⟨fun d hd => (List.mem_filter.1 hd).1, d, ?_, hsame⟩
  exact List.mem_filter.2 ⟨hd, by simpa using hsame⟩

theorem refused_of_layBody (hm : Plannable m.declarations) {e : EmitError}
    (h : layBody m = .error e) : Refused m e := by
  have hclaimed := claimed_nil hm
  unfold layBody at h
  split at h
  · next hscope =>
      rw [itemSources, hscope] at hclaimed
      dsimp only at hclaimed
      rw [← DeclarationSet.map_capability_bundles] at hclaimed
      rcases bind_eq_error_iff.1 h with h | ⟨_, _, h⟩
      · exact refused_of_layModules hscope (fun _ => drawn_of_mem_bundles) hclaimed h
      · cases h
  · next hscope =>
      obtain ⟨b, hblock⟩ := hm.block hscope
      rw [hblock] at h
      rw [itemSources, hscope] at hclaimed
      have hdeclarations := DeclarationSet.declarations_of_block hblock
      rcases bind_eq_error_iff.1 h with h | ⟨path, _, h⟩
      · obtain ⟨hpath, rfl⟩ := typePath_eq_error_iff.1 h
        obtain ⟨d, hd, hnode⟩ := DeclarationSet.exists_mem_of_block hblock
        rw [← hnode] at hpath ⊢
        exact .typePath hd hpath
      rw [hdeclarations] at h
      rcases bind_eq_error_iff.1 h with h | ⟨_, _, h⟩
      · exact refused_of_layAccessors hscope (fun _ h => h) hclaimed h
      · cases h

/-- The names of the items of a body are those of the sources of its manifest. -/
theorem Body.Of.nodup_itemNames {body : Body} (h : Body.Of m body) :
    ((itemSources m.declarations).map (itemName m.declarations.scope)).Nodup := by
  cases h with
  | modules hscope hall hnames =>
      rw [itemSources, hscope, ← DeclarationSet.map_capability_bundles, List.map_map]
      exact (map_eq_map_of_forall₂ hall fun _ _ hm => hm.name.symm) ▸ hnames
  | block hscope _ _ hall hnames =>
      rw [itemSources, hscope, List.map_map]
      exact (map_eq_map_of_forall₂ hall fun _ _ ha => ha.name.symm) ▸ hnames

/-- A manifest whose names are in order is laid out exactly if its types have paths and its items
have distinct names. -/
theorem exists_layBody_iff (hm : Plannable m.declarations)
    (hcapability : ∀ d ∈ m.declarations.declarations,
      Name.isIdentifier d.declaration.capability = true)
    (hidentifier : ∀ d ∈ m.declarations.declarations,
      (Name.path? d.declaration.node.typeName).isSome ->
        Name.isIdentifier d.declaration.identifier = true) :
    (∃ body, layBody m = .ok body) ↔
      (∀ d ∈ m.declarations.declarations, (Name.path? d.declaration.node.typeName).isSome) ∧
        ((itemSources m.declarations).map (itemName m.declarations.scope)).Nodup := by
  constructor
  · rintro ⟨body, hbody⟩
    have hof := of_layBody hbody
    exact ⟨fun d hd => Option.isSome_iff_exists.2 (hof.exists_path hd), hof.nodup_itemNames⟩
  · rintro ⟨hpaths, hnames⟩
    cases h : layBody m with
    | ok body => exact ⟨body, rfl⟩
    | error e =>
        cases refused_of_layBody hm h with
        | capability hd hname => simp [hcapability _ hd] at hname
        | identifier hd hname => simp [hidentifier _ hd (hpaths _ hd)] at hname
        | typePath hd hpath => simpa [hpath] using hpaths _ hd
        | duplicateName hfirst hsecond hother hname hsame =>
            exact absurd (List.inj_on_of_nodup_map hnames hfirst hsecond (hname.trans hsame.symm))
              hother

end Source

end InstanceForge

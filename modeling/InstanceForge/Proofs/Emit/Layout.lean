import InstanceForge.Emit.Source
import InstanceForge.Proofs.Basic
import InstanceForge.Proofs.Declaration.Groups
import Mathlib.Data.List.Nodup

/-!
# Laid out declarations

A manifest that is laid out has one module for each bundle and one static for each declaration of
it, or one accessor for each declaration of its block, all in their order, and no two modules and
no two accessors of one name.
-/

namespace InstanceForge

namespace Source

theorem identifier_eq_ok_iff {name found : String} :
    identifier name = .ok found ↔ Name.isIdentifier name = true ∧ found = name := by
  unfold identifier
  split
  · next h => simp [h, eq_comm]
  · next h => simp [h]

theorem typePath_eq_ok_iff {name path : String} :
    typePath name = .ok path ↔ Name.path? name = some path := by
  unfold typePath
  split
  · next h => simp [h]
  · next h => simp [h]

/-! ## Taken names -/

theorem reserve_eq_ok_iff {taken next : TakenNames} {name source : String} :
    reserve taken name source = .ok next ↔
      taken.lookup name = none ∧ next = (name, source) :: taken := by
  unfold reserve
  split
  · next h => simp [h]
  · next h => simp [h, eq_comm]

structure Fresh (taken : TakenNames) (names : List String) : Prop where
  nodup : names.Nodup
  untaken : ∀ name ∈ names, taken.lookup name = none

theorem fresh_nil (taken : TakenNames) : Fresh taken [] :=
  ⟨List.nodup_nil, fun _ h => absurd h List.not_mem_nil⟩

/-- A reserved name and names that are fresh after it are fresh. -/
theorem Fresh.cons {taken : TakenNames} {name source : String} {names : List String}
    (hname : taken.lookup name = none) (h : Fresh ((name, source) :: taken) names) :
    Fresh taken (name :: names) := by
  have hother : ∀ other ∈ names, other ≠ name ∧ taken.lookup other = none := by
    intro other hmem
    have hlookup := h.untaken other hmem
    rw [List.lookup_cons] at hlookup
    by_cases heq : other = name
    · simp [heq] at hlookup
    · rw [beq_false_of_ne heq] at hlookup
      exact ⟨heq, hlookup⟩
  refine ⟨List.nodup_cons.2 ⟨fun hmem => (hother name hmem).1 rfl, h.nodup⟩, ?_⟩
  exact List.forall_mem_cons.2 ⟨hname, fun other hmem => (hother other hmem).2⟩

/-! ## Modules -/

structure StaticItem.Of (capability : String) (d : DerivedDeclaration) (s : StaticItem) :
    Prop where
  name : s.name = d.declaration.identifier
  capability : s.capability = capability
  path : Name.path? d.declaration.node.typeName = some s.path
  initializer : s.initializer = d.initializer

structure ModuleItem.Of (hints : List String) (b : Bundle) (m : ModuleItem) : Prop where
  name : m.name = moduleName b.capability
  imports : m.imports = hints.map importPath
  statics : List.Forall₂ (StaticItem.Of b.capability) b.declarations m.statics

theorem forall₂_of_layStatics {capability : String} {ds : List DerivedDeclaration}
    {items : List StaticItem} (h : layStatics capability ds = .ok items) :
    List.Forall₂ (StaticItem.Of capability) ds items := by
  induction ds generalizing items with
  | nil =>
      cases h
      exact .nil
  | cons d rest ih =>
      obtain ⟨name, hname, h⟩ := bind_eq_ok_iff.1 h
      obtain ⟨path, hpath, h⟩ := bind_eq_ok_iff.1 h
      obtain ⟨others, hothers, h⟩ := bind_eq_ok_iff.1 h
      cases h
      exact .cons ⟨(identifier_eq_ok_iff.1 hname).2, rfl, typePath_eq_ok_iff.1 hpath, rfl⟩
        (ih hothers)

theorem of_layModule {hints : List String} {b : Bundle} {m : ModuleItem}
    (h : layModule hints b = .ok m) : ModuleItem.Of hints b m := by
  obtain ⟨capability, hcapability, h⟩ := bind_eq_ok_iff.1 h
  obtain ⟨statics, hstatics, h⟩ := bind_eq_ok_iff.1 h
  cases h
  rw [(identifier_eq_ok_iff.1 hcapability).2] at hstatics ⊢
  exact ⟨rfl, rfl, forall₂_of_layStatics hstatics⟩

theorem forall₂_of_layModules {hints : List String} {taken : TakenNames}
    {bundles : List Bundle} {items : List ModuleItem}
    (h : layModules hints taken bundles = .ok items) :
    List.Forall₂ (ModuleItem.Of hints) bundles items ∧ Fresh taken (items.map (·.name)) := by
  induction bundles generalizing taken items with
  | nil =>
      cases h
      exact ⟨.nil, fresh_nil taken⟩
  | cons b rest ih =>
      obtain ⟨next, hreserve, h⟩ := bind_eq_ok_iff.1 h
      obtain ⟨m, hm, h⟩ := bind_eq_ok_iff.1 h
      obtain ⟨others, hothers, h⟩ := bind_eq_ok_iff.1 h
      cases h
      obtain ⟨huntaken, rfl⟩ := reserve_eq_ok_iff.1 hreserve
      obtain ⟨hall, hfresh⟩ := ih hothers
      have hof := of_layModule hm
      rw [List.map_cons, hof.name]
      exact ⟨.cons hof hall, hfresh.cons huntaken⟩

/-! ## Accessors -/

structure Accessor.Of (path : String) (d : DerivedDeclaration) (a : Accessor) : Prop where
  name : a.name = Name.snake d.declaration.identifier
  capability : a.capability = d.declaration.capability
  path : a.path = path
  initializer : a.initializer = d.initializer

theorem forall₂_of_layAccessors {path : String} {taken : TakenNames}
    {ds : List DerivedDeclaration} {items : List Accessor}
    (h : layAccessors path taken ds = .ok items) :
    List.Forall₂ (Accessor.Of path) ds items ∧ Fresh taken (items.map (·.name)) := by
  induction ds generalizing taken items with
  | nil =>
      cases h
      exact ⟨.nil, fresh_nil taken⟩
  | cons d rest ih =>
      obtain ⟨capability, hcapability, h⟩ := bind_eq_ok_iff.1 h
      obtain ⟨source, hsource, h⟩ := bind_eq_ok_iff.1 h
      obtain ⟨next, hreserve, h⟩ := bind_eq_ok_iff.1 h
      obtain ⟨others, hothers, h⟩ := bind_eq_ok_iff.1 h
      cases h
      obtain ⟨huntaken, rfl⟩ := reserve_eq_ok_iff.1 hreserve
      obtain ⟨hall, hfresh⟩ := ih hothers
      rw [(identifier_eq_ok_iff.1 hsource).2] at huntaken hfresh ⊢
      exact ⟨.cons ⟨rfl, (identifier_eq_ok_iff.1 hcapability).2, rfl, rfl⟩ hall,
        hfresh.cons huntaken⟩

/-! ## Bodies -/

inductive Body.Of (m : Manifest) : Body -> Prop where
  | modules {items : List ModuleItem} : m.declarations.scope = .shared ->
      List.Forall₂ (ModuleItem.Of m.importHints) m.declarations.bundles items ->
      (items.map (·.name)).Nodup -> Body.Of m (.modules items)
  | block {path : String} {accessors : List Accessor} : m.declarations.scope = .besideType ->
      m.declarations.declarations ≠ [] ->
      (∀ d ∈ m.declarations.declarations, Name.path? d.declaration.node.typeName = some path) ->
      List.Forall₂ (Accessor.Of path) m.declarations.declarations accessors ->
      (accessors.map (·.name)).Nodup -> Body.Of m (.block path accessors)

theorem of_layBody {m : Manifest} {body : Body} (h : layBody m = .ok body) : Body.Of m body := by
  unfold layBody at h
  split at h
  · next hscope =>
      obtain ⟨items, hitems, h⟩ := bind_eq_ok_iff.1 h
      cases h
      obtain ⟨hall, hfresh⟩ := forall₂_of_layModules hitems
      exact .modules hscope hall hfresh.nodup
  · next hscope =>
      split at h
      · cases h
      · next b hblock =>
          obtain ⟨path, hpath, h⟩ := bind_eq_ok_iff.1 h
          obtain ⟨accessors, haccessors, h⟩ := bind_eq_ok_iff.1 h
          cases h
          rw [DeclarationSet.declarations_of_block hblock] at haccessors
          obtain ⟨hall, hfresh⟩ := forall₂_of_layAccessors haccessors
          refine .block hscope ?_ (fun d hd => ?_) hall hfresh.nodup
          · intro hnil
            simp [DeclarationSet.block, hnil] at hblock
          · rw [DeclarationSet.typeName_eq_of_block hblock hd]
            exact typePath_eq_ok_iff.1 hpath

theorem isIdentifier_of_layModules {hints : List String} {taken : TakenNames}
    {bundles : List Bundle} {items : List ModuleItem}
    (h : layModules hints taken bundles = .ok items) :
    ∀ b ∈ bundles, Name.isIdentifier b.capability = true := by
  induction bundles generalizing taken items with
  | nil => exact fun b hb => absurd hb List.not_mem_nil
  | cons b rest ih =>
      obtain ⟨next, _, h⟩ := bind_eq_ok_iff.1 h
      obtain ⟨m, hm, h⟩ := bind_eq_ok_iff.1 h
      obtain ⟨others, hothers, _⟩ := bind_eq_ok_iff.1 h
      obtain ⟨capability, hcapability, _⟩ := bind_eq_ok_iff.1 hm
      exact List.forall_mem_cons.2 ⟨(identifier_eq_ok_iff.1 hcapability).1, ih hothers⟩

theorem isIdentifier_of_layAccessors {path : String} {taken : TakenNames}
    {ds : List DerivedDeclaration} {items : List Accessor}
    (h : layAccessors path taken ds = .ok items) :
    ∀ d ∈ ds, Name.isIdentifier d.declaration.capability = true := by
  induction ds generalizing taken items with
  | nil => exact fun d hd => absurd hd List.not_mem_nil
  | cons d rest ih =>
      obtain ⟨capability, hcapability, h⟩ := bind_eq_ok_iff.1 h
      obtain ⟨source, _, h⟩ := bind_eq_ok_iff.1 h
      obtain ⟨next, _, h⟩ := bind_eq_ok_iff.1 h
      obtain ⟨others, hothers, _⟩ := bind_eq_ok_iff.1 h
      exact List.forall_mem_cons.2 ⟨(identifier_eq_ok_iff.1 hcapability).1, ih hothers⟩

/-- The capabilities of a manifest that is laid out are identifiers. -/
theorem isIdentifier_of_layBody {m : Manifest} {body : Body} (h : layBody m = .ok body)
    {d : DerivedDeclaration} (hd : d ∈ m.declarations.declarations) :
    Name.isIdentifier d.declaration.capability = true := by
  unfold layBody at h
  split at h
  · obtain ⟨items, hitems, _⟩ := bind_eq_ok_iff.1 h
    have hmem : d.declaration.capability ∈ m.declarations.bundles.map (·.capability) := by
      rw [DeclarationSet.map_capability_bundles]
      exact DeclarationSet.mem_capabilitiesOf.2 ⟨d, hd, rfl⟩
    obtain ⟨b, hb, hcapability⟩ := List.mem_map.1 hmem
    exact hcapability ▸ isIdentifier_of_layModules hitems b hb
  · split at h
    · cases h
    · next b hblock =>
        obtain ⟨path, _, h⟩ := bind_eq_ok_iff.1 h
        obtain ⟨accessors, haccessors, _⟩ := bind_eq_ok_iff.1 h
        rw [DeclarationSet.declarations_of_block hblock] at haccessors
        exact isIdentifier_of_layAccessors haccessors d hd

/-- The types of a manifest that is laid out have paths. -/
theorem Body.Of.exists_path {m : Manifest} {body : Body} (h : Body.Of m body)
    {d : DerivedDeclaration} (hd : d ∈ m.declarations.declarations) :
    ∃ path, Name.path? d.declaration.node.typeName = some path := by
  cases h with
  | modules _ hall _ =>
      obtain ⟨b, hb, hd⟩ := DeclarationSet.exists_bundle_of_mem hd
      obtain ⟨item, _, hitem⟩ := exists_of_forall₂ hall hb
      obtain ⟨s, _, hs⟩ := exists_of_forall₂ hitem.statics hd
      exact ⟨s.path, hs.path⟩
  | block _ _ hpath _ _ => exact ⟨_, hpath d hd⟩

end Source

end InstanceForge

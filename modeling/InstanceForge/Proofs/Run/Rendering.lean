import InstanceForge.Proofs.Emit.Lines
import InstanceForge.Proofs.Emit.Stamp
import InstanceForge.Proofs.Name.Path

/-!
# Rendered runs

The source text of a run, line by line: a shared run renders one module for each capability, and
in it the import hints and one static for each type; a run beside a type renders one accessor for
each capability. No two items of a file share a name, and no two statics of a module are for one
path.
-/

namespace InstanceForge

open FirstOccurrence

namespace Run

/-! ## Pairs -/

theorem map_snd_pairs (nodes : List TypeNode) (capabilities : List String) :
    (pairs nodes capabilities).map Prod.snd = nodes.flatMap fun _ => capabilities := by
  simp [pairs, List.map_flatMap, Function.comp_def]

theorem eraseDups_map_snd_pairs {nodes : List TypeNode} {capabilities : List String}
    (hnodes : nodes ≠ []) (hnodup : capabilities.Nodup) :
    ((pairs nodes capabilities).map Prod.snd).eraseDups = capabilities := by
  obtain ⟨node, rest, rfl⟩ := List.exists_cons_of_ne_nil hnodes
  have hnone : (rest.flatMap fun _ => capabilities).removeAll capabilities = [] := by
    rw [List.removeAll, List.filter_eq_nil_iff]
    intro capability hmem
    obtain ⟨_, _, hmem⟩ := List.mem_flatMap.1 hmem
    simpa using hmem
  rw [map_snd_pairs, List.flatMap_cons, List.eraseDups_append, hnone,
    eraseDups_of_nodup hnodup]
  simp

theorem filter_pairs (nodes : List TypeNode) {capabilities : List String}
    (hnodup : capabilities.Nodup) {capability : String} (hmem : capability ∈ capabilities) :
    (pairs nodes capabilities).filter (fun p => p.2 == capability) =
      nodes.map fun node => (node, capability) := by
  have hone : capabilities.filter (· == capability) = [capability] := by
    rw [List.filter_beq, List.count_eq_one_of_mem hnodup hmem]
    rfl
  induction nodes with
  | nil => rfl
  | cons node rest ih =>
      have hnode : (capabilities.map fun other => (node, other)).filter
          (fun p => p.2 == capability) = [(node, capability)] := by
        rw [List.filter_map]
        exact congrArg _ hone
      rw [List.map_cons, ← ih, pairs, List.flatMap_cons, List.filter_append, hnode]
      rfl

/-- Types outermost or capabilities outermost, the pairs are the same. -/
theorem perm_pairs (nodes : List TypeNode) (capabilities : List String) :
    (capabilities.flatMap fun capability => nodes.map fun node => (node, capability)).Perm
      (pairs nodes capabilities) := by
  induction capabilities with
  | nil => simp [pairs]
  | cons capability rest ih =>
      rw [List.flatMap_cons]
      refine (List.Perm.append_left _ ih).trans ?_
      have hsplit := List.flatMap_append_perm nodes (fun node => [(node, capability)])
        (fun node => rest.map fun other => (node, other))
      rw [← List.map_eq_flatMap] at hsplit
      exact hsplit

/-! ## Bundles of a run -/

open DeclarationSet

section Bundles

variable {engine : Engine} {request : Request} {graph : TypeGraph}
  {derived : List DerivedDeclaration}

theorem Derives.capabilitiesOf_eq (h : Derives engine request graph derived)
    (hnodes : graph.nodes ≠ []) (hnodup : request.capabilities.Nodup) :
    capabilitiesOf derived = request.capabilities := by
  have hcapabilities : (derived.map fun d => d.declaration.capability) =
      (pairs graph.nodes request.capabilities).map Prod.snd := by
    have hmap := congrArg (List.map Declaration.capability) h.declarations
    rw [List.map_map, List.map_map] at hmap
    exact hmap
  rw [capabilitiesOf, hcapabilities, eraseDups_map_snd_pairs hnodes hnodup]

/-- The bundle of a requested capability declares an instance for each type in turn. -/
theorem Derives.map_declaration_bundleOf (h : Derives engine request graph derived)
    (hnodup : request.capabilities.Nodup) {capability : String}
    (hmem : capability ∈ request.capabilities) :
    (bundleOf derived capability).declarations.map DerivedDeclaration.declaration =
      graph.nodes.map fun node => Declaration.ofPair request.scope node capability := by
  have hfilter : (bundleOf derived capability).declarations.map DerivedDeclaration.declaration =
      (derived.map DerivedDeclaration.declaration).filter fun d => d.capability == capability := by
    rw [List.filter_map]
    rfl
  rw [hfilter, h.declarations, List.filter_map]
  exact (congrArg _ (filter_pairs graph.nodes hnodup hmem)).trans (List.map_map ..)

theorem Derives.exists_pair (h : Derives engine request graph derived)
    {d : DerivedDeclaration} (hd : d ∈ derived) :
    ∃ p ∈ pairs graph.nodes request.capabilities,
      d.declaration = Declaration.ofPair request.scope p.1 p.2 := by
  have hmem : d.declaration ∈ derived.map DerivedDeclaration.declaration :=
    List.mem_map.2 ⟨d, hd, rfl⟩
  rw [h.declarations] at hmem
  obtain ⟨p, hp, heq⟩ := List.mem_map.1 hmem
  exact ⟨p, hp, heq.symm⟩

theorem nodup_capabilities (hnodes : graph.nodes ≠ [])
    (h : (identifiersOf request graph).Nodup) : request.capabilities.Nodup := by
  obtain ⟨node, rest, hcons⟩ := List.exists_cons_of_ne_nil hnodes
  have hfirst : (request.capabilities.map fun capability =>
      Declaration.identifierFor node.typeName capability).Nodup := by
    refine h.sublist ?_
    rw [identifiersOf, hcons, pairs, List.flatMap_cons, List.map_append, List.map_map]
    exact List.sublist_append_left _ _
  exact hfirst.of_map _

end Bundles

/-! ## Shared runs -/

structure StaticFor (engine : Engine) (capability : String) (node : TypeNode)
    (s : Source.StaticItem) : Prop where
  name : s.name = Declaration.identifierFor node.typeName capability
  path : Name.path? node.typeName = some s.path
  initializer : engine.derive node capability = .ok s.initializer
  capability : s.capability = capability

structure ModuleFor (engine : Engine) (hints : List String) (nodes : List TypeNode)
    (capability : String) (m : Source.ModuleItem) : Prop where
  name : m.name = Name.snake capability ++ "_instances"
  imports : List.Forall₂ Source.Imports hints m.imports
  statics : List.Forall₂ (StaticFor engine capability) nodes m.statics

/-- The text of a shared run: a header of two lines and then the lines of its modules. -/
structure SharedText (request : Request) (engine : Engine) (out : RunOutput)
    (items : List Source.ModuleItem) : Prop where
  text : out.text = Source.unlines
    (Source.headerLines request.root out.manifest.fingerprint ++
      items.flatMap Source.ModuleItem.lines)
  oneLine : ∀ line ∈ Source.headerLines request.root out.manifest.fingerprint,
    '\n' ∉ line.toList
  modules : List.Forall₂ (ModuleFor engine request.importHints out.graph.nodes)
    request.capabilities items
  once : ∀ node ∈ out.graph.nodes, ∀ capability ∈ request.capabilities,
    (items.flatMap (·.statics)).countP
      (fun s => s.name == Declaration.identifierFor node.typeName capability) = 1
  moduleNames : (items.map (·.name)).Nodup
  staticNames : ((items.flatMap (·.statics)).map (·.name)).Nodup
  paths : ∀ m ∈ items, (m.statics.map (·.path)).Nodup

section Shared

variable {engine : Engine} {request : Request} {graph : TypeGraph}
  {derived : List DerivedDeclaration}

/-- What the engine gave for a declaration stands in its static. -/
theorem Derives.staticFor (h : Derives engine request graph derived)
    {capability : String} {d : DerivedDeclaration}
    (hd : d ∈ (bundleOf derived capability).declarations) {s : Source.StaticItem}
    (hs : Source.StaticItem.Of capability d s) :
    StaticFor engine capability d.declaration.node s := by
  obtain ⟨hmem, hcapability⟩ := List.mem_filter.1 hd
  rw [beq_iff_eq] at hcapability
  have hinitializer := h.initializers d hmem
  rw [hcapability, ← hs.initializer] at hinitializer
  refine ⟨?_, hs.path, hinitializer, hs.capability⟩
  obtain ⟨p, _, hp⟩ := h.exists_pair hmem
  rw [hs.name, ← hcapability, hp]
  rfl

theorem Derives.moduleFor (h : Derives engine request graph derived)
    (hnodup : request.capabilities.Nodup) {hints : List String} {capability : String}
    (hmem : capability ∈ request.capabilities) {m : Source.ModuleItem}
    (hm : Source.ModuleItem.Of hints (bundleOf derived capability) m) :
    ModuleFor engine hints graph.nodes capability m := by
  refine ⟨hm.name, Source.forall₂_imports_iff.2 hm.imports, ?_⟩
  have hstatics : List.Forall₂ (fun d => StaticFor engine capability d.node)
      ((bundleOf derived capability).declarations.map DerivedDeclaration.declaration)
      m.statics := by
    rw [List.forall₂_map_left_iff]
    have hall := (List.forall₂_and_left _ _).2 ⟨fun d hd => hd, hm.statics⟩
    exact hall.imp fun d s hds => h.staticFor hds.1 hds.2
  rw [h.map_declaration_bundleOf hnodup hmem, List.forall₂_map_left_iff] at hstatics
  exact hstatics

/-- The bundles of a shared run become its modules, capability by capability. -/
theorem Derives.modulesFor (h : Derives engine request graph derived)
    (hnodes : graph.nodes ≠ []) (hnodup : request.capabilities.Nodup) {hints : List String}
    {items : List Source.ModuleItem}
    (hitems : List.Forall₂ (Source.ModuleItem.Of hints)
      (DeclarationSet.bundles ⟨request.scope, derived⟩) items) :
    List.Forall₂ (ModuleFor engine hints graph.nodes) request.capabilities items := by
  rw [bundles_eq, List.forall₂_map_left_iff, h.capabilitiesOf_eq hnodes hnodup] at hitems
  have hall := (List.forall₂_and_left _ _).2 ⟨fun _ hmem => hmem, hitems⟩
  exact hall.imp fun capability m hm => h.moduleFor hnodup hm.1 hm.2

theorem ModuleFor.map_name {hints : List String} {nodes : List TypeNode} {capability : String}
    {m : Source.ModuleItem} (hm : ModuleFor engine hints nodes capability m) :
    m.statics.map (·.name) =
      (nodes.map fun node => (node, capability)).map identifierOf := by
  rw [List.map_map]
  exact (map_eq_map_of_forall₂ hm.statics fun _ _ hs => hs.name.symm).symm

/-- Whatever two types are called, one path gives one identifier for a capability, so there is one
path at most once where there is no identifier twice. -/
theorem ModuleFor.nodup_path {hints : List String} {nodes : List TypeNode} {capability : String}
    {m : Source.ModuleItem} (hm : ModuleFor engine hints nodes capability m)
    (hnodup : (m.statics.map (·.name)).Nodup) : (m.statics.map (·.path)).Nodup := by
  have hsource : ∀ s ∈ m.statics, ∃ node : TypeNode,
      s.name = Declaration.identifierFor node.typeName capability ∧
        Name.path? node.typeName = some s.path := by
    intro s hs
    obtain ⟨node, _, hnode⟩ := exists_of_forall₂ hm.statics.flip hs
    exact ⟨node, hnode.name, hnode.path⟩
  have hsame : ∀ s ∈ m.statics, ∀ t ∈ m.statics, s.path = t.path -> s.name = t.name := by
    intro s hs t ht hpath
    obtain ⟨a, haname, hapath⟩ := hsource s hs
    obtain ⟨b, hbname, hbpath⟩ := hsource t ht
    rw [haname, hbname, Declaration.identifierFor, Declaration.identifierFor,
      Name.lowerCamel_eq_of_path?_eq hapath (hpath ▸ hbpath)]
  rw [List.nodup_iff_pairwise_ne, List.pairwise_map] at hnodup ⊢
  exact hnodup.imp_of_mem fun hs ht hne hpath => hne (hsame _ hs _ ht hpath)

theorem perm_map_name_statics {hints : List String} {items : List Source.ModuleItem}
    (h : List.Forall₂ (ModuleFor engine hints graph.nodes) request.capabilities items) :
    ((items.flatMap (·.statics)).map (·.name)).Perm (identifiersOf request graph) := by
  have hnames : (items.flatMap (·.statics)).map (·.name) =
      (request.capabilities.flatMap fun capability =>
        graph.nodes.map fun node => (node, capability)).map identifierOf := by
    rw [List.map_flatMap, List.map_flatMap, List.flatMap_def, List.flatMap_def]
    exact congrArg _ (map_eq_map_of_forall₂ h fun _ _ hm => hm.map_name.symm).symm
  rw [hnames]
  exact (perm_pairs graph.nodes request.capabilities).map identifierOf

theorem countP_name_eq_one {hints : List String} {items : List Source.ModuleItem}
    (h : List.Forall₂ (ModuleFor engine hints graph.nodes) request.capabilities items)
    (hnodup : (identifiersOf request graph).Nodup) {node : TypeNode} (hnode : node ∈ graph.nodes)
    {capability : String} (hcapability : capability ∈ request.capabilities) :
    (items.flatMap (·.statics)).countP
      (fun s => s.name == Declaration.identifierFor node.typeName capability) = 1 := by
  have hmem : Declaration.identifierFor node.typeName capability ∈ identifiersOf request graph := by
    refine List.mem_map.2 ⟨(node, capability), ?_, rfl⟩
    exact List.mem_flatMap.2 ⟨node, hnode, List.mem_map.2 ⟨capability, hcapability, rfl⟩⟩
  have hcount := List.count_eq_one_of_mem hnodup hmem
  rw [← (perm_map_name_statics h).count_eq, List.count, List.countP_map] at hcount
  exact hcount

end Shared

/-! ## Runs beside a type -/

structure AccessorFor (engine : Engine) (root path capability : String) (a : Source.Accessor) :
    Prop where
  name : a.name = Name.snake (Declaration.identifierFor root capability)
  initializer : engine.derive (TypeNode.ofType root) capability = .ok a.initializer
  path : a.path = path
  capability : a.capability = capability

/-- The text of a run beside a type: a header of two lines and then the lines of one block. -/
structure BlockText (request : Request) (engine : Engine) (out : RunOutput) (path : String)
    (accessors : List Source.Accessor) : Prop where
  text : out.text = Source.unlines
    (Source.headerLines request.root out.manifest.fingerprint ++
      Source.blockLines path accessors)
  oneLine : ∀ line ∈ Source.headerLines request.root out.manifest.fingerprint,
    '\n' ∉ line.toList
  accessorNames : (accessors.map (·.name)).Nodup
  accessors : List.Forall₂ (AccessorFor engine request.root path) request.capabilities accessors
  path : Name.path? request.root = some path

theorem Derives.accessorFor {request : Request} {engine : Engine} {graph : TypeGraph}
    {derived : List DerivedDeclaration} (h : Derives engine request graph derived)
    (hnodes : graph.nodes = [TypeNode.ofType request.root]) {d : DerivedDeclaration}
    (hd : d ∈ derived) {path : String} {a : Source.Accessor} (ha : Source.Accessor.Of path d a) :
    AccessorFor engine request.root path d.declaration.capability a := by
  obtain ⟨p, hp, hdeclaration⟩ := h.exists_pair hd
  obtain ⟨node, hnode, hp⟩ := List.mem_flatMap.1 hp
  obtain ⟨capability, _, rfl⟩ := List.mem_map.1 hp
  rw [hnodes, List.mem_singleton] at hnode
  subst hnode
  have hinitializer := h.initializers d hd
  rw [hdeclaration, ← ha.initializer] at hinitializer
  rw [hdeclaration]
  refine ⟨?_, hinitializer, ha.path, ?_⟩
  · rw [ha.name, hdeclaration]
    rfl
  · rw [ha.capability, hdeclaration]

theorem pairs_singleton (node : TypeNode) (capabilities : List String) :
    pairs [node] capabilities = capabilities.map fun capability => (node, capability) := by
  simp [pairs]

section Finished

variable {request : Request} {S : Provider}
  {finite : request.scope = .shared -> S.FinitelyReaches request.root} {engine : Engine}
  {derived : List DerivedDeclaration} {out : RunOutput}

theorem nodes_ne_nil_of_graphFor {graph : TypeGraph}
    (h : graphFor request S finite = .ok graph) : graph.nodes ≠ [] := by
  intro hnil
  have hroot := root?_of_graphFor h
  simp [TypeGraph.root?, hnil] at hroot

theorem nodes_of_besideType {graph : TypeGraph} (hscope : request.scope = .besideType)
    (h : graphFor request S finite = .ok graph) :
    graph.nodes = [TypeNode.ofType request.root] := by
  unfold graphFor at h
  split at h
  · next hshared => rw [hshared] at hscope; cases hscope
  · unfold TypeGraph.single at h
    split at h
    · cases h
    · rw [Except.ok.injEq] at h
      rw [← h]

theorem Finished.exists_body
    (h : Finished request S finite engine Source.emitter derived out) :
    ∃ body, Source.Body.Of (manifestOf request derived) body ∧ out.text =
      Source.unlines (Source.headerLines request.root out.manifest.fingerprint) ++
        body.render := by
  obtain ⟨body, hbody, htext⟩ := Source.exists_body_of_render h.text
  have hroot : out.manifest.root = request.root := by
    rw [h.manifest]
    rfl
  rw [Source.header_eq_unlines, hroot] at htext
  exact ⟨body, h.manifest ▸ hbody, htext⟩

theorem Finished.oneLine
    (h : Finished request S finite engine Source.emitter derived out) :
    ∀ line ∈ Source.headerLines request.root out.manifest.fingerprint, '\n' ∉ line.toList := by
  obtain ⟨path, hpath⟩ := h.exists_path
  have hroot : '\n' ∉ request.root.toList := by
    intro hmem
    exact absurd (Name.isPathChar_of_mem hpath hmem) (by decide)
  have hhex : '\n' ∉ out.manifest.fingerprint.toHex.toList := by
    intro hmem
    exact absurd (Fingerprint.isSpace_eq_false_of_mem_toHex hmem) (by decide)
  have hmarks : '\n' ∉ "// @generated by cachegen from `".toList ∧
      '\n' ∉ "`. Do not edit.".toList ∧ '\n' ∉ "// fingerprint: ".toList := by decide +kernel
  intro line hline
  rcases List.mem_cons.1 hline with rfl | hline
  · simp only [String.toList_append, List.mem_append, not_or]
    exact ⟨⟨hmarks.1, hroot⟩, hmarks.2.1⟩
  · rw [List.mem_singleton] at hline
    subst hline
    simp only [String.toList_append, List.mem_append, not_or]
    exact ⟨hmarks.2.2, hhex⟩

theorem Finished.exists_sharedText (hscope : request.scope = .shared)
    (h : Finished request S finite engine Source.emitter derived out) :
    ∃ items, SharedText request engine out items := by
  have hnodes := nodes_ne_nil_of_graphFor h.graph
  have hnodup := nodup_capabilities hnodes h.identifiers
  obtain ⟨body, hbody, htext⟩ := h.exists_body
  cases hbody with
  | block hbeside =>
      have hclash : request.scope = .besideType := hbeside
      rw [hscope] at hclash
      cases hclash
  | @modules items _ hitems hnames =>
      have hhints : (manifestOf request derived).importHints = request.importHints := by
        simp [manifestOf, hintsFor, hscope]
      rw [hhints] at hitems
      have hmodules := h.derives.modulesFor hnodes hnodup hitems
      have hstatics : ((items.flatMap (·.statics)).map (·.name)).Nodup :=
        (perm_map_name_statics hmodules).nodup_iff.2 h.identifiers
      rw [Source.render_modules, ← Source.unlines_append] at htext
      refine ⟨items, htext, h.oneLine, hmodules, ?_, hnames, hstatics, fun m hm => ?_⟩
      · intro node hnode capability hcapability
        exact countP_name_eq_one hmodules h.identifiers hnode hcapability
      · obtain ⟨capability, _, hfor⟩ := exists_of_forall₂ hmodules.flip hm
        rw [List.map_flatMap, List.nodup_flatMap] at hstatics
        exact hfor.nodup_path (hstatics.1 m hm)

theorem Finished.exists_blockText (hscope : request.scope = .besideType)
    (h : Finished request S finite engine Source.emitter derived out) :
    ∃ path accessors, BlockText request engine out path accessors := by
  obtain ⟨body, hbody, htext⟩ := h.exists_body
  obtain ⟨root, hroot, htype⟩ := h.exists_root
  cases hbody with
  | modules hshared =>
      have hclash : request.scope = .shared := hshared
      rw [hscope] at hclash
      cases hclash
  | @block path accessors _ _ hpath haccessors hnames =>
      rw [Source.render_block, ← Source.unlines_append] at htext
      refine ⟨path, accessors, htext, h.oneLine, hnames, ?_, htype ▸ hpath root hroot⟩
      have hnodes := nodes_of_besideType hscope h.graph
      have hdeclared : List.Forall₂
          (fun d : Declaration => AccessorFor engine request.root path d.capability)
          (derived.map DerivedDeclaration.declaration) accessors := by
        rw [List.forall₂_map_left_iff]
        have hall := (List.forall₂_and_left _ _).2 ⟨fun d hd => hd, haccessors⟩
        exact hall.imp fun d a hda => h.derives.accessorFor hnodes hda.1 hda.2
      rw [h.derives.declarations, hnodes, pairs_singleton, List.map_map,
        List.forall₂_map_left_iff] at hdeclared
      exact hdeclared

end Finished

/-- A run that succeeds has the text of its scope. -/
theorem text_of_run (request : Request) (S : Provider)
    (finite : request.scope = .shared -> S.FinitelyReaches request.root) (engine : Engine)
    {out : RunOutput} (h : run request S finite engine OutputFormat.rust.emitter = .ok out) :
    (request.scope = .shared -> ∃ items, SharedText request engine out items) ∧
      (request.scope = .besideType ->
        ∃ path accessors, BlockText request engine out path accessors) := by
  obtain ⟨derived, hfinished⟩ := exists_finished_of_run h
  exact ⟨fun hscope => hfinished.exists_sharedText hscope,
    fun hscope => hfinished.exists_blockText hscope⟩

def renderOrder (scope : Scope) : Except RunError RunOutput :=
  run ⟨"Order", ["Encoder", "Decoder"], scope, ["use crate::models::*;"]⟩
    TypeGraph.diamond.provider (fun _ => TypeGraph.diamond.finitelyReaches "Order")
    (Engine.ofTemplate Template.standard) OutputFormat.rust.emitter

theorem renderOrder_shared : ∃ out, renderOrder .shared = .ok out := by
  have hrun : renderOrder .shared = render
      ⟨"Order", ["Encoder", "Decoder"], .shared, ["use crate::models::*;"]⟩
      (TypeGraph.ofNames TypeGraph.diamond.provider ["Order", "Address", "Line"])
      (Engine.ofTemplate Template.standard) OutputFormat.rust.emitter :=
    run_of_graphFor_eq_ok (TypeGraph.discover_eq_ofNames_diamond _)
  refine exists_of_isSome_toOption ?_
  rw [hrun]
  decide +kernel

theorem renderOrder_besideType : ∃ out, renderOrder .besideType = .ok out := by
  refine exists_of_isSome_toOption ?_
  decide +kernel

theorem text_of_renderOrder :
    (∃ out, renderOrder .shared = .ok out ∧ ∃ items, SharedText
      ⟨"Order", ["Encoder", "Decoder"], .shared, ["use crate::models::*;"]⟩
      (Engine.ofTemplate Template.standard) out items ∧
      items.map (·.name) = ["encoder_instances", "decoder_instances"] ∧
      (∀ m ∈ items, m.imports = ["crate::models::*"]) ∧
      items.map (fun m => m.statics.map (·.name)) =
        [["orderEncoder", "addressEncoder", "lineEncoder"],
          ["orderDecoder", "addressDecoder", "lineDecoder"]]) ∧
    ∃ out, renderOrder .besideType = .ok out ∧ ∃ path accessors, BlockText
      ⟨"Order", ["Encoder", "Decoder"], .besideType, ["use crate::models::*;"]⟩
      (Engine.ofTemplate Template.standard) out path accessors ∧
      path = "Order" ∧ accessors.map (·.name) = ["order_encoder", "order_decoder"] := by
  obtain ⟨shared, hshared⟩ := renderOrder_shared
  obtain ⟨beside, hbeside⟩ := renderOrder_besideType
  obtain ⟨items, hitems⟩ := (text_of_run _ _ _ _ hshared).1 rfl
  obtain ⟨path, accessors, haccessors⟩ := (text_of_run _ _ _ _ hbeside).2 rfl
  have hnames := map_eq_map_of_forall₂ hitems.modules fun _ _ hm => hm.name.symm
  have himports : ∀ m ∈ items, m.imports = ["crate::models::*"] := by
    intro m hm
    obtain ⟨_, _, hfor⟩ := exists_of_forall₂ hitems.modules.flip hm
    rw [Source.forall₂_imports_iff.1 hfor.imports]
    decide +kernel
  have hgraph : shared.graph =
      TypeGraph.ofNames TypeGraph.diamond.provider ["Order", "Address", "Line"] := by
    obtain ⟨_, hfinished⟩ := exists_finished_of_run hshared
    exact Except.ok.inj (hfinished.graph.symm.trans (TypeGraph.discover_eq_ofNames_diamond _))
  have hstatics := map_eq_map_of_forall₂ hitems.modules fun _ _ hm => hm.map_name.symm
  rw [hgraph] at hstatics
  have haccessorNames := map_eq_map_of_forall₂ haccessors.accessors fun _ _ ha => ha.name.symm
  exact ⟨⟨shared, hshared, items, hitems, hnames.symm.trans (by decide +kernel), himports,
      hstatics.symm.trans (by decide +kernel)⟩,
    beside, hbeside, path, accessors, haccessors,
    Option.some.inj (haccessors.path.symm.trans (by decide +kernel)),
    haccessorNames.symm.trans (by decide +kernel)⟩

end Run

end InstanceForge

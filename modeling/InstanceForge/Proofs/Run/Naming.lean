import InstanceForge.Proofs.Name.Usable
import InstanceForge.Proofs.Run.Emission

/-!
# Names that are written to source text

The names of a run that is rendered are identifiers, but a reserved word is not kept out. It does
not come up where the capabilities begin with a capital. A name that is no identifier is refused.
-/

namespace InstanceForge

namespace Run

/-- The names that a run writes, the latter in snake case beside a type. -/
def namesOf (request : Request) (graph : TypeGraph) : List String :=
  request.capabilities ++ identifiersOf request graph

/-- Why source text is refused: for a name that is no identifier, unless a type without a path or
two items of one name come first. -/
inductive NamesRefused (request : Request) (graph : TypeGraph) : EmitError -> Prop where
  | identifier {name : String} : name ∈ namesOf request graph -> Name.isIdentifier name = false ->
      NamesRefused request graph (.invalidIdentifier name)
  | typePath {node : TypeNode} : node ∈ graph.nodes -> Name.path? node.typeName = none ->
      NamesRefused request graph (.invalidTypePath node.typeName)
  | itemName {name first second : String} : ¬ ((sourcesOf request graph).map Name.snake).Nodup ->
      NamesRefused request graph (.duplicateName name first second)

variable {request : Request} {S : Provider}
  {finite : request.scope = .shared -> S.FinitelyReaches request.root} {engine : Engine}
  {graph : TypeGraph} {derived : List DerivedDeclaration} {out : RunOutput}

/-! ## Names that are written -/

/-- The names of a run that is rendered are identifiers. -/
theorem isIdentifier_of_emit (h : Derives engine request graph derived) (hnodes : graph.nodes ≠ [])
    {text : String} (htext : Source.emitter.emit (manifestOf request derived) = .ok text) :
    ∀ name ∈ namesOf request graph, Name.isIdentifier name = true := by
  obtain ⟨file, hfile, _⟩ := bind_eq_ok_iff.1 htext
  obtain ⟨body, hbody, _⟩ := bind_eq_ok_iff.1 hfile
  have hcapability : ∀ p ∈ pairs graph.nodes request.capabilities,
      Name.isIdentifier p.2 = true ∧ ∃ path, Name.path? p.1.typeName = some path := by
    intro p hp
    obtain ⟨d, hd, hdeclaration⟩ := h.exists_declared hp
    have hidentifier := Source.isIdentifier_of_layBody hbody hd
    have hpath := (Source.of_layBody hbody).exists_path hd
    rw [hdeclaration] at hidentifier hpath
    exact ⟨hidentifier, hpath⟩
  intro name hname
  rcases List.mem_append.1 hname with hname | hname
  · obtain ⟨node, rest, hcons⟩ := List.exists_cons_of_ne_nil hnodes
    exact (hcapability (node, name) (mem_pairs.2 ⟨by simp [hcons], hname⟩)).1
  · obtain ⟨p, hp, rfl⟩ := List.mem_map.1 hname
    obtain ⟨hidentifier, path, hpath⟩ := hcapability p hp
    exact Declaration.isIdentifier_identifierFor hpath hidentifier

theorem Finished.isIdentifier_capability
    (h : Finished request S finite engine Source.emitter derived out) {capability : String}
    (hcapability : capability ∈ request.capabilities) : Name.isIdentifier capability = true :=
  isIdentifier_of_emit h.derives (nodes_ne_nil_of_graphFor h.graph) (h.manifest ▸ h.text) _
    (List.mem_append_left _ hcapability)

/-- The statics of a module are named by identifiers. -/
theorem ModuleFor.written {hints : List String} {nodes : List TypeNode} {capability : String}
    {m : Source.ModuleItem} (h : ModuleFor engine hints nodes capability m)
    (hcapability : Name.isIdentifier capability = true) :
    ∀ s ∈ m.statics, Name.Written s.capability s.name := by
  intro s hs
  obtain ⟨node, _, hnode⟩ := exists_of_forall₂ h.statics.flip hs
  rw [hnode.name, hnode.capability]
  exact Name.written_identifierFor hnode.path hcapability

theorem Finished.exists_written_statics (hscope : request.scope = .shared)
    (h : Finished request S finite engine Source.emitter derived out) :
    ∃ items, SharedText request engine out items ∧
      ∀ m ∈ items, ∀ s ∈ m.statics, Name.Written s.capability s.name := by
  obtain ⟨items, htext⟩ := h.exists_sharedText hscope
  refine ⟨items, htext, fun m hm => ?_⟩
  obtain ⟨capability, hcapability, hfor⟩ := exists_of_forall₂ htext.modules.flip hm
  exact hfor.written (h.isIdentifier_capability hcapability)

theorem Finished.exists_written_accessors (hscope : request.scope = .besideType)
    (h : Finished request S finite engine Source.emitter derived out) :
    ∃ path accessors, BlockText request engine out path accessors ∧
      ∀ a ∈ accessors, Name.Written a.capability a.name := by
  obtain ⟨path, accessors, htext⟩ := h.exists_blockText hscope
  refine ⟨path, accessors, htext, fun a ha => ?_⟩
  obtain ⟨capability, hcapability, hfor⟩ := exists_of_forall₂ htext.accessors.flip ha
  rw [hfor.name, hfor.capability]
  exact Name.written_snake htext.path (h.isIdentifier_capability hcapability)

/-! ## Names that are refused -/

theorem Derives.mem_namesOf (h : Derives engine request graph derived) {d : DerivedDeclaration}
    (hd : d ∈ derived) : d.declaration.capability ∈ namesOf request graph ∧
      d.declaration.identifier ∈ namesOf request graph := by
  obtain ⟨p, hp, hdeclaration⟩ := h.exists_pair hd
  rw [hdeclaration]
  exact ⟨List.mem_append_left _ (mem_pairs.1 hp).2,
    List.mem_append_right _ (List.mem_map.2 ⟨p, hp, rfl⟩)⟩

theorem Derives.namesRefused (h : Derives engine request graph derived)
    (hgraph : graphFor request S finite = .ok graph) (hcapabilities : request.capabilities ≠ [])
    (hnodup : (identifiersOf request graph).Nodup) {cause : EmitError}
    (hemit : OutputFormat.rust.emitter.emit (manifestOf request derived) = .error cause) :
    NamesRefused request graph cause := by
  cases refused_of_emit (h.plannable hgraph hcapabilities hnodup) hemit with
  | capability hd hname => exact .identifier (h.mem_namesOf hd).1 hname
  | identifier hd hname => exact .identifier (h.mem_namesOf hd).2 hname
  | @typePath d hd hpath =>
      obtain ⟨p, hp, hdeclaration⟩ := h.exists_pair hd
      rw [hdeclaration] at hpath ⊢
      exact .typePath (mem_pairs.1 hp).1 hpath
  | duplicateName hfirst hsecond hother hname hsame =>
      rw [h.itemSources_eq (nodes_ne_nil_of_graphFor hgraph) hnodup] at hfirst hsecond
      refine .itemName fun hnames => hother ?_
      rw [← nodup_map_itemName_iff request.scope] at hnames
      exact List.inj_on_of_nodup_map hnames hfirst hsecond (hname.trans hsame.symm)

/-- A run that is refused in its rendering has a name, a type or an item to blame. -/
theorem namesRefused_of_run {cause : EmitError}
    (h : run request S finite engine OutputFormat.rust.emitter = .error (.emit cause)) :
    ∃ graph, graphFor request S finite = .ok graph ∧ NamesRefused request graph cause := by
  cases hgraph : graphFor request S finite with
  | error e =>
      rw [run_of_graphFor_eq_error hgraph] at h
      cases h
  | ok graph =>
      have hending := ending_render request graph engine OutputFormat.rust.emitter
      rw [← run_of_graphFor_eq_ok hgraph, h] at hending
      cases hending with
      | rendering hcapabilities hnodup hderives hemit =>
          exact ⟨graph, rfl, hderives.namesRefused hgraph hcapabilities hnodup hemit⟩

/-- What can be listed but has a name that is no identifier is refused as source text. -/
theorem exists_refusal_of_listed {listed : RunOutput}
    (hlisted : run request S finite engine OutputFormat.json.emitter = .ok listed)
    (hname : ∃ name ∈ namesOf request listed.graph, Name.isIdentifier name = false) :
    ∃ cause, run request S finite engine OutputFormat.rust.emitter = .error (.emit cause) ∧
      NamesRefused request listed.graph cause := by
  obtain ⟨derived, hfinished⟩ := exists_finished_of_run hlisted
  have hgraph := hfinished.graph
  have hending := ending_render request listed.graph engine OutputFormat.rust.emitter
  rw [← run_of_graphFor_eq_ok hgraph] at hending
  generalize run request S finite engine OutputFormat.rust.emitter = result at hending
  cases hending with
  | capabilities hnil => exact absurd hnil hfinished.capabilities
  | identifiers _ hrepeat => exact absurd hfinished.identifiers hrepeat
  | derivation _ _ hsplit _ hfail =>
      obtain ⟨i, hi⟩ := hfinished.derives.exists_initializer
        (hsplit ▸ List.mem_append_right _ List.mem_cons_self)
      rw [hfail] at hi
      cases hi
  | rendering hcapabilities hnodup hderives hemit =>
      exact ⟨_, rfl, hderives.namesRefused hgraph hcapabilities hnodup hemit⟩
  | output _ _ hderives hemit =>
      obtain ⟨name, hmem, hname⟩ := hname
      rw [isIdentifier_of_emit hderives (nodes_ne_nil_of_graphFor hgraph) hemit name hmem] at hname
      cases hname

/-! ## All names -/

/--
What is written as a name by a run that succeeds: a static or an accessor has a usable name unless
this is a reserved word, a capability is usable unless it is a blank or a reserved word, and with a
capability that begins with a capital nothing but `Self` is not usable. Source text is refused with
a name that is no identifier, or with a type or an item that comes first, and it is refused
whenever one of the names is no identifier.
-/
theorem names_of_run (request : Request) (S : Provider)
    (finite : request.scope = .shared -> S.FinitelyReaches request.root) (engine : Engine) :
    (∀ out, run request S finite engine OutputFormat.rust.emitter = .ok out ->
      (request.scope = .shared -> ∃ items, SharedText request engine out items ∧
        ∀ m ∈ items, ∀ s ∈ m.statics, Name.Written s.capability s.name) ∧
      (request.scope = .besideType -> ∃ path accessors,
        BlockText request engine out path accessors ∧
          ∀ a ∈ accessors, Name.Written a.capability a.name)) ∧
    (∀ cause, run request S finite engine OutputFormat.rust.emitter = .error (.emit cause) ->
      ∃ graph, graphFor request S finite = .ok graph ∧ NamesRefused request graph cause) ∧
    (∀ listed, run request S finite engine OutputFormat.json.emitter = .ok listed ->
      (∃ name ∈ namesOf request listed.graph, Name.isIdentifier name = false) ->
      ∃ cause, run request S finite engine OutputFormat.rust.emitter = .error (.emit cause) ∧
        NamesRefused request listed.graph cause) := by
  refine ⟨fun out hout => ?_, fun cause => namesRefused_of_run,
    fun listed => exists_refusal_of_listed⟩
  obtain ⟨derived, hfinished⟩ := exists_finished_of_run hout
  exact ⟨hfinished.exists_written_statics, hfinished.exists_written_accessors⟩

def renderS (capability : String) (emitter : Emitter) : Except RunError RunOutput :=
  run ⟨"S", [capability], .besideType, []⟩ (Registry.provider ⟨[⟨"S", .record, []⟩]⟩)
    (fun _ => Registry.finitelyReaches _ "S") (Engine.ofTemplate Template.standard) emitter

theorem names_renderS :
    (∃ out path accessors, renderS "Encoder" OutputFormat.rust.emitter = .ok out ∧
      BlockText ⟨"S", ["Encoder"], .besideType, []⟩ (Engine.ofTemplate Template.standard) out path
        accessors ∧
      ∃ a ∈ accessors, a.name = "s_encoder" ∧ Name.Usable a.name ∧ Name.Usable a.capability) ∧
    ∃ listed cause, renderS "2fast" OutputFormat.json.emitter = .ok listed ∧
      renderS "2fast" OutputFormat.rust.emitter = .error (.emit cause) := by
  obtain ⟨out, hout⟩ : ∃ out, renderS "Encoder" OutputFormat.rust.emitter = .ok out :=
    exists_of_isSome_toOption (by decide +kernel)
  obtain ⟨listed, hlisted⟩ : ∃ listed, renderS "2fast" OutputFormat.json.emitter = .ok listed :=
    exists_of_isSome_toOption (by decide +kernel)
  obtain ⟨path, accessors, htext, hwritten⟩ := ((names_of_run _ _ _ _).1 out hout).2 rfl
  obtain ⟨a, ha, hfor⟩ := exists_of_forall₂ htext.accessors List.mem_cons_self
  have hcapital : Name.IsCapital "Encoder" := ⟨'E', "ncoder".toList, by decide, by decide⟩
  obtain ⟨hitem, hcapability⟩ := (hwritten a ha).capital (by rwa [hfor.capability])
  obtain ⟨cause, hcause, -⟩ := (names_of_run _ _ _ _).2.2 listed hlisted
    ⟨"2fast", List.mem_append_left _ List.mem_cons_self, by decide⟩
  refine ⟨⟨out, path, accessors, hout, htext, a, ha, ?_, hitem, hcapability.2 ?_⟩,
    listed, cause, hlisted, hcause⟩
  · rw [hfor.name]
    decide +kernel
  · rw [hfor.capability]
    decide

/-- An accessor with a reserved word as its name. -/
theorem reserved_renderS :
    ∃ out path accessors a, renderS "elf" OutputFormat.rust.emitter = .ok out ∧
      BlockText ⟨"S", ["elf"], .besideType, []⟩ (Engine.ofTemplate Template.standard) out path
        accessors ∧ a ∈ accessors ∧ a.name = "self" ∧ ¬ Name.Usable a.name := by
  obtain ⟨out, hout⟩ : ∃ out, renderS "elf" OutputFormat.rust.emitter = .ok out :=
    exists_of_isSome_toOption (by decide +kernel)
  obtain ⟨derived, hfinished⟩ := exists_finished_of_run hout
  obtain ⟨path, accessors, htext⟩ := hfinished.exists_blockText rfl
  obtain ⟨a, ha, hfor⟩ := exists_of_forall₂ htext.accessors List.mem_cons_self
  have hname : a.name = "self" := by
    rw [hfor.name]
    decide +kernel
  refine ⟨out, path, accessors, a, hout, htext, ha, hname, fun husable => ?_⟩
  exact husable.notReserved (hname ▸ by decide)

end Run

end InstanceForge

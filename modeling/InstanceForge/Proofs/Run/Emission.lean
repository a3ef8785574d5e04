import InstanceForge.Proofs.Config.Validity
import InstanceForge.Proofs.Emit.Refusal
import InstanceForge.Proofs.Name.Identifier
import InstanceForge.Proofs.Run.Rendering

/-!
# Runs that reach their rendering

After its initializers are derived a run still fails in one form only: source text needs a path
for each type and distinct names for its items. All other checks of that form are redundant,
because the names were checked in the configuration and planned without duplicates.
-/

namespace InstanceForge

namespace Run

open Source (itemName itemSources)

/-- The sources of the items of a run: its capabilities if it is shared, or its identifiers. -/
def sourcesOf (request : Request) (graph : TypeGraph) : List String :=
  match request.scope with
  | .shared => request.capabilities
  | .besideType => identifiersOf request graph

section Rendering

variable {request : Request} {graph : TypeGraph} {engine : Engine}
  {declarations : List Declaration} {derived : List DerivedDeclaration}

theorem derives_of_deriveAll
    (hplan : Declaration.plan graph request.capabilities request.scope = .ok declarations)
    (hderive : deriveAll engine declarations = .ok derived) :
    Derives engine request graph derived := by
  rcases deriveAll_cases engine declarations with
    ⟨other, hok, hmap, hall⟩ | ⟨_, _, _, _, _, _, _, herror⟩
  · rw [hok, Except.ok.injEq] at hderive
    subst hderive
    rw [(Declaration.plan_eq_ok hplan).2.1, candidates_eq_map_pairs] at hmap
    exact ⟨hmap, hall⟩
  · rw [herror] at hderive
    cases hderive

theorem nodup_identifiersOf
    (hplan : Declaration.plan graph request.capabilities request.scope = .ok declarations) :
    (identifiersOf request graph).Nodup :=
  (Declaration.plan_eq_ok hplan).2.2

theorem Derives.map_identifier (h : Derives engine request graph derived) :
    derived.map (·.declaration.identifier) = identifiersOf request graph := by
  have hmap := congrArg (List.map Declaration.identifier) h.declarations
  rw [List.map_map, List.map_map] at hmap
  exact hmap

theorem Derives.itemSources_eq (h : Derives engine request graph derived)
    (hnodes : graph.nodes ≠ []) (hnodup : (identifiersOf request graph).Nodup) :
    itemSources (manifestOf request derived).declarations = sourcesOf request graph := by
  cases hscope : request.scope with
  | shared =>
      simp only [itemSources, sourcesOf, manifestOf, hscope]
      exact h.capabilitiesOf_eq hnodes (nodup_capabilities hnodes hnodup)
  | besideType =>
      simp only [itemSources, sourcesOf, manifestOf, hscope]
      exact h.map_identifier

/-- All types of a graph have declarations, and declarations are for types of the graph only. -/
theorem Derives.forall_typeName_iff (h : Derives engine request graph derived)
    (hcapabilities : request.capabilities ≠ []) (P : String -> Prop) :
    (∀ d ∈ derived, P d.declaration.node.typeName) ↔ ∀ node ∈ graph.nodes, P node.typeName := by
  constructor
  · intro hall node hnode
    obtain ⟨capability, rest, hcons⟩ := List.exists_cons_of_ne_nil hcapabilities
    have hpair : (node, capability) ∈ pairs graph.nodes request.capabilities :=
      mem_pairs.2 ⟨hnode, by simp [hcons]⟩
    obtain ⟨d, hd, heq⟩ := h.exists_declared hpair
    have hP := hall d hd
    rwa [heq] at hP
  · intro hall d hd
    obtain ⟨p, hp, heq⟩ := h.exists_pair hd
    rw [heq]
    exact hall p.1 (mem_pairs.1 hp).1

theorem nodup_map_itemName_iff (scope : Scope) (sources : List String) :
    (sources.map (itemName scope)).Nodup ↔ (sources.map Name.snake).Nodup := by
  cases scope with
  | besideType => rfl
  | shared =>
      have hinjective : Function.Injective fun name : String => name ++ "_instances" := by
        intro a b h
        rw [String.ext_iff, String.toList_append, String.toList_append] at h
        exact String.ext (List.append_cancel_right h)
      have hmap : sources.map (itemName .shared) =
          (sources.map Name.snake).map fun name => name ++ "_instances" := by
        rw [List.map_map]
        rfl
      rw [hmap, List.nodup_map_iff hinjective]

/-- What a run has derived forms bundles, or one block if it is beside a type. -/
theorem Derives.plannable (h : Derives engine request graph derived) {S : Provider}
    {finite : request.scope = .shared -> S.FinitelyReaches request.root}
    (hgraph : graphFor request S finite = .ok graph) (hcapabilities : request.capabilities ≠ [])
    (hnodup : (identifiersOf request graph).Nodup) :
    Source.Plannable (manifestOf request derived).declarations := by
  have hidentifiers : (derived.map (·.declaration.identifier)).Nodup := h.map_identifier ▸ hnodup
  refine ⟨fun hscope => ?_, fun _ => hidentifiers⟩
  have hnodes := nodes_of_besideType hscope hgraph
  have hroot : ∀ d ∈ derived, d.declaration.node.typeName = request.root := by
    rw [h.forall_typeName_iff hcapabilities (· = request.root), hnodes]
    intro node hnode
    rw [List.mem_singleton.1 hnode]
    rfl
  refine DeclarationSet.exists_block (fun hnil => ?_) hroot
  obtain ⟨capability, rest, hcons⟩ := List.exists_cons_of_ne_nil hcapabilities
  have hpair : (TypeNode.ofType request.root, capability) ∈
      pairs graph.nodes request.capabilities :=
    mem_pairs.2 ⟨by simp [hnodes], by simp [hcons]⟩
  obtain ⟨d, hd, _⟩ := h.exists_declared hpair
  exact List.ne_nil_of_mem hd hnil

theorem refused_of_emit {m : Manifest} (hm : Source.Plannable m.declarations) {cause : EmitError}
    (h : OutputFormat.rust.emitter.emit m = .error cause) : Source.Refused m cause := by
  rcases bind_eq_error_iff.1 h with hlay | ⟨_, _, hlay⟩
  · rcases bind_eq_error_iff.1 hlay with hbody | ⟨_, _, hbody⟩
    · exact Source.refused_of_layBody hm hbody
    · cases hbody
  · cases hlay

end Rendering

/-! ## Runs that are planned and derived -/

/-- A request whose capabilities are identifiers, and what led to the rendering of a run for it. -/
structure Prepared (request : Request) (S : Provider)
    (finite : request.scope = .shared -> S.FinitelyReaches request.root) (engine : Engine)
    (graph : TypeGraph) (derived : List DerivedDeclaration) : Prop where
  names : ∀ capability ∈ request.capabilities, Name.isIdentifier capability = true
  discovered : graphFor request S finite = .ok graph
  capabilities : request.capabilities ≠ []
  identifiers : (identifiersOf request graph).Nodup
  derives : Derives engine request graph derived
  outcome : ∀ emitter, run request S finite engine emitter =
    match emitter.emit (manifestOf request derived) with
    | .error cause => .error (.emit cause)
    | .ok text => .ok ⟨graph, manifestOf request derived, text⟩

section Prepared

variable {request : Request} {S : Provider}
  {finite : request.scope = .shared -> S.FinitelyReaches request.root} {engine : Engine}
  {graph : TypeGraph} {declarations : List Declaration} {derived : List DerivedDeclaration}

theorem prepared_of_deriveAll
    (hnames : ∀ capability ∈ request.capabilities, Name.isIdentifier capability = true)
    (hgraph : graphFor request S finite = .ok graph)
    (hplan : Declaration.plan graph request.capabilities request.scope = .ok declarations)
    (hderive : deriveAll engine declarations = .ok derived) :
    Prepared request S finite engine graph derived := by
  refine ⟨hnames, hgraph, (Declaration.plan_eq_ok hplan).1, nodup_identifiersOf hplan,
    derives_of_deriveAll hplan hderive, fun emitter => ?_⟩
  rw [run_of_graphFor_eq_ok hgraph]
  split
  · next cause h => exact render_of_emit_eq_error hplan hderive h
  · next text h => exact render_of_emit_eq_ok hplan hderive h

namespace Prepared

variable (h : Prepared request S finite engine graph derived)
include h

theorem nodes_ne_nil : graph.nodes ≠ [] :=
  nodes_ne_nil_of_graphFor h.discovered

theorem plannable : Source.Plannable (manifestOf request derived).declarations :=
  h.derives.plannable h.discovered h.capabilities h.identifiers

theorem isIdentifier_capability {d : DerivedDeclaration} (hd : d ∈ derived) :
    Name.isIdentifier d.declaration.capability = true := by
  obtain ⟨p, hp, heq⟩ := h.derives.exists_pair hd
  rw [heq]
  exact h.names p.2 (mem_pairs.1 hp).2

theorem isIdentifier_identifier {d : DerivedDeclaration} (hd : d ∈ derived)
    (hpath : (Name.path? d.declaration.node.typeName).isSome) :
    Name.isIdentifier d.declaration.identifier = true := by
  obtain ⟨path, hpath⟩ := Option.isSome_iff_exists.1 hpath
  have hcapability := h.isIdentifier_capability hd
  obtain ⟨p, _, heq⟩ := h.derives.exists_pair hd
  rw [heq] at hpath hcapability ⊢
  exact Declaration.isIdentifier_identifierFor hpath hcapability

theorem refused_of_run {e : RunError}
    (hrun : run request S finite engine OutputFormat.rust.emitter = .error e) :
    ∃ cause, e = .emit cause ∧ Source.Refused (manifestOf request derived) cause := by
  rw [h.outcome] at hrun
  split at hrun
  · next cause hemit =>
      rw [Except.error.injEq] at hrun
      exact ⟨cause, hrun.symm, refused_of_emit h.plannable hemit⟩
  · cases hrun

theorem exists_run_iff :
    (∃ out, run request S finite engine OutputFormat.rust.emitter = .ok out) ↔
      ∃ body, Source.layBody (manifestOf request derived) = .ok body := by
  rw [h.outcome]
  constructor
  · rintro ⟨out, hout⟩
    split at hout
    · cases hout
    · next text hemit =>
        obtain ⟨file, hfile, _⟩ := bind_eq_ok_iff.1 hemit
        obtain ⟨body, hbody, _⟩ := bind_eq_ok_iff.1 hfile
        exact ⟨body, hbody⟩
  · rintro ⟨body, hbody⟩
    have hemit : OutputFormat.rust.emitter.emit (manifestOf request derived) = .ok
        (Source.File.render
          ⟨request.root, (manifestOf request derived).fingerprint, body⟩) := by
      show Source.render _ = _
      rw [Source.render, Source.lay, hbody]
      rfl
    rw [hemit]
    exact ⟨_, rfl⟩

theorem source_iff :
    (∃ out, run request S finite engine OutputFormat.rust.emitter = .ok out) ↔
      (∀ node ∈ graph.nodes, (Name.path? node.typeName).isSome) ∧
        ((sourcesOf request graph).map Name.snake).Nodup := by
  rw [h.exists_run_iff, Source.exists_layBody_iff h.plannable
    (fun _ hd => h.isIdentifier_capability hd) (fun _ hd => h.isIdentifier_identifier hd),
    h.derives.itemSources_eq h.nodes_ne_nil h.identifiers, nodup_map_itemName_iff]
  exact and_congr_left' (h.derives.forall_typeName_iff h.capabilities
    fun name => (Name.path? name).isSome)

end Prepared

end Prepared

/-- How a run ends that reached its rendering, in either form. -/
structure Emission (request : Request) (S : Provider)
    (finite : request.scope = .shared -> S.FinitelyReaches request.root) (engine : Engine)
    (graph : TypeGraph) : Prop where
  source : (∃ out, run request S finite engine OutputFormat.rust.emitter = .ok out) ↔
    (∀ node ∈ graph.nodes, (Name.path? node.typeName).isSome) ∧
      ((sourcesOf request graph).map Name.snake).Nodup
  notBroken : ∀ cause,
    run request S finite engine OutputFormat.rust.emitter ≠ .error (.emit (.broken cause))
  duplicateName : ∀ name first second,
    run request S finite engine OutputFormat.rust.emitter =
        .error (.emit (.duplicateName name first second)) ->
      first ≠ second ∧ first ∈ sourcesOf request graph ∧ second ∈ sourcesOf request graph ∧
        itemName request.scope first = name ∧ itemName request.scope second = name
  listing : ∃ out, run request S finite engine OutputFormat.json.emitter = .ok out

theorem Prepared.emission {request : Request} {S : Provider}
    {finite : request.scope = .shared -> S.FinitelyReaches request.root} {engine : Engine}
    {graph : TypeGraph} {derived : List DerivedDeclaration}
    (h : Prepared request S finite engine graph derived) :
    Emission request S finite engine graph := by
  refine ⟨h.source_iff, fun cause hrun => ?_, fun name first second hrun => ?_, ?_⟩
  · obtain ⟨_, heq, hrefused⟩ := h.refused_of_run hrun
    cases heq
    cases hrefused
  · obtain ⟨_, heq, hrefused⟩ := h.refused_of_run hrun
    cases heq
    cases hrefused with
    | duplicateName hfirst hsecond hother hname hsame =>
        rw [h.derives.itemSources_eq h.nodes_ne_nil h.identifiers] at hfirst hsecond
        exact ⟨hother, hfirst, hsecond, hname, hsame⟩
  · rw [h.outcome]
    exact ⟨_, rfl⟩

/-- For a request from a valid configuration, whatever goes before it, source text is refused for
types without paths and for items of one name, and for nothing else. -/
theorem emission_of_resolve {text : String} {config : Config}
    (htext : Config.ofText text = .ok config) {overrides : Overrides} {directory : String}
    {resolved : ResolvedConfig} (hresolve : config.resolve overrides directory = .ok resolved)
    {S : Provider}
    {finite : resolved.request.scope = .shared -> S.FinitelyReaches resolved.request.root}
    {engine : Engine} {graph : TypeGraph} (hgraph : graphFor resolved.request S finite = .ok graph)
    {declarations : List Declaration}
    (hplan : Declaration.plan graph resolved.request.capabilities resolved.request.scope =
      .ok declarations)
    {derived : List DerivedDeclaration} (hderive : deriveAll engine declarations = .ok derived) :
    Emission resolved.request S finite engine graph :=
  (prepared_of_deriveAll (Config.isIdentifier_of_mem_capabilities htext hresolve) hgraph hplan
    hderive).emission

/-- A configuration for two capabilities whose modules would have one name. -/
def clashingText : String :=
  "[generation]\nroot = \"Order\"\ncapabilities = [\"JsonCodec\", \"JSONCodec\"]\n" ++
    "[schema]\npaths = [\"types.json\"]\n"

def clashingConfig : Config :=
  { root := "Order"
    capabilities := ["JsonCodec", "JSONCodec"]
    scope := .shared
    importHints := []
    schemaPaths := ["types.json"]
    template := none
    outputPath := none
    format := .rust }

theorem ofText_clashing : Config.ofText clashingText = .ok clashingConfig := by
  decide +kernel

theorem emission_clashing :
    Config.ofText clashingText = .ok clashingConfig ∧
      ∃ graph, Emission clashingConfig.request TypeGraph.diamond.provider
          (fun _ => TypeGraph.diamond.finitelyReaches "Order")
          (Engine.ofTemplate Template.standard) graph ∧
        ¬ ((sourcesOf clashingConfig.request graph).map Name.snake).Nodup := by
  obtain ⟨declarations, hplan⟩ : ∃ declarations, Declaration.plan
      (TypeGraph.ofNames TypeGraph.diamond.provider ["Order", "Address", "Line"])
      clashingConfig.request.capabilities .shared = .ok declarations :=
    exists_of_isSome_toOption (by decide +kernel)
  obtain ⟨derived, hderive⟩ : ∃ derived,
      deriveAll (Engine.ofTemplate Template.standard) declarations = .ok derived := by
    obtain ⟨_, rfl, _⟩ := Declaration.plan_eq_ok hplan
    exact exists_of_isSome_toOption (by decide +kernel)
  have hresolve : clashingConfig.resolve Overrides.none "" = .ok _ := rfl
  exact ⟨ofText_clashing, _, emission_of_resolve ofText_clashing hresolve
    (TypeGraph.discover_eq_ofNames_diamond _) hplan hderive, by decide +kernel⟩

end Run

end InstanceForge

import InstanceForge.Proofs.Command.Channels
import InstanceForge.Proofs.Config.Validity
import InstanceForge.Proofs.Emit.Listing
import InstanceForge.Proofs.Run.Beside

/-!
# Nodes that both commands tell

A run that generates shared declarations goes through the graph of its root, and the other command
prints this graph. So where the first succeeds the second does, and their JSON texts tell the same
nodes: those of the declarations, each where it first occurs.
-/

namespace InstanceForge

/-! ## Reading texts -/

def Datum.member? (key : String) : Datum -> Option Datum
  | .table entries => Json.lookup? key entries
  | _ => none

def TypeNode.ofDatum? (d : Datum) : Option TypeNode := do
  let bindingName <- (d.member? "binding_name").bind Datum.toText?
  let typeName <- (d.member? "type_name").bind Datum.toText?
  pure ⟨bindingName, typeName⟩

def Graph.nodes? (text : String) : Option (List TypeNode) := do
  let nodes <- (<- Json.read text).member? "nodes"
  Decoder.listOf TypeNode.ofDatum? nodes

def Listing.typeNodes? (text : String) : Option (List TypeNode) := do
  let declarations <- (<- Json.read text).member? "declarations"
  Decoder.listOf (fun d => (d.member? "type_node").bind TypeNode.ofDatum?) declarations

theorem TypeNode.ofDatum?_toDatum (n : TypeNode) : ofDatum? n.toDatum = some n := by
  simp [ofDatum?, toDatum, Datum.member?, Datum.ofEntries, Json.lookup?, Datum.ofString,
    Datum.toText?]

theorem Decoder.listOf_map {α β : Type} {decode : Datum -> Option β} {encode : α -> Datum}
    {value : α -> β} (h : ∀ x, decode (encode x) = some (value x)) (items : List α) :
    listOf decode (.list (items.map encode)) = some (items.map value) := by
  rw [listOf]
  induction items with
  | nil => rfl
  | cons x rest ih => simp [h, ih]

theorem Graph.nodes?_render (g : TypeGraph) : nodes? (render .json g) = some g.nodes := by
  have hfaithful : Json.Faithful g.toDatum := by
    refine Json.faithful_ofEntries ?_
    simp only [List.mem_singleton, forall_eq]
    refine .list fun d hd => ?_
    obtain ⟨node, -, rfl⟩ := List.mem_map.1 hd
    exact node.faithful_toDatum
  have hmember : g.toDatum.member? "nodes" = some (.list (g.nodes.map TypeNode.toDatum)) := by
    simp [TypeGraph.toDatum, Datum.member?, Datum.ofEntries, Json.lookup?]
  rw [nodes?, render, Json.read_pretty hfaithful Json.blanks_lineFeed]
  simp [hmember, Decoder.listOf_map TypeNode.ofDatum?_toDatum]

theorem Listing.typeNodes?_render (m : Manifest) :
    typeNodes? (render m) =
      some (m.declarations.declarations.map fun d => d.declaration.node) := by
  have hmember : (toDatum m).member? "declarations" =
      some (.list (m.declarations.declarations.map DerivedDeclaration.toDatum)) := by
    simp [toDatum, Manifest.entries, DeclarationSet.entries, Datum.member?, Datum.ofEntries,
      Json.lookup?]
  have hnode : ∀ d : DerivedDeclaration,
      (d.toDatum.member? "type_node").bind TypeNode.ofDatum? = some d.declaration.node := by
    intro d
    have hobject : d.toDatum.member? "type_node" = some d.declaration.node.toDatum := by
      simp [DerivedDeclaration.toDatum, Declaration.entries, Datum.member?, Datum.ofEntries,
        Json.lookup?]
    rw [hobject, Option.bind_some, TypeNode.ofDatum?_toDatum]
  rw [typeNodes?, read_render]
  simp only [Option.bind_eq_bind, Option.bind_some, hmember]
  exact Decoder.listOf_map hnode m.declarations.declarations

/-! ## Nodes of a shared run -/

namespace Run

theorem map_fst_pairs (nodes : List TypeNode) (capabilities : List String) :
    (pairs nodes capabilities).map Prod.fst =
      nodes.flatMap fun node => List.replicate capabilities.length node := by
  simp [pairs, List.map_flatMap, Function.comp_def, List.map_const']

theorem eraseDups_map_fst_pairs {nodes : List TypeNode} {capabilities : List String}
    (hnodup : nodes.Nodup) (hcapabilities : capabilities ≠ []) :
    ((pairs nodes capabilities).map Prod.fst).eraseDups = nodes := by
  obtain ⟨first, others, rfl⟩ := List.exists_cons_of_ne_nil hcapabilities
  rw [map_fst_pairs]
  induction nodes with
  | nil => rfl
  | cons node rest ih =>
      rw [List.nodup_cons] at hnodup
      -- every further occurrence of the node is one of its own block
      have hrest : ((List.replicate others.length node ++
          rest.flatMap fun other => List.replicate (first :: others).length other).filter
            fun other => !other == node) =
          rest.flatMap fun other => List.replicate (first :: others).length other := by
        rw [List.filter_append, List.filter_replicate_of_neg (by simp), List.nil_append,
          List.filter_eq_self]
        intro other hother
        obtain ⟨origin, horigin, hmem⟩ := List.mem_flatMap.1 hother
        rw [(List.mem_replicate.1 hmem).2]
        have hne : origin ≠ node := fun heq => hnodup.1 (heq ▸ horigin)
        simpa using hne
      rw [List.flatMap_cons, List.length_cons, List.replicate_succ, List.cons_append,
        List.eraseDups_cons, ← List.length_cons, hrest, ih hnodup.2]

theorem Derives.map_node {engine : Engine} {request : Request} {graph : TypeGraph}
    {derived : List DerivedDeclaration} (h : Derives engine request graph derived) :
    (derived.map fun d => d.declaration.node) =
      (pairs graph.nodes request.capabilities).map Prod.fst := by
  have hnodes := congrArg (List.map Declaration.node) h.declarations
  simpa [Function.comp_def, Declaration.ofPair] using hnodes

end Run

/-! ## Both commands -/

/-- A text that a run leaves behind: at its output path, or else on the standard output. -/
def Leaves (outputPath : Option String) (r : Outcome × Workspace) (text : String) : Prop :=
  match outputPath with
  | some path => r.2.readText path = .ok text
  | none => r.1.stdout = text

namespace Generate

variable {w : Workspace} {g : Globals} {o : GenerateOptions} {overrides : Overrides}
  {resolved : ResolvedConfig} {output : RunOutput}

/-- A run that succeeds leaves what it renders, be it written now or found there by a check. -/
theorem exists_leaves_of_exit (hexit : (w.run g (.generate o)).1.exit = 0) :
    ∃ resolved output, Renders w g o.overrides resolved output ∧
      Leaves resolved.outputPath (w.run g (.generate o)) output.text := by
  have heffects := effects_run w g o
  cases hcheck : o.check with
  | true =>
      obtain ⟨resolved, output, path, h, hpath, hread⟩ := (exit_check_iff hcheck).1 hexit
      refine ⟨resolved, output, h, ?_⟩
      simpa only [Leaves, hpath, (heffects.check hcheck).1] using hread
  | false =>
      obtain ⟨resolved, output, h⟩ := heffects.success hexit
      refine ⟨resolved, output, h, ?_⟩
      cases hpath : resolved.outputPath with
      | none => exact (heffects.printed hexit hcheck resolved output h hpath).2
      | some path =>
          obtain ⟨written, place, h', hwrote, hplace⟩ :=
            wrote_of_exit hcheck h.resolves hpath hexit
          obtain ⟨-, rfl⟩ := h.unique h'
          exact Workspace.readText_eq_ok_iff.2 ⟨place, hplace, hwrote.text⟩

theorem Renders.exit_of_outputPath (h : Renders w g o.overrides resolved output)
    (hcheck : o.check = false) (hpath : resolved.outputPath = none) :
    (w.run g (.generate o)).1.exit = 0 := by
  rw [run_eq_carryOut]
  rcases plan_cases w g o with ⟨hnone, -⟩ | ⟨_, output', preface, h', hplan⟩
  · exact absurd ⟨resolved, output, h⟩ hnone
  · obtain ⟨rfl, -⟩ := h.unique h'
    rw [hplan, hcheck, if_neg Bool.false_ne_true, hpath]
    rfl

theorem Resolves.scope_eq (h : Resolves w g overrides resolved) {scope : Scope}
    (hscope : overrides.scope = some scope) : resolved.request.scope = scope := by
  obtain ⟨project, -, hresolve⟩ := h
  obtain ⟨-, rfl⟩ := Config.resolve_eq_ok_iff.1 hresolve
  simp [Config.request, Config.override, hscope]

theorem Resolves.format_eq (h : Resolves w g overrides resolved) {format : OutputFormat}
    (hformat : overrides.format = some format) : resolved.format = format := by
  obtain ⟨project, -, hresolve⟩ := h
  obtain ⟨-, rfl⟩ := Config.resolve_eq_ok_iff.1 hresolve
  simp [Config.override, hformat]

/-- What a shared run goes through is what the other command prints. -/
theorem Renders.run_graph (h : Renders w g overrides resolved output)
    (hscope : resolved.request.scope = .shared) {g' : Globals} {o' : GraphOptions}
    (hconfig : g'.config = g.config) (hroot : o'.root = overrides.root) :
    w.run g' (.graph o') =
      ({ exit := 0, stdout := Graph.render o'.format output.graph, stderr := "" }, w) := by
  obtain ⟨types, htypes, hrun⟩ := h.output
  obtain ⟨project, hproject, hresolve⟩ := h.resolves
  obtain ⟨derived, hfinished⟩ := Run.exists_finished_of_run hrun
  have hgraph := hfinished.graph
  rw [Run.graphFor_of_shared _ hscope] at hgraph
  obtain ⟨-, rfl⟩ := Config.resolve_eq_ok_iff.1 hresolve
  -- both commands ask for the same root among the types of the same files
  have hschema : w.types (project.config.schemaFiles project.directory) = .ok types := htypes
  have hdiscover : TypeGraph.discover types.provider (o'.root.getD project.config.root)
      (types.finitelyReaches _) = .ok output.graph := by
    simp only [hroot]
    exact hgraph
  have hplan : (Graph.plan g' o' : ReaderM Workspace Plan).run w =
      .report { exit := 0, stdout := Graph.render o'.format output.graph, stderr := "" } := by
    rw [Graph.run_plan, hconfig, hproject]
    simp only [hschema, Graph.outcome, hdiscover]
  show w.carryOut ((Graph.plan g' o' : ReaderM Workspace Plan).run w) = _
  rw [hplan]
  rfl

/-- The nodes of what a shared run renders as JSON. -/
theorem Renders.typeNodes? (h : Renders w g overrides resolved output)
    (hscope : resolved.request.scope = .shared) (hformat : resolved.format = .json) :
    ∃ declared, Listing.typeNodes? output.text = some declared ∧
      declared.eraseDups = output.graph.nodes := by
  obtain ⟨types, -, hrun⟩ := h.output
  obtain ⟨derived, hfinished⟩ := Run.exists_finished_of_run hrun
  have hgraph := hfinished.graph
  rw [Run.graphFor_of_shared _ hscope] at hgraph
  have htext : Listing.render output.manifest = output.text := by
    have hemit := hfinished.text
    rw [hformat] at hemit
    exact Except.ok.inj hemit
  refine ⟨derived.map fun d => d.declaration.node, ?_, ?_⟩
  · rw [← htext, Listing.typeNodes?_render, hfinished.manifest]
    rfl
  · rw [hfinished.derives.map_node, Run.eraseDups_map_fst_pairs
      (TypeGraph.nodup_typeName_of_discover hgraph).of_map hfinished.capabilities]

end Generate

namespace Workspace

/--
Where shared declarations are generated, the graph is printed: with the same configuration and the
same root, the other command succeeds on the files as they were before. If both write JSON, the
nodes that it lists are those of the declarations, each where it first occurs.
-/
theorem nodes_of_runAt (w : Workspace) {terminal terminal' : Bool} {args args' : List String}
    {g g' : Globals} {o : GenerateOptions} {o' : GraphOptions}
    (hgenerate : CommandLine.read terminal args = .ok ⟨g, .generate o⟩)
    (hgraph : CommandLine.read terminal' args' = .ok ⟨g', .graph o'⟩)
    (hconfig : g'.config = g.config) (hroot : o'.root = o.overrides.root)
    (hexit : (w.runAt terminal args).1.exit = 0) :
    ∃ resolved, Generate.Resolves w g o.overrides resolved ∧
      (∀ scope, o.overrides.scope = some scope -> resolved.request.scope = scope) ∧
      (∀ format, o.overrides.format = some format -> resolved.format = format) ∧
      (resolved.request.scope = .shared ->
        (w.runAt terminal' args').1.exit = 0 ∧
        (resolved.format = .json -> o'.format = .json ->
          ∃ text declared, Leaves resolved.outputPath (w.runAt terminal args) text ∧
            Listing.typeNodes? text = some declared ∧
            Graph.nodes? (w.runAt terminal' args').1.stdout = some declared.eraseDups)) := by
  have hrun : w.runAt terminal args = w.run g (.generate o) := runAt_of_read hgenerate w
  have hrun' : w.runAt terminal' args' = w.run g' (.graph o') := runAt_of_read hgraph w
  rw [hrun] at hexit ⊢
  obtain ⟨resolved, output, h, hleaves⟩ := Generate.exists_leaves_of_exit hexit
  refine ⟨resolved, h.resolves, fun _ => h.resolves.scope_eq, fun _ => h.resolves.format_eq,
    fun hscope => ?_⟩
  rw [hrun', h.run_graph hscope hconfig hroot]
  refine ⟨rfl, fun hformat hformat' => ?_⟩
  obtain ⟨declared, hdeclared, hnodes⟩ := h.typeNodes? hscope hformat
  refine ⟨output.text, declared, hleaves, hdeclared, ?_⟩
  rw [hformat', Graph.nodes?_render, hnodes]

/-- A project at the root, with the types of the diamond in one file each. -/
def diamondFiles : Workspace :=
  { tree :=
      ⟨[(["cachegen.toml"], .file (.text
          ("[generation]\nroot = \"Order\"\ncapabilities = [\"Encoder\", \"Decoder\"]\n" ++
            "mode = \"local\"\nimport_hints = [\"crate::models::*\"]\n" ++
            "[schema]\npaths = [\"orders.toml\", \"lines.toml\", \"addresses.toml\"]\n"))),
        (["orders.toml"], .file (.text
          ("[types.Order]\nfields = [\x7b name = \"billing\", type = \"Address\" \x7d, " ++
            "\x7b name = \"lines\", type = \"Map<String, Vec<Line>>\" \x7d]\n"))),
        (["lines.toml"], .file (.text
          "[types.Line]\nfields = [\x7b name = \"target\", type = \"Option<Address>\" \x7d]\n")),
        (["addresses.toml"], .file (.text "[types.Address]\n"))]⟩
    current := [] }

theorem exists_renders_diamondFiles : ∃ resolved output,
    Generate.Renders diamondFiles ⟨false, false, false, none⟩
      ⟨none, [], some .shared, some .json, none⟩ resolved output ∧
    resolved.outputPath = none := by
  have hresolve : ((diamondFiles.project none).toOption.bind fun project =>
      (project.config.resolve ⟨none, [], some .shared, some .json, none⟩
        project.directory).toOption) =
      some ⟨Run.sharedOrder, ["/orders.toml", "/lines.toml", "/addresses.toml"], none, none, .json,
        0⟩ := by decide +kernel
  have htypes : diamondFiles.types ["/orders.toml", "/lines.toml", "/addresses.toml"] =
      .ok TypeGraph.diamond := by decide +kernel
  obtain ⟨project, hproject, hresolved⟩ := Option.bind_eq_some_iff.1 hresolve
  rw [toOption_eq_some_iff] at hproject hresolved
  obtain ⟨output, hrun⟩ := Run.exists_run_sharedOrder
    fun _ => TypeGraph.diamond.finitelyReaches Run.sharedOrder.root
  exact ⟨_, output, ⟨⟨project, hproject, hresolved⟩, TypeGraph.diamond, htypes, hrun⟩, rfl⟩

theorem nodes_of_runAt_diamondFiles :
    (diamondFiles.runAt false ["generate", "-m", "shared", "-f", "json"]).1.exit = 0 ∧
    (diamondFiles.runAt false ["graph", "-f", "json"]).1.exit = 0 ∧
    ∃ outputPath text declared,
      Leaves outputPath (diamondFiles.runAt false ["generate", "-m", "shared", "-f", "json"])
        text ∧
      Listing.typeNodes? text = some declared ∧
      Graph.nodes? (diamondFiles.runAt false ["graph", "-f", "json"]).1.stdout =
        some declared.eraseDups := by
  have hread : CommandLine.read false ["generate", "-m", "shared", "-f", "json"] =
      .ok ⟨⟨false, false, false, none⟩,
        .generate ⟨⟨none, [], some .shared, some .json, none⟩, false⟩⟩ := by decide +kernel
  have hread' : CommandLine.read false ["graph", "-f", "json"] =
      .ok ⟨⟨false, false, false, none⟩, .graph ⟨none, .json⟩⟩ := by decide +kernel
  obtain ⟨resolved, output, h, hpath⟩ := exists_renders_diamondFiles
  have hexit :
      (diamondFiles.runAt false ["generate", "-m", "shared", "-f", "json"]).1.exit = 0 := by
    rw [runAt_of_read hread]
    exact h.exit_of_outputPath rfl hpath
  obtain ⟨resolved, -, hscope, hformat, hshared⟩ :=
    nodes_of_runAt diamondFiles hread hread' rfl rfl hexit
  obtain ⟨hexit', hnodes⟩ := hshared (hscope .shared rfl)
  exact ⟨hexit, hexit', resolved.outputPath, hnodes (hformat .json rfl) rfl⟩

end Workspace

end InstanceForge

import InstanceForge.Proofs.Emit.Stamp
import InstanceForge.Proofs.Run.Agreement
import InstanceForge.Proofs.Run.Failures

/-!
# Runs beside the root

A run beside the root declares for the root alone what the shared run declares for it first. What
the shared run got through, the run beside the root gets through too: the root is the first type
of the graph, and the identifiers of its declarations are among those that were distinct. It never
asks about any other name.
-/

namespace InstanceForge

/-- A request for the root alone, with its own import hints. -/
def Request.besideRoot (request : Request) (hints : List String) : Request :=
  { request with scope := .besideType, importHints := hints }

def DerivedDeclaration.withScope (d : DerivedDeclaration) (scope : Scope) : DerivedDeclaration :=
  { d with declaration := { d.declaration with scope := scope } }

def TypeGraph.alone (root : String) : TypeGraph :=
  { nodes := [TypeNode.ofType root], edges := [] }

namespace TypeGraph

variable {S S' : Provider} {root : String}

theorem single_of_isComposite (h : S.isComposite root = true) :
    single S root = .ok (alone root) := by
  simp only [single, rootError?_eq_none_iff.2 h, alone]

theorem single_congr (hcomposite : S.isComposite root = S'.isComposite root)
    (hresolves : S.resolves root = S'.resolves root) : single S root = single S' root := by
  simp only [single, rootError?, hcomposite, hresolves]

end TypeGraph

namespace Run

variable {request : Request} {S S' : Provider} {hints : List String}
  {finite : request.scope = .shared -> S.FinitelyReaches request.root} {engine : Engine}

def runBeside (request : Request) (hints : List String) (S : Provider) (engine : Engine)
    (emitter : Emitter) : Except RunError RunOutput :=
  run (request.besideRoot hints) S nofun engine emitter

theorem graphFor_besideRoot :
    graphFor (request.besideRoot hints) S nofun = TypeGraph.single S request.root := rfl

theorem isComposite_of_graphFor {graph : TypeGraph}
    (h : graphFor request S finite = .ok graph) : S.isComposite request.root = true := by
  rw [← TypeGraph.rootError?_eq_none_iff]
  cases hroot : TypeGraph.rootError? S request.root with
  | none => rfl
  | some e =>
      unfold graphFor at h
      split at h
      · simp only [TypeGraph.discover, hroot] at h
        cases h
      · simp only [TypeGraph.single, hroot] at h
        cases h

/-! ## The first declarations -/

section Front

variable {graph : TypeGraph} {derived : List DerivedDeclaration}

/-- The pairs of the root come first. -/
theorem pairs_of_root? {node : TypeNode} (h : graph.root? = some node)
    (capabilities : List String) :
    ∃ rest, pairs graph.nodes capabilities = pairs [node] capabilities ++ rest := by
  obtain ⟨more, hnodes⟩ := List.head?_eq_some_iff.1 h
  refine ⟨pairs more capabilities, ?_⟩
  rw [hnodes, pairs, pairs, pairs, List.flatMap_cons, List.flatMap_singleton]

theorem length_pairs_singleton (node : TypeNode) (capabilities : List String) :
    (pairs [node] capabilities).length = capabilities.length := by
  simp [pairs]

theorem nodup_identifiersOf_alone (hroot : graph.root? = some (TypeNode.ofType request.root))
    (h : (identifiersOf request graph).Nodup) :
    (identifiersOf (request.besideRoot hints) (TypeGraph.alone request.root)).Nodup := by
  obtain ⟨rest, hpairs⟩ := pairs_of_root? hroot request.capabilities
  rw [identifiersOf, hpairs, List.map_append] at h
  exact h.of_append_left

/-- The first declarations of a shared run, placed beside the root. -/
def front (request : Request) (derived : List DerivedDeclaration) : List DerivedDeclaration :=
  (derived.take request.capabilities.length).map (·.withScope .besideType)

/-- Only the scope of the first declarations is another. -/
theorem Derives.front (hroot : graph.root? = some (TypeNode.ofType request.root))
    (h : Derives engine request graph derived) :
    Derives engine (request.besideRoot hints) (TypeGraph.alone request.root)
      (front request derived) := by
  obtain ⟨rest, hpairs⟩ := pairs_of_root? hroot request.capabilities
  have hfirst : (derived.take request.capabilities.length).map DerivedDeclaration.declaration =
      (pairs [TypeNode.ofType request.root] request.capabilities).map fun p =>
        .ofPair request.scope p.1 p.2 := by
    rw [List.map_take, h.declarations, hpairs, List.map_append]
    exact List.take_left' (by rw [List.length_map, length_pairs_singleton])
  constructor
  · calc (Run.front request derived).map DerivedDeclaration.declaration
      _ = ((derived.take request.capabilities.length).map DerivedDeclaration.declaration).map
            (fun d => { d with scope := .besideType }) := by
          rw [Run.front, List.map_map, List.map_map]
          rfl
      _ = (pairs [TypeNode.ofType request.root] request.capabilities).map fun p =>
            .ofPair .besideType p.1 p.2 := by
          rw [hfirst, List.map_map]
          rfl
  · intro d hd
    obtain ⟨shared, hshared, rfl⟩ := List.mem_map.1 hd
    exact h.initializers shared (List.mem_of_mem_take hshared)

theorem Derives.length_front (hroot : graph.root? = some (TypeNode.ofType request.root))
    (h : Derives engine request graph derived) :
    (Run.front request derived).length = request.capabilities.length := by
  have hfront : Derives engine (request.besideRoot []) (TypeGraph.alone request.root)
      (Run.front request derived) := h.front hroot
  have hlength := congrArg List.length hfront.declarations
  rw [List.length_map, List.length_map] at hlength
  exact hlength.trans (length_pairs_singleton _ _)

end Front

/-! ## Whole runs -/

/-- What is left of a shared output beside the root. -/
structure FrontOf (request : Request) (shared alone : RunOutput) : Prop where
  graph : alone.graph = { nodes := [TypeNode.ofType request.root], edges := [] }
  root : alone.manifest.root = request.root
  importHints : alone.manifest.importHints = []
  scope : alone.manifest.declarations.scope = .besideType
  length : alone.manifest.declarations.declarations.length = request.capabilities.length
  declarations : alone.manifest.declarations.declarations =
    (shared.manifest.declarations.declarations.take request.capabilities.length).map
      (·.withScope .besideType)

theorem runBeside_of_finished {emitter : Emitter} {derived : List DerivedDeclaration}
    {out : RunOutput} (h : Finished request S finite engine emitter derived out) :
    runBeside request hints S engine Listing.emitter =
      .ok ⟨TypeGraph.alone request.root,
        manifestOf (request.besideRoot hints) (front request derived),
        Listing.render (manifestOf (request.besideRoot hints) (front request derived))⟩ := by
  have hroot := root?_of_graphFor h.graph
  have hcomposite := isComposite_of_graphFor h.graph
  have hgraph : graphFor (request.besideRoot hints) S nofun =
      .ok (TypeGraph.alone request.root) := TypeGraph.single_of_isComposite hcomposite
  have hderives : Derives engine (request.besideRoot hints) (TypeGraph.alone request.root)
      (front request derived) := h.derives.front hroot
  obtain ⟨found, _, hunique, _, houtput⟩ :=
    (ending_render (request.besideRoot hints) (TypeGraph.alone request.root) engine
      Listing.emitter).exists_derives h.capabilities
      (nodup_identifiersOf_alone hroot h.identifiers)
      fun p hp => hderives.exists_initializer hp
  rw [runBeside, run_of_graphFor_eq_ok hgraph, houtput _ rfl, hunique _ hderives]

/--
Where the shared run gives a listing, the run beside the root gives one of the root's declarations
alone: the first ones of the shared run, of which only the scope has changed, without imports. A
run beside the root ends alike for all providers that say the same of the root, whatever they say
of other names and of its fields, and in whatever form it renders.
-/
theorem runBeside_front (S : Provider) (request : Request) (hints : List String) :
    (∀ (finite : request.scope = .shared -> S.FinitelyReaches request.root) (engine : Engine)
        (out : RunOutput), request.scope = .shared ->
        run request S finite engine OutputFormat.json.emitter = .ok out ->
        ∃ alone, runBeside request hints S engine OutputFormat.json.emitter = .ok alone ∧
          FrontOf request out alone) ∧
      ∀ S' : Provider, S.isComposite request.root = S'.isComposite request.root ->
        S.resolves request.root = S'.resolves request.root ->
        ∀ (engine : Engine) (emitter : Emitter),
          runBeside request hints S engine emitter =
            runBeside request hints S' engine emitter := by
  constructor
  · intro finite engine out _ hrun
    obtain ⟨derived, hfinished⟩ := exists_finished_of_run hrun
    refine ⟨_, runBeside_of_finished hfinished, rfl, rfl, rfl, rfl, ?_, ?_⟩
    · exact hfinished.derives.length_front (root?_of_graphFor hfinished.graph)
    · rw [hfinished.manifest]
      rfl
  · intro S' hcomposite hresolves engine emitter
    rw [runBeside, runBeside, run, run, graphFor_besideRoot, graphFor_besideRoot,
      TypeGraph.single_congr hcomposite hresolves]

def sharedOrder : Request :=
  ⟨"Order", ["Encoder", "Decoder"], .shared, ["crate::models::*"]⟩

def brokenOrder : Registry :=
  ⟨[⟨"Order", .record, [⟨"lost", .named "Nowhere"⟩]⟩]⟩

theorem exists_run_sharedOrder (finite : sharedOrder.scope = .shared ->
    TypeGraph.diamond.provider.FinitelyReaches sharedOrder.root) :
    ∃ out, run sharedOrder TypeGraph.diamond.provider finite
      (Engine.ofTemplate Template.standard) OutputFormat.json.emitter = .ok out := by
  have hgraph : graphFor sharedOrder TypeGraph.diamond.provider finite =
      .ok (TypeGraph.ofNames TypeGraph.diamond.provider ["Order", "Address", "Line"]) :=
    TypeGraph.discover_eq_ofNames_diamond _
  refine exists_of_isSome_toOption ?_
  rw [run_of_graphFor_eq_ok hgraph]
  decide +kernel

/-- Beside the order stand its two declarations of six, be its fields those of the diamond or
one that leads nowhere. -/
theorem runBeside_front_sharedOrder :
    ∃ out alone, run sharedOrder TypeGraph.diamond.provider
        (fun _ => TypeGraph.diamond.finitelyReaches "Order")
        (Engine.ofTemplate Template.standard) OutputFormat.json.emitter = .ok out ∧
      FrontOf sharedOrder out alone ∧
      ∀ types ∈ [TypeGraph.diamond, brokenOrder],
        runBeside sharedOrder [] types.provider (Engine.ofTemplate Template.standard)
          OutputFormat.json.emitter = .ok alone := by
  obtain ⟨hfront, hagree⟩ := runBeside_front TypeGraph.diamond.provider sharedOrder []
  obtain ⟨out, hout⟩ := exists_run_sharedOrder fun _ => TypeGraph.diamond.finitelyReaches "Order"
  obtain ⟨alone, halone, hof⟩ := hfront _ _ out rfl hout
  have hbroken := hagree brokenOrder.provider (by decide) (by decide)
    (Engine.ofTemplate Template.standard) OutputFormat.json.emitter
  refine ⟨out, alone, hout, hof, ?_⟩
  simp only [List.forall_mem_cons, List.not_mem_nil, false_implies, implies_true, and_true]
  exact ⟨halone, hbroken ▸ halone⟩

end Run

end InstanceForge

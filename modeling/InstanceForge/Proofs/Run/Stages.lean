import InstanceForge.Proofs.Declaration.Plan
import InstanceForge.Run.Report

/-!
# Stages of a run

A run ends in the first stage that fails: the type graph, the capabilities, the identifiers, the
initializers, the rendering. The code of its diagnostic tells the stage.
-/

namespace InstanceForge

/-! ## Codes -/

@[simp] theorem GraphError.diagnostic_code (e : GraphError) :
    e.diagnostic.code = .unsupportedType := rfl

@[simp] theorem PlanError.diagnostic_code_emptyCapabilitySet :
    PlanError.emptyCapabilitySet.diagnostic.code = .noCapabilities := rfl

@[simp] theorem PlanError.diagnostic_code_duplicateIdentifier
    (identifier existingType existingCapability conflictingType conflictingCapability : String) :
    (PlanError.duplicateIdentifier identifier existingType existingCapability conflictingType
      conflictingCapability).diagnostic.code = .duplicateIdentifier := by
  by_cases h : existingType = conflictingType <;>
    simp [PlanError.diagnostic, Diagnostic.bare, h]

@[simp] theorem DerivationError.diagnostic_code (e : DerivationError)
    (typeName capability : String) :
    (e.diagnostic typeName capability).code = .failedDerivation := rfl

@[simp] theorem EmitError.diagnostic_code (e : EmitError) :
    e.diagnostic.code = .failedRendering := by
  cases e <;> rfl

theorem PlanError.diagnostic_severity (e : PlanError) : e.diagnostic.severity = .error := by
  cases e with
  | emptyCapabilitySet => rfl
  | duplicateIdentifier identifier existingType _ conflictingType _ =>
      by_cases h : existingType = conflictingType <;>
        simp [PlanError.diagnostic, Diagnostic.bare, h]

theorem EmitError.diagnostic_severity (e : EmitError) : e.diagnostic.severity = .error := by
  cases e <;> rfl

theorem RunError.diagnostic_severity (e : RunError) : e.diagnostic.severity = .error := by
  cases e with
  | graph cause => rfl
  | plan cause => exact cause.diagnostic_severity
  | derivation typeName capability cause => rfl
  | emit cause => exact cause.diagnostic_severity

namespace Run

/-! ## Derived declarations -/

/-- The engine gives every initializer, or fails for a first declaration. -/
theorem deriveAll_cases (engine : Engine) (ds : List Declaration) :
    (∃ derived, deriveAll engine ds = .ok derived ∧
      derived.map DerivedDeclaration.declaration = ds ∧
      ∀ d ∈ derived,
        engine.derive d.declaration.node d.declaration.capability = .ok d.initializer) ∨
      ∃ before d after cause, ds = before ++ d :: after ∧
        (∀ b ∈ before, ∃ i, engine.derive b.node b.capability = .ok i) ∧
        engine.derive d.node d.capability = .error cause ∧
        deriveAll engine ds = .error (.derivation d.node.typeName d.capability cause) := by
  induction ds with
  | nil => exact .inl ⟨[], rfl, rfl, by simp⟩
  | cons d rest ih =>
      cases hd : engine.derive d.node d.capability with
      | error cause => exact .inr ⟨[], d, rest, cause, rfl, by simp, hd, by simp [deriveAll, hd]⟩
      | ok initializer =>
          rcases ih with ⟨derived, hok, hmap, hall⟩ | ⟨before, c, after, cause, hrest, hbefore, hc,
            herror⟩
          · refine .inl ⟨⟨d, initializer⟩ :: derived, by simp [deriveAll, hd, hok], ?_, ?_⟩
            · rw [List.map_cons, hmap]
            · intro e he
              rcases List.mem_cons.1 he with rfl | he
              · exact hd
              · exact hall e he
          · refine .inr ⟨d :: before, c, after, cause, by rw [hrest]; rfl, ?_, hc, ?_⟩
            · intro b hb
              rcases List.mem_cons.1 hb with rfl | hb
              · exact ⟨initializer, hd⟩
              · exact hbefore b hb
            · simp [deriveAll, hd, herror]

/-- A derived declaration for each pair, with the initializer that the engine gives. -/
structure Derives (engine : Engine) (request : Request) (graph : TypeGraph)
    (derived : List DerivedDeclaration) : Prop where
  declarations : derived.map DerivedDeclaration.declaration =
    (pairs graph.nodes request.capabilities).map fun p => .ofPair request.scope p.1 p.2
  initializers : ∀ d ∈ derived,
    engine.derive d.declaration.node d.declaration.capability = .ok d.initializer

theorem eq_of_initializers {engine : Engine} {derived other : List DerivedDeclaration}
    (hsame : derived.map DerivedDeclaration.declaration =
      other.map DerivedDeclaration.declaration)
    (h : ∀ d ∈ derived,
      engine.derive d.declaration.node d.declaration.capability = .ok d.initializer)
    (h' : ∀ d ∈ other,
      engine.derive d.declaration.node d.declaration.capability = .ok d.initializer) :
    derived = other := by
  induction derived generalizing other with
  | nil => simpa using hsame
  | cons d rest ih =>
      cases other with
      | nil => simp at hsame
      | cons d' rest' =>
          rw [List.map_cons, List.map_cons, List.cons.injEq] at hsame
          have hd := h d List.mem_cons_self
          have hd' := h' d' List.mem_cons_self
          rw [hsame.1, hd', Except.ok.injEq] at hd
          have hrest := ih hsame.2 (fun e he => h e (List.mem_cons_of_mem _ he))
            (fun e he => h' e (List.mem_cons_of_mem _ he))
          cases d
          cases d'
          simp_all

theorem Derives.unique {engine : Engine} {request : Request} {graph : TypeGraph}
    {derived other : List DerivedDeclaration} (h : Derives engine request graph derived)
    (h' : Derives engine request graph other) : derived = other :=
  eq_of_initializers (h.declarations.trans h'.declarations.symm) h.initializers h'.initializers

/-- Every pair is declared. -/
theorem Derives.exists_declared {engine : Engine} {request : Request} {graph : TypeGraph}
    {derived : List DerivedDeclaration} (h : Derives engine request graph derived)
    {p : TypeNode × String} (hp : p ∈ pairs graph.nodes request.capabilities) :
    ∃ d ∈ derived, d.declaration = .ofPair request.scope p.1 p.2 := by
  have hmem : Declaration.ofPair request.scope p.1 p.2 ∈
      derived.map DerivedDeclaration.declaration := by
    rw [h.declarations]
    exact List.mem_map.2 ⟨p, hp, rfl⟩
  exact List.mem_map.1 hmem

theorem Derives.exists_initializer {engine : Engine} {request : Request} {graph : TypeGraph}
    {derived : List DerivedDeclaration} (h : Derives engine request graph derived)
    {p : TypeNode × String} (hp : p ∈ pairs graph.nodes request.capabilities) :
    ∃ i, engine.derive p.1 p.2 = .ok i := by
  obtain ⟨d, hd, hdeclaration⟩ := h.exists_declared hp
  have hderive := h.initializers d hd
  rw [hdeclaration] at hderive
  exact ⟨d.initializer, hderive⟩

/-! ## Endings -/

def manifestOf (request : Request) (derived : List DerivedDeclaration) : Manifest :=
  { root := request.root
    importHints := hintsFor request.scope request.importHints
    declarations := ⟨request.scope, derived⟩ }

def identifiersOf (request : Request) (graph : TypeGraph) : List String :=
  (pairs graph.nodes request.capabilities).map identifierOf

variable {request : Request} {engine : Engine} {emitter : Emitter}

/-- The stages after the type graph in their order, each with what is left when it fails. -/
inductive Ending (request : Request) (graph : TypeGraph) (engine : Engine) (emitter : Emitter) :
    Except RunError RunOutput -> Prop where
  | capabilities : request.capabilities = [] ->
      Ending request graph engine emitter (.error (.plan .emptyCapabilitySet))
  | identifiers {identifier a b c d : String} : request.capabilities ≠ [] ->
      ¬ (identifiersOf request graph).Nodup ->
      Ending request graph engine emitter (.error (.plan (.duplicateIdentifier identifier a b c d)))
  | derivation {before after : List (TypeNode × String)} {p : TypeNode × String}
      {cause : DerivationError} : request.capabilities ≠ [] ->
      (identifiersOf request graph).Nodup ->
      pairs graph.nodes request.capabilities = before ++ p :: after ->
      (∀ q ∈ before, ∃ i, engine.derive q.1 q.2 = .ok i) ->
      engine.derive p.1 p.2 = .error cause ->
      Ending request graph engine emitter (.error (.derivation p.1.typeName p.2 cause))
  | rendering {derived : List DerivedDeclaration} {cause : EmitError} :
      request.capabilities ≠ [] -> (identifiersOf request graph).Nodup ->
      Derives engine request graph derived ->
      emitter.emit (manifestOf request derived) = .error cause ->
      Ending request graph engine emitter (.error (.emit cause))
  | output {derived : List DerivedDeclaration} {text : String} :
      request.capabilities ≠ [] -> (identifiersOf request graph).Nodup ->
      Derives engine request graph derived ->
      emitter.emit (manifestOf request derived) = .ok text ->
      Ending request graph engine emitter (.ok ⟨graph, manifestOf request derived, text⟩)

theorem render_of_plan_eq_error {graph : TypeGraph} {cause : PlanError}
    (h : Declaration.plan graph request.capabilities request.scope = .error cause) :
    render request graph engine emitter = .error (.plan cause) := by
  simp only [render, h]

theorem render_of_deriveAll_eq_error {graph : TypeGraph} {ds : List Declaration} {e : RunError}
    (hplan : Declaration.plan graph request.capabilities request.scope = .ok ds)
    (h : deriveAll engine ds = .error e) : render request graph engine emitter = .error e := by
  simp only [render, hplan, h]

theorem render_of_emit_eq_error {graph : TypeGraph} {ds : List Declaration}
    {derived : List DerivedDeclaration} {cause : EmitError}
    (hplan : Declaration.plan graph request.capabilities request.scope = .ok ds)
    (hderive : deriveAll engine ds = .ok derived)
    (h : emitter.emit (manifestOf request derived) = .error cause) :
    render request graph engine emitter = .error (.emit cause) := by
  unfold manifestOf at h
  simp only [render, hplan, hderive, h]

theorem render_of_emit_eq_ok {graph : TypeGraph} {ds : List Declaration}
    {derived : List DerivedDeclaration} {text : String}
    (hplan : Declaration.plan graph request.capabilities request.scope = .ok ds)
    (hderive : deriveAll engine ds = .ok derived)
    (h : emitter.emit (manifestOf request derived) = .ok text) :
    render request graph engine emitter = .ok ⟨graph, manifestOf request derived, text⟩ := by
  unfold manifestOf at h ⊢
  simp only [render, hplan, hderive, h]

theorem ending_of_plan (graph : TypeGraph) (engine : Engine) (emitter : Emitter)
    (hcapabilities : request.capabilities ≠ [])
    (hnodup : (identifiersOf request graph).Nodup)
    (hplan : Declaration.plan graph request.capabilities request.scope =
      .ok (Declaration.candidates request.scope graph.nodes request.capabilities)) :
    Ending request graph engine emitter (render request graph engine emitter) := by
  rcases deriveAll_cases engine
      (Declaration.candidates request.scope graph.nodes request.capabilities) with
    ⟨derived, hok, hmap, hall⟩ | ⟨before, d, after, cause, hsplit, hbefore, hd, herror⟩
  · rw [candidates_eq_map_pairs] at hmap
    have hderives : Derives engine request graph derived := ⟨hmap, hall⟩
    cases hemit : emitter.emit (manifestOf request derived) with
    | error cause =>
        rw [render_of_emit_eq_error hplan hok hemit]
        exact .rendering hcapabilities hnodup hderives hemit
    | ok text =>
        rw [render_of_emit_eq_ok hplan hok hemit]
        exact .output hcapabilities hnodup hderives hemit
  · rw [render_of_deriveAll_eq_error hplan herror]
    rw [candidates_eq_map_pairs, List.map_eq_append_iff] at hsplit
    obtain ⟨first, last, hpairs, rfl, hlast⟩ := hsplit
    obtain ⟨p, more, rfl, rfl, rfl⟩ := List.map_eq_cons_iff.1 hlast
    refine .derivation hcapabilities hnodup hpairs ?_ hd
    intro q hq
    exact hbefore _ (List.mem_map.2 ⟨q, hq, rfl⟩)

/-- The stages after the type graph end a run in one of these ways. -/
theorem ending_render (request : Request) (graph : TypeGraph) (engine : Engine)
    (emitter : Emitter) :
    Ending request graph engine emitter (render request graph engine emitter) := by
  rcases Declaration.plan_cases graph request.capabilities request.scope with ⟨hnil, hplan⟩ |
    ⟨hne, ⟨hnodup, hplan⟩ | ⟨i, j, p, q, hclash, hplan⟩⟩
  · rw [render_of_plan_eq_error hplan]
    exact .capabilities hnil
  · exact ending_of_plan graph engine emitter hne hnodup hplan
  · rw [render_of_plan_eq_error hplan]
    exact .identifiers hne hclash.not_nodup

/-! ## Whole runs -/

variable {S : Provider} {finite : request.scope = .shared -> S.FinitelyReaches request.root}

theorem run_of_graphFor_eq_error {cause : GraphError}
    (h : graphFor request S finite = .error cause) :
    run request S finite engine emitter = .error (.graph cause) := by
  simp only [run, h]

theorem run_of_graphFor_eq_ok {graph : TypeGraph} (h : graphFor request S finite = .ok graph) :
    run request S finite engine emitter = render request graph engine emitter := by
  simp only [run, h]

/-- What a run that succeeds went through. -/
structure Finished (request : Request) (S : Provider)
    (finite : request.scope = .shared -> S.FinitelyReaches request.root) (engine : Engine)
    (emitter : Emitter) (derived : List DerivedDeclaration) (out : RunOutput) : Prop where
  graph : graphFor request S finite = .ok out.graph
  capabilities : request.capabilities ≠ []
  identifiers : (identifiersOf request out.graph).Nodup
  derives : Derives engine request out.graph derived
  manifest : out.manifest = manifestOf request derived
  text : emitter.emit out.manifest = .ok out.text

theorem exists_finished_of_run {out : RunOutput}
    (h : run request S finite engine emitter = .ok out) :
    ∃ derived, Finished request S finite engine emitter derived out := by
  cases hgraph : graphFor request S finite with
  | error cause =>
      rw [run_of_graphFor_eq_error hgraph] at h
      cases h
  | ok graph =>
      have hending := ending_render request graph engine emitter
      rw [← run_of_graphFor_eq_ok hgraph, h] at hending
      cases hending with
      | @output derived text hcapabilities hnodup hderives htext =>
          exact ⟨derived, hgraph, hcapabilities, hnodup, hderives, rfl, htext⟩

end Run

end InstanceForge

import InstanceForge.Proofs.Graph.FirstOccurrence
import InstanceForge.Proofs.Run.Stages

/-!
# Reported failures

A failed run has one error, and the code of its diagnostic tells the first stage that fails.
-/

namespace InstanceForge

namespace Run

def failureCode? : Except RunError RunOutput -> Option String
  | .ok _ => none
  | .error e => some e.diagnostic.code.text

@[simp] theorem text_unsupportedType : DiagnosticCode.unsupportedType.text = "E001" := by decide

@[simp] theorem text_noCapabilities : DiagnosticCode.noCapabilities.text = "E002" := by decide

@[simp] theorem text_duplicateIdentifier :
    DiagnosticCode.duplicateIdentifier.text = "E003" := by decide

@[simp] theorem text_failedDerivation : DiagnosticCode.failedDerivation.text = "E004" := by decide

@[simp] theorem text_failedRendering : DiagnosticCode.failedRendering.text = "E005" := by decide

/-! ## Codes of runs -/

variable {request : Request} {S : Provider}
  {finite : request.scope = .shared -> S.FinitelyReaches request.root} {engine : Engine}
  {emitter : Emitter} {graph : TypeGraph} {result : Except RunError RunOutput}

namespace Ending

theorem failureCode?_ne_graph (h : Ending request graph engine emitter result) :
    failureCode? result ≠ some "E001" := by
  cases h <;> simp [failureCode?, RunError.diagnostic]

theorem capabilities_iff (h : Ending request graph engine emitter result) :
    failureCode? result = some "E002" ↔ request.capabilities = [] := by
  cases h <;> simp_all [failureCode?, RunError.diagnostic]

theorem identifiers_iff (h : Ending request graph engine emitter result)
    (hcapabilities : request.capabilities ≠ []) :
    failureCode? result = some "E003" ↔ ¬ (identifiersOf request graph).Nodup := by
  cases h <;> simp_all [failureCode?, RunError.diagnostic]

theorem derivation_iff (h : Ending request graph engine emitter result)
    (hcapabilities : request.capabilities ≠ []) (hnodup : (identifiersOf request graph).Nodup) :
    failureCode? result = some "E004" ↔
      ∃ p ∈ pairs graph.nodes request.capabilities, ∃ cause,
        engine.derive p.1 p.2 = .error cause := by
  have hderived : ∀ {derived}, Derives engine request graph derived ->
      ¬ ∃ p ∈ pairs graph.nodes request.capabilities, ∃ cause,
        engine.derive p.1 p.2 = .error cause := by
    rintro derived hderives ⟨p, hp, cause, hcause⟩
    obtain ⟨i, hi⟩ := hderives.exists_initializer hp
    simp [hcause] at hi
  cases h with
  | capabilities hnil => exact absurd hnil hcapabilities
  | identifiers _ hrepeat => exact absurd hnodup hrepeat
  | derivation _ _ hsplit _ hfail =>
      have hp := hsplit ▸ List.mem_append_right _ List.mem_cons_self
      exact ⟨fun _ => ⟨_, hp, _, hfail⟩, fun _ => by simp [failureCode?, RunError.diagnostic]⟩
  | rendering _ _ hderives =>
      simp [failureCode?, RunError.diagnostic, hderived hderives]
  | output _ _ hderives =>
      simp [failureCode?, hderived hderives]

theorem first_derivation (h : Ending request graph engine emitter result)
    (hcapabilities : request.capabilities ≠ []) (hnodup : (identifiersOf request graph).Nodup)
    {before after : List (TypeNode × String)} {p : TypeNode × String} {cause : DerivationError}
    (hsplit : pairs graph.nodes request.capabilities = before ++ p :: after)
    (hbefore : ∀ q ∈ before, ∃ i, engine.derive q.1 q.2 = .ok i)
    (hfail : engine.derive p.1 p.2 = .error cause) :
    result = .error (.derivation p.1.typeName p.2 cause) := by
  have hnot : ∀ {front : List (TypeNode × String)},
      (∀ q ∈ front, ∃ i, engine.derive q.1 q.2 = .ok i) ->
        ∀ q ∈ front, ¬ ∃ c, engine.derive q.1 q.2 = .error c := by
    rintro front hfront q hq ⟨c, hc⟩
    obtain ⟨i, hi⟩ := hfront q hq
    simp [hc] at hi
  have hp : p ∈ pairs graph.nodes request.capabilities :=
    hsplit ▸ List.mem_append_right _ List.mem_cons_self
  cases h with
  | capabilities hnil => exact absurd hnil hcapabilities
  | identifiers _ hrepeat => exact absurd hnodup hrepeat
  | derivation _ _ hsplit' hbefore' hfail' =>
      have hsame := FirstOccurrence.first_unique hsplit ⟨cause, hfail⟩ (hnot hbefore) hsplit'
        ⟨_, hfail'⟩ (hnot hbefore')
      subst hsame
      rw [hfail, Except.error.injEq] at hfail'
      rw [hfail']
  | rendering _ _ hderives =>
      obtain ⟨i, hi⟩ := hderives.exists_initializer hp
      simp [hfail] at hi
  | output _ _ hderives =>
      obtain ⟨i, hi⟩ := hderives.exists_initializer hp
      simp [hfail] at hi

theorem exists_derives (h : Ending request graph engine emitter result)
    (hcapabilities : request.capabilities ≠ []) (hnodup : (identifiersOf request graph).Nodup)
    (hall : ∀ p ∈ pairs graph.nodes request.capabilities, ∃ i,
      engine.derive p.1 p.2 = .ok i) :
    ∃ derived, Derives engine request graph derived ∧
      (∀ other, Derives engine request graph other -> other = derived) ∧
      (failureCode? result = some "E005" ↔
        ∃ cause, emitter.emit (manifestOf request derived) = .error cause) ∧
      ∀ text, emitter.emit (manifestOf request derived) = .ok text ->
        result = .ok ⟨graph, manifestOf request derived, text⟩ := by
  cases h with
  | capabilities hnil => exact absurd hnil hcapabilities
  | identifiers _ hrepeat => exact absurd hnodup hrepeat
  | derivation _ _ hsplit _ hfail =>
      obtain ⟨i, hi⟩ := hall _ (hsplit ▸ List.mem_append_right _ List.mem_cons_self)
      simp [hfail] at hi
  | rendering _ _ hderives hfail =>
      refine ⟨_, hderives, fun _ hother => hother.unique hderives, ?_, ?_⟩
      · simp [failureCode?, RunError.diagnostic, hfail]
      · intro text htext
        simp [hfail] at htext
  | output _ _ hderives hok =>
      refine ⟨_, hderives, fun _ hother => hother.unique hderives, ?_, ?_⟩
      · simp [failureCode?, hok]
      · intro text htext
        rw [hok, Except.ok.injEq] at htext
        rw [htext]

end Ending

/-- The code of a run tells the first stage that fails; without a failure its output is
complete. -/
structure CodeTellsStage (request : Request) (S : Provider)
    (finite : request.scope = .shared -> S.FinitelyReaches request.root) (engine : Engine)
    (emitter : Emitter) (result : Except RunError RunOutput) : Prop where
  graph : failureCode? result = some "E001" ↔
    (∃ h : request.scope = .shared, ∃ cause,
      TypeGraph.discover S request.root (finite h) = .error cause) ∨
    request.scope = .besideType ∧ ∃ cause, TypeGraph.single S request.root = .error cause
  capabilities : ∀ g, graphFor request S finite = .ok g ->
    (failureCode? result = some "E002" ↔ request.capabilities = [])
  identifiers : ∀ g, graphFor request S finite = .ok g -> request.capabilities ≠ [] ->
    (failureCode? result = some "E003" ↔ ¬ (identifiersOf request g).Nodup)
  derivation : ∀ g, graphFor request S finite = .ok g -> request.capabilities ≠ [] ->
    (identifiersOf request g).Nodup ->
    (failureCode? result = some "E004" ↔ ∃ p ∈ pairs g.nodes request.capabilities,
      ∃ cause, engine.derive p.1 p.2 = .error cause)
  first_derivation : ∀ g, graphFor request S finite = .ok g -> request.capabilities ≠ [] ->
    (identifiersOf request g).Nodup -> ∀ before p after cause,
    pairs g.nodes request.capabilities = before ++ p :: after ->
    (∀ q ∈ before, ∃ i, engine.derive q.1 q.2 = .ok i) ->
    engine.derive p.1 p.2 = .error cause ->
    result = .error (.derivation p.1.typeName p.2 cause)
  rendering : ∀ g, graphFor request S finite = .ok g -> request.capabilities ≠ [] ->
    (identifiersOf request g).Nodup ->
    (∀ p ∈ pairs g.nodes request.capabilities, ∃ i, engine.derive p.1 p.2 = .ok i) ->
    ∃ derived, Derives engine request g derived ∧
      (∀ other, Derives engine request g other -> other = derived) ∧
      (failureCode? result = some "E005" ↔
        ∃ cause, emitter.emit (manifestOf request derived) = .error cause) ∧
      ∀ text, emitter.emit (manifestOf request derived) = .ok text ->
        result = .ok ⟨g, manifestOf request derived, text⟩

theorem graphFor_eq_error_iff {cause : GraphError} :
    graphFor request S finite = .error cause ↔
      (∃ h : request.scope = .shared,
        TypeGraph.discover S request.root (finite h) = .error cause) ∨
      request.scope = .besideType ∧ TypeGraph.single S request.root = .error cause := by
  unfold graphFor
  split
  · next h => simp [h]
  · next h => simp [h]

theorem codeTellsStage_run (request : Request) (S : Provider)
    (finite : request.scope = .shared -> S.FinitelyReaches request.root) (engine : Engine)
    (emitter : Emitter) :
    CodeTellsStage request S finite engine emitter (run request S finite engine emitter) := by
  have hending : ∀ {g}, graphFor request S finite = .ok g ->
      Ending request g engine emitter (run request S finite engine emitter) := by
    intro g hg
    rw [run_of_graphFor_eq_ok hg]
    exact ending_render request g engine emitter
  refine ⟨?_, fun g hg => (hending hg).capabilities_iff, fun g hg => (hending hg).identifiers_iff,
    fun g hg => (hending hg).derivation_iff, ?_, fun g hg => (hending hg).exists_derives⟩
  · have hcause : (∃ cause, graphFor request S finite = .error cause) ↔
        failureCode? (run request S finite engine emitter) = some "E001" := by
      cases hgraph : graphFor request S finite with
      | error cause =>
          simp [run_of_graphFor_eq_error hgraph, failureCode?, RunError.diagnostic]
      | ok g =>
          have hne := (hending hgraph).failureCode?_ne_graph
          simp [hne]
    rw [← hcause]
    simp only [graphFor_eq_error_iff, exists_or, exists_and_left]
    constructor
    · rintro (⟨cause, h, hfail⟩ | h)
      · exact .inl ⟨h, cause, hfail⟩
      · exact .inr h
    · rintro (⟨h, cause, hfail⟩ | h)
      · exact .inl ⟨cause, h, hfail⟩
      · exact .inr h
  · intro g hg hcapabilities hnodup before p after cause hsplit hbefore hfail
    exact (hending hg).first_derivation hcapabilities hnodup hsplit hbefore hfail

end Run

end InstanceForge

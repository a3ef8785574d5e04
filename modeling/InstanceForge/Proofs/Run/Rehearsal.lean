import InstanceForge.Proofs.Diagnostic.Sink
import InstanceForge.Proofs.Run.Failures
import InstanceForge.Run.Rehearsal

/-!
# Reported runs

A report has the output of its run or the one error of it, and before that at most one warning,
about import hints that a configuration gives in vain.
-/

namespace InstanceForge

namespace Run

/-! ## Reports -/

def diagnosticsOf : Except RunError RunOutput -> List Diagnostic
  | .ok _ => []
  | .error e => [e.diagnostic]

theorem countOf_diagnosticsOf (result : Except RunError RunOutput) :
    DiagnosticSink.countOf .error (diagnosticsOf result) =
      if result.toOption = none then 1 else 0 := by
  cases result with
  | ok output => simp [diagnosticsOf, DiagnosticSink.countOf, Except.toOption]
  | error e =>
      simp [diagnosticsOf, DiagnosticSink.countOf, Except.toOption, e.diagnostic_severity]

theorem report_eq (request : Request) (types : Registry) (engine : Engine) (emitter : Emitter)
    (sink : DiagnosticSink) :
    report request types engine emitter sink =
      let result := run request types.provider (fun _ => types.finitelyReaches request.root)
        engine emitter
      ⟨result.toOption, sink.emitAll (diagnosticsOf result)⟩ := by
  unfold report
  split
  · next h => rw [h]; rfl
  · next h => rw [h]; rfl

end Run

/-! ## Warnings of a configuration -/

theorem Run.ignoredHints_severity (count : Nat) :
    (Run.ignoredHints count).severity = .warning := rfl

theorem Run.ignoredHints_code (count : Nat) :
    (Run.ignoredHints count).code.text = "W001" := by
  show DiagnosticCode.ignoredImportHints.text = "W001"
  decide

theorem Config.exists_resolve_none (c : Config) (directory : String) :
    ∃ resolved, c.resolve .none directory = .ok resolved ∧ resolved.request = c.request ∧
      resolved.ignoredHints = c.importHints.length - c.request.importHints.length :=
  ⟨_, rfl, rfl, rfl⟩

theorem Config.ignoredHints_eq_zero_iff (c : Config) :
    c.importHints.length - c.request.importHints.length = 0 ↔
      ¬ (c.request.scope = .besideType ∧ c.importHints ≠ []) := by
  cases h : c.scope <;> simp [Config.request, Run.hintsFor, h]

theorem ResolvedConfig.diagnostics_warn (r : ResolvedConfig) :
    r.diagnostics.length <= 1 ∧
      ∀ d ∈ r.diagnostics, d.severity = .warning ∧ d.code.text = "W001" := by
  unfold diagnostics
  split
  · simp
  · simp [Run.ignoredHints_severity, Run.ignoredHints_code]

theorem ResolvedConfig.countOf_diagnostics (r : ResolvedConfig) :
    DiagnosticSink.countOf .error r.diagnostics = 0 := by
  rw [DiagnosticSink.countOf, List.countP_eq_zero]
  intro d hd
  simp [(r.diagnostics_warn.2 d hd).1]

namespace Rehearsal

/-- A report accounts for a run of a configuration with import hints: it has the output of the
run or else its one error, after at most one warning. -/
structure Accounts (hints : List String) (request : Request)
    (result : Except RunError RunOutput) (report : Run.Report) : Prop where
  output : report.output = result.toOption
  output_iff : report.output = none ↔ report.sink.hasErrors = true
  hasErrors_iff : report.sink.hasErrors = true ↔ report.sink.errors = 1
  errors_le : report.sink.errors <= 1
  counted : report.sink.Counted
  held : ∃ warnings, report.sink.held = warnings ++ Run.diagnosticsOf result ∧
    warnings.length <= 1 ∧ (∀ d ∈ warnings, d.severity = .warning ∧ d.code.text = "W001") ∧
    (warnings ≠ [] ↔ request.scope = .besideType ∧ hints ≠ [])
  identifiers : report.output = none -> report.identifiers = []
  text : report.output = none -> report.text = ""

theorem accounts_of_resolved {c : Config} {r : ResolvedConfig} (hrequest : r.request = c.request)
    (hhints : r.ignoredHints = c.importHints.length - c.request.importHints.length)
    (result : Except RunError RunOutput) :
    Accounts c.importHints r.request result ⟨result.toOption,
      (DiagnosticSink.empty.emitAll r.diagnostics).emitAll (Run.diagnosticsOf result)⟩ := by
  have hcounted := (DiagnosticSink.counted_empty.emitAll r.diagnostics).emitAll
    (Run.diagnosticsOf result)
  have hheld : ((DiagnosticSink.empty.emitAll r.diagnostics).emitAll
      (Run.diagnosticsOf result)).held = r.diagnostics ++ Run.diagnosticsOf result := by simp
  have herrors : ((DiagnosticSink.empty.emitAll r.diagnostics).emitAll
      (Run.diagnosticsOf result)).errors = if result.toOption = none then 1 else 0 := by
    rw [hcounted.errors, hheld, DiagnosticSink.countOf_append, r.countOf_diagnostics,
      Run.countOf_diagnosticsOf, Nat.zero_add]
  have hwarnings : r.diagnostics ≠ [] ↔ r.request.scope = .besideType ∧ c.importHints ≠ [] := by
    have hzero := c.ignoredHints_eq_zero_iff
    rw [← hhints, ← hrequest] at hzero
    by_cases h : r.ignoredHints = 0
    · simp [ResolvedConfig.diagnostics, h, hzero.1 h]
    · simpa [ResolvedConfig.diagnostics, h] using mt hzero.2 h
  refine ⟨rfl, ?_, ?_, ?_, hcounted, ⟨r.diagnostics, hheld, r.diagnostics_warn.1,
    r.diagnostics_warn.2, hwarnings⟩, ?_, ?_⟩
  · by_cases h : result.toOption = none <;> simp [DiagnosticSink.hasErrors, herrors, h]
  · by_cases h : result.toOption = none <;> simp [DiagnosticSink.hasErrors, herrors, h]
  · rw [herrors]
    split <;> omega
  · intro hnone
    dsimp only at hnone
    simp only [Run.Report.identifiers, hnone]
  · intro hnone
    dsimp only at hnone
    simp only [Run.Report.text, hnone]

theorem ofConfig_eq {config schema directory : String} {c : Config} {types : Registry}
    {r : ResolvedConfig} (hconfig : Config.ofText config = .ok c)
    (hresolve : c.resolve .none directory = .ok r)
    (hschema : Registry.ofDocument .toml schema = .ok types) :
    ofConfig config schema directory =
      .ok (Run.report r.request types r.engine r.format.emitter
        (DiagnosticSink.empty.emitAll r.diagnostics)) := by
  simp only [ofConfig, hconfig, Except.bind, hresolve, hschema]

/-- Every run ends in its first stage that fails, with the code of that stage, or else with a
complete output; a rehearsal of a configuration and a schema that load accounts for its run. -/
theorem codeTellsStage_and_accounts :
    (∀ (request : Request) (S : Provider)
      (finite : request.scope = .shared -> S.FinitelyReaches request.root) (engine : Engine)
      (emitter : Emitter), Run.CodeTellsStage request S finite engine emitter
        (run request S finite engine emitter)) ∧
    ∀ (config schema directory : String) (c : Config) (types : Registry),
      Config.ofText config = .ok c -> Registry.ofDocument .toml schema = .ok types ->
      ∃ r report, c.resolve .none directory = .ok r ∧
        ofConfig config schema directory = .ok report ∧
        Accounts c.importHints r.request
          (run r.request types.provider (fun _ => types.finitelyReaches r.request.root) r.engine
            r.format.emitter) report := by
  refine ⟨Run.codeTellsStage_run, ?_⟩
  intro config schema directory c types hconfig hschema
  obtain ⟨r, hresolve, hrequest, hhints⟩ := c.exists_resolve_none directory
  refine ⟨r, _, hresolve, ofConfig_eq hconfig hresolve hschema, ?_⟩
  rw [Run.report_eq]
  exact accounts_of_resolved hrequest hhints _

def hintedConfig : String :=
  "[generation]\nroot = \"A\"\nmode = \"local\"\nimport_hints = \"x::Y\"\n" ++
    "[schema]\npaths = \"models.toml\"\n"

theorem codeTellsStage_and_accounts_hinted :
    let hinted : Config :=
      { root := "A", capabilities := [], scope := .besideType, importHints := ["x::Y"],
        schemaPaths := ["models.toml"], template := none, outputPath := none, format := .rust }
    let types : Registry := ⟨[⟨"A", .record, []⟩]⟩
    Config.ofText hintedConfig = .ok hinted ∧
      Registry.ofDocument .toml "[types.A]\nfields = []\n" = .ok types ∧
      Run.CodeTellsStage hinted.request types.provider
        (fun _ => types.finitelyReaches hinted.request.root) (Engine.ofTemplate Template.standard)
        OutputFormat.rust.emitter
        (run hinted.request types.provider (fun _ => types.finitelyReaches hinted.request.root)
          (Engine.ofTemplate Template.standard) OutputFormat.rust.emitter) ∧
      ∃ r report, hinted.resolve .none "" = .ok r ∧
        ofConfig hintedConfig "[types.A]\nfields = []\n" "" = .ok report ∧
        Accounts hinted.importHints r.request
          (run r.request types.provider (fun _ => types.finitelyReaches r.request.root) r.engine
            r.format.emitter) report := by
  intro hinted types
  have hconfig : Config.ofText hintedConfig = .ok hinted := by decide +kernel
  have hschema : Registry.ofDocument .toml "[types.A]\nfields = []\n" = .ok types := by
    decide +kernel
  exact ⟨hconfig, hschema, codeTellsStage_and_accounts.1 _ _ _ _ _,
    codeTellsStage_and_accounts.2 _ _ _ _ _ hconfig hschema⟩

end Rehearsal

end InstanceForge

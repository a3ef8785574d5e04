import InstanceForge.Proofs.Command.Channels

/-!
# Warnings of the command that generates

Import hints that a run beside a type leaves out are warned about. The warning is held until the
schema files are read. If they are, it is written once, after the announcement and before the one
message that tells how the command ends. If they are not, it is never written.
-/

namespace InstanceForge

/-- A message to the standard error: about progress, about a run, or about why a command fails. -/
inductive Message where
  | aside (text : String)
  | report (diagnostic : Diagnostic)
  | failure (text : String)
  deriving DecidableEq

namespace Message

def render (coloured : Bool) : Message -> String
  | aside text => text
  | report d => d.render coloured
  | failure text => "error: " ++ text ++ "\n"

def transcript (coloured : Bool) (messages : List Message) : String :=
  String.join (messages.map (render coloured))

theorem transcript_concat (coloured : Bool) (messages : List Message) (last : Message) :
    transcript coloured (messages ++ [last]) =
      transcript coloured messages ++ last.render coloured := by
  simp [transcript]

end Message

/-- The warning of settings that leave import hints out. -/
theorem Config.diagnostics_of_resolve {c : Config} {overrides : Overrides} {directory : String}
    {resolved : ResolvedConfig} (h : c.resolve overrides directory = .ok resolved)
    (hscope : resolved.request.scope = .besideType) (hhints : c.importHints ≠ []) :
    resolved.diagnostics = [Run.ignoredHints c.importHints.length] := by
  unfold resolve at h
  split at h
  · cases h
  · cases h
    have hchosen : (c.override overrides).scope = .besideType := hscope
    have hleft : (c.override overrides).request.importHints = [] := by
      rw [request, hchosen]
      rfl
    have hcount : (c.override overrides).importHints.length -
        (c.override overrides).request.importHints.length = c.importHints.length := by
      rw [hleft]
      rfl
    simp [ResolvedConfig.diagnostics, hcount, hhints]

namespace Generate

variable {w : Workspace} {g : Globals} {o : GenerateOptions} {resolved : ResolvedConfig}
  {result : Except RunError RunOutput} {exit : Nat} {last : Message}

/-- The ends of a command whose schema files are read, each with its exit code and the message
that tells it. -/
inductive Closing (w : Workspace) (o : GenerateOptions) (outputPath : Option String) :
    Except RunError RunOutput -> Nat -> Message -> Prop where
  | refused (e : RunError) : Closing w o outputPath (.error e) 1 (.report e.diagnostic)
  | pathless (output : RunOutput) : o.check = true -> outputPath = none ->
      Closing w o outputPath (.ok output) 1
        (.failure "--check needs an output path (`output.path` or `--output`)")
  | current {output : RunOutput} {path : String} : o.check = true -> outputPath = some path ->
      w.readText path = .ok output.text ->
      Closing w o outputPath (.ok output) 0 (.aside ("     " ++ path ++ " is up to date\n"))
  | stale {output : RunOutput} {path : String} : o.check = true -> outputPath = some path ->
      w.readText path ≠ .ok output.text ->
      Closing w o outputPath (.ok output) 1 (.failure (path ++ " is stale (fingerprint " ++
        ((w.readText path).toOption.map shownStamp).getD "none" ++ ", expected " ++
        shownStamp output.text ++ "); rerun `cachegen generate`"))
  | printed (output : RunOutput) : o.check = false -> outputPath = none ->
      Closing w o outputPath (.ok output) 0 (.aside ("     Generated " ++ summary output ++ "\n"))
  | written {output : RunOutput} {path : String} : o.check = false -> outputPath = some path ->
      (w.changeAll (writing path output.text)).2 = none ->
      Closing w o outputPath (.ok output) 0
        (.aside ("     Wrote " ++ summary output ++ " to " ++ path ++ "\n"))
  | unwritten {output : RunOutput} {path : String} {fault : FileFault} : o.check = false ->
      outputPath = some path -> (w.changeAll (writing path output.text)).2 = some fault ->
      Closing w o outputPath (.ok output) 1 (.failure fault.message)

/-- The last message is never a warning. -/
theorem Closing.ne_warning (h : Closing w o resolved.outputPath result exit last)
    {d : Diagnostic} (hd : d.severity = .warning) : last ≠ .report d := by
  cases h with
  | refused e =>
      intro hsame
      have hseverity := e.diagnostic_severity
      rw [Message.report.inj hsame, hd] at hseverity
      cases hseverity
  | _ => exact Message.noConfusion

/-! ## Transcripts -/

/-- What is written before a command goes on to its end. -/
def opening (resolved : ResolvedConfig) : List Message :=
  .aside (announcement resolved.request) :: resolved.diagnostics.map .report

theorem transcript_opening (hloud : g.quiet = false) (resolved : ResolvedConfig)
    (ds : List Diagnostic) :
    g.aside (announcement resolved.request) ++ g.textReport (resolved.diagnostics ++ ds) =
      Message.transcript g.coloured (opening resolved ++ ds.map .report) := by
  have hshown : g.shown (resolved.diagnostics ++ ds) = resolved.diagnostics ++ ds := by
    simp [Globals.shown, hloud]
  rw [Globals.textReport, hshown, Globals.aside, hloud]
  simp [Message.transcript, opening, Message.render, Function.comp_def]

structure Tells (g : Globals) (outcome : Outcome) (exit : Nat) (messages : List Message) : Prop where
  exit : outcome.exit = exit
  stderr : outcome.stderr = Message.transcript g.coloured messages

theorem tells_failure {preface message : String} {messages : List Message}
    (h : preface = Message.transcript g.coloured messages) :
    Tells g (.failure preface message) 1 (messages ++ [.failure message]) := by
  refine ⟨rfl, ?_⟩
  rw [Message.transcript_concat, ← h]
  simp [Outcome.failure, Message.render, String.append_assoc]

theorem tells_aside (hloud : g.quiet = false) {preface text stdout : String}
    {messages : List Message} (h : preface = Message.transcript g.coloured messages) :
    Tells g ⟨0, stdout, preface ++ g.aside text⟩ 0 (messages ++ [.aside text]) := by
  refine ⟨rfl, ?_⟩
  rw [Message.transcript_concat, ← h, Globals.aside, hloud]
  rfl

variable {preface : String} {messages : List Message}

theorem exists_closing_inspect (hloud : g.quiet = false) (w : Workspace) (output : RunOutput)
    (hcheck : o.check = true) (outputPath : Option String)
    (h : preface = Message.transcript g.coloured messages) :
    ∃ exit last, Closing w o outputPath (.ok output) exit last ∧
      Tells g (w.carryOut ((inspect g preface output outputPath : ReaderM Workspace Plan).run w)).1
        exit (messages ++ [last]) := by
  cases outputPath with
  | none => exact ⟨1, _, .pathless output hcheck rfl, tells_failure h⟩
  | some path =>
      have hrun : (w.carryOut ((inspect g preface output (some path) :
          ReaderM Workspace Plan).run w)).1 =
          compare g preface path output.text (w.readText path).toOption := rfl
      rw [hrun, compare]
      by_cases hread : w.readText path = .ok output.text
      · rw [if_pos (toOption_eq_some_iff.2 hread)]
        exact ⟨0, _, .current hcheck rfl hread, tells_aside hloud h⟩
      · rw [if_neg fun hsome => hread (toOption_eq_some_iff.1 hsome)]
        exact ⟨1, _, .stale hcheck rfl hread, tells_failure h⟩

theorem exists_closing_deliver (hloud : g.quiet = false) (w : Workspace) (output : RunOutput)
    (hcheck : o.check = false) (outputPath : Option String)
    (h : preface = Message.transcript g.coloured messages) :
    ∃ exit last, Closing w o outputPath (.ok output) exit last ∧
      Tells g (w.carryOut (deliver g preface output outputPath)).1 exit (messages ++ [last]) := by
  cases outputPath with
  | none => exact ⟨0, _, .printed output hcheck rfl, tells_aside hloud h⟩
  | some path =>
      have hrun : (w.carryOut (deliver g preface output (some path))).1 =
          (deliver g preface output (some path)).outcome
            (w.changeAll (writing path output.text)).2 := rfl
      rw [hrun]
      cases hfault : (w.changeAll (writing path output.text)).2 with
      | none => exact ⟨0, _, .written hcheck rfl hfault, tells_aside hloud h⟩
      | some fault => exact ⟨1, _, .unwritten hcheck rfl hfault, tells_failure h⟩

/-- A command whose schema files are read writes its opening and then one message. -/
theorem exists_closing_planRun (hloud : g.quiet = false) (w : Workspace) (o : GenerateOptions)
    (resolved : ResolvedConfig) (types : Registry) :
    ∃ exit last, Closing w o resolved.outputPath
        (run resolved.request types.provider (fun _ => types.finitelyReaches resolved.request.root)
          resolved.engine resolved.format.emitter) exit last ∧
      Tells g (w.carryOut ((planRun g o.check resolved types : ReaderM Workspace Plan).run w)).1
        exit (opening resolved ++ [last]) := by
  simp only [planRun, Run.report_eq, DiagnosticSink.held_emitAll, DiagnosticSink.held_empty,
    List.nil_append]
  have hpreface := transcript_opening hloud resolved
  cases run resolved.request types.provider
      (fun _ => types.finitelyReaches resolved.request.root) resolved.engine
      resolved.format.emitter with
  | error e => exact ⟨1, _, .refused e, rfl, hpreface _⟩
  | ok output =>
      have hopening : g.aside (announcement resolved.request) ++
          g.textReport (resolved.diagnostics ++ Run.diagnosticsOf (.ok output)) =
            Message.transcript g.coloured (opening resolved) := by
        rw [hpreface, Run.diagnosticsOf, List.map_nil, List.append_nil]
      cases hcheck : o.check with
      | true => exact exists_closing_inspect hloud w output hcheck resolved.outputPath hopening
      | false => exact exists_closing_deliver hloud w output hcheck resolved.outputPath hopening

/-- A command whose schema files cannot be read says nothing else. -/
theorem tells_unread {project : Project} (hproject : w.project g.config = .ok project)
    (hresolve : project.config.resolve o.overrides project.directory = .ok resolved)
    {e : SchemaFileError} (htypes : w.types resolved.schemaPaths = .error e) :
    Tells g (w.carryOut ((plan g o : ReaderM Workspace Plan).run w)).1 1 [.failure e.message] := by
  rw [run_plan, hproject]
  dsimp only
  rw [hresolve]
  dsimp only
  rw [htypes]
  exact @tells_failure g "" e.message [] rfl

/-! ## Warnings -/

/--
The warning about import hints that are left out, on the standard error of a command that is not
quiet. If the schema files are read it is written exactly once, whatever follows: after the
announcement, and before the message that tells the end. If they are not, the only message is
about them, and there is no warning.
-/
theorem warning_of_runAt {terminal : Bool} {args : List String}
    (hargs : CommandLine.read terminal args = .ok ⟨g, .generate o⟩) (hloud : g.quiet = false)
    {project : Project} (hproject : w.project g.config = .ok project)
    (hresolve : project.config.resolve o.overrides project.directory = .ok resolved)
    (hscope : resolved.request.scope = .besideType) (hhints : project.config.importHints ≠ []) :
    let warning := Message.report (Run.ignoredHints project.config.importHints.length)
    (∀ types, w.types resolved.schemaPaths = .ok types ->
      ∃ exit last, Closing w o resolved.outputPath
          (run resolved.request types.provider
            (fun _ => types.finitelyReaches resolved.request.root) resolved.engine
            resolved.format.emitter) exit last ∧
        Tells g (w.runAt terminal args).1 exit
          [.aside (announcement resolved.request), warning, last] ∧
        [.aside (announcement resolved.request), warning, last].count warning = 1) ∧
    ∀ e, w.types resolved.schemaPaths = .error e ->
      Tells g (w.runAt terminal args).1 1 [.failure e.message] := by
  have hrun : w.runAt terminal args =
      w.carryOut ((plan g o : ReaderM Workspace Plan).run w) := Workspace.runAt_of_read hargs w
  rw [hrun]
  refine ⟨fun types htypes => ?_, fun e => tells_unread hproject hresolve⟩
  obtain ⟨exit, last, hclosing, htells⟩ := exists_closing_planRun hloud w o resolved types
  have hopening : opening resolved = [.aside (announcement resolved.request),
      .report (Run.ignoredHints project.config.importHints.length)] := by
    rw [opening, Config.diagnostics_of_resolve hresolve hscope hhints]
    rfl
  have hlast := hclosing.ne_warning (Run.ignoredHints_severity project.config.importHints.length)
  rw [(plan_of_resolves ⟨project, hproject, hresolve⟩).2 types htypes]
  refine ⟨exit, last, hclosing, ?_, ?_⟩
  · rw [hopening] at htells
    exact htells
  · simp [hlast]

def hinted (entries : List (Location × FileEntry)) : Workspace :=
  { tree :=
      ⟨[(["shop"], .directory),
        (["shop", "cachegen.toml"], .file (.text
          ("[generation]\nroot = \"Order\"\ncapabilities = [\"Encoder\"]\nmode = \"local\"\n" ++
            "import_hints = [\"crate::models::*\"]\n[schema]\npaths = \"types.toml\"\n")))] ++
        entries⟩
    current := ["shop"] }

def hintedOrder : Workspace :=
  hinted [(["shop", "types.toml"], .file (.text "[types.Order]\nfields = []\n"))]

theorem read_generate : CommandLine.read false ["generate"] =
    .ok ⟨⟨false, false, false, none⟩, .generate ⟨Overrides.none, false⟩⟩ := by decide +kernel

/-- What a project resolves to without overrides: its scope, hints and schema files. -/
def settings? (w : Workspace) : Option (Scope × List String × List String) := do
  let project <- (w.project none).toOption
  let resolved <- (project.config.resolve Overrides.none project.directory).toOption
  pure (resolved.request.scope, project.config.importHints, resolved.schemaPaths)

theorem exists_settings {w : Workspace} {scope : Scope} {hints paths : List String}
    (h : settings? w = some (scope, hints, paths)) :
    ∃ project resolved, w.project none = .ok project ∧
      project.config.resolve Overrides.none project.directory = .ok resolved ∧
      resolved.request.scope = scope ∧ project.config.importHints = hints ∧
      resolved.schemaPaths = paths := by
  obtain ⟨project, hproject, h⟩ := Option.bind_eq_some_iff.1 h
  obtain ⟨resolved, hresolve, h⟩ := Option.bind_eq_some_iff.1 h
  rw [toOption_eq_some_iff] at hproject hresolve
  cases h
  exact ⟨project, resolved, hproject, hresolve, rfl, rfl, rfl⟩

theorem warning_hintedOrder :
    ∃ (resolved : ResolvedConfig) (exit : Nat) (last : Message),
      Tells ⟨false, false, false, none⟩ (hintedOrder.runAt false ["generate"]).1 exit
        [.aside (announcement resolved.request), .report (Run.ignoredHints 1), last] ∧
      [.aside (announcement resolved.request), .report (Run.ignoredHints 1), last].count
        (.report (Run.ignoredHints 1)) = 1 := by
  obtain ⟨project, resolved, hproject, hresolve, hscope, hhints, hpaths⟩ :=
    exists_settings (by decide +kernel : settings? hintedOrder =
      some (.besideType, ["crate::models::*"], ["/shop/types.toml"]))
  obtain ⟨types, htypes⟩ : ∃ types, hintedOrder.types ["/shop/types.toml"] = .ok types :=
    exists_of_isSome_toOption (by decide +kernel)
  have hwarning :=
    warning_of_runAt read_generate rfl hproject hresolve hscope (by simp [hhints])
  rw [hhints] at hwarning
  obtain ⟨exit, last, -, htells, hcount⟩ := hwarning.1 types (hpaths ▸ htypes)
  exact ⟨resolved, exit, last, htells, hcount⟩

/-- The warning is lost if the schema file is missing. -/
theorem unwarned_hinted :
    CommandLine.read false ["generate"] =
        .ok ⟨⟨false, false, false, none⟩, .generate ⟨Overrides.none, false⟩⟩ ∧
      (∃ project resolved, (hinted []).project none = .ok project ∧
        project.config.resolve Overrides.none project.directory = .ok resolved ∧
        resolved.diagnostics = [Run.ignoredHints 1]) ∧
      ((hinted []).runAt false ["generate"]).1.stderr =
        "error: failed to read schema file /shop/types.toml: " ++
          "No such file or directory (os error 2)\n" ∧
      ¬ ((Run.ignoredHints 1).render false).toList <:+:
        ((hinted []).runAt false ["generate"]).1.stderr.toList := by
  have hstderr : ((hinted []).runAt false ["generate"]).1.stderr =
      "error: failed to read schema file /shop/types.toml: " ++
        "No such file or directory (os error 2)\n" := by decide +kernel
  obtain ⟨project, resolved, hproject, hresolve, hscope, hhints, -⟩ :=
    exists_settings (by decide +kernel : settings? (hinted []) =
      some (.besideType, ["crate::models::*"], ["/shop/types.toml"]))
  have hwarned := Config.diagnostics_of_resolve hresolve hscope (by simp [hhints])
  rw [hhints] at hwarned
  refine ⟨read_generate, ⟨project, resolved, hproject, hresolve, hwarned⟩, hstderr, ?_⟩
  rw [hstderr]
  decide +kernel

end Generate

end InstanceForge

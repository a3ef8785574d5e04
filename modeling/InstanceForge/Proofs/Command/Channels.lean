import InstanceForge.Proofs.Command.Check
import InstanceForge.Proofs.Command.Starter

/-!
# Channels of commands

How much a command shows is a matter of its settings. What it does is not: the files, the exit
code and the standard output are the same under all of them. A failure is always told on the
standard error, and a quiet command that succeeds writes nothing there.
-/

namespace InstanceForge

/-! ## What is shown -/

theorem Diagnostic.render_ne_empty (coloured : Bool) (d : Diagnostic) :
    d.render coloured ≠ "" := by
  have hheading : (if coloured then d.colouredHeading else d.plainHeading) ≠ "" := by
    cases coloured <;> simp [colouredHeading, plainHeading]
  simp [render, hheading]

namespace Globals

/-- The same settings about what is shown, for another configuration. -/
def on (g : Globals) (config : Option String) : Globals :=
  { g with config := config }

@[simp] theorem config_on (g : Globals) (config : Option String) : (g.on config).config = config :=
  rfl

variable (g : Globals) {ds : List Diagnostic}

theorem aside_of_quiet {g : Globals} (hquiet : g.quiet = true) (text : String) :
    g.aside text = "" := by
  rw [aside, if_pos hquiet]

/-- Errors are shown under all settings. -/
theorem shown_ne_nil {d : Diagnostic} (hmem : d ∈ ds) (herror : d.severity = .error) :
    g.shown ds ≠ [] := by
  refine List.ne_nil_of_mem (a := d) (List.mem_filter.2 ⟨hmem, ?_⟩)
  rw [herror]
  rfl

/-- Nothing but errors is shown by a quiet command. -/
theorem shown_eq_nil {g : Globals} (hquiet : g.quiet = true)
    (hwarn : ∀ d ∈ ds, d.severity = .warning) : g.shown ds = [] := by
  refine List.filter_eq_nil_iff.2 fun d hd => ?_
  rw [hwarn d hd, hquiet]
  decide

theorem textReport_ne_empty (h : g.shown ds ≠ []) : g.textReport ds ≠ "" := by
  obtain ⟨d, rest, hshown⟩ := List.exists_cons_of_ne_nil h
  rw [textReport, hshown, List.map_cons, String.join_cons]
  simp [Diagnostic.render_ne_empty]

theorem jsonReport_ne_empty (h : g.shown ds ≠ []) : g.jsonReport ds ≠ "" := by
  obtain ⟨d, rest, hshown⟩ := List.exists_cons_of_ne_nil h
  simp [jsonReport, hshown]

end Globals

/-! ## Deeds -/

/-- Two runs that leave the same behind, apart from what they write to the standard error. -/
structure SameButStderr (r r' : Outcome × Workspace) : Prop where
  exit : r'.1.exit = r.1.exit
  stdout : r'.1.stdout = r.1.stdout
  after : r'.2 = r.2

/-- What a command does, apart from what it tells of it on the standard error. -/
structure Deed where
  changes : List FileChange
  exit : Nat
  stdout : String

namespace Deed

def refusal : Deed :=
  { changes := [], exit := 1, stdout := "" }

def printing (text : String) : Deed :=
  { changes := [], exit := 0, stdout := text }

def changing (changes : List FileChange) : Deed :=
  { changes := changes, exit := 0, stdout := "" }

end Deed

/--
A plan that does a deed under some settings: it tells if it fails, and tells nothing if it is to be
quiet and does not.
-/
structure Plan.Does (g : Globals) (deed : Deed) (p : Plan) : Prop where
  changes : p.changes = deed.changes
  exit : p.done.exit = deed.exit
  stdout : p.done.stdout = deed.stdout
  loud : deed.exit ≠ 0 -> p.done.stderr ≠ ""
  quiet : g.quiet = true -> deed.exit = 0 -> p.done.stderr = ""

namespace Plan

variable {g : Globals} {deed : Deed} {p : Plan}

theorem does_refusal {stderr : String} (h : stderr ≠ "") :
    (report { exit := 1, stdout := "", stderr := stderr }).Does g .refusal :=
  ⟨rfl, rfl, rfl, fun _ => h, fun _ hexit => nomatch hexit⟩

theorem does_failure (preface message : String) : (failure preface message).Does g .refusal :=
  does_refusal (by simp)

/-- What a plan leaves behind is what its deed leaves behind: a change that fails is told. -/
theorem Does.carryOut (h : p.Does g deed) (w : Workspace) :
    (w.carryOut p).2 = (w.changeAll deed.changes).1 ∧
      match (w.changeAll deed.changes).2 with
      | none => (w.carryOut p).1 = p.done
      | some _ => (w.carryOut p).1.exit = 1 ∧ (w.carryOut p).1.stdout = "" ∧
          (w.carryOut p).1.stderr ≠ "" := by
  unfold Workspace.carryOut outcome
  rw [h.changes]
  refine ⟨rfl, ?_⟩
  cases (w.changeAll deed.changes).2 with
  | none => rfl
  | some fault => exact ⟨rfl, rfl, by simp [Outcome.failure]⟩

/-- Two plans that do one deed leave the same behind. -/
theorem Does.same {g' : Globals} {p' : Plan} (h : p.Does g deed) (h' : p'.Does g' deed)
    (w : Workspace) : SameButStderr (w.carryOut p) (w.carryOut p') := by
  obtain ⟨hafter, hleft⟩ := h.carryOut w
  obtain ⟨hafter', hleft'⟩ := h'.carryOut w
  cases hfault : (w.changeAll deed.changes).2 with
  | none =>
      rw [hfault] at hleft hleft'
      refine ⟨?_, ?_, hafter'.trans hafter.symm⟩
      · rw [hleft, hleft', h.exit, h'.exit]
      · rw [hleft, hleft', h.stdout, h'.stdout]
  | some fault =>
      rw [hfault] at hleft hleft'
      exact ⟨hleft'.1.trans hleft.1.symm, hleft'.2.1.trans hleft.2.1.symm,
        hafter'.trans hafter.symm⟩

theorem Does.stderr_ne_empty (h : p.Does g deed) {w : Workspace}
    (hexit : (w.carryOut p).1.exit ≠ 0) : (w.carryOut p).1.stderr ≠ "" := by
  obtain ⟨-, hleft⟩ := h.carryOut w
  cases hfault : (w.changeAll deed.changes).2 with
  | none =>
      rw [hfault] at hleft
      rw [hleft] at hexit ⊢
      exact h.loud (h.exit ▸ hexit)
  | some fault =>
      rw [hfault] at hleft
      exact hleft.2.2

theorem Does.stderr_eq_empty (h : p.Does g deed) (hquiet : g.quiet = true) {w : Workspace}
    (hexit : (w.carryOut p).1.exit = 0) : (w.carryOut p).1.stderr = "" := by
  obtain ⟨-, hleft⟩ := h.carryOut w
  cases hfault : (w.changeAll deed.changes).2 with
  | none =>
      rw [hfault] at hleft
      rw [hleft] at hexit ⊢
      exact h.quiet hquiet (h.exit ▸ hexit)
  | some fault =>
      rw [hfault] at hleft
      rw [hleft.1] at hexit
      cases hexit

end Plan

/-! ## Commands -/

namespace Starter

theorem exists_does_planIn (w : Workspace) (directory : String) : ∃ deed, ∀ g : Globals,
    ((planIn g directory : ReaderM Workspace Plan).run w).Does g deed := by
  simp only [planIn, Workspace.run_bind]
  cases (firstPresent? ((files directory).map (·.1)) : ReaderM Workspace _).run w with
  | some path => exact ⟨.refusal, fun _ => Plan.does_failure _ _⟩
  | none =>
      refine ⟨.changing (scaffold ⟨false, false, false, none⟩ directory).changes, fun g => ?_⟩
      exact ⟨rfl, rfl, rfl, fun hexit => absurd rfl hexit,
        fun hquiet _ => Globals.aside_of_quiet hquiet _⟩

end Starter

namespace Generate

variable {preface : Globals -> String} (hpreface : ∀ g, g.quiet = true -> preface g = "")
include hpreface

theorem exists_does_deliver (output : RunOutput) (path? : Option String) :
    ∃ deed, ∀ g : Globals, (deliver g (preface g) output path?).Does g deed := by
  cases path? with
  | none =>
      refine ⟨.printing output.text, fun g => ⟨rfl, rfl, rfl, fun hexit => absurd rfl hexit, ?_⟩⟩
      intro hquiet _
      simp [deliver, Plan.report, hpreface g hquiet, Globals.aside_of_quiet hquiet]
  | some path =>
      refine ⟨.changing (writing path output.text),
        fun g => ⟨rfl, rfl, rfl, fun hexit => absurd rfl hexit, ?_⟩⟩
      intro hquiet _
      simp [deliver, hpreface g hquiet, Globals.aside_of_quiet hquiet]

theorem exists_does_inspect (w : Workspace) (output : RunOutput) (path? : Option String) :
    ∃ deed, ∀ g : Globals,
      ((inspect g (preface g) output path? : ReaderM Workspace Plan).run w).Does g deed := by
  cases path? with
  | none => exact ⟨.refusal, fun _ => Plan.does_failure _ _⟩
  | some path =>
      have hrun : ∀ g, (inspect g (preface g) output (some path) : ReaderM Workspace Plan).run w =
          .report (compare g (preface g) path output.text (w.readText path).toOption) :=
        fun _ => rfl
      simp only [hrun, compare]
      split
      · refine ⟨.printing "", fun g => ⟨rfl, rfl, rfl, fun hexit => absurd rfl hexit, ?_⟩⟩
        intro hquiet _
        simp [Plan.report, hpreface g hquiet, Globals.aside_of_quiet hquiet]
      · exact ⟨.refusal, fun g => Plan.does_failure _ _⟩

omit hpreface

theorem exists_does_planRun (w : Workspace) (check : Bool) (resolved : ResolvedConfig)
    (types : Registry) : ∃ deed, ∀ g : Globals,
      ((planRun g check resolved types : ReaderM Workspace Plan).run w).Does g deed := by
  simp only [planRun, Run.report_eq, DiagnosticSink.held_emitAll, DiagnosticSink.held_empty,
    List.nil_append]
  cases run resolved.request types.provider
      (fun _ => types.finitelyReaches resolved.request.root) resolved.engine
      resolved.format.emitter with
  | error e =>
      refine ⟨.refusal, fun g => Plan.does_refusal ?_⟩
      have hmem : e.diagnostic ∈ resolved.diagnostics ++ Run.diagnosticsOf (.error e) :=
        List.mem_append_right _ (List.mem_singleton_self _)
      simp [g.textReport_ne_empty (g.shown_ne_nil hmem e.diagnostic_severity)]
  | ok output =>
      have hpreface : ∀ g : Globals, g.quiet = true ->
          g.aside (announcement resolved.request) ++
            g.textReport (resolved.diagnostics ++ Run.diagnosticsOf (.ok output)) = "" := by
        intro g hquiet
        have hshown : g.shown (resolved.diagnostics ++ Run.diagnosticsOf (.ok output)) = [] :=
          Globals.shown_eq_nil hquiet (by
            simpa [Run.diagnosticsOf] using fun d hd => (resolved.diagnostics_warn.2 d hd).1)
        rw [Globals.aside_of_quiet hquiet, Globals.textReport, hshown]
        rfl
      cases check with
      | true => exact exists_does_inspect hpreface w output resolved.outputPath
      | false => exact exists_does_deliver hpreface output resolved.outputPath

theorem exists_does_plan (w : Workspace) (config : Option String) (o : GenerateOptions) :
    ∃ deed, ∀ g : Globals,
      ((plan (g.on config) o : ReaderM Workspace Plan).run w).Does (g.on config) deed := by
  simp only [run_plan, Globals.config_on]
  cases w.project config with
  | error e => exact ⟨.refusal, fun _ => Plan.does_failure _ _⟩
  | ok project =>
      dsimp only
      cases project.config.resolve o.overrides project.directory with
      | error e => exact ⟨.refusal, fun _ => Plan.does_failure _ _⟩
      | ok resolved =>
          dsimp only
          cases w.types resolved.schemaPaths with
          | error e => exact ⟨.refusal, fun _ => Plan.does_failure _ _⟩
          | ok types =>
              obtain ⟨deed, hdoes⟩ := exists_does_planRun w o.check resolved types
              exact ⟨deed, fun g => hdoes (g.on config)⟩

end Generate

namespace Graph

theorem exists_does_outcome (format : ReportFormat) (root : String) (types : Registry) :
    ∃ deed, ∀ g : Globals, (Plan.report (outcome g format root types)).Does g deed := by
  unfold outcome
  cases TypeGraph.discover types.provider root (types.finitelyReaches root) with
  | error e =>
      refine ⟨.refusal, fun g => Plan.does_refusal ?_⟩
      have hshown : g.shown [e.diagnostic] ≠ [] :=
        g.shown_ne_nil (List.mem_singleton_self _) rfl
      cases format with
      | text => exact g.textReport_ne_empty hshown
      | json => exact g.jsonReport_ne_empty hshown
  | ok graph =>
      exact ⟨.printing (render format graph), fun _ =>
        ⟨rfl, rfl, rfl, fun hexit => absurd rfl hexit, fun _ _ => rfl⟩⟩

theorem exists_does_plan (w : Workspace) (config : Option String) (o : GraphOptions) :
    ∃ deed, ∀ g : Globals,
      ((plan (g.on config) o : ReaderM Workspace Plan).run w).Does (g.on config) deed := by
  simp only [run_plan, Globals.config_on]
  cases w.project config with
  | error e => exact ⟨.refusal, fun _ => Plan.does_failure _ _⟩
  | ok project =>
      dsimp only
      cases w.types (project.config.schemaFiles project.directory) with
      | error e => exact ⟨.refusal, fun _ => Plan.does_failure _ _⟩
      | ok types =>
          obtain ⟨deed, hdoes⟩ :=
            exists_does_outcome o.format (o.root.getD project.config.root) types
          exact ⟨deed, fun g => hdoes (g.on config)⟩

end Graph

/-- A command does one deed under all settings that name the same configuration. -/
theorem Command.exists_does_plan (w : Workspace) (config : Option String) (c : Command) :
    ∃ deed, ∀ g : Globals, g.config = config ->
      ((c.plan g : ReaderM Workspace Plan).run w).Does g deed := by
  have hon : ∀ g : Globals, g.config = config -> g.on config = g := by
    rintro g rfl
    rfl
  cases c with
  | init directory? =>
      obtain ⟨deed, hdoes⟩ :=
        Starter.exists_does_planIn w (directory?.getD (Path.absolute w.current))
      exact ⟨deed, fun g _ => Starter.run_plan w g directory? ▸ hdoes g⟩
  | generate o =>
      obtain ⟨deed, hdoes⟩ := Generate.exists_does_plan w config o
      exact ⟨deed, fun g hconfig => hon g hconfig ▸ hdoes g⟩
  | graph o =>
      obtain ⟨deed, hdoes⟩ := Graph.exists_does_plan w config o
      exact ⟨deed, fun g hconfig => hon g hconfig ▸ hdoes g⟩

/-! ## Argument lists -/

theorem CommandLine.usage_ne_empty : usage ≠ "" := by
  unfold usage
  simp only [ne_eq, String.append_eq_empty_iff, not_and]
  simp

theorem CommandLine.stderr_stopped_ne_empty {stop : ArgumentStop}
    (hexit : (stopped stop).exit ≠ 0) : (stopped stop).stderr ≠ "" := by
  cases stop with
  | help => exact (hexit rfl).elim
  | version => exact (hexit rfl).elim
  | usage => exact usage_ne_empty

namespace Workspace

def runAt (w : Workspace) (terminal : Bool) (args : List String) : Outcome × Workspace :=
  w.carryOut ((CommandLine.plan terminal args : ReaderM Workspace Plan).run w)

theorem runAt_of_read {terminal : Bool} {args : List String} {i : Invocation}
    (h : CommandLine.read terminal args = .ok i) (w : Workspace) :
    w.runAt terminal args =
      w.carryOut ((i.command.plan i.globals : ReaderM Workspace Plan).run w) := by
  unfold runAt CommandLine.plan
  rw [h]

theorem runAt_of_stop {terminal : Bool} {args : List String} {stop : ArgumentStop}
    (h : CommandLine.read terminal args = .error stop) (w : Workspace) :
    w.runAt terminal args = (CommandLine.stopped stop, w) := by
  unfold runAt CommandLine.plan
  rw [h]
  rfl

/-- A run that fails tells so, whatever the arguments. -/
theorem stderr_ne_empty_of_exit (w : Workspace) (terminal : Bool) (args : List String)
    (hexit : (w.runAt terminal args).1.exit ≠ 0) : (w.runAt terminal args).1.stderr ≠ "" := by
  cases hread : CommandLine.read terminal args with
  | error stop =>
      rw [runAt_of_stop hread] at hexit ⊢
      exact CommandLine.stderr_stopped_ne_empty hexit
  | ok i =>
      obtain ⟨deed, hdoes⟩ := Command.exists_does_plan w i.globals.config i.command
      rw [runAt_of_read hread] at hexit ⊢
      exact (hdoes i.globals rfl).stderr_ne_empty hexit

section Settings

variable {terminal terminal' : Bool} {args args' : List String} {i i' : Invocation}
  (h : CommandLine.read terminal args = .ok i)
include h

/-- A quiet run that succeeds tells nothing. -/
theorem stderr_eq_empty_of_quiet (w : Workspace) (hquiet : i.globals.quiet = true)
    (hexit : (w.runAt terminal args).1.exit = 0) : (w.runAt terminal args).1.stderr = "" := by
  obtain ⟨deed, hdoes⟩ := Command.exists_does_plan w i.globals.config i.command
  rw [runAt_of_read h] at hexit ⊢
  exact (hdoes i.globals rfl).stderr_eq_empty hquiet hexit

/-- Arguments that ask for one command with one configuration leave the same behind. -/
theorem same_runAt (w : Workspace) (h' : CommandLine.read terminal' args' = .ok i')
    (hcommand : i'.command = i.command) (hconfig : i'.globals.config = i.globals.config) :
    SameButStderr (w.runAt terminal args) (w.runAt terminal' args') := by
  obtain ⟨deed, hdoes⟩ := Command.exists_does_plan w i.globals.config i.command
  rw [runAt_of_read h, runAt_of_read h', hcommand]
  exact (hdoes i.globals rfl).same (hdoes i'.globals hconfig) w

end Settings

/--
What is shown is all that settings decide. Failures are told under any of them, a quiet success is
not, and arguments that differ in nothing else leave the same files, exit code and standard output
behind; so do arguments with the flag for quiet commands put in front.
-/
theorem settings_of_runAt (w : Workspace) (terminal : Bool) (args : List String) :
    ((w.runAt terminal args).1.exit ≠ 0 -> (w.runAt terminal args).1.stderr ≠ "") ∧
    ∀ i, CommandLine.read terminal args = .ok i ->
      (i.globals.quiet = true -> (w.runAt terminal args).1.exit = 0 ->
        (w.runAt terminal args).1.stderr = "") ∧
      (∀ terminal' args' i', CommandLine.read terminal' args' = .ok i' ->
        i'.command = i.command -> i'.globals.config = i.globals.config ->
        SameButStderr (w.runAt terminal args) (w.runAt terminal' args')) ∧
      (i.globals.quiet = false ->
        SameButStderr (w.runAt terminal args) (w.runAt terminal ("--quiet" :: args)) ∧
        ((w.runAt terminal args).1.exit = 0 ->
          (w.runAt terminal ("--quiet" :: args)).1.stderr = "")) := by
  refine ⟨stderr_ne_empty_of_exit w terminal args, fun i h => ⟨stderr_eq_empty_of_quiet h w,
    fun _ _ _ h' hcommand hconfig => same_runAt h w h' hcommand hconfig, fun hloud => ?_⟩⟩
  have hquiet := CommandLine.read_quiet h hloud
  have hsame := same_runAt h w hquiet rfl rfl
  exact ⟨hsame, fun hexit => stderr_eq_empty_of_quiet hquiet w rfl (hsame.exit.trans hexit)⟩

open Generate (shop) in
theorem settings_shop :
    SameButStderr (shop.runAt false ["generate"])
      (shop.runAt true ["-q", "--color", "never", "generate", "-v"]) ∧
    (shop.runAt false ["generate"]).1.exit = 0 ∧
    (shop.runAt false ["--quiet", "generate"]).1.stderr = "" ∧
    (shop.runAt false ["-q", "graph", "--root", "Missing"]).1.exit = 1 ∧
    (shop.runAt false ["-q", "graph", "--root", "Missing"]).1.stderr ≠ "" := by
  have hread : CommandLine.read false ["generate"] =
      .ok ⟨⟨false, false, false, none⟩, .generate ⟨Overrides.none, false⟩⟩ := by decide +kernel
  have hread' : CommandLine.read true ["-q", "--color", "never", "generate", "-v"] =
      .ok ⟨⟨true, true, false, none⟩, .generate ⟨Overrides.none, false⟩⟩ := by decide +kernel
  have hexit : (shop.runAt false ["generate"]).1.exit = 0 := by decide +kernel
  have hfailed : (shop.runAt false ["-q", "graph", "--root", "Missing"]).1.exit = 1 := by
    decide +kernel
  obtain ⟨-, hsettings⟩ := settings_of_runAt shop false ["generate"]
  obtain ⟨-, hsame, hquiet⟩ := hsettings _ hread
  obtain ⟨hloud, -⟩ := settings_of_runAt shop false ["-q", "graph", "--root", "Missing"]
  exact ⟨hsame true _ _ hread' rfl rfl, hexit, (hquiet rfl).2 hexit, hfailed,
    hloud (by rw [hfailed]; decide)⟩

end Workspace

end InstanceForge

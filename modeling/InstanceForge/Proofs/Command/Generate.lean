import InstanceForge.Proofs.Command.Inputs
import InstanceForge.Proofs.Run.Rehearsal

/-!
# Effects of commands

What a command leaves behind. Printing a graph and checking change nothing. Generating changes
one file at most, and a command that fails has written nothing to the standard output and has
changed no file.
-/

namespace InstanceForge

open Workspace (Wrote Dug)

namespace Generate

/-! ## Plans -/

def Resolves (w : Workspace) (g : Globals) (overrides : Overrides) (resolved : ResolvedConfig) :
    Prop :=
  ∃ project, w.project g.config = .ok project ∧
    project.config.resolve overrides project.directory = .ok resolved

/-- The settings that a run resolves to, and what it renders for them. -/
structure Renders (w : Workspace) (g : Globals) (overrides : Overrides)
    (resolved : ResolvedConfig) (output : RunOutput) : Prop where
  resolves : Resolves w g overrides resolved
  output : ∃ types, w.types resolved.schemaPaths = .ok types ∧
    run resolved.request types.provider (fun _ => types.finitelyReaches resolved.request.root)
      resolved.engine resolved.format.emitter = .ok output

variable {w : Workspace} {g : Globals} {overrides : Overrides} {o : GenerateOptions}
  {resolved : ResolvedConfig} {output : RunOutput}

theorem Resolves.unique {other : ResolvedConfig} (h : Resolves w g overrides resolved)
    (h' : Resolves w g overrides other) : resolved = other := by
  obtain ⟨project, hproject, hresolve⟩ := h
  obtain ⟨project', hproject', hresolve'⟩ := h'
  rw [hproject, Except.ok.injEq] at hproject'
  rw [← hproject', hresolve, Except.ok.injEq] at hresolve'
  exact hresolve'

/-- What is rendered is rendered from the types that are read for the settings. -/
theorem Renders.exists_types {other : ResolvedConfig} (h : Renders w g overrides other output)
    (hresolves : Resolves w g overrides resolved) :
    ∃ types, w.types resolved.schemaPaths = .ok types ∧
      run resolved.request types.provider (fun _ => types.finitelyReaches resolved.request.root)
        resolved.engine resolved.format.emitter = .ok output := by
  obtain rfl := hresolves.unique h.resolves
  exact h.output

theorem Renders.unique {resolved' : ResolvedConfig} {output' : RunOutput}
    (h : Renders w g overrides resolved output) (h' : Renders w g overrides resolved' output') :
    resolved = resolved' ∧ output = output' := by
  obtain ⟨types, htypes, hrun⟩ := h.output
  obtain ⟨types', htypes', hrun'⟩ := h'.exists_types h.resolves
  rw [htypes, Except.ok.injEq] at htypes'
  subst htypes'
  rw [hrun, Except.ok.injEq] at hrun'
  exact ⟨h.resolves.unique h'.resolves, hrun'⟩

theorem run_eq_carryOut (w : Workspace) (g : Globals) (o : GenerateOptions) :
    w.run g (.generate o) = w.carryOut ((plan g o : ReaderM Workspace Plan).run w) := rfl

/-- A plan comes from the project, the settings and the types, unless one of them is refused. -/
theorem run_plan (w : Workspace) (g : Globals) (o : GenerateOptions) :
    (plan g o : ReaderM Workspace Plan).run w =
      match w.project g.config with
      | .error e => .failure "" e.message
      | .ok project =>
          match project.config.resolve o.overrides project.directory with
          | .error e => .failure "" e.message
          | .ok resolved =>
              match w.types resolved.schemaPaths with
              | .error e => .failure "" e.message
              | .ok types => (planRun g o.check resolved types : ReaderM Workspace Plan).run w := by
  unfold plan
  rw [Workspace.run_bind, ← Workspace.project]
  cases w.project g.config with
  | error e => rfl
  | ok project =>
      dsimp only
      cases project.config.resolve o.overrides project.directory with
      | error e => rfl
      | ok resolved =>
          dsimp only
          rw [Workspace.run_bind, ← Workspace.types]
          cases w.types resolved.schemaPaths <;> rfl

/-- The plan of a command that cannot render. -/
def Stops (p : Plan) : Prop :=
  ∃ stderr, p = .report { exit := 1, stdout := "", stderr := stderr }

theorem planRun_cases (w : Workspace) (g : Globals) (check : Bool) (resolved : ResolvedConfig)
    (types : Registry) :
    (∃ e, run resolved.request types.provider
        (fun _ => types.finitelyReaches resolved.request.root) resolved.engine
        resolved.format.emitter = .error e ∧
      Stops ((planRun g check resolved types : ReaderM Workspace Plan).run w)) ∨
    ∃ output preface, run resolved.request types.provider
        (fun _ => types.finitelyReaches resolved.request.root) resolved.engine
        resolved.format.emitter = .ok output ∧
      (planRun g check resolved types : ReaderM Workspace Plan).run w =
        if check then (inspect g preface output resolved.outputPath : ReaderM Workspace Plan).run w
        else deliver g preface output resolved.outputPath := by
  unfold planRun
  rw [Run.report_eq]
  cases hrun : run resolved.request types.provider
      (fun _ => types.finitelyReaches resolved.request.root) resolved.engine
      resolved.format.emitter with
  | error e => exact .inl ⟨e, rfl, _, rfl⟩
  | ok output => exact .inr ⟨output, _, rfl, by cases check <;> rfl⟩

theorem stops_of_not_resolves (h : ¬ ∃ resolved, Resolves w g o.overrides resolved) :
    Stops ((plan g o : ReaderM Workspace Plan).run w) := by
  rw [run_plan]
  cases hproject : w.project g.config with
  | error e => exact ⟨_, rfl⟩
  | ok project =>
      dsimp only
      cases hresolve : project.config.resolve o.overrides project.directory with
      | error e => exact ⟨_, rfl⟩
      | ok resolved => exact absurd ⟨resolved, project, hproject, hresolve⟩ h

/-- A run that resolves is planned from the types that it reads. -/
theorem plan_of_resolves (h : Resolves w g o.overrides resolved) :
    (∀ e, w.types resolved.schemaPaths = .error e ->
      Stops ((plan g o : ReaderM Workspace Plan).run w)) ∧
    ∀ types, w.types resolved.schemaPaths = .ok types ->
      (plan g o : ReaderM Workspace Plan).run w =
        (planRun g o.check resolved types : ReaderM Workspace Plan).run w := by
  obtain ⟨project, hproject, hresolve⟩ := h
  rw [run_plan, hproject]
  dsimp only
  rw [hresolve]
  dsimp only
  constructor
  · intro e htypes
    rw [htypes]
    exact ⟨_, rfl⟩
  · intro types htypes
    rw [htypes]

/-- A run renders, or else its plan is to stop with a failure. -/
theorem plan_cases (w : Workspace) (g : Globals) (o : GenerateOptions) :
    ((¬ ∃ resolved output, Renders w g o.overrides resolved output) ∧
      Stops ((plan g o : ReaderM Workspace Plan).run w)) ∨
    ∃ resolved output preface, Renders w g o.overrides resolved output ∧
      (plan g o : ReaderM Workspace Plan).run w =
        if o.check then
          (inspect g preface output resolved.outputPath : ReaderM Workspace Plan).run w
        else deliver g preface output resolved.outputPath := by
  by_cases hsome : ∃ resolved, Resolves w g o.overrides resolved
  · obtain ⟨resolved, hresolves⟩ := hsome
    obtain ⟨hunread, hread⟩ := plan_of_resolves hresolves
    cases htypes : w.types resolved.schemaPaths with
    | error e =>
        refine .inl ⟨?_, hunread e htypes⟩
        rintro ⟨_, _, h⟩
        obtain ⟨_, htypes', _⟩ := h.exists_types hresolves
        rw [htypes] at htypes'
        cases htypes'
    | ok types =>
        rw [hread types htypes]
        rcases planRun_cases w g o.check resolved types with
          ⟨e, hrun, hstops⟩ | ⟨output, preface, hrun, hplan⟩
        · refine .inl ⟨?_, hstops⟩
          rintro ⟨_, _, h⟩
          obtain ⟨_, htypes', hrun'⟩ := h.exists_types hresolves
          rw [htypes, Except.ok.injEq] at htypes'
          subst htypes'
          rw [hrun] at hrun'
          cases hrun'
        · exact .inr ⟨resolved, output, preface, ⟨hresolves, types, htypes, hrun⟩, hplan⟩
  · refine .inl ⟨?_, stops_of_not_resolves hsome⟩
    rintro ⟨resolved, _, h⟩
    exact hsome ⟨resolved, h.resolves⟩

/-! ## Written outputs -/

/-- Writing a text to a path makes directories, and then the text is there or nothing more is
done. -/
theorem changeAll_writing (w : Workspace) (path text : String) :
    (∃ e, (w.changeAll (writing path text)).2 = some e ∧
      Dug w (w.changeAll (writing path text)).1) ∨
    (w.changeAll (writing path text)).2 = none ∧
      ∃ place, Wrote w (w.changeAll (writing path text)).1 place text ∧
        (w.changeAll (writing path text)).1.resolve path = .ok place := by
  have hwrite : ∀ v : Workspace, Dug w v ->
      (∃ e, (v.changeAll [.write path text]).2 = some e ∧
        Dug w (v.changeAll [.write path text]).1) ∨
      (v.changeAll [.write path text]).2 = none ∧
        ∃ place, Wrote w (v.changeAll [.write path text]).1 place text ∧
          (v.changeAll [.write path text]).1.resolve path = .ok place := by
    intro v hdug
    simp only [Workspace.changeAll, Workspace.change]
    cases h : v.write path text with
    | error e => exact .inl ⟨e, rfl, hdug⟩
    | ok after =>
        obtain ⟨place, hwrote, hresolve⟩ := Workspace.wrote_of_write h
        exact .inr ⟨rfl, place, hwrote.of_dug hdug, hresolve⟩
  unfold writing
  split
  · exact hwrite w (.refl w)
  · next directory hne hparent =>
      rw [Workspace.changeAll, Workspace.change]
      split
      · next next e heq => exact .inl ⟨e, rfl, Workspace.dug_of_makeDirectories heq⟩
      · next next heq => exact hwrite next (Workspace.dug_of_makeDirectories heq)
  · exact hwrite w (.refl w)

theorem carryOut_deliver (w : Workspace) (g : Globals) (preface : String) (output : RunOutput)
    (path : String) :
    (w.carryOut (deliver g preface output (some path))).1.stdout = "" ∧
      ((w.carryOut (deliver g preface output (some path))).1.exit ≠ 0 ∧
          Dug w (w.carryOut (deliver g preface output (some path))).2 ∨
        (w.carryOut (deliver g preface output (some path))).1.exit = 0 ∧
          ∃ place, Wrote w (w.carryOut (deliver g preface output (some path))).2 place
              output.text ∧
            (w.carryOut (deliver g preface output (some path))).2.resolve path = .ok place) := by
  have hcarry : w.carryOut (deliver g preface output (some path)) =
      ((deliver g preface output (some path)).outcome
        (w.changeAll (writing path output.text)).2,
        (w.changeAll (writing path output.text)).1) := rfl
  rw [hcarry]
  rcases changeAll_writing w path output.text with ⟨e, he, hdug⟩ | ⟨he, hwrote⟩
  · rw [he]
    exact ⟨rfl, .inl ⟨Nat.one_ne_zero, hdug⟩⟩
  · rw [he]
    exact ⟨rfl, .inr ⟨rfl, hwrote⟩⟩

/-! ## Effects -/

/-- What the command leaves behind: its outcome, and the workspace after it. -/
structure Effects (w : Workspace) (g : Globals) (o : GenerateOptions) (outcome : Outcome)
    (after : Workspace) : Prop where
  check : o.check = true -> after = w ∧ outcome.stdout = ""
  failure : outcome.exit ≠ 0 -> outcome.stdout = "" ∧
    ∀ place, after.tree.content? place = w.tree.content? place
  success : outcome.exit = 0 -> ∃ resolved output, Renders w g o.overrides resolved output
  printed : outcome.exit = 0 -> o.check = false -> ∀ resolved output,
    Renders w g o.overrides resolved output -> resolved.outputPath = none ->
    after = w ∧ outcome.stdout = output.text
  written : outcome.exit = 0 -> o.check = false -> ∀ resolved output,
    Renders w g o.overrides resolved output -> ∀ path, resolved.outputPath = some path ->
    outcome.stdout = "" ∧ ∃ place, after.resolve path = .ok place ∧
      after.tree.content? place = some (.text output.text) ∧
      ∀ other, other ≠ place -> after.tree.content? other = w.tree.content? other

theorem effects_of_stops {p : Plan} (hstops : Stops p) :
    Effects w g o (w.carryOut p).1 (w.carryOut p).2 := by
  obtain ⟨stderr, rfl⟩ := hstops
  refine ⟨fun _ => ⟨rfl, rfl⟩, fun _ => ⟨rfl, fun _ => rfl⟩, ?_, ?_, ?_⟩
  · intro hexit
    cases hexit
  · intro hexit
    cases hexit
  · intro hexit
    cases hexit

theorem exists_inspect (w : Workspace) (g : Globals) (preface : String) (output : RunOutput)
    (path? : Option String) :
    ∃ outcome : Outcome, outcome.stdout = "" ∧
      (inspect g preface output path? : ReaderM Workspace Plan).run w = .report outcome ∧
      (outcome.exit = 0 ↔ ∃ path, path? = some path ∧ w.readText path = .ok output.text) := by
  cases path? with
  | none =>
      refine ⟨_, rfl, rfl, ?_⟩
      constructor
      · intro hexit
        cases hexit
      · rintro ⟨path, hpath, _⟩
        cases hpath
  | some path =>
      refine ⟨compare g preface path output.text (w.readText path).toOption, ?_, rfl, ?_⟩
      · unfold compare
        split <;> rfl
      · unfold compare
        split
        · next h => simpa using toOption_eq_some_iff.1 h
        · next h =>
            constructor
            · intro hexit
              cases hexit
            · rintro ⟨other, hother, htext⟩
              cases hother
              exact absurd (toOption_eq_some_iff.2 htext) h

theorem effects_inspect (h : Renders w g o.overrides resolved output) (hcheck : o.check = true)
    {outcome : Outcome} (hstdout : outcome.stdout = "") :
    Effects w g o (w.carryOut (.report outcome)).1 (w.carryOut (.report outcome)).2 := by
  refine ⟨fun _ => ⟨rfl, hstdout⟩, fun _ => ⟨hstdout, fun _ => rfl⟩,
    fun _ => ⟨resolved, output, h⟩, fun _ hwrite => ?_, fun _ hwrite => ?_⟩
  · rw [hcheck] at hwrite
    cases hwrite
  · rw [hcheck] at hwrite
    cases hwrite

theorem effects_deliver (h : Renders w g o.overrides resolved output) (hcheck : o.check = false)
    (preface : String) :
    Effects w g o (w.carryOut (deliver g preface output resolved.outputPath)).1
      (w.carryOut (deliver g preface output resolved.outputPath)).2 := by
  have hsame : ∀ {resolved' output'}, Renders w g o.overrides resolved' output' ->
      resolved' = resolved ∧ output' = output := fun h' => h'.unique h
  have hno : ¬ o.check = true := by simp [hcheck]
  cases hpath : resolved.outputPath with
  | none =>
      refine ⟨fun hyes => absurd hyes hno, fun hexit => absurd rfl hexit,
        fun _ => ⟨resolved, output, h⟩, fun _ _ resolved' output' h' _ => ?_,
        fun _ _ resolved' output' h' path hsome => ?_⟩
      · rw [(hsame h').2]
        exact ⟨rfl, rfl⟩
      · rw [(hsame h').1, hpath] at hsome
        cases hsome
  | some path =>
      obtain ⟨hstdout, ⟨hfailed, hdug⟩ | ⟨hdone, place, hwrote, hplace⟩⟩ :=
        carryOut_deliver w g preface output path
      · exact ⟨fun hyes => absurd hyes hno,
          fun _ => ⟨hstdout, fun other => (hdug.kept other).content?⟩,
          fun hexit => absurd hexit hfailed, fun hexit => absurd hexit hfailed,
          fun hexit => absurd hexit hfailed⟩
      · refine ⟨fun hyes => absurd hyes hno, fun hexit => absurd hdone hexit,
          fun _ => ⟨resolved, output, h⟩, fun _ _ resolved' output' h' hnone => ?_,
          fun _ _ resolved' output' h' path' hsome => ?_⟩
        · rw [(hsame h').1, hpath] at hnone
          cases hnone
        · rw [(hsame h').1, hpath, Option.some.injEq] at hsome
          subst hsome
          rw [(hsame h').2]
          exact ⟨hstdout, place, hplace, FileTree.content?_eq_some_iff.2 hwrote.text,
            fun other hother => (hwrote.kept other hother).content?⟩

theorem effects_run (w : Workspace) (g : Globals) (o : GenerateOptions) :
    Effects w g o (w.run g (.generate o)).1 (w.run g (.generate o)).2 := by
  rw [run_eq_carryOut]
  rcases plan_cases w g o with ⟨_, hstops⟩ | ⟨resolved, output, preface, h, hplan⟩
  · exact effects_of_stops hstops
  · rw [hplan]
    cases hcheck : o.check with
    | true =>
        obtain ⟨outcome, hstdout, hinspect, _⟩ :=
          exists_inspect w g preface output resolved.outputPath
        rw [if_pos rfl, hinspect]
        exact effects_inspect h hcheck hstdout
    | false =>
        rw [if_neg Bool.false_ne_true]
        exact effects_deliver h hcheck preface

end Generate

namespace Graph

theorem run_plan (w : Workspace) (g : Globals) (o : GraphOptions) :
    (plan g o : ReaderM Workspace Plan).run w =
      match w.project g.config with
      | .error e => .failure "" e.message
      | .ok project =>
          match w.types (project.config.schemaFiles project.directory) with
          | .error e => .failure "" e.message
          | .ok types =>
              .report (outcome g o.format (o.root.getD project.config.root) types) := by
  unfold plan
  rw [Workspace.run_bind, ← Workspace.project]
  cases w.project g.config with
  | error e => rfl
  | ok project =>
      dsimp only
      rw [Workspace.run_bind, ← Workspace.types]
      cases w.types (project.config.schemaFiles project.directory) <;> rfl

/-- A graph is only printed, and nothing is printed on a failure. -/
theorem effects_run (w : Workspace) (g : Globals) (o : GraphOptions) :
    (w.run g (.graph o)).2 = w ∧
      ((w.run g (.graph o)).1.exit ≠ 0 -> (w.run g (.graph o)).1.stdout = "") := by
  have hreport : ∃ outcome : Outcome, (outcome.exit ≠ 0 -> outcome.stdout = "") ∧
      (plan g o : ReaderM Workspace Plan).run w = .report outcome := by
    rw [run_plan]
    cases w.project g.config with
    | error e => exact ⟨_, fun _ => rfl, rfl⟩
    | ok project =>
        dsimp only
        cases w.types (project.config.schemaFiles project.directory) with
        | error e => exact ⟨_, fun _ => rfl, rfl⟩
        | ok types =>
            refine ⟨_, ?_, rfl⟩
            unfold outcome
            split
            · exact fun _ => rfl
            · exact fun hexit => absurd rfl hexit
  obtain ⟨outcome, hstdout, hplan⟩ := hreport
  have hrun : w.run g (.graph o) =
      w.carryOut ((plan g o : ReaderM Workspace Plan).run w) := rfl
  rw [hrun, hplan]
  exact ⟨rfl, hstdout⟩

end Graph

/-- Neither command changes a file unless it succeeds, and then it changes the output alone. -/
theorem Workspace.effects_of_run (w : Workspace) (g : Globals) :
    (∀ o : GraphOptions, (w.run g (.graph o)).2 = w ∧
      ((w.run g (.graph o)).1.exit ≠ 0 -> (w.run g (.graph o)).1.stdout = "")) ∧
    ∀ o : GenerateOptions,
      Generate.Effects w g o (w.run g (.generate o)).1 (w.run g (.generate o)).2 :=
  ⟨Graph.effects_run w g, Generate.effects_run w g⟩

end InstanceForge

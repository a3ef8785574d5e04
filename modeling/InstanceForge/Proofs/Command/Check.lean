import InstanceForge.Proofs.Command.Generate
import InstanceForge.Proofs.Command.Line

/-!
# Checked outputs

A check succeeds exactly if generating would succeed and change nothing. After a text was
generated both do, because what the second run reads is what the first run read, and the output
is found as it was written.
-/

namespace InstanceForge

open Workspace (Wrote Same Sound)

theorem Workspace.runArguments_of_read {args : List String} {invocation : Invocation}
    (h : CommandLine.read false args = .ok invocation) (w : Workspace) :
    w.runArguments args = w.run invocation.globals invocation.command := by
  unfold runArguments CommandLine.plan
  rw [h]
  rfl

namespace Generate

variable {w : Workspace} {g : Globals} {o : GenerateOptions} {resolved : ResolvedConfig}
  {output : RunOutput} {path : String}

/-! ## Outputs that are there already -/

/-- A text that is there already is written without a change, not even to directories. -/
theorem changeAll_writing_of_readText (hw : w.Sound) {text : String}
    (h : w.readText path = .ok text) :
    (w.changeAll (writing path text)).2 = none ∧ Same w (w.changeAll (writing path text)).1 := by
  obtain ⟨after, hwrite, hsame⟩ := Workspace.write_of_readText hw.rooted h
  have honly : w.changeAll [.write path text] = (after, none) := by
    simp only [Workspace.changeAll, Workspace.change, hwrite, Workspace.settle]
  unfold writing
  split
  · rw [honly]
    exact ⟨rfl, hsame⟩
  · next directory hne hparent =>
      -- the file is found through its directory, so there is no directory to make
      obtain ⟨place, hresolve, _⟩ := Workspace.readText_eq_ok_iff.1 h
      obtain ⟨above, habove, hdirectory⟩ := Workspace.resolve_parent hparent hne hresolve
      have hmake := Workspace.makeDirectories_of_directory habove hdirectory
      have hboth : w.changeAll [.makeDirectories directory, .write path text] =
          w.changeAll [.write path text] := by
        rw [Workspace.changeAll, Workspace.change, hmake]
      rw [hboth, honly]
      exact ⟨rfl, hsame⟩
  · rw [honly]
    exact ⟨rfl, hsame⟩

/-! ## Runs -/

theorem exit_check_iff (hcheck : o.check = true) :
    (w.run g (.generate o)).1.exit = 0 ↔ ∃ resolved output path,
      Renders w g o.overrides resolved output ∧ resolved.outputPath = some path ∧
        w.readText path = .ok output.text := by
  rw [run_eq_carryOut]
  rcases plan_cases w g o with ⟨hnone, stderr, hplan⟩ | ⟨resolved, output, preface, h, hplan⟩
  · rw [hplan]
    constructor
    · intro hexit
      cases hexit
    · rintro ⟨resolved, output, _, h, _⟩
      exact absurd ⟨resolved, output, h⟩ hnone
  · obtain ⟨outcome, _, hinspect, hexit⟩ := exists_inspect w g preface output resolved.outputPath
    rw [hplan, if_pos hcheck, hinspect]
    refine Iff.trans hexit ⟨?_, ?_⟩
    · rintro ⟨path, hpath, hread⟩
      exact ⟨resolved, output, path, h, hpath, hread⟩
    · rintro ⟨_, _, path, h', hpath, hread⟩
      obtain ⟨rfl, rfl⟩ := h.unique h'
      exact ⟨path, hpath, hread⟩

/-- A run that succeeds has written what it rendered. -/
theorem wrote_of_exit (hcheck : o.check = false) (hresolves : Resolves w g o.overrides resolved)
    (hpath : resolved.outputPath = some path) (hexit : (w.run g (.generate o)).1.exit = 0) :
    ∃ output place, Renders w g o.overrides resolved output ∧
      Wrote w (w.run g (.generate o)).2 place output.text ∧
      (w.run g (.generate o)).2.resolve path = .ok place := by
  rw [run_eq_carryOut] at hexit ⊢
  rcases plan_cases w g o with ⟨_, stderr, hplan⟩ | ⟨_, output, preface, h, hplan⟩
  · rw [hplan] at hexit
    cases hexit
  · obtain rfl := hresolves.unique h.resolves
    rw [hcheck, if_neg Bool.false_ne_true, hpath] at hplan
    rw [hplan] at hexit ⊢
    obtain ⟨_, ⟨hfailed, _⟩ | ⟨_, place, hwrote, hplace⟩⟩ :=
      carryOut_deliver w g preface output path
    · exact absurd hexit hfailed
    · exact ⟨output, place, h, hwrote, hplace⟩

theorem same_of_readText (hw : w.Sound) (hcheck : o.check = false)
    (h : Renders w g o.overrides resolved output) (hpath : resolved.outputPath = some path)
    (hread : w.readText path = .ok output.text) :
    (w.run g (.generate o)).1.exit = 0 ∧ Same w (w.run g (.generate o)).2 := by
  rw [run_eq_carryOut]
  rcases plan_cases w g o with ⟨hnone, _⟩ | ⟨_, _, preface, h', hplan⟩
  · exact absurd ⟨resolved, output, h⟩ hnone
  · obtain ⟨rfl, rfl⟩ := h.unique h'
    obtain ⟨hdone, hsame⟩ := changeAll_writing_of_readText hw hread
    rw [hcheck, if_neg Bool.false_ne_true, hpath] at hplan
    rw [hplan]
    refine ⟨?_, hsame⟩
    show ((deliver g preface output (some path)).outcome
      (w.changeAll (writing path output.text)).2).exit = 0
    rw [hdone]
    rfl

def withCheck (o : GenerateOptions) (check : Bool) : GenerateOptions :=
  { o with check := check }

/-- A check succeeds exactly if generating does and changes nothing. -/
theorem exit_check_iff_same (hw : w.Sound) (g : Globals) (o : GenerateOptions)
    (hresolves : Resolves w g o.overrides resolved) (hpath : resolved.outputPath = some path) :
    (w.run g (.generate (withCheck o true))).1.exit = 0 ↔
      (w.run g (.generate (withCheck o false))).1.exit = 0 ∧
        Same w (w.run g (.generate (withCheck o false))).2 := by
  rw [exit_check_iff rfl]
  constructor
  · rintro ⟨_, output, _, h, hpath', hread⟩
    obtain rfl := hresolves.unique h.resolves
    rw [hpath, Option.some.injEq] at hpath'
    subst hpath'
    exact same_of_readText hw rfl h hpath hread
  · rintro ⟨hexit, hsame⟩
    obtain ⟨output, place, h, hwrote, hplace⟩ :=
      wrote_of_exit (o := withCheck o false) rfl hresolves hpath hexit
    have hread := Workspace.readText_eq_ok_iff.2 ⟨place, hplace, hwrote.text⟩
    exact ⟨resolved, output, path, h, hpath, hsame.readText hread⟩

/-- A place where there is nothing that a run reads, nor anything that is named as a
configuration. -/
structure Apart (w : Workspace) (g : Globals) (resolved : ResolvedConfig) (place : Location) :
    Prop where
  config : ∀ path, g.config = some path -> w.resolve path ≠ .ok place
  schema : ∀ path ∈ resolved.schemaPaths, w.resolve path ≠ .ok place
  name : place.getLast? ≠ some Config.fileName

/-- A run apart from whose inputs a text was written renders the same again. -/
theorem Renders.of_wrote {after : Workspace} {place : Location} {text : String}
    {overrides : Overrides} (h : Renders w g overrides resolved output) (hw : w.Sound)
    (hwrote : Wrote w after place text) (hapart : Apart w g resolved place) :
    Renders after g overrides resolved output := by
  obtain ⟨project, hproject, hresolve⟩ := h.resolves
  obtain ⟨types, htypes, hrun⟩ := h.output
  exact ⟨⟨project, hwrote.project hw hapart.name hapart.config hproject, hresolve⟩, types,
    hwrote.types hapart.schema htypes, hrun⟩

/-- What holds of the runs with a check and without, of one set of arguments in a workspace. -/
structure Agrees (w : Workspace) (g : Globals) (resolved : ResolvedConfig) (path : String)
    (check generate : Workspace -> Outcome × Workspace) : Prop where
  check_iff : (check w).1.exit = 0 ↔ (generate w).1.exit = 0 ∧ Same w (generate w).2
  settled : (generate w).1.exit = 0 -> ∃ place text,
    (generate w).2.resolve path = .ok place ∧
    (generate w).2.tree.get? place = some (.file (.text text)) ∧
    (Apart w g resolved place ->
      (check (generate w).2).1.exit = 0 ∧ (generate (generate w).2).1.exit = 0 ∧
        Same (generate w).2 (generate (generate w).2).2)

theorem agrees_run (hw : w.Sound) (g : Globals) (o : GenerateOptions)
    (hresolves : Resolves w g o.overrides resolved) (hpath : resolved.outputPath = some path) :
    Agrees w g resolved path (·.run g (.generate (withCheck o true)))
      (·.run g (.generate (withCheck o false))) := by
  refine ⟨exit_check_iff_same hw g o hresolves hpath, fun hexit => ?_⟩
  obtain ⟨output, place, h, hwrote, hplace⟩ :=
    wrote_of_exit (o := withCheck o false) rfl hresolves hpath hexit
  refine ⟨place, output.text, hplace, hwrote.text, fun hapart => ?_⟩
  have hrenders := h.of_wrote hw hwrote hapart
  have hread := Workspace.readText_eq_ok_iff.2 ⟨place, hplace, hwrote.text⟩
  refine ⟨(exit_check_iff rfl).2 ⟨resolved, output, path, hrenders, hpath, hread⟩, ?_⟩
  exact same_of_readText (hwrote.sound hw) rfl hrenders hpath hread

/-- Whatever arguments ask to generate, the same with a check agree with them, before they are
run and after it. -/
theorem agrees_of_read {args : List String} {g : Globals} {o : GenerateOptions}
    (hargs : CommandLine.read false args = .ok ⟨g, .generate o⟩) (hcheck : o.check = false)
    {w : Workspace} (hw : w.Sound) {resolved : ResolvedConfig}
    (hresolves : Resolves w g o.overrides resolved) {path : String}
    (hpath : resolved.outputPath = some path) :
    ∃ front rest, args = front ++ "generate" :: rest ∧
      Agrees w g resolved path (·.runArguments (front ++ "generate" :: "--check" :: rest))
        (·.runArguments args) := by
  obtain ⟨front, rest, hsplit, hread⟩ := CommandLine.exists_read_check hargs hcheck
  have hsame : withCheck o false = o := by
    cases o
    cases hcheck
    rfl
  have hgenerate : (fun v : Workspace => v.runArguments args) =
      (·.run g (.generate (withCheck o false))) := by
    rw [hsame]
    exact funext (Workspace.runArguments_of_read hargs)
  have hchecked : (fun v : Workspace => v.runArguments
      (front ++ "generate" :: "--check" :: rest)) =
      (·.run g (.generate (withCheck o true))) := funext (Workspace.runArguments_of_read hread)
  refine ⟨front, rest, hsplit, ?_⟩
  rw [hgenerate, hchecked]
  exact agrees_run hw g o hresolves hpath

def shop : Workspace :=
  { tree :=
      ⟨[(["shop"], .directory),
        (["shop", "cachegen.toml"], .file (.text
          ("[generation]\nroot = \"Order\"\ncapabilities = [\"Encoder\"]\nmode = \"local\"\n" ++
            "[schema]\npaths = \"types.toml\"\n[output]\npath = \"out/order.rs\"\n"))),
        (["shop", "types.toml"], .file (.text "[types.Order]\nfields = []\n"))]⟩
    current := ["shop"] }

theorem sound_shop : shop.Sound := by
  refine ⟨FileTree.rooted_of_forall_mem (by decide), by decide, ?_⟩
  intro name hname
  rw [shop, List.mem_singleton] at hname
  subst hname
  exact ⟨by decide, by decide, by decide, by decide⟩

theorem resolves_shop : ∃ resolved,
    Resolves shop ⟨false, false, false, none⟩ Overrides.none resolved ∧
      resolved.outputPath = some "/shop/out/order.rs" ∧
      resolved.schemaPaths = ["/shop/types.toml"] := by
  have hpaths : ((shop.project none).toOption.bind fun project =>
      (project.config.resolve Overrides.none project.directory).toOption.map fun resolved =>
        (resolved.outputPath, resolved.schemaPaths)) =
      some (some "/shop/out/order.rs", ["/shop/types.toml"]) := by decide +kernel
  obtain ⟨project, hproject, hmap⟩ := Option.bind_eq_some_iff.1 hpaths
  obtain ⟨resolved, hresolve, hboth⟩ := Option.map_eq_some_iff.1 hmap
  rw [toOption_eq_some_iff] at hproject hresolve
  exact ⟨resolved, ⟨project, hproject, hresolve⟩, by simpa using hboth⟩

theorem agrees_shop : ∃ resolved front rest, ["generate"] = front ++ "generate" :: rest ∧
    (shop.runArguments ["generate"]).1.exit = 0 ∧
    (shop.runArguments ["generate"]).2.resolve "/shop/out/order.rs" =
      .ok ["shop", "out", "order.rs"] ∧
    Apart shop ⟨false, false, false, none⟩ resolved ["shop", "out", "order.rs"] ∧
    Agrees shop ⟨false, false, false, none⟩ resolved "/shop/out/order.rs"
      (·.runArguments (front ++ "generate" :: "--check" :: rest))
      (·.runArguments ["generate"]) := by
  obtain ⟨resolved, hresolves, hpath, hschema⟩ := resolves_shop
  have hread : CommandLine.read false ["generate"] =
      .ok ⟨⟨false, false, false, none⟩, .generate ⟨Overrides.none, false⟩⟩ := by decide +kernel
  have hapart : Apart shop ⟨false, false, false, none⟩ resolved ["shop", "out", "order.rs"] := by
    refine ⟨fun path hconfig => ?_, fun path hmem => ?_, by decide⟩
    · cases hconfig
    · rw [hschema, List.mem_singleton] at hmem
      subst hmem
      decide +kernel
  obtain ⟨front, rest, hargs, hagrees⟩ := agrees_of_read hread rfl sound_shop hresolves hpath
  exact ⟨resolved, front, rest, hargs, by decide +kernel, by decide +kernel, hapart, hagrees⟩

end Generate

end InstanceForge

import InstanceForge.Proofs.Command.Channels
import InstanceForge.Proofs.Config.Validity
import InstanceForge.Proofs.Files.Absolute

/-!
# Places to run commands in

Without a path to its configuration, a command looks for the project from the current directory up.
The directory that it finds is all that it knows of where it was run: the schema files, the output
and every message are told from there. So a command does the same in all directories from which
one project is found. A configuration whose own path is too long is found from nowhere, and then all
that a command knows is where it was run.
-/

namespace InstanceForge

/-! ## Plans at absolute paths -/

/-- A plan that changes files at absolute paths only. -/
def Plan.IsAbsolute (p : Plan) : Prop :=
  ∀ c ∈ p.changes, Path.isAbsolute c.path = true

theorem Plan.isAbsolute_report (outcome : Outcome) : (report outcome).IsAbsolute := by
  simp [IsAbsolute, report]

/-- Such a plan is carried out in the same way from every directory. -/
theorem Workspace.carryOut_enter {p : Plan} (h : p.IsAbsolute) (w : Workspace) (place : Location) :
    (w.enter place).carryOut p = ((w.carryOut p).1, (w.carryOut p).2.enter place) := by
  simp only [carryOut, changeAll_enter w place h]

theorem Config.isAbsolute_of_resolve {c : Config} {o : Overrides} {directory : String}
    {resolved : ResolvedConfig} (hdirectory : Path.isAbsolute directory = true)
    (h : c.resolve o directory = .ok resolved) :
    (∀ path ∈ resolved.schemaPaths, Path.isAbsolute path = true) ∧
      (o.outputPath = none ->
        ∀ path, resolved.outputPath = some path -> Path.isAbsolute path = true) := by
  obtain ⟨-, rfl⟩ := resolve_eq_ok_iff.1 h
  have hjoin := Path.isAbsolute_join hdirectory
  constructor
  · simp [schemaFiles, hjoin]
  · intro hnone path hpath
    have hown : (c.override o).outputPath.map (Path.join directory) = some path := by
      simpa [hnone] using hpath
    obtain ⟨own, -, rfl⟩ := Option.map_eq_some_iff.1 hown
    exact hjoin own

namespace Workspace

variable {w : Workspace} {above below : Location}

theorem projectIn_enter (w : Workspace) (place : Location) {directory : String}
    (h : Path.isAbsolute directory = true) :
    (w.enter place).projectIn directory = w.projectIn directory := by
  have habsolute : Path.isAbsolute (Project.configPath directory) = true :=
    Path.isAbsolute_join h _
  rw [projectIn, projectIn, readText_enter w place habsolute]

theorem directory_of_projectIn {directory : String} {project : Project}
    (h : w.projectIn directory = .ok project) : project.directory = directory := by
  unfold projectIn at h
  cases hconfig : Config.ofFile (w.readText (Project.configPath directory)) with
  | error cause =>
      rw [hconfig] at h
      cases h
  | ok config =>
      rw [hconfig] at h
      cases h
      rfl

theorem types_enter (w : Workspace) (place : Location) {paths : List String}
    (h : ∀ path ∈ paths, Path.isAbsolute path = true) :
    (w.enter place).types paths = w.types paths := by
  unfold types Registry.ofFiles
  generalize Registry.empty = r
  induction paths generalizing r with
  | nil => rfl
  | cons path rest ih =>
      rw [List.forall_mem_cons] at h
      have hread : (FileReader.readText path : ReaderM Workspace _).run (w.enter place) =
          (FileReader.readText path : ReaderM Workspace _).run w := readText_enter w place h.1
      rw [Registry.extendFiles, run_bind, run_bind, hread]
      split
      · rfl
      · exact ih h.2 _

/-! ## The project that is found -/

def HasConfig (w : Workspace) (place : Location) : Prop :=
  ∃ content, w.tree.get? (place ++ [Config.fileName]) = some (.file content)

/-- The system refuses the path of a directory's configuration, whether or not it is there. -/
def Unnamable (place : Location) : Prop :=
  '\x00' ∈ (Project.configPath (Path.absolute place)).toList ∨
    Path.maxSize < (Project.configPath (Path.absolute place)).utf8ByteSize

theorem unnamable_iff {place : Location} :
    Unnamable place ↔ Path.fault? (Project.configPath (Path.absolute place)) ≠ none := by
  have hne : Project.configPath (Path.absolute place) ≠ "" := by
    intro hempty
    have habsolute := Path.isAbsolute_join (Path.isAbsolute_absolute place) Config.fileName
    rw [← Project.configPath, hempty] at habsolute
    cases habsolute
  rw [Unnamable, ne_eq, Path.fault?_eq_none_iff]
  simp only [hne, ne_eq, not_false_eq_true, true_and, not_and_or, not_not, not_le]

theorem Sound.isFile_configPath_iff (hw : w.Sound) (h : above <+: w.current) :
    w.isFile (Project.configPath (Path.absolute above)) = true ↔
      ¬ Unnamable above ∧ HasConfig w above := by
  rw [Project.configPath, hw.isFile_join_absolute h isName_fileName, unnamable_iff, not_not]
  rfl

theorem Sound.enter (hw : w.Sound) (hcurrent : w.current = above ++ below) :
    (w.enter above).Sound := by
  refine ⟨hw.rooted, ?_, fun name hname => hw.names name ?_⟩
  · exact hw.rooted.directory_of_append (hcurrent ▸ hw.current)
  · exact hcurrent ▸ List.mem_append_left _ hname

theorem project_none_enter (w : Workspace) (place : Location) :
    (w.enter place).project none =
      match (Path.ancestors (Path.absolute place)).find?
        fun directory => w.isFile (Project.configPath directory) with
      | some directory => (w.enter place).projectIn directory
      | none => .error (.notFound (Path.absolute place)) := by
  have hsame : (Path.ancestors (Path.absolute place)).find?
        (fun directory => (w.enter place).isFile (Project.configPath directory)) =
      (Path.ancestors (Path.absolute place)).find?
        fun directory => w.isFile (Project.configPath directory) := by
    refine List.find?_congr fun directory hdirectory => ?_
    have habsolute :=
      Path.isAbsolute_of_mem_ancestors (Path.isAbsolute_absolute place) hdirectory
    exact isFile_enter w place (Path.isAbsolute_join habsolute _)
  rw [project_none, ← hsame]
  rfl

/-- What is looked for from two directories, when there is no configuration from one to the other:
one project, or none and then each run knows only where it began. -/
inductive Finds (w : Workspace) (above : Location) : Prop where
  | project {directory : String} (absolute : Path.isAbsolute directory = true)
      (here : w.project none = w.projectIn directory)
      (there : (w.enter above).project none = (w.enter above).projectIn directory)
  | nothing (unseen : w.isFile (Project.configPath (Path.absolute above)) = false)
      (here : w.project none = .error (.notFound (Path.absolute w.current)))
      (there : (w.enter above).project none = .error (.notFound (Path.absolute above)))

theorem Sound.finds (hw : w.Sound) (hcurrent : w.current = above ++ below)
    (hbelow : ∀ front, front ≠ [] -> front <+: below -> ¬ HasConfig w (above ++ front)) :
    Finds w above := by
  have hnone : ∀ front, front ≠ [] -> front <+: below ->
      w.isFile (Project.configPath (Path.absolute (above ++ front))) = false := by
    intro front hne hfront
    have hprefix : above ++ front <+: w.current :=
      hcurrent ▸ (List.prefix_append_right_inj above).2 hfront
    exact Bool.eq_false_iff.2 fun hfile =>
      hbelow front hne hfront ((hw.isFile_configPath_iff hprefix).1 hfile).2
  have hfind := Path.find?_ancestors_append
    (p := fun directory => w.isFile (Project.configPath directory)) (hcurrent ▸ hw.names) hnone
  have hhere := project_none w
  have hthere := project_none_enter w above
  rw [hcurrent, hfind] at hhere
  cases hfound : (Path.ancestors (Path.absolute above)).find?
      fun directory => w.isFile (Project.configPath directory) with
  | some directory =>
      rw [hfound] at hhere hthere
      exact .project (Path.isAbsolute_of_mem_ancestors (Path.isAbsolute_absolute above)
        (List.mem_of_find?_eq_some hfound)) hhere hthere
  | none =>
      rw [hfound] at hhere hthere
      obtain ⟨rest, hrest⟩ := Path.exists_ancestors (Path.absolute above)
      have hunseen := List.find?_eq_none.1 hfound (Path.absolute above)
        (hrest ▸ List.mem_cons_self)
      exact .nothing (Bool.eq_false_iff.2 hunseen) (hcurrent ▸ hhere) hthere

theorem Sound.project_of_unnamable (hw : w.Sound)
    (h : ∀ above, above <+: w.current -> HasConfig w above -> Unnamable above) :
    w.project none = .error (.notFound (Path.absolute w.current)) := by
  have hnone : (Path.ancestors (Path.absolute w.current)).find?
      (fun directory => w.isFile (Project.configPath directory)) = none := by
    refine List.find?_eq_none.2 fun directory hdirectory hfile => ?_
    obtain ⟨above, habove, rfl⟩ := Path.exists_prefix_of_mem_ancestorsWithin hw.names hdirectory
    obtain ⟨hnamable, hconfig⟩ := (hw.isFile_configPath_iff habove).1 hfile
    exact hnamable (h above habove hconfig)
  rw [project_none, hnone]

end Workspace

/-! ## Plans from other directories -/

variable {w : Workspace} {place : Location} {directory : String}

namespace Generate

variable {resolved : ResolvedConfig}
  (hpath : ∀ path, resolved.outputPath = some path -> Path.isAbsolute path = true)
include hpath

theorem isAbsolute_deliver (g : Globals) (preface : String) (output : RunOutput) :
    (deliver g preface output resolved.outputPath).IsAbsolute := by
  cases hoption : resolved.outputPath with
  | none => exact Plan.isAbsolute_report _
  | some path =>
      have habsolute := hpath path hoption
      show ∀ c ∈ writing path output.text, Path.isAbsolute c.path = true
      unfold writing
      split
      · simpa [FileChange.path] using habsolute
      · next directory _ hparent =>
          simpa [FileChange.path, habsolute] using Path.isAbsolute_parent? habsolute hparent
      · simpa [FileChange.path] using habsolute

theorem run_inspect_enter (w : Workspace) (place : Location) (g : Globals) (preface : String)
    (output : RunOutput) :
    (inspect g preface output resolved.outputPath : ReaderM Workspace Plan).run (w.enter place) =
      (inspect g preface output resolved.outputPath : ReaderM Workspace Plan).run w := by
  cases hoption : resolved.outputPath with
  | none => rfl
  | some path =>
      show Plan.report (compare g preface path output.text
        ((w.enter place).readText path).toOption) = _
      rw [Workspace.readText_enter w place (hpath path hoption)]
      rfl

theorem run_planRun_enter (w : Workspace) (place : Location) (g : Globals) (check : Bool)
    (types : Registry) :
    (planRun g check resolved types : ReaderM Workspace Plan).run (w.enter place) =
      (planRun g check resolved types : ReaderM Workspace Plan).run w := by
  unfold planRun
  dsimp only
  split
  · rfl
  · cases check with
    | true => exact run_inspect_enter hpath w place g _ _
    | false => rfl

theorem isAbsolute_planRun (w : Workspace) (g : Globals) (check : Bool) (types : Registry) :
    ((planRun g check resolved types : ReaderM Workspace Plan).run w).IsAbsolute := by
  rcases planRun_cases w g check resolved types with
    ⟨-, -, stderr, hplan⟩ | ⟨output, preface, -, hplan⟩
  · rw [hplan]
    exact Plan.isAbsolute_report _
  · rw [hplan]
    cases check with
    | true =>
        obtain ⟨outcome, -, hinspect, -⟩ :=
          exists_inspect w g preface output resolved.outputPath
        rw [if_pos rfl, hinspect]
        exact Plan.isAbsolute_report _
    | false => exact isAbsolute_deliver hpath g preface output

end Generate

namespace Invocation

/-- To generate or to print a graph, for the project that is found from the current directory. -/
structure SeeksProject (i : Invocation) : Prop where
  config : i.globals.config = none
  command : ∀ directory?, i.command ≠ .init directory?

theorem seeksProject_graph {g : Globals} (h : g.config = none) (o : GraphOptions) :
    SeeksProject ⟨g, .graph o⟩ :=
  ⟨h, fun _ => by simp⟩

/-- What is planned is the same from another directory, if the project is found in the same
directory and decides where the output goes. -/
theorem SeeksProject.run_plan_enter {i : Invocation} (hi : i.SeeksProject)
    (houtput : ∀ o, i.command = .generate o -> o.overrides.outputPath = none)
    (hdirectory : Path.isAbsolute directory = true)
    (hproject : w.project none = w.projectIn directory)
    (hproject' : (w.enter place).project none = (w.enter place).projectIn directory) :
    (i.command.plan i.globals : ReaderM Workspace Plan).run (w.enter place) =
        (i.command.plan i.globals : ReaderM Workspace Plan).run w ∧
      ((i.command.plan i.globals : ReaderM Workspace Plan).run w).IsAbsolute := by
  obtain ⟨g, c⟩ := i
  have hconfig : g.config = none := hi.config
  rw [Workspace.projectIn_enter w place hdirectory] at hproject'
  cases c with
  | init directory? => exact (hi.command directory? rfl).elim
  | generate o =>
      simp only [Command.plan, Generate.run_plan, hconfig, hproject, hproject']
      cases hfound : w.projectIn directory with
      | error e => exact ⟨rfl, Plan.isAbsolute_report _⟩
      | ok project =>
          dsimp only
          cases hresolve : project.config.resolve o.overrides project.directory with
          | error e => exact ⟨rfl, Plan.isAbsolute_report _⟩
          | ok resolved =>
              rw [Workspace.directory_of_projectIn hfound] at hresolve
              obtain ⟨hschema, hpath⟩ := Config.isAbsolute_of_resolve hdirectory hresolve
              have hpath := hpath (houtput o rfl)
              dsimp only
              rw [Workspace.types_enter w place hschema]
              cases w.types resolved.schemaPaths with
              | error e => exact ⟨rfl, Plan.isAbsolute_report _⟩
              | ok types =>
                  exact ⟨Generate.run_planRun_enter hpath w place g o.check types,
                    Generate.isAbsolute_planRun hpath w g o.check types⟩
  | graph o =>
      simp only [Command.plan, Graph.run_plan, hconfig, hproject, hproject']
      cases hfound : w.projectIn directory with
      | error e => exact ⟨rfl, Plan.isAbsolute_report _⟩
      | ok project =>
          have hschema : ∀ path ∈ project.config.schemaFiles project.directory,
              Path.isAbsolute path = true := by
            rw [Workspace.directory_of_projectIn hfound]
            simp [Config.schemaFiles, Path.isAbsolute_join hdirectory]
          dsimp only
          rw [Workspace.types_enter w place hschema]
          cases w.types (project.config.schemaFiles project.directory) with
          | error e => exact ⟨rfl, Plan.isAbsolute_report _⟩
          | ok types => exact ⟨rfl, Plan.isAbsolute_report _⟩

theorem SeeksProject.run_plan_of_error {i : Invocation} (hi : i.SeeksProject) {e : ProjectError}
    (h : w.project none = .error e) :
    (i.command.plan i.globals : ReaderM Workspace Plan).run w = .failure "" e.message := by
  obtain ⟨g, c⟩ := i
  have hconfig : g.config = none := hi.config
  cases c with
  | init directory? => exact (hi.command directory? rfl).elim
  | generate o => simp only [Command.plan, Generate.run_plan, hconfig, h]
  | graph o => simp only [Command.plan, Graph.run_plan, hconfig, h]

end Invocation

/-! ## Runs -/

namespace Workspace

variable {above below : Location} {terminal : Bool} {args : List String}

/-- What a run tells that finds no configuration from a directory up. -/
def lostIn (place : Location) : Outcome where
  exit := 1
  stdout := ""
  stderr := "error: could not find cachegen.toml in " ++ Path.absolute place ++
    " or any parent directory\n"

theorem failure_notFound (place : Location) :
    Outcome.failure "" (ProjectError.notFound (Path.absolute place)).message = lostIn place := by
  unfold Outcome.failure ProjectError.message lostIn Config.fileName
  simp [← String.toList_inj]

theorem runAt_of_notFound {i : Invocation} (hread : CommandLine.read terminal args = .ok i)
    (hi : i.SeeksProject)
    (h : w.project none = .error (.notFound (Path.absolute w.current))) :
    w.runAt terminal args = (lostIn w.current, w) := by
  rw [runAt_of_read hread, hi.run_plan_of_error h, ← failure_notFound]
  rfl

/-- Both runs fail, and each names the directory that it was run in. -/
structure Lost (w : Workspace) (above : Location) (terminal : Bool) (args : List String) :
    Prop where
  unnamable : Unnamable above
  here : w.runAt terminal args = (lostIn w.current, w)
  there : (w.enter above).runAt terminal args = (lostIn above, w.enter above)

theorem Sound.runAt_enter (hw : w.Sound) (hcurrent : w.current = above ++ below)
    (hconfig : HasConfig w above)
    (hbelow : ∀ front, front ≠ [] -> front <+: below -> ¬ HasConfig w (above ++ front))
    (hargs : ∀ i, CommandLine.read terminal args = .ok i -> i.SeeksProject ∧
      ∀ o, i.command = .generate o -> o.overrides.outputPath = none) :
    (w.enter above).runAt terminal args =
        ((w.runAt terminal args).1, (w.runAt terminal args).2.enter above) ∨
      Lost w above terminal args := by
  cases hread : CommandLine.read terminal args with
  | error stop =>
      rw [runAt_of_stop hread, runAt_of_stop hread]
      exact .inl rfl
  | ok i =>
      obtain ⟨hi, houtput⟩ := hargs i hread
      cases hw.finds hcurrent hbelow with
      | project hdirectory hhere hthere =>
          obtain ⟨hplan, habsolute⟩ := hi.run_plan_enter houtput hdirectory hhere hthere
          rw [runAt_of_read hread, runAt_of_read hread, hplan, carryOut_enter habsolute]
          exact .inl rfl
      | nothing hunseen hhere hthere =>
          have hunnamable : Unnamable above := by
            by_contra hnamable
            have hfile := (hw.isFile_configPath_iff ⟨below, hcurrent.symm⟩).2 ⟨hnamable, hconfig⟩
            rw [hunseen] at hfile
            cases hfile
          exact .inr ⟨hunnamable, runAt_of_notFound hread hi hhere,
            runAt_of_notFound hread hi hthere⟩

/--
The nearest project decides what a command does. Run in a directory below it, with no other
configuration on the way, the command leaves the same outcome and the same files behind as in the
project's own directory; only if the path of the configuration is refused, and there is none
further up, does each run name its own directory in its error. Where no configuration is found up to
the root, the command fails, writes nothing to the standard output and changes nothing.
-/
theorem runAt_of_project (hw : w.Sound) (terminal : Bool) (args : List String) :
    (∀ above below, w.current = above ++ below -> HasConfig w above ->
      (∀ front, front ≠ [] -> front <+: below -> ¬ HasConfig w (above ++ front)) ->
      (∀ i, CommandLine.read terminal args = .ok i -> i.SeeksProject ∧
        ∀ o, i.command = .generate o -> o.overrides.outputPath = none) ->
      (w.runAt terminal args).1.exit = ((w.enter above).runAt terminal args).1.exit ∧
      (w.runAt terminal args).1.stdout = ((w.enter above).runAt terminal args).1.stdout ∧
      (w.runAt terminal args).2.tree = ((w.enter above).runAt terminal args).2.tree ∧
      ((w.runAt terminal args).1.stderr = ((w.enter above).runAt terminal args).1.stderr ∨
        Lost w above terminal args)) ∧
    (∀ i, CommandLine.read terminal args = .ok i -> i.SeeksProject ->
      (∀ above, above <+: w.current -> ¬ HasConfig w above) ->
      w.runAt terminal args = (lostIn w.current, w)) := by
  constructor
  · intro above below hcurrent hconfig hbelow hargs
    rcases hw.runAt_enter hcurrent hconfig hbelow hargs with hsame | hlost
    · rw [hsame]
      exact ⟨rfl, rfl, rfl, .inl rfl⟩
    · refine ⟨?_, ?_, ?_, .inr hlost⟩ <;> rw [hlost.here, hlost.there] <;> rfl
  · intro i hread hi hnone
    exact runAt_of_notFound hread hi
      (hw.project_of_unnamable fun above habove hconfig => (hnone above habove hconfig).elim)

/-- Documents in the project of an example, with a directory where a configuration could be. -/
def documents : Workspace :=
  ((Generate.shop.set ["shop", "docs"] .directory).set ["shop", "docs", "cachegen.toml"]
    .directory).enter ["shop", "docs"]

theorem sound_documents : documents.Sound := by
  refine ⟨FileTree.rooted_of_forall_mem (by decide), by decide, ?_⟩
  intro name hname
  have hcases : name = "shop" ∨ name = "docs" := by simpa [documents, enter] using hname
  rcases hcases with rfl | rfl <;> exact ⟨by decide, by decide, by decide, by decide⟩

theorem read_graph : CommandLine.read false ["graph"] =
    .ok ⟨⟨false, false, false, none⟩, .graph ⟨none, .text⟩⟩ := by
  decide +kernel

theorem runAt_documents :
    (documents.runAt false ["generate"]).1.exit = 0 ∧
    ((documents.enter ["shop"]).runAt false ["generate"]).1.exit = 0 ∧
    (documents.runAt false ["generate"]).1.stdout =
      ((documents.enter ["shop"]).runAt false ["generate"]).1.stdout ∧
    (documents.runAt false ["generate"]).1.stderr =
      ((documents.enter ["shop"]).runAt false ["generate"]).1.stderr ∧
    (documents.runAt false ["generate"]).2.tree =
      ((documents.enter ["shop"]).runAt false ["generate"]).2.tree ∧
    (documents.enter []).runAt false ["graph"] = (lostIn [], documents.enter []) := by
  have hread : CommandLine.read false ["generate"] =
      .ok ⟨⟨false, false, false, none⟩, .generate ⟨Overrides.none, false⟩⟩ := by decide +kernel
  have hconfig : HasConfig documents ["shop"] := ⟨_, rfl⟩
  have hdocs : ∀ front : Location, front ≠ [] -> front <+: ["docs"] ->
      ¬ HasConfig documents (["shop"] ++ front) := by
    rintro front hne hfront ⟨content, hcontent⟩
    obtain rfl | rfl : front = [] ∨ front = ["docs"] := by
      simpa [List.prefix_cons_iff] using hfront
    · exact hne rfl
    · cases hcontent
  have hroot : ∀ above, above <+: (documents.enter []).current ->
      ¬ HasConfig (documents.enter []) above := by
    rintro above habove ⟨content, hcontent⟩
    obtain rfl : above = [] := List.prefix_nil.1 habove
    cases hcontent
  obtain ⟨hthere, -⟩ := runAt_of_project sound_documents false ["generate"]
  have hsound : (documents.enter []).Sound := sound_documents.enter rfl
  have hnowhere := (runAt_of_project hsound false ["graph"]).2
  obtain ⟨hexit, hstdout, htree, hstderr⟩ := hthere ["shop"] ["docs"] rfl hconfig hdocs (by
    intro i hi
    obtain rfl := Except.ok.inj (hread.symm.trans hi)
    refine ⟨⟨rfl, fun _ => by simp⟩, ?_⟩
    rintro o ⟨⟩
    rfl)
  have hzero : (documents.runAt false ["generate"]).1.exit = 0 := by decide +kernel
  have hfound : ¬ Lost documents ["shop"] false ["generate"] := by
    intro hlost
    rw [hlost.here] at hzero
    cases hzero
  exact ⟨hzero, hexit ▸ hzero, hstdout, hstderr.resolve_right hfound, htree,
    hnowhere _ read_graph (Invocation.seeksProject_graph rfl _) hroot⟩

/-! ## A project out of reach -/

/-- A project with a directory `d` in it, and nothing else but the way there. -/
def buried (place : Location) : Workspace where
  tree := ((FileTree.mk (place.inits.map fun front => (front, .directory))).set (place ++ ["d"])
    .directory).set (place ++ [Config.fileName]) (.file (.text ""))
  current := place ++ ["d"]

theorem get?_buried (place other : Location) :
    (buried place).tree.get? other =
      if other = place ++ [Config.fileName] then some (.file (.text ""))
      else if other = place ++ ["d"] ∨ other <+: place then some .directory
      else none := by
  unfold buried
  split
  · next hconfig => rw [hconfig, FileTree.get?_set_concat]
  · next hconfig =>
      rw [FileTree.get?_set_of_ne _ hconfig]
      by_cases hd : other = place ++ ["d"]
      · rw [hd, FileTree.get?_set_concat, if_pos (.inl rfl)]
      · rw [FileTree.get?_set_of_ne _ hd]
        cases other with
        | nil => simp [FileTree.get?]
        | cons name rest =>
            by_cases hfront : name :: rest <+: place
            · rw [if_pos (.inr hfront)]
              exact List.lookup_graph _ ((List.mem_inits _ _).2 hfront)
            · rw [if_neg (not_or.2 ⟨hd, hfront⟩)]
              refine List.lookup_eq_none_iff.2 fun e he => ?_
              obtain ⟨front, hmem, rfl⟩ := List.mem_map.1 he
              have hne : name :: rest ≠ front :=
                fun heq => hfront (heq ▸ (List.mem_inits _ _).1 hmem)
              simpa using hne

theorem hasConfig_buried_iff {place other : Location} :
    HasConfig (buried place) other ↔ other = place := by
  simp only [HasConfig, get?_buried, List.append_left_inj]
  constructor
  · rintro ⟨content, hcontent⟩
    by_contra hne
    rw [if_neg hne] at hcontent
    split at hcontent <;> cases hcontent
  · intro heq
    exact ⟨_, if_pos heq⟩

theorem get?_buried_above {place front : Location} (h : front <+: place) :
    (buried place).tree.get? front = some .directory := by
  have hne : front ≠ place ++ [Config.fileName] := by
    intro heq
    have hlength := h.length_le
    rw [heq, List.length_append, List.length_singleton] at hlength
    omega
  rw [get?_buried, if_neg hne, if_pos (.inr h)]

theorem rooted_buried (place : Location) : (buried place).tree.Rooted := by
  intro other hother
  rw [get?_buried] at hother
  refine get?_buried_above ?_
  split at hother
  · next hconfig => simp [hconfig]
  · split at hother
    · next hfront =>
        rcases hfront with rfl | hfront
        · simp
        · exact (List.dropLast_prefix _).trans hfront
    · exact absurd rfl hother

theorem sound_buried {place : Location} (h : ∀ name ∈ place, Path.IsName name) :
    (buried place).Sound := by
  refine ⟨rooted_buried place, ?_, ?_⟩
  · have hne : place ++ ["d"] ≠ place ++ [Config.fileName] := by
      rw [ne_eq, List.append_right_inj]
      decide
    show (buried place).tree.get? (place ++ ["d"]) = _
    rw [get?_buried, if_neg hne, if_pos (.inl rfl)]
  · intro name hname
    rcases List.mem_append.1 hname with hname | hname
    · exact h name hname
    · rw [List.mem_singleton.1 hname]
      exact ⟨by decide, by decide, by decide, by decide⟩

theorem stderr_lostIn_ne {above below : Location} (h : Path.absolute above ≠ Path.absolute below) :
    (lostIn above).stderr ≠ (lostIn below).stderr := by
  intro heq
  have hlist := congrArg String.toList heq
  simp only [lostIn, String.toList_append, List.append_left_inj, List.append_right_inj] at hlist
  exact h (String.toList_inj.1 hlist)

/-- A configuration that is there but cannot be named is found from nowhere. -/
theorem stderr_buried_ne {place : Location} (hnames : ∀ name ∈ place, Path.IsName name)
    (hne : place ≠ []) (h : Unnamable place) :
    ((buried place).runAt false ["graph"]).1.stderr ≠
      (((buried place).enter place).runAt false ["graph"]).1.stderr := by
  have hseeks := Invocation.seeksProject_graph (g := ⟨false, false, false, none⟩) rfl ⟨none, .text⟩
  have hunseen : ∀ above, HasConfig (buried place) above -> Unnamable above := by
    intro above habove
    rwa [hasConfig_buried_iff.1 habove]
  have hsound := sound_buried hnames
  have hhere := runAt_of_notFound read_graph hseeks
    (hsound.project_of_unnamable fun above _ => hunseen above)
  have hthere := runAt_of_notFound read_graph hseeks
    ((hsound.enter rfl).project_of_unnamable fun above _ => hunseen above)
  rw [hhere, hthere]
  refine stderr_lostIn_ne fun hsame => ?_
  have hsize := congrArg String.utf8ByteSize hsame
  have hlonger := Path.utf8ByteSize_absolute_concat hne "d"
  change (Path.absolute (place ++ ["d"])).utf8ByteSize = (Path.absolute place).utf8ByteSize at hsize
  omega

/-- A place whose path is not too long, while that of a configuration in it is. -/
def depths : Location :=
  List.replicate 18 (String.ofList (List.replicate 226 'a'))

theorem depths_ne_nil : depths ≠ [] := by
  rw [depths, ne_eq, List.replicate_eq_nil_iff]
  decide

theorem isName_of_mem_depths {name : String} (h : name ∈ depths) : Path.IsName name := by
  rw [List.eq_of_mem_replicate h]
  refine ⟨by decide +kernel, by decide +kernel, ?_, by decide +kernel⟩
  rw [String.toList_ofList, List.mem_replicate]
  exact fun hslash => absurd hslash.2 (by decide)

theorem utf8ByteSize_absolute_depths : (Path.absolute depths).utf8ByteSize = 4086 := by
  have hname : (String.ofList (List.replicate 226 'a')).utf8ByteSize = 226 := by decide +kernel
  rw [depths, Path.utf8ByteSize_absolute_replicate, hname]

theorem unnamable_depths : Unnamable depths := by
  have hfile : Config.fileName.utf8ByteSize = 13 := by decide
  right
  rw [Project.configPath, Path.join_absolute (fun _ => isName_of_mem_depths)
    isName_fileName.noSlash, Path.utf8ByteSize_absolute_concat depths_ne_nil,
    utf8ByteSize_absolute_depths, hfile, Path.maxSize]
  omega

/-- A project too deep for its configuration to be named; and a command line that is refused before
any configuration is looked for. -/
theorem stderr_depths :
    (buried depths).Sound ∧ (buried depths).current = depths ++ ["d"] ∧
    (Path.absolute (buried depths).current).utf8ByteSize <= Path.maxSize ∧
    HasConfig (buried depths) depths ∧ ¬ HasConfig (buried depths) (depths ++ ["d"]) ∧
    ((buried depths).runAt false ["graph"]).1.stderr ≠
      (((buried depths).enter depths).runAt false ["graph"]).1.stderr ∧
    (∀ place, ¬ HasConfig ⟨FileTree.empty, []⟩ place) ∧
    ((Workspace.mk FileTree.empty []).runAt false ["generate", "--frob"]).1.exit = 2 := by
  have hd : "d".utf8ByteSize = 1 := by decide
  have hsize : (Path.absolute (depths ++ ["d"])).utf8ByteSize = 4088 := by
    rw [Path.utf8ByteSize_absolute_concat depths_ne_nil, utf8ByteSize_absolute_depths, hd]
  refine ⟨sound_buried fun _ => isName_of_mem_depths, rfl, ?_, hasConfig_buried_iff.2 rfl, ?_,
    stderr_buried_ne (fun _ => isName_of_mem_depths) depths_ne_nil unnamable_depths, ?_,
    by decide +kernel⟩
  · exact hsize.le.trans (by decide)
  · rw [hasConfig_buried_iff]
    simp
  · rintro place ⟨content, hcontent⟩
    cases place <;> cases hcontent

end Workspace

end InstanceForge

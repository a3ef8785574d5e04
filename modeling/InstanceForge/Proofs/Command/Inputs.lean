import InstanceForge.Command.Line
import InstanceForge.Proofs.Files.Change
import Mathlib.Data.List.Find

/-!
# Inputs of commands

The project and the schema files that a command reads. Writing a text elsewhere leaves them as
they are, and the project is found in the same directory again.
-/

namespace InstanceForge

namespace Workspace

theorem run_bind {α β : Type} (x : ReaderM Workspace α) (f : α -> ReaderM Workspace β)
    (w : Workspace) : (x >>= f).run w = (f (x.run w)).run w := rfl

def project (w : Workspace) (config : Option String) : Except ProjectError Project :=
  (Project.load config : ReaderM Workspace _).run w

def types (w : Workspace) (paths : List String) : Except SchemaFileError Registry :=
  (Registry.ofFiles paths : ReaderM Workspace _).run w

def projectIn (w : Workspace) (directory : String) : Except ProjectError Project :=
  Project.ofConfig directory (Project.configPath directory)
    (Config.ofFile (w.readText (Project.configPath directory)))

variable {w w' : Workspace} {place : Location} {text : String}

/-! ## Projects -/

theorem project_some (w : Workspace) (path : String) :
    w.project (some path) =
      if w.isFile path then Project.ofFile path (w.readText path) else w.projectIn path := by
  unfold project Project.load
  rw [run_bind]
  show ReaderT.run (if w.isFile path = true then _ else _) w = _
  split <;> rfl

theorem nearest?_eq_find? (w : Workspace) (directories : List String) :
    (Project.nearest? directories : ReaderM Workspace _).run w =
      directories.find? fun directory => w.isFile (Project.configPath directory) := by
  induction directories with
  | nil => rfl
  | cons directory rest ih =>
      rw [Project.nearest?, run_bind, List.find?_cons]
      show ReaderT.run (if w.isFile (Project.configPath directory) = true then _ else _) w = _
      cases w.isFile (Project.configPath directory) with
      | true => rfl
      | false => exact ih

theorem project_none (w : Workspace) :
    w.project none =
      match (Path.ancestors (Path.absolute w.current)).find?
        fun directory => w.isFile (Project.configPath directory) with
      | some directory => w.projectIn directory
      | none => .error (.notFound (Path.absolute w.current)) := by
  unfold project Project.load
  rw [run_bind]
  show ReaderT.run (Project.nearest? (Path.ancestors (Path.absolute w.current)) >>= _) w = _
  rw [run_bind, nearest?_eq_find?]
  cases (Path.ancestors (Path.absolute w.current)).find?
    fun directory => w.isFile (Project.configPath directory) <;> rfl

theorem isName_fileName : Path.IsName Config.fileName :=
  ⟨by decide, by decide, by decide, by decide⟩

theorem exists_readText_of_ofFile {path : String} {project : Project}
    (h : Project.ofFile path (w.readText path) = .ok project) :
    ∃ found, w.readText path = .ok found := by
  cases hread : w.readText path with
  | ok found => exact ⟨found, rfl⟩
  | error fault =>
      rw [hread] at h
      cases h

theorem exists_readText_of_projectIn {directory : String} {project : Project}
    (h : w.projectIn directory = .ok project) :
    ∃ found, w.readText (Project.configPath directory) = .ok found := by
  cases hread : w.readText (Project.configPath directory) with
  | ok found => exact ⟨found, rfl⟩
  | error fault =>
      rw [projectIn, hread] at h
      cases h

/-! ## Inputs after a text was written -/

section Wrote

variable (h : Wrote w w' place text)
include h

theorem Wrote.readText_configPath (hname : place.getLast? ≠ some Config.fileName)
    {directory found : String} (hread : w.readText (Project.configPath directory) = .ok found) :
    w'.readText (Project.configPath directory) = .ok found := by
  refine h.readText hread fun hresolve => hname ?_
  exact getLast?_of_resolve_join isName_fileName hresolve

theorem Wrote.projectIn (hname : place.getLast? ≠ some Config.fileName)
    {directory : String} {project : Project} (hproject : w.projectIn directory = .ok project) :
    w'.projectIn directory = .ok project := by
  obtain ⟨found, hread⟩ := exists_readText_of_projectIn hproject
  rw [Workspace.projectIn, hread] at hproject
  rw [Workspace.projectIn, h.readText_configPath hname hread, hproject]

/-- Above the current directory there are the same configuration files. -/
theorem Wrote.isFile_configPath (hw : w.Sound) (hname : place.getLast? ≠ some Config.fileName)
    {directory : String} (hdirectory : directory ∈ Path.ancestors (Path.absolute w.current)) :
    w'.isFile (Project.configPath directory) = w.isFile (Project.configPath directory) := by
  obtain ⟨above, habove, rfl⟩ := Path.exists_prefix_of_mem_ancestorsWithin hw.names hdirectory
  have hapart : above ++ [Config.fileName] ≠ place := by
    rintro rfl
    exact hname List.getLast?_concat
  have hcontent := (h.kept _ hapart).content?
  have habove' : above <+: w'.current := h.current ▸ habove
  rw [Bool.eq_iff_iff, Project.configPath, hw.isFile_join_absolute habove isName_fileName,
    (h.sound hw).isFile_join_absolute habove' isName_fileName]
  simp only [← FileTree.content?_eq_some_iff, hcontent]

theorem Wrote.project (hw : w.Sound) (hname : place.getLast? ≠ some Config.fileName)
    {config : Option String} (hconfig : ∀ path, config = some path -> w.resolve path ≠ .ok place)
    {project : Project} (hproject : w.project config = .ok project) :
    w'.project config = .ok project := by
  cases config with
  | some path =>
      rw [project_some] at hproject ⊢
      split at hproject
      · obtain ⟨found, hread⟩ := exists_readText_of_ofFile hproject
        have hread' := h.readText hread (hconfig path rfl)
        rw [hread] at hproject
        rw [if_pos (isFile_of_readText hread'), hread', hproject]
      · obtain ⟨found, hread⟩ := exists_readText_of_projectIn hproject
        have hread' := h.readText_configPath hname hread
        obtain ⟨other, hresolve, _⟩ := readText_eq_ok_iff.1 hread'
        have hfile := isFile_of_resolve_join isName_fileName.noSlash hresolve
        rw [hfile, if_neg Bool.false_ne_true, h.projectIn hname hproject]
  | none =>
      rw [project_none] at hproject ⊢
      rw [h.current, List.find?_congr fun directory hdirectory =>
        h.isFile_configPath hw hname hdirectory]
      split at hproject
      · exact h.projectIn hname hproject
      · cases hproject

theorem Wrote.extendFiles {r types : Registry} {paths : List String}
    (hpaths : ∀ path ∈ paths, w.resolve path ≠ .ok place)
    (htypes : (r.extendFiles paths : ReaderM Workspace _).run w = .ok types) :
    (r.extendFiles paths : ReaderM Workspace _).run w' = .ok types := by
  induction paths generalizing r with
  | nil => exact htypes
  | cons path rest ih =>
      rw [List.forall_mem_cons] at hpaths
      rw [Registry.extendFiles, run_bind] at htypes ⊢
      have hstep : ∀ v : Workspace,
          (FileReader.readText path : ReaderM Workspace _).run v = v.readText path := fun _ => rfl
      rw [hstep] at htypes ⊢
      cases hread : w.readText path with
      | error fault =>
          rw [hread] at htypes
          cases htypes
      | ok found =>
          rw [hread] at htypes
          rw [h.readText hread hpaths.1]
          split at htypes
          · cases htypes
          · exact ih hpaths.2 htypes

theorem Wrote.types {paths : List String} (hpaths : ∀ path ∈ paths, w.resolve path ≠ .ok place)
    {types : Registry} (htypes : w.types paths = .ok types) : w'.types paths = .ok types :=
  h.extendFiles hpaths htypes

end Wrote

end Workspace

end InstanceForge

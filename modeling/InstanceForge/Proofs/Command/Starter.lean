import InstanceForge.Proofs.Command.Inputs
import InstanceForge.Proofs.Files.Making
import Mathlib.Data.List.Nodup

/-!
# Starting a project

What the command that starts a project leaves behind. No file that is there is changed, and a run
that succeeds adds both files. A run that fails adds neither, unless it is stranded between them:
both files are looked for before any directory is made, so what making directories brings within
reach is only met when the schema file is created, after the configuration.
-/

namespace InstanceForge

open InstanceForge.Path (join)
open Project (configPath)

namespace Workspace

variable {w after next : Workspace} {files : List (String × String)} {path text : String}
  {place : Location}

/-! ## Added files -/

/-- A place where nothing was holds a text, and a path leads to it. -/
structure NewFile (w after : Workspace) (file : String × String) (place : Location) : Prop where
  resolve : after.resolve file.1 = .ok place
  free : w.tree.get? place = none
  content : after.tree.content? place = some (.text file.2)

/-- Some files are new, at different places, and no other file is new or differs. -/
structure Adds (w after : Workspace) (files : List (String × String)) : Prop where
  current : after.current = w.current
  larger : w.tree.Extends after.tree
  places : ∃ places : List Location, places.Nodup ∧ List.Forall₂ (NewFile w after) files places ∧
    ∀ other, other ∉ places -> after.tree.content? other = w.tree.content? other

theorem Dug.adds (h : Dug w after) : Adds w after [] :=
  ⟨h.current, h.extends, [], List.nodup_nil, .nil, fun other _ => (h.kept other).content?⟩

/-- A text that is created is one more file. -/
theorem Adds.create (h : Adds w after files) (hcreate : after.create path text = .ok next) :
    Adds w next (files ++ [(path, text)]) := by
  obtain ⟨place, hwrote, hresolve, hfree, -⟩ := wrote_of_create hcreate
  obtain ⟨places, hnodup, hfiles, hothers⟩ := h.places
  have hlarger : w.tree.Extends next.tree :=
    ⟨fun other hother => hwrote.extends.directory _ (h.larger.directory _ hother),
      fun other hother => hwrote.extends.present _ (h.larger.present _ hother)⟩
  have hempty : after.tree.content? place = none := by
    simp [FileTree.content?, hfree]
  have hkept : ∀ {other}, other ≠ place ->
      next.tree.content? other = after.tree.content? other :=
    fun {other} hother => (hwrote.kept other hother).content?
  have hearlier : ∀ f other, NewFile w after f other -> NewFile w next f other := by
    intro f other hf
    have hother : other ≠ place := by
      rintro rfl
      exact nomatch hempty.symm.trans hf.content
    exact ⟨resolve_of_extends hwrote.current hwrote.extends hf.resolve, hf.free,
      (hkept hother).trans hf.content⟩
  have hlast : NewFile w next (path, text) place := by
    refine ⟨hresolve, ?_, FileTree.content?_eq_some_iff.2 hwrote.text⟩
    by_contra hpresent
    exact h.larger.present _ hpresent hfree
  have hnew : place ∉ places := by
    intro hmem
    obtain ⟨f, -, hf⟩ := exists_of_forall₂ hfiles.flip hmem
    exact nomatch hempty.symm.trans hf.content
  refine ⟨hwrote.current.trans h.current, hlarger, places ++ [place], ?_,
    List.rel_append (hfiles.imp hearlier) (.cons hlast .nil), fun other hother => ?_⟩
  · exact List.nodup_append_comm.1 (List.nodup_cons.2 ⟨hnew, hnodup⟩)
  · rw [List.mem_append, List.mem_singleton, not_or] at hother
    rw [hkept hother.2, hothers other hother.1]

/-- A file that is there keeps what it holds. -/
theorem Adds.content? (h : Adds w after files) {content : FileContent}
    (hcontent : w.tree.content? place = some content) :
    after.tree.content? place = some content := by
  obtain ⟨places, -, hfiles, hothers⟩ := h.places
  rw [hothers place, hcontent]
  intro hmem
  obtain ⟨f, -, hf⟩ := exists_of_forall₂ hfiles.flip hmem
  simp [FileTree.content?, hf.free] at hcontent

end Workspace

namespace Starter

open Workspace (Adds Dug)

variable {w made half after : Workspace} {directory : String} {place : Location}

/-! ## Paths -/

def schemaPath (directory : String) : String :=
  join directory schemaFile

def schemaDirectory (directory : String) : String :=
  join directory "schema"

theorem isName_schema : Path.IsName "schema" :=
  ⟨by decide, by decide, by decide, by decide⟩

theorem isName_models : Path.IsName "models.toml" :=
  ⟨by decide, by decide, by decide, by decide⟩

theorem segments_schemaDirectory (directory : String) :
    Path.segments (schemaDirectory directory) =
      Path.openEnd (Path.segments directory) ++ ["schema"] :=
  Path.segments_join directory isName_schema.noSlash

theorem schemaDirectory_ne_empty (directory : String) : schemaDirectory directory ≠ "" := by
  have hrelative : Path.isAbsolute "schema" = false := by decide
  rcases Path.join_cases directory hrelative with h | h <;> simp [schemaDirectory, h]

theorem schemaPath_eq_join (directory : String) :
    schemaPath directory = join (schemaDirectory directory) "models.toml" := by
  have hfile : schemaFile = "schema" ++ "/" ++ "models.toml" := by decide
  have hrelative : Path.isAbsolute "models.toml" = false := by decide
  have hclosed : ∀ front : String, Path.endsOpen (front ++ "schema") = false := by
    intro front
    have hlast : "schema".toList = ['s', 'c', 'h', 'e', 'm', 'a'] := by decide
    simp [Path.endsOpen, hlast]
  have hjoin : ∀ front : String,
      join (front ++ "schema") "models.toml" = front ++ schemaFile := by
    intro front
    rw [join, hrelative, if_neg Bool.false_ne_true, hclosed, if_neg Bool.false_ne_true, hfile]
    simp only [String.append_assoc]
  have hbelow : Path.isAbsolute schemaFile = false := by decide
  have habove : Path.isAbsolute "schema" = false := by decide
  have hdirectory : schemaDirectory directory =
      (if Path.endsOpen directory then directory else directory ++ "/") ++ "schema" := by
    rw [schemaDirectory, join, habove, if_neg Bool.false_ne_true]
    split <;> rfl
  rw [hdirectory, hjoin, schemaPath, join, hbelow, if_neg Bool.false_ne_true]
  split <;> rfl

theorem parent?_schemaPath (directory : String) :
    Path.parent? (schemaPath directory) = some (schemaDirectory directory) := by
  rw [schemaPath_eq_join]
  exact Path.parent?_join (segments_schemaDirectory directory) isName_schema.notIdle
    isName_models.notIdle isName_models.noSlash

theorem files_eq (directory : String) :
    files directory =
      [(configPath directory, starterConfig), (schemaPath directory, starterSchema)] := rfl

/-! ## Endings -/

def Clear (w : Workspace) (directory : String) : Prop :=
  ∀ f ∈ files directory, w.isPresent f.1 = false

/-- The directory of the schema file is made, from a workspace with neither of the files. -/
structure Opens (w : Workspace) (directory : String) (made : Workspace) : Prop where
  clear : Clear w directory
  made : w.makeDirectories (schemaDirectory directory) = (made, none)

/-- How far the command gets, with its exit code and what it leaves. -/
inductive Ends (w : Workspace) (directory : String) : Nat -> Workspace -> Prop where
  | refused : ¬ Clear w directory -> Ends w directory 1 w
  | noDirectory {made : Workspace} {e : FileFault} : Clear w directory ->
      w.makeDirectories (schemaDirectory directory) = (made, some e) -> Ends w directory 1 made
  | noConfig {made : Workspace} {e : FileFault} : Opens w directory made ->
      made.create (configPath directory) starterConfig = .error e -> Ends w directory 1 made
  | noSchema {made half : Workspace} {e : FileFault} : Opens w directory made ->
      made.create (configPath directory) starterConfig = .ok half ->
      half.create (schemaPath directory) starterSchema = .error e -> Ends w directory 1 half
  | finished {made half after : Workspace} : Opens w directory made ->
      made.create (configPath directory) starterConfig = .ok half ->
      half.create (schemaPath directory) starterSchema = .ok after -> Ends w directory 0 after

theorem run_firstPresent? (w : Workspace) (paths : List String) :
    (firstPresent? paths : ReaderM Workspace (Option String)).run w =
      paths.find? fun path => w.isPresent path := by
  induction paths with
  | nil => rfl
  | cons path rest ih =>
      rw [firstPresent?, Workspace.run_bind, List.find?_cons]
      show ReaderT.run (if w.isPresent path = true then _ else _) w = _
      cases w.isPresent path with
      | true => rfl
      | false => exact ih

theorem run_plan (w : Workspace) (g : Globals) (directory? : Option String) :
    (plan g directory? : ReaderM Workspace Plan).run w =
      (planIn g (directory?.getD (Path.absolute w.current)) : ReaderM Workspace Plan).run w := by
  cases directory? with
  | some directory => rfl
  | none =>
      unfold plan
      rw [Workspace.run_bind]
      rfl

theorem scaffold_changes (g : Globals) (directory : String) :
    (scaffold g directory).changes =
      [.makeDirectories (schemaDirectory directory),
        .create (configPath directory) starterConfig,
        .create (schemaPath directory) starterSchema] := by
  have hparent := parent?_schemaPath directory
  rw [schemaPath] at hparent
  simp only [scaffold, hparent]
  rfl

theorem ends_scaffold (g : Globals) (hclear : Clear w directory) :
    Ends w directory (w.carryOut (scaffold g directory)).1.exit
      (w.carryOut (scaffold g directory)).2 := by
  unfold Workspace.carryOut
  rw [scaffold_changes]
  simp only [Workspace.changeAll, Workspace.change]
  cases hmade : w.makeDirectories (schemaDirectory directory) with
  | mk made fault? =>
      cases fault? with
      | some e => exact .noDirectory hclear hmade
      | none =>
          have hopens : Opens w directory made := ⟨hclear, hmade⟩
          cases hconfig : made.create (configPath directory) starterConfig with
          | error e =>
              simp only [hconfig, Workspace.settle]
              exact .noConfig hopens hconfig
          | ok half =>
              cases hschema : half.create (schemaPath directory) starterSchema with
              | error e =>
                  simp only [hconfig, hschema, Workspace.settle]
                  exact .noSchema hopens hconfig hschema
              | ok after =>
                  simp only [hconfig, hschema, Workspace.settle]
                  exact .finished hopens hconfig hschema

theorem ends_run (w : Workspace) (g : Globals) (directory? : Option String) :
    Ends w (directory?.getD (Path.absolute w.current)) (w.run g (.init directory?)).1.exit
      (w.run g (.init directory?)).2 := by
  have hrun : w.run g (.init directory?) =
      w.carryOut ((plan g directory? : ReaderM Workspace Plan).run w) := rfl
  rw [hrun, run_plan, planIn, Workspace.run_bind, run_firstPresent?]
  cases hfound : ((files (directory?.getD (Path.absolute w.current))).map (·.1)).find?
      fun path => w.isPresent path with
  | some path =>
      refine .refused fun hclear => ?_
      obtain ⟨f, hf, rfl⟩ := List.mem_map.1 (List.mem_of_find?_eq_some hfound)
      exact Bool.false_ne_true ((hclear f hf).symm.trans (List.find?_some hfound))
  | none =>
      refine ends_scaffold g fun f hf => ?_
      have habsent := List.find?_eq_none.1 hfound f.1 (List.mem_map_of_mem hf)
      rwa [Bool.not_eq_true] at habsent

/-! ## Stranded runs -/

theorem Opens.dug (h : Opens w directory made) : Dug w made :=
  Workspace.dug_of_makeDirectories h.made

/-- The path of the schema file leads into the directory that is made for it. -/
theorem Opens.exists_place (h : Opens w directory made) :
    ∃ place, made.resolve (schemaDirectory directory) = .ok place ∧
      made.tree.get? place = some .directory := by
  have hmade := Workspace.isDirectory_of_makeDirectories (w := w)
    (schemaDirectory_ne_empty directory) (by rw [h.made])
  rw [h.made] at hmade
  exact Workspace.isDirectory_eq_true_iff.1 hmade

/--
A run that creates the configuration and then cannot create the schema file, though neither was
there: the path of the schema file is too long, or leads to something once directories are made.
-/
def Strands (w : Workspace) (directory : String) : Prop :=
  ∃ made half, Opens w directory made ∧
    made.create (configPath directory) starterConfig = .ok half ∧
    (Path.maxSize < (schemaPath directory).utf8ByteSize ∨
      made.isPresent (schemaPath directory) = true)

/-- Of the two paths only the length can be a reason to refuse the second. -/
theorem fault?_schemaPath_ne_none_iff (h : Path.fault? (configPath directory) = none) :
    Path.fault? (schemaPath directory) ≠ none ↔
      Path.maxSize < (schemaPath directory).utf8ByteSize := by
  obtain ⟨hnul, -, -⟩ := Path.fault?_eq_none_iff.1 h
  have hslash : '\x00' ≠ '/' := by decide
  have hconfig : Path.isAbsolute Config.fileName = false := by decide
  have hschema : Path.isAbsolute schemaFile = false := by decide
  have hfile : '\x00' ∉ schemaFile.toList := by decide
  rw [configPath, Path.mem_toList_join_iff hslash directory hconfig, not_or] at hnul
  have hsound : '\x00' ∉ (schemaPath directory).toList := by
    rw [schemaPath, Path.mem_toList_join_iff hslash directory hschema, not_or]
    exact ⟨hnul.1, hfile⟩
  have hne : schemaPath directory ≠ "" := by
    intro hempty
    have hroot : Path.parent? "" = none := by decide
    have hparent := parent?_schemaPath directory
    rw [hempty, hroot] at hparent
    cases hparent
  rw [ne_eq, Path.fault?_eq_none_iff]
  simp [hsound, hne]

theorem Opens.exists_error_create_iff (h : Opens w directory made)
    (hhalf : made.create (configPath directory) starterConfig = .ok half) :
    (∃ e, half.create (schemaPath directory) starterSchema = .error e) ↔
      Path.maxSize < (schemaPath directory).utf8ByteSize ∨
        made.isPresent (schemaPath directory) = true := by
  obtain ⟨place, hplace, hdirectory⟩ := h.exists_place
  obtain ⟨config, hwrote, hconfig, -, hset⟩ := Workspace.wrote_of_create hhalf
  have hother : place ++ ["models.toml"] ≠ config := by
    rintro rfl
    have hlast := Workspace.getLast?_of_resolve_join Workspace.isName_fileName hconfig
    rw [List.getLast?_concat] at hlast
    exact absurd hlast (by decide)
  have hsame : half.tree.get? (place ++ ["models.toml"]) =
      made.tree.get? (place ++ ["models.toml"]) := by
    rw [hset]
    exact made.tree.get?_set_of_ne hother _
  have hplace' := Workspace.resolve_of_extends hwrote.current hwrote.extends hplace
  have hlong := fault?_schemaPath_ne_none_iff (Workspace.resolve_eq_ok_iff.1 hconfig).1
  have hcreate := Workspace.exists_error_create_join_iff isName_models starterSchema hplace'
    (hwrote.extends.directory _ hdirectory)
  have hpresent := Workspace.isPresent_join_iff isName_models hplace hdirectory
  rw [← schemaPath_eq_join] at hcreate hpresent
  rw [hcreate, hpresent, hsame, ← hlong]
  by_cases hfault : Path.fault? (schemaPath directory) = none <;> simp [hfault]

/-! ## Causes -/

/-- What was in the directory of the schema file before does not strand a run. -/
theorem Opens.isPresent_eq_false (h : Opens w directory made) (hw : w.Sound)
    (hplace : made.resolve (schemaDirectory directory) = .ok place)
    (hsame : made.tree.get? (place ++ ["models.toml"]) = w.tree.get? (place ++ ["models.toml"]))
    (hresolve : w.tree.get? place = some .directory ->
      w.resolve (schemaDirectory directory) = .ok place) :
    made.isPresent (schemaPath directory) = false := by
  rw [← Bool.not_eq_true, schemaPath_eq_join, Workspace.isPresent_eq_true_iff]
  rintro ⟨next, hnext, hentry⟩
  obtain ⟨hfault, -, rfl, -⟩ := (Workspace.resolve_join_iff isName_models hplace).1 hnext
  rw [hsame] at hentry
  have hdirectory := hw.rooted _ hentry
  rw [List.dropLast_concat] at hdirectory
  have hpresent := (Workspace.isPresent_join_iff isName_models (hresolve hdirectory) hdirectory).2
    ⟨hfault, hentry⟩
  rw [← schemaPath_eq_join] at hpresent
  have hclear := h.clear (schemaPath directory, starterSchema) (by simp [files_eq])
  exact Bool.false_ne_true (hclear.symm.trans hpresent)

/-- In a directory that is there, no more than the directory of the schema file is made. -/
theorem Opens.isPresent_eq_false_of_resolve (h : Opens w directory made) (hw : w.Sound)
    {above : Location} (habove : w.resolve directory = .ok above) :
    made.isPresent (schemaPath directory) = false := by
  obtain ⟨place, hplace, hdirectory⟩ := h.exists_place
  have habove' := Workspace.resolve_of_extends h.dug.current h.dug.extends habove
  obtain ⟨hfault, hmade, rfl, -⟩ := (Workspace.resolve_join_iff isName_schema habove').1 hplace
  have hresolve : w.tree.get? (above ++ ["schema"]) = some .directory ->
      w.resolve (schemaDirectory directory) = .ok (above ++ ["schema"]) := by
    intro hthere
    exact (Workspace.resolve_join_iff isName_schema habove).2
      ⟨hfault, hw.rooted.directory_of_append hthere, rfl, by simp [hthere]⟩
  refine h.isPresent_eq_false hw hplace ?_ hresolve
  rcases h.dug.kept (above ++ ["schema"]) with hsame | ⟨hnone, -, -⟩
  · have hthere := Workspace.makeDirectories_of_directory (hresolve (hsame ▸ hdirectory))
      (hsame ▸ hdirectory)
    rw [h.made, Prod.mk.injEq] at hthere
    rw [hthere.1]
  · have hroot : w.tree.get? above = some .directory := by
      rcases h.dug.kept above with hsame | ⟨habsent, -, -⟩
      · exact hsame ▸ hmade
      · exact absurd habsent (hw.present_of_resolve habove)
    have hfind : w.tree.find above "schema" = .ok none :=
      FileTree.find_eq_ok_iff.2 ⟨isName_schema.size_le, hnone⟩
    have htarget := Workspace.target_join isName_schema hfault habove hroot
    have hmake : w.makeDirectory (schemaDirectory directory) =
        .ok (w.set (above ++ ["schema"]) .directory) := by
      simp only [Workspace.makeDirectory, schemaDirectory, htarget, hfind]
    obtain ⟨paths, hpaths⟩ := Path.exists_ancestors (schemaDirectory directory)
    have hchain := h.made
    rw [Workspace.makeDirectories, hpaths, Workspace.makeChain,
      if_neg (schemaDirectory_ne_empty directory), hmake, Prod.mk.injEq] at hchain
    rw [← hchain.1]
    exact w.tree.get?_set_of_ne (by simp) _

/-- Without a way up, all directories that are made are on the way to the schema file. -/
theorem Opens.isPresent_eq_false_of_not_up (h : Opens w directory made) (hw : w.Sound)
    (hup : ".." ∉ Path.segments directory) : made.isPresent (schemaPath directory) = false := by
  obtain ⟨place, hplace, -⟩ := h.exists_place
  have hup' : ".." ∉ (w.start (schemaDirectory directory)).2 := by
    intro hmem
    have hsegment := Workspace.mem_segments_of_mem_start hmem
    rw [segments_schemaDirectory, List.mem_append] at hsegment
    rcases hsegment with hsegment | hsegment
    · exact hup (Path.openEnd_prefix.subset hsegment)
    · exact absurd hsegment (by decide)
  have hstart := Workspace.start_of_current h.dug.current (schemaDirectory directory)
  refine h.isPresent_eq_false hw hplace ?_ fun hthere => ?_
  · by_contra hnew
    have hprefix := Workspace.prefix_of_makeDirectories hup' (by rwa [h.made])
    rw [← Workspace.spelled_of_current h.dug.current,
      ← Workspace.eq_spelled_of_resolve (hstart ▸ hup') hplace] at hprefix
    exact absurd hprefix.length_le (by simp)
  · obtain ⟨hfault, hwalk⟩ := Workspace.resolve_eq_ok_iff.1 hplace
    rw [hstart] at hwalk
    exact Workspace.resolve_eq_ok_iff.2 ⟨hfault, hw.rooted.walk_of_walk hup' hwalk hthere⟩

/-- Only a way up again, out of a directory that is yet to be made, or a long path strands a run. -/
theorem Strands.cause (hw : w.Sound) (h : Strands w directory) :
    Path.maxSize < (schemaPath directory).utf8ByteSize ∨
      ".." ∈ Path.segments directory ∧ ∀ place, w.resolve directory ≠ .ok place := by
  obtain ⟨made, half, hopens, -, hlong | hpresent⟩ := h
  · exact .inl hlong
  · refine .inr ⟨?_, fun place hplace => ?_⟩
    · by_contra hup
      rw [hopens.isPresent_eq_false_of_not_up hw hup] at hpresent
      cases hpresent
    · rw [hopens.isPresent_eq_false_of_resolve hw hplace] at hpresent
      cases hpresent

/-! ## Effects -/

/-- What the command leaves behind in a directory: its exit code, and the workspace after it. -/
structure Effects (w : Workspace) (directory : String) (exit : Nat) (after : Workspace) :
    Prop where
  kept : ∀ place content, w.tree.content? place = some content ->
    after.tree.content? place = some content
  success : exit = 0 -> Adds w after (files directory)
  failure : exit ≠ 0 -> ¬ Strands w directory -> Adds w after []
  stranded : Strands w directory -> exit = 1 ∧
    Adds w after [(configPath directory, starterConfig)]

theorem Ends.adds_of_success {exit : Nat} (h : Ends w directory exit after) (hexit : exit = 0) :
    Adds w after (files directory) := by
  cases h with
  | finished hopens hconfig hschema =>
      exact (hopens.dug.adds.create hconfig).create hschema
  | _ => cases hexit

theorem Ends.adds_of_failure {exit : Nat} (h : Ends w directory exit after) (hexit : exit ≠ 0)
    (hstrands : ¬ Strands w directory) : Adds w after [] := by
  cases h with
  | refused => exact (Dug.refl w).adds
  | noDirectory _ hmade => exact (Workspace.dug_of_makeDirectories hmade).adds
  | noConfig hopens => exact hopens.dug.adds
  | noSchema hopens hconfig hschema =>
      exact absurd ⟨_, _, hopens, hconfig, (hopens.exists_error_create_iff hconfig).1 ⟨_, hschema⟩⟩
        hstrands
  | finished => exact absurd rfl hexit

/-- A stranded run adds the configuration alone. -/
theorem Ends.adds_of_strands {exit : Nat} (h : Ends w directory exit after)
    (hstrands : Strands w directory) :
    exit = 1 ∧ Adds w after [(configPath directory, starterConfig)] := by
  obtain ⟨made, half, hopens, hconfig, hcause⟩ := hstrands
  obtain ⟨e, hschema⟩ := (hopens.exists_error_create_iff hconfig).2 hcause
  have hmade : ∀ {made'}, Opens w directory made' -> made' = made :=
    fun hopens' => congrArg Prod.fst (hopens'.made.symm.trans hopens.made)
  have hhalf : ∀ {made' half'}, Opens w directory made' ->
      made'.create (configPath directory) starterConfig = .ok half' -> half' = half := by
    intro made' half' hopens' hconfig'
    rw [hmade hopens', hconfig, Except.ok.injEq] at hconfig'
    exact hconfig'.symm
  cases h with
  | refused hoccupied => exact absurd hopens.clear hoccupied
  | noDirectory _ hfailed => cases hopens.made.symm.trans hfailed
  | noConfig hopens' hfailed =>
      rw [hmade hopens', hconfig] at hfailed
      cases hfailed
  | noSchema hopens' hconfig' => exact ⟨rfl, hopens'.dug.adds.create hconfig'⟩
  | finished hopens' hconfig' hdone =>
      rw [hhalf hopens' hconfig', hschema] at hdone
      cases hdone

theorem effects_of_ends {exit : Nat} (h : Ends w directory exit after) :
    Effects w directory exit after := by
  refine ⟨fun place content hcontent => ?_, h.adds_of_success, h.adds_of_failure,
    h.adds_of_strands⟩
  by_cases hexit : exit = 0
  · exact (h.adds_of_success hexit).content? hcontent
  · by_cases hstrands : Strands w directory
    · exact (h.adds_of_strands hstrands).2.content? hcontent
    · exact (h.adds_of_failure hexit hstrands).content? hcontent

/--
A run keeps all files that are there, adds both files if it succeeds, and adds nothing if it fails
without being stranded. What strands a run is a long path, or a way up out of a directory that is
yet to be made.
-/
theorem effects_of_start (w : Workspace) (g : Globals) (directory? : Option String) :
    Effects w (directory?.getD (Path.absolute w.current)) (w.run g (.init directory?)).1.exit
      (w.run g (.init directory?)).2 ∧
    (w.Sound -> Strands w (directory?.getD (Path.absolute w.current)) ->
      Path.maxSize < (schemaPath (directory?.getD (Path.absolute w.current))).utf8ByteSize ∨
        ".." ∈ Path.segments (directory?.getD (Path.absolute w.current)) ∧
          ∀ place, w.resolve (directory?.getD (Path.absolute w.current)) ≠ .ok place) :=
  ⟨effects_of_ends (ends_run w g directory?), fun hw hstrands => hstrands.cause hw⟩

def unconfigured : Workspace :=
  { tree :=
      ⟨[(["schema"], .directory), (["schema", "models.toml"], .file (.text "# mine\n"))]⟩
    current := [] }

theorem sound_unconfigured : unconfigured.Sound :=
  ⟨FileTree.rooted_of_forall_mem (by decide), by decide, by
    intro name hname
    cases hname⟩

/-- The schema file is not found through a directory that is not there, and blocks the way later. -/
theorem strands_unconfigured : unconfigured.Sound ∧
    (unconfigured.run ⟨false, false, false, none⟩ (.init (some "a/.."))).1.exit = 1 ∧
    unconfigured.tree.content? ["cachegen.toml"] = none ∧
    (unconfigured.run ⟨false, false, false, none⟩ (.init (some "a/.."))).2.tree.content?
      ["cachegen.toml"] = some (.text starterConfig) :=
  ⟨sound_unconfigured, by decide +kernel⟩

/-- In a directory that is yet to be made, a run adds both files. -/
theorem effects_unconfigured :
    Adds unconfigured (unconfigured.run ⟨false, false, false, none⟩ (.init (some "a"))).2
      [("a/cachegen.toml", starterConfig), ("a/schema/models.toml", starterSchema)] ∧
    ¬ Strands unconfigured "a" := by
  obtain ⟨heffects, hcause⟩ :=
    effects_of_start unconfigured ⟨false, false, false, none⟩ (some "a")
  have hfiles : files "a" =
      [("a/cachegen.toml", starterConfig), ("a/schema/models.toml", starterSchema)] := by
    decide +kernel
  refine ⟨hfiles ▸ heffects.success (by decide +kernel), fun hstrands => ?_⟩
  rcases hcause sound_unconfigured hstrands with hlong | ⟨hup, -⟩
  · exact absurd hlong (by decide)
  · exact absurd hup (by decide)

end Starter

end InstanceForge

import InstanceForge.Proofs.Files.Walk
import Mathlib.Data.List.DropRight

/-!
# Changed files

What a change leaves as it was. Directories are only made where nothing is, and a text is only
written where no directory is, so every other file keeps its content, and what a path led to it
still leads to.
-/

namespace InstanceForge

namespace FileTree

variable {t : FileTree} {place : Location}

def content? (t : FileTree) (place : Location) : Option FileContent :=
  match t.get? place with
  | some (.file content) => some content
  | _ => none

theorem content?_eq_some_iff {content : FileContent} :
    t.content? place = some content ↔ t.get? place = some (.file content) := by
  unfold content?
  split
  · next h => simp [h]
  · next h =>
      constructor
      · intro hnone
        cases hnone
      · intro hfile
        exact absurd hfile (h content)

theorem get?_set_concat (t : FileTree) (place : Location) (name : String) (entry : FileEntry) :
    (t.set (place ++ [name]) entry).get? (place ++ [name]) = some entry := by
  cases place with
  | nil => exact t.get?_set_self name [] entry
  | cons first rest => exact t.get?_set_self first (rest ++ [name]) entry

end FileTree

namespace Workspace

variable {w w' w'' : Workspace} {path text : String} {place : Location}

/-! ## Targets -/

/-- The segments of a path without the empty ones that slashes at its end leave. -/
def named (parts : List String) : List String :=
  parts.rdropWhile (· = "")

theorem getLast?_named {parts front : List String} {last : String}
    (h : named parts = front ++ [last]) : last ≠ "" := by
  have hne : parts.rdropWhile (· = "") ≠ [] := by
    rw [named] at h
    simp [h]
  have hlast := List.rdropWhile_last_not (· = "") parts hne
  have hsame : (parts.rdropWhile (· = "")).getLast hne = last := by
    rw [List.getLast_eq_iff_getLast?_eq_some]
    rw [named] at h
    simp [h]
  simpa [hsame] using hlast

theorem target_eq_ok_iff {directory : Location} {name : Option String} {slashed : Bool} :
    w.target path = .ok ⟨directory, name, slashed⟩ ↔
      Path.fault? path = none ∧
        w.tree.walk (w.start path).1 (named (w.start path).2).dropLast = .ok directory ∧
        w.tree.get? directory = some .directory ∧
        (named (w.start path).2).getLast?.filter (fun s => s != "." && s != "..") = name ∧
        decide ((named (w.start path).2).length < (w.start path).2.length) = slashed := by
  have hnamed : ((w.start path).2.reverse.dropWhile (· = "")).reverse =
      named (w.start path).2 := rfl
  have hstay : ∀ directory, w.tree.walk (w.start path).1
      ((named (w.start path).2).dropLast ++ ["."]) = .ok directory ↔
        w.tree.walk (w.start path).1 (named (w.start path).2).dropLast = .ok directory ∧
          w.tree.get? directory = some .directory := by
    intro directory
    rw [FileTree.walk_concat_eq_ok_iff]
    constructor
    · rintro ⟨middle, hmiddle, hstep⟩
      obtain ⟨hdirectory, rfl⟩ := (FileTree.step_idle_eq_ok_iff (by decide)).1 hstep
      exact ⟨hmiddle, hdirectory⟩
    · rintro ⟨hwalk, hdirectory⟩
      exact ⟨directory, hwalk, (FileTree.step_idle_eq_ok_iff (by decide)).2 ⟨hdirectory, rfl⟩⟩
  unfold target
  dsimp only
  rw [hnamed]
  constructor
  · intro h
    split at h
    · cases h
    · next hfault =>
        split at h
        · cases h
        · next found hwalk =>
            rw [Except.ok.injEq, Target.mk.injEq] at h
            obtain ⟨rfl, hname, hslashed⟩ := h
            obtain ⟨hwalk, hdirectory⟩ := (hstay found).1 hwalk
            exact ⟨hfault, hwalk, hdirectory, hname, hslashed⟩
  · rintro ⟨hfault, hwalk, hdirectory, rfl, rfl⟩
    rw [hfault, (hstay directory).2 ⟨hwalk, hdirectory⟩]

structure Asks (w : Workspace) (path : String) (directory : Location) (name : String) : Prop where
  fault : Path.fault? path = none
  isDirectory : w.tree.get? directory = some .directory
  notIdle : Path.isIdle name = false
  notUp : name ≠ ".."
  walk : ∃ front, named (w.start path).2 = front ++ [name] ∧
    w.tree.walk (w.start path).1 front = .ok directory

theorem asks_of_target {directory : Location} {name : String} {slashed : Bool}
    (h : w.target path = .ok ⟨directory, some name, slashed⟩) : w.Asks path directory name := by
  obtain ⟨hfault, hwalk, hdirectory, hname, _⟩ := target_eq_ok_iff.1 h
  obtain ⟨hlast, hproper⟩ := Option.filter_eq_some_iff.1 hname
  rw [Bool.and_eq_true, bne_iff_ne, bne_iff_ne] at hproper
  obtain ⟨front, hfront⟩ := List.getLast?_eq_some_iff.1 hlast
  refine ⟨hfault, hdirectory, ?_, hproper.2, front, hfront, ?_⟩
  · rw [Path.isIdle, Bool.or_eq_false_iff, decide_eq_false_iff_not, decide_eq_false_iff_not]
    exact ⟨getLast?_named hfront, hproper.1⟩
  · rwa [hfront, List.dropLast_concat] at hwalk

theorem named_of_not_slashed {directory : Location} {name : Option String}
    (h : w.target path = .ok ⟨directory, name, false⟩) :
    named (w.start path).2 = (w.start path).2 := by
  have hlength := (target_eq_ok_iff.1 h).2.2.2.2
  rw [decide_eq_false_iff_not, Nat.not_lt] at hlength
  exact (List.rdropWhile_prefix _ _).eq_of_length_le hlength

/-- What a path asks to make is where it leads once that is made. -/
theorem resolve_of_target {directory : Location} {name : String} {slashed : Bool}
    (h : w.target path = .ok ⟨directory, some name, slashed⟩)
    (hsize : name.utf8ByteSize ≤ Path.maxNameSize) (hcurrent : w'.current = w.current)
    (hextends : w.tree.Extends w'.tree) (hentry : w'.tree.get? (directory ++ [name]) ≠ none)
    (hslashed : slashed = true -> w'.tree.get? (directory ++ [name]) = some .directory) :
    w'.resolve path = .ok (directory ++ [name]) := by
  have hasks := asks_of_target h
  obtain ⟨front, hfront, hwalk⟩ := hasks.walk
  have hstep : w'.tree.step directory name = .ok (directory ++ [name]) :=
    FileTree.step_eq_ok_iff.2 ⟨hextends.directory _ hasks.isDirectory,
      .entry hasks.notIdle hasks.notUp hsize hentry⟩
  have hnamed := FileTree.walk_concat_eq_ok_iff.2 ⟨directory, hextends.walk hwalk, hstep⟩
  refine resolve_eq_ok_iff.2 ⟨hasks.fault, ?_⟩
  rw [start_of_current hcurrent]
  cases slashed with
  | false =>
      rw [← named_of_not_slashed h, hfront]
      exact hnamed
  | true =>
      -- the slashes at the end need a directory, and leave empty segments that stay in it
      rw [← List.rdropWhile_append_rtakeWhile (p := (· = "")) (l := (w.start path).2)]
      refine FileTree.walk_append_eq_ok_iff.2 ⟨directory ++ [name], ?_,
        FileTree.walk_idle (fun part hpart => ?_) (hslashed rfl)⟩
      · rw [← named, hfront]
        exact hnamed
      · simp [Path.isIdle, List.mem_rtakeWhile_imp hpart]

/-- A path that leads somewhere ends in a last step, or stays where it starts. -/
theorem last_step_of_walk {t : FileTree} {base : Location} {parts : List String}
    (hne : parts ≠ []) (h : t.walk base parts = .ok place) :
    (named parts = [] ∧ t.get? base = some .directory) ∨
      ∃ front last directory, named parts = front ++ [last] ∧
        t.walk base front = .ok directory ∧ t.step directory last = .ok place := by
  induction parts using List.reverseRecOn with
  | nil => exact absurd rfl hne
  | append_singleton front last ih =>
      obtain ⟨middle, hmiddle, hstep⟩ := FileTree.walk_concat_eq_ok_iff.1 h
      by_cases hlast : last = ""
      · have hnamed : named (front ++ [last]) = named front := by
          simp [named, hlast]
        obtain ⟨hdirectory, rfl⟩ := (FileTree.step_idle_eq_ok_iff (by simp [hlast]; decide)).1 hstep
        rw [hnamed]
        by_cases hfront : front = []
        · subst hfront
          cases hmiddle
          exact .inl ⟨rfl, hdirectory⟩
        · exact ih hfront hmiddle
      · have hnamed : named (front ++ [last]) = front ++ [last] := by
          simp [named, hlast]
        exact .inr ⟨front, last, middle, hnamed, hmiddle, hstep⟩

/-- What a path leads to cannot be made. -/
theorem makeDirectory_of_resolve (h : w.resolve path = .ok place) :
    w.makeDirectory path = .error .alreadyExists := by
  obtain ⟨hfault, hwalk⟩ := resolve_eq_ok_iff.1 h
  rcases last_step_of_walk (start_ne_nil_of_resolve h) hwalk with
    ⟨hnamed, hdirectory⟩ | ⟨front, last, directory, hnamed, hfront, hstep⟩
  · have hwalk' : w.tree.walk (w.start path).1 (named (w.start path).2).dropLast =
        .ok (w.start path).1 := by
      rw [hnamed]
      rfl
    have htarget := target_eq_ok_iff.2 ⟨hfault, hwalk', hdirectory, rfl, rfl⟩
    rw [hnamed] at htarget
    simp only [makeDirectory, htarget, List.getLast?_nil, Option.filter_none]
  · obtain ⟨hdirectory, hleads⟩ := FileTree.step_eq_ok_iff.1 hstep
    have hwalk' : w.tree.walk (w.start path).1 (named (w.start path).2).dropLast =
        .ok directory := by
      rw [hnamed, List.dropLast_concat, hfront]
    have htarget := target_eq_ok_iff.2 ⟨hfault, hwalk', hdirectory, rfl, rfl⟩
    rw [hnamed, List.getLast?_concat] at htarget
    -- a path that ends by staying or going up has no name to make a directory of
    by_cases hproper : last = "." ∨ last = ".."
    · have hnone : (some last).filter (fun s => s != "." && s != "..") = none := by
        rcases hproper with rfl | rfl <;> rfl
      rw [hnone] at htarget
      simp only [makeDirectory, htarget]
    · rw [not_or] at hproper
      have hsome : (some last).filter (fun s => s != "." && s != "..") = some last := by
        simp [Option.filter, hproper]
      rw [hsome] at htarget
      cases hleads with
      | idle hidle =>
          have hlast := getLast?_named hnamed
          simp [Path.isIdle, hlast, hproper.1] at hidle
      | up => exact absurd rfl hproper.2
      | entry _ _ hsize hentry =>
          obtain ⟨entry, hentry⟩ := Option.ne_none_iff_exists'.1 hentry
          have hfind := FileTree.find_eq_ok_iff.2 ⟨hsize, hentry⟩
          simp only [makeDirectory, htarget, hfind]

/-- A path that leads to a file asks for the name of the file in its directory. -/
theorem target_of_file (hrooted : w.tree.Rooted) (h : w.resolve path = .ok place)
    {content : FileContent} (hfile : w.tree.get? place = some (.file content)) :
    ∃ directory name, w.target path = .ok ⟨directory, some name, false⟩ ∧
      w.tree.find directory name = .ok (some (.file content)) ∧ place = directory ++ [name] := by
  obtain ⟨hfault, hwalk⟩ := resolve_eq_ok_iff.1 h
  obtain ⟨front, last, hparts⟩ : ∃ front last, (w.start path).2 = front ++ [last] :=
    ⟨_, _, (List.dropLast_append_getLast (start_ne_nil_of_resolve h)).symm⟩
  rw [hparts] at hwalk
  obtain ⟨directory, hfront, hstep⟩ := FileTree.walk_concat_eq_ok_iff.1 hwalk
  obtain ⟨hdirectory, hleads⟩ := FileTree.step_eq_ok_iff.1 hstep
  cases hleads with
  | idle =>
      rw [hdirectory] at hfile
      cases hfile
  | up =>
      rw [hrooted directory (by simp [hdirectory])] at hfile
      cases hfile
  | entry hidle hup hsize =>
      have hempty : last ≠ "" := by
        rintro rfl
        exact absurd hidle (by decide)
      have hstays : last ≠ "." := by
        rintro rfl
        exact absurd hidle (by decide)
      have hnamed : named (w.start path).2 = front ++ [last] := by
        simp [hparts, named, hempty]
      refine ⟨directory, last, target_eq_ok_iff.2 ⟨hfault, ?_, hdirectory, ?_, ?_⟩,
        FileTree.find_eq_ok_iff.2 ⟨hsize, hfile⟩, rfl⟩
      · rwa [hnamed, List.dropLast_concat]
      · rw [hnamed, List.getLast?_concat]
        simp [Option.filter, hstays, hup]
      · rw [hnamed, hparts]
        simp

/-! ## New directories -/

/-- An entry that is as it was, or a directory that was made where nothing is. -/
def Kept (w w' : Workspace) (place : Location) : Prop :=
  w'.tree.get? place = w.tree.get? place ∨
    w.tree.get? place = none ∧ w'.tree.get? place = some .directory ∧
      w'.tree.get? place.dropLast = some .directory

theorem Kept.directory (h : Kept w w' place) (hplace : w.tree.get? place = some .directory) :
    w'.tree.get? place = some .directory := by
  rcases h with h | ⟨_, hmade, _⟩
  · rwa [h]
  · exact hmade

theorem Kept.present (h : Kept w w' place) (hplace : w.tree.get? place ≠ none) :
    w'.tree.get? place ≠ none := by
  rcases h with h | ⟨hnone, _, _⟩
  · rwa [h]
  · exact absurd hnone hplace

theorem Kept.content? (h : Kept w w' place) :
    w'.tree.content? place = w.tree.content? place := by
  unfold FileTree.content?
  rcases h with h | ⟨hnone, hmade, _⟩
  · rw [h]
  · rw [hnone, hmade]

theorem Kept.trans (h : Kept w w' place) (h' : Kept w' w'' place)
    (hextends : w'.tree.Extends w''.tree) : Kept w w'' place := by
  rcases h with hsame | ⟨hnone, hmade, hparent⟩
  · rcases h' with hsame' | ⟨hnone', hmade', hparent'⟩
    · exact .inl (hsame'.trans hsame)
    · exact .inr ⟨hsame ▸ hnone', hmade', hparent'⟩
  · exact .inr ⟨hnone, hextends.directory _ hmade, hextends.directory _ hparent⟩

structure Dug (w w' : Workspace) : Prop where
  current : w'.current = w.current
  kept : ∀ place, Kept w w' place

theorem Dug.refl (w : Workspace) : Dug w w :=
  ⟨rfl, fun _ => .inl rfl⟩

theorem Dug.extends (h : Dug w w') : w.tree.Extends w'.tree :=
  ⟨fun place => (h.kept place).directory, fun place => (h.kept place).present⟩

theorem Dug.trans (h : Dug w w') (h' : Dug w' w'') : Dug w w'' :=
  ⟨h'.current.trans h.current, fun place => (h.kept place).trans (h'.kept place) h'.extends⟩

theorem dug_of_makeDirectory (h : w.makeDirectory path = .ok w') : Dug w w' := by
  unfold makeDirectory at h
  split at h
  · cases h
  · cases h
  · next directory name slashed htarget =>
      split at h
      · cases h
      · cases h
      · next hfind =>
          cases h
          have hasks := asks_of_target htarget
          have hnone := (FileTree.find_eq_ok_iff.1 hfind).2
          refine ⟨rfl, fun place => ?_⟩
          by_cases hplace : place = directory ++ [name]
          · subst hplace
            refine .inr ⟨hnone, w.tree.get?_set_concat _ _ _, ?_⟩
            rw [List.dropLast_concat]
            exact (w.tree.get?_set_of_ne (by simp) _).trans hasks.isDirectory
          · exact .inl (w.tree.get?_set_of_ne hplace _)

/-- Making a chain of directories makes directories, whether it succeeds or not. -/
theorem dug_makeChain (w : Workspace) (paths : List String) : Dug w (w.makeChain paths).1 := by
  induction paths generalizing w with
  | nil => exact .refl w
  | cons path above ih =>
      unfold makeChain
      split
      · exact .refl w
      · split
        · next made hmade => exact dug_of_makeDirectory hmade
        · split
          · next made e habove =>
              have hmade := ih w
              rwa [habove] at hmade
          · next made habove =>
              have hmade := ih w
              rw [habove] at hmade
              split
              · next last hlast => exact hmade.trans (dug_of_makeDirectory hlast)
              · exact hmade
        · exact .refl w

theorem dug_makeDirectories (w : Workspace) (path : String) : Dug w (w.makeDirectories path).1 :=
  dug_makeChain w (Path.ancestors path)

theorem dug_of_makeDirectories {fault? : Option FileFault}
    (h : w.makeDirectories path = (w', fault?)) : Dug w w' := by
  have hdug := dug_makeDirectories w path
  rwa [h] at hdug

/-- Nothing is made where there is a directory already. -/
theorem makeDirectories_of_directory (h : w.resolve path = .ok place)
    (hplace : w.tree.get? place = some .directory) : w.makeDirectories path = (w, none) := by
  have hdirectory : w.isDirectory path = true := by
    unfold isDirectory entry?
    simp only [h, hplace, decide_true]
  obtain ⟨above, habove⟩ := Path.exists_ancestors path
  rw [makeDirectories, habove, makeChain, makeDirectory_of_resolve h]
  simp [hdirectory]

/-! ## Written texts -/

structure Wrote (w w' : Workspace) (place : Location) (text : String) : Prop where
  current : w'.current = w.current
  text : w'.tree.get? place = some (.file (.text text))
  parent : w'.tree.get? place.dropLast = some .directory
  noDirectory : w.tree.get? place ≠ some .directory
  kept : ∀ other, other ≠ place -> Kept w w' other

theorem Wrote.extends (h : Wrote w w' place text) : w.tree.Extends w'.tree := by
  constructor
  · intro other hother
    have hne : other ≠ place := fun heq => h.noDirectory (heq ▸ hother)
    exact (h.kept other hne).directory hother
  · intro other hother
    by_cases hplace : other = place
    · simp [hplace, h.text]
    · exact (h.kept other hplace).present hother

theorem Wrote.of_dug (hdug : Dug w w') (h : Wrote w' w'' place text) : Wrote w w'' place text :=
  ⟨h.current.trans hdug.current, h.text, h.parent,
    fun hplace => h.noDirectory (hdug.extends.directory _ hplace),
    fun other hother => (hdug.kept other).trans (h.kept other hother) h.extends⟩

theorem wrote_set {directory : Location} {name : String}
    (hdirectory : w.tree.get? directory = some .directory)
    (hplace : w.tree.get? (directory ++ [name]) ≠ some .directory) (text : String) :
    Wrote w (w.set (directory ++ [name]) (.file (.text text))) (directory ++ [name]) text := by
  refine ⟨rfl, w.tree.get?_set_concat _ _ _, ?_, hplace,
    fun other hother => .inl (w.tree.get?_set_of_ne hother _)⟩
  rw [List.dropLast_concat]
  exact (w.tree.get?_set_of_ne (by simp) _).trans hdirectory

/-- A text that is written is found under the path it was written to. -/
theorem wrote_of_write (h : w.write path text = .ok w') :
    ∃ place, Wrote w w' place text ∧ w'.resolve path = .ok place := by
  unfold write at h
  split at h
  · cases h
  · cases h
  · cases h
  · next directory name htarget =>
      split at h
      · cases h
      · cases h
      · next entry hdirectory hfind =>
          cases h
          obtain ⟨hsize, hentry⟩ := FileTree.find_eq_ok_iff.1 hfind
          have hwrote := wrote_set (asks_of_target htarget).isDirectory
            (fun heq => hdirectory (hentry ▸ heq)) text
          refine ⟨_, hwrote, resolve_of_target htarget hsize rfl hwrote.extends ?_ nofun⟩
          rw [hwrote.text]
          exact Option.some_ne_none _

/-- A text is only created where nothing is, and nothing else is changed. -/
theorem wrote_of_create (h : w.create path text = .ok w') :
    ∃ place, Wrote w w' place text ∧ w'.resolve path = .ok place ∧ w.tree.get? place = none ∧
      w' = w.set place (.file (.text text)) := by
  unfold create at h
  split at h
  · cases h
  · cases h
  · cases h
  · next directory name htarget =>
      split at h
      · cases h
      · cases h
      · next hfind =>
          cases h
          obtain ⟨hsize, hnone⟩ := FileTree.find_eq_ok_iff.1 hfind
          have hwrote := wrote_set (asks_of_target htarget).isDirectory
            (fun heq => nomatch hnone.symm.trans heq) text
          refine ⟨_, hwrote, resolve_of_target htarget hsize rfl hwrote.extends ?_ nofun, hnone,
            rfl⟩
          rw [hwrote.text]
          exact Option.some_ne_none _

/-! ## Sound workspaces -/

theorem Sound.of_extends (hw : w.Sound) (hcurrent : w'.current = w.current)
    (hextends : w.tree.Extends w'.tree)
    (hplaces : ∀ place, Kept w w' place ∨ w'.tree.get? place.dropLast = some .directory) :
    w'.Sound := by
  refine ⟨fun place hplace => ?_, ?_, hcurrent ▸ hw.names⟩
  · rcases hplaces place with (hsame | ⟨_, _, hparent⟩) | hparent
    · exact hextends.directory _ (hw.rooted place (hsame ▸ hplace))
    · exact hparent
    · exact hparent
  · rw [hcurrent]
    exact hextends.directory _ hw.current

theorem Dug.sound (h : Dug w w') (hw : w.Sound) : w'.Sound :=
  hw.of_extends h.current h.extends fun place => .inl (h.kept place)

theorem Wrote.sound (h : Wrote w w' place text) (hw : w.Sound) : w'.Sound := by
  refine hw.of_extends h.current h.extends fun other => ?_
  by_cases hother : other = place
  · exact .inr (hother ▸ h.parent)
  · exact .inl (h.kept other hother)

theorem Sound.change (hw : w.Sound) (c : FileChange) : (w.change c).1.Sound := by
  cases c with
  | makeDirectories path => exact (dug_makeDirectories w path).sound hw
  | write path text =>
      show (w.settle (w.write path text)).1.Sound
      cases h : w.write path text with
      | error e => exact hw
      | ok w' =>
          obtain ⟨_, hwrote, _⟩ := wrote_of_write h
          exact hwrote.sound hw
  | create path text =>
      show (w.settle (w.create path text)).1.Sound
      cases h : w.create path text with
      | error e => exact hw
      | ok w' =>
          obtain ⟨_, hwrote, -, -, -⟩ := wrote_of_create h
          exact hwrote.sound hw

/-- Whatever a program does to the files, a sound workspace stays sound. -/
theorem Sound.changeAll (hw : w.Sound) (changes : List FileChange) :
    (w.changeAll changes).1.Sound := by
  induction changes generalizing w with
  | nil => exact hw
  | cons c rest ih =>
      have hstep := hw.change c
      unfold Workspace.changeAll
      split
      · next next e heq => rwa [heq] at hstep
      · next next heq =>
          rw [heq] at hstep
          exact ih hstep

/-! ## Readings -/

theorem resolve_of_extends (hcurrent : w'.current = w.current) (h : w.tree.Extends w'.tree)
    (hresolve : w.resolve path = .ok place) : w'.resolve path = .ok place := by
  obtain ⟨hfault, hwalk⟩ := resolve_eq_ok_iff.1 hresolve
  exact resolve_eq_ok_iff.2 ⟨hfault, start_of_current hcurrent path ▸ h.walk hwalk⟩

/-- What is read away from a text stays readable when the text is written. -/
theorem Wrote.readText (h : Wrote w w' place text) {found : String}
    (hread : w.readText path = .ok found) (hapart : w.resolve path ≠ .ok place) :
    w'.readText path = .ok found := by
  obtain ⟨other, hresolve, hentry⟩ := readText_eq_ok_iff.1 hread
  have hne : other ≠ place := fun heq => hapart (heq ▸ hresolve)
  refine readText_eq_ok_iff.2 ⟨other, resolve_of_extends h.current h.extends hresolve, ?_⟩
  rcases h.kept other hne with hsame | ⟨hnone, _⟩
  · rw [hsame, hentry]
  · rw [hentry] at hnone
    cases hnone

/-- The same entries everywhere: neither a file nor a directory differs. -/
structure Same (w w' : Workspace) : Prop where
  current : w'.current = w.current
  entries : ∀ place, w'.tree.get? place = w.tree.get? place

theorem Same.refl (w : Workspace) : Same w w :=
  ⟨rfl, fun _ => rfl⟩

theorem Same.readText (h : Same w w') {found : String} (hread : w'.readText path = .ok found) :
    w.readText path = .ok found := by
  obtain ⟨place, hresolve, hentry⟩ := readText_eq_ok_iff.1 hread
  have hextends : w'.tree.Extends w.tree :=
    ⟨fun other hother => h.entries other ▸ hother, fun other hother => h.entries other ▸ hother⟩
  exact readText_eq_ok_iff.2
    ⟨place, resolve_of_extends h.current.symm hextends hresolve, h.entries place ▸ hentry⟩

/-- A file that holds a text already is not changed by writing it. -/
theorem write_of_readText (hrooted : w.tree.Rooted) (h : w.readText path = .ok text) :
    ∃ w', w.write path text = .ok w' ∧ Same w w' := by
  obtain ⟨place, hresolve, hentry⟩ := readText_eq_ok_iff.1 h
  obtain ⟨directory, name, htarget, hfind, rfl⟩ := target_of_file hrooted hresolve hentry
  refine ⟨w.set (directory ++ [name]) (.file (.text text)), ?_, rfl, fun other => ?_⟩
  · simp only [write, htarget, hfind]
  · by_cases hother : other = directory ++ [name]
    · subst hother
      exact (w.tree.get?_set_concat _ _ _).trans hentry.symm
    · exact w.tree.get?_set_of_ne hother _

end Workspace

end InstanceForge

import InstanceForge.Proofs.Basic
import InstanceForge.Proofs.Files.Path

/-!
# Walks through a tree

Where a path leads. A walk goes from directory to directory, so it is repeated in every tree that
keeps the directories and the entries of the first.
-/

namespace InstanceForge

namespace FileTree

variable {t t' : FileTree} {place next : Location}

/-! ## Steps -/

/-- Where a segment leads from a directory: nowhere else, upwards, or to an entry. -/
inductive Leads (t : FileTree) (place : Location) : String -> Location -> Prop where
  | idle {segment : String} : Path.isIdle segment = true -> Leads t place segment place
  | up : Leads t place ".." place.dropLast
  | entry {name : String} : Path.isIdle name = false -> name ≠ ".." ->
      name.utf8ByteSize ≤ Path.maxNameSize -> t.get? (place ++ [name]) ≠ none ->
      Leads t place name (place ++ [name])

theorem find_eq_ok_iff {name : String} {found : Option FileEntry} :
    t.find place name = .ok found ↔
      name.utf8ByteSize ≤ Path.maxNameSize ∧ t.get? (place ++ [name]) = found := by
  unfold find
  split
  · next h => simp; omega
  · next h => simp; omega

theorem step_eq_ok_iff {segment : String} :
    t.step place segment = .ok next ↔
      t.get? place = some .directory ∧ Leads t place segment next := by
  constructor
  · intro h
    unfold step at h
    split at h
    · cases h
    · cases h
    · next hplace =>
        refine ⟨hplace, ?_⟩
        split at h
        · next hidle =>
            cases h
            exact .idle hidle
        · next hidle =>
            rw [Bool.not_eq_true] at hidle
            split at h
            · next hup =>
                cases h
                subst hup
                exact .up
            · next hup =>
                split at h
                · cases h
                · next entry hfind =>
                    cases h
                    obtain ⟨hsize, hentry⟩ := find_eq_ok_iff.1 hfind
                    exact .entry hidle hup hsize (by simp [hentry])
                · cases h
  · rintro ⟨hplace, hleads⟩
    cases hleads with
    | idle hidle => simp [step, hplace, hidle]
    | up =>
        have hidle : Path.isIdle ".." = false := by decide
        simp [step, hplace, hidle]
    | entry hidle hup hsize hentry =>
        obtain ⟨entry, hentry⟩ := Option.ne_none_iff_exists'.1 hentry
        simp [step, hplace, hidle, hup, find_eq_ok_iff.2 ⟨hsize, hentry⟩]

theorem eq_append_of_leads {name : String} (hidle : Path.isIdle name = false) (hup : name ≠ "..")
    (h : Leads t place name next) : next = place ++ [name] := by
  cases h with
  | idle hidle' =>
      rw [hidle] at hidle'
      cases hidle'
  | up => exact absurd rfl hup
  | entry => rfl

/-! ## Walks -/

theorem walk_cons_eq_ok_iff {segment : String} {rest : List String} :
    t.walk place (segment :: rest) = .ok next ↔
      ∃ middle, t.step place segment = .ok middle ∧ t.walk middle rest = .ok next := by
  rw [walk]
  split
  · next h => simp [h]
  · next h => simp [h]

theorem walk_append_eq_ok_iff {front back : List String} :
    t.walk place (front ++ back) = .ok next ↔
      ∃ middle, t.walk place front = .ok middle ∧ t.walk middle back = .ok next := by
  induction front generalizing place with
  | nil => simp [walk]
  | cons segment rest ih =>
      simp only [List.cons_append, walk_cons_eq_ok_iff, ih]
      constructor
      · rintro ⟨a, ha, b, hb, hnext⟩
        exact ⟨b, ⟨a, ha, hb⟩, hnext⟩
      · rintro ⟨b, ⟨a, ha, hb⟩, hnext⟩
        exact ⟨a, ha, b, hb, hnext⟩

theorem walk_singleton_eq_ok_iff {segment : String} :
    t.walk place [segment] = .ok next ↔ t.step place segment = .ok next := by
  rw [walk_cons_eq_ok_iff]
  simp [walk]

theorem walk_concat_eq_ok_iff {front : List String} {last : String} :
    t.walk place (front ++ [last]) = .ok next ↔
      ∃ middle, t.walk place front = .ok middle ∧ t.step middle last = .ok next := by
  simp only [walk_append_eq_ok_iff, walk_singleton_eq_ok_iff]

theorem step_idle_eq_ok_iff {segment : String} (h : Path.isIdle segment = true) :
    t.step place segment = .ok next ↔ t.get? place = some .directory ∧ next = place := by
  rw [step_eq_ok_iff]
  refine and_congr_right fun _ => ⟨fun hleads => ?_, ?_⟩
  · cases hleads with
    | idle => rfl
    | up => exact absurd h (by decide)
    | entry hidle =>
        rw [h] at hidle
        cases hidle
  · rintro rfl
    exact .idle h

/-- A walk that goes on starts in a directory. -/
theorem directory_of_walk {parts : List String} (hne : parts ≠ [])
    (h : t.walk place parts = .ok next) : t.get? place = some .directory := by
  obtain ⟨segment, rest, rfl⟩ := List.exists_cons_of_ne_nil hne
  obtain ⟨middle, hstep, _⟩ := walk_cons_eq_ok_iff.1 h
  exact (step_eq_ok_iff.1 hstep).1

theorem walk_idle {parts : List String} (h : ∀ part ∈ parts, Path.isIdle part = true)
    (hplace : t.get? place = some .directory) : t.walk place parts = .ok place := by
  induction parts with
  | nil => rfl
  | cons part rest ih =>
      rw [List.forall_mem_cons] at h
      exact walk_cons_eq_ok_iff.2
        ⟨place, (step_idle_eq_ok_iff h.1).2 ⟨hplace, rfl⟩, ih h.2⟩

/-- A slash at the end of a path leaves an empty segment, which stays where it is. -/
theorem walk_openEnd {parts : List String} (h : t.walk place parts = .ok next) :
    t.walk place (Path.openEnd parts) = .ok next := by
  rcases Path.openEnd_cases parts with heq | heq
  · rwa [← heq]
  · rw [heq] at h
    obtain ⟨middle, hmiddle, hstep⟩ := walk_concat_eq_ok_iff.1 h
    rwa [((step_idle_eq_ok_iff (by decide)).1 hstep).2]

/-- A walk that never goes up leads along the names in its segments. -/
theorem eq_of_walk {parts : List String} (hup : ".." ∉ parts)
    (h : t.walk place parts = .ok next) :
    next = place ++ parts.filter fun part => !Path.isIdle part := by
  induction parts generalizing place with
  | nil =>
      cases h
      simp
  | cons part rest ih =>
      rw [List.mem_cons, not_or] at hup
      obtain ⟨middle, hstep, hrest⟩ := walk_cons_eq_ok_iff.1 h
      have hnext := ih hup.2 hrest
      cases (step_eq_ok_iff.1 hstep).2 with
      | idle hidle => simp [hnext, hidle]
      | up => exact absurd rfl hup.1
      | entry hidle => simp [hnext, hidle]

/-! ## Larger trees -/

/-- A tree keeps the directories of another one, and has an entry wherever that has one. -/
structure Extends (t t' : FileTree) : Prop where
  directory : ∀ place, t.get? place = some .directory -> t'.get? place = some .directory
  present : ∀ place, t.get? place ≠ none -> t'.get? place ≠ none

theorem Extends.step (h : t.Extends t') {segment : String}
    (hstep : t.step place segment = .ok next) : t'.step place segment = .ok next := by
  obtain ⟨hplace, hleads⟩ := step_eq_ok_iff.1 hstep
  refine step_eq_ok_iff.2 ⟨h.directory _ hplace, ?_⟩
  cases hleads with
  | idle hidle => exact .idle hidle
  | up => exact .up
  | entry hidle hup hsize hentry => exact .entry hidle hup hsize (h.present _ hentry)

theorem Extends.walk (h : t.Extends t') {parts : List String}
    (hwalk : t.walk place parts = .ok next) : t'.walk place parts = .ok next := by
  induction parts generalizing place with
  | nil => exact hwalk
  | cons segment rest ih =>
      obtain ⟨middle, hstep, hrest⟩ := walk_cons_eq_ok_iff.1 hwalk
      exact walk_cons_eq_ok_iff.2 ⟨middle, h.step hstep, ih hrest⟩

/-! ## Rooted trees -/

def Rooted (t : FileTree) : Prop :=
  ∀ place, t.get? place ≠ none -> t.get? place.dropLast = some .directory

theorem rooted_of_forall_mem
    (h : ∀ e ∈ t.entries, t.get? e.1.dropLast = some .directory) : t.Rooted := by
  intro place hplace
  cases place with
  | nil => rfl
  | cons name rest =>
      obtain ⟨entry, hentry⟩ := Option.ne_none_iff_exists'.1 hplace
      obtain ⟨front, back, hentries, _⟩ := List.lookup_eq_some_iff.1 hentry
      exact h (name :: rest, entry) (hentries ▸ by simp)

theorem Rooted.directory_of_append (h : t.Rooted) {above below : Location}
    (hbelow : t.get? (above ++ below) = some .directory) : t.get? above = some .directory := by
  induction below using List.reverseRecOn with
  | nil => simpa using hbelow
  | append_singleton front last ih =>
      refine ih ?_
      have hparent := h (above ++ (front ++ [last])) (by simp [hbelow])
      rwa [← List.append_assoc, List.dropLast_concat] at hparent

/-- A directory is reached by the names on the way to it. -/
theorem Rooted.walk_names (h : t.Rooted) (hnames : ∀ name ∈ place, Path.IsName name)
    (hplace : t.get? place = some .directory) : t.walk [] place = .ok place := by
  induction place using List.reverseRecOn with
  | nil => rfl
  | append_singleton front last ih =>
      have hfront := h.directory_of_append hplace
      have hlast := hnames last (by simp)
      have hwalk := ih (fun name hname => hnames name (List.mem_append_left _ hname)) hfront
      refine walk_concat_eq_ok_iff.2 ⟨front, hwalk, step_eq_ok_iff.2 ⟨hfront, ?_⟩⟩
      exact .entry hlast.notIdle hlast.notUp hlast.size_le (by simp [hplace])

/-- A walk from an entry ends at an entry. -/
theorem Rooted.present_of_walk (h : t.Rooted) {parts : List String}
    (hplace : t.get? place ≠ none) (hwalk : t.walk place parts = .ok next) :
    t.get? next ≠ none := by
  induction parts generalizing place with
  | nil =>
      cases hwalk
      exact hplace
  | cons segment rest ih =>
      obtain ⟨middle, hstep, hrest⟩ := walk_cons_eq_ok_iff.1 hwalk
      refine ih ?_ hrest
      cases (step_eq_ok_iff.1 hstep).2 with
      | idle => exact hplace
      | up => simp [h place hplace]
      | entry _ _ _ hentry => exact hentry

/-- A walk in another tree that never goes up is one in a tree that has its end. -/
theorem Rooted.walk_of_walk (h : t.Rooted) {parts : List String} (hup : ".." ∉ parts)
    (hwalk : t'.walk place parts = .ok next) (hnext : t.get? next = some .directory) :
    t.walk place parts = .ok next := by
  induction parts using List.reverseRecOn generalizing next with
  | nil => exact hwalk
  | append_singleton front last ih =>
      obtain ⟨middle, hfront, hstep⟩ := walk_concat_eq_ok_iff.1 hwalk
      have hup : ".." ∉ front ∧ last ≠ ".." := by
        simpa [not_or, eq_comm] using hup
      refine walk_concat_eq_ok_iff.2 ⟨middle, ?_⟩
      cases (step_eq_ok_iff.1 hstep).2 with
      | idle hidle =>
          exact ⟨ih hup.1 hfront hnext, (step_idle_eq_ok_iff hidle).2 ⟨hnext, rfl⟩⟩
      | up => exact absurd rfl hup.2
      | entry hidle hproper hsize =>
          have hmiddle := h.directory_of_append hnext
          exact ⟨ih hup.1 hfront hmiddle,
            step_eq_ok_iff.2 ⟨hmiddle, .entry hidle hproper hsize (by simp [hnext])⟩⟩

end FileTree

namespace Workspace

open InstanceForge.Path (absolute assemble join openEnd)

variable {w w' : Workspace} {path : String} {place : Location}

/-! ## Resolved paths -/

theorem resolve_eq_ok_iff :
    w.resolve path = .ok place ↔
      Path.fault? path = none ∧ w.tree.walk (w.start path).1 (w.start path).2 = .ok place := by
  unfold resolve
  split
  · next h => simp [h]
  · next h => simp [h]

theorem start_of_current (h : w'.current = w.current) (path : String) :
    w'.start path = w.start path := by
  unfold start
  rw [h]

theorem start_of_segments {first : String} {rest : List String}
    (h : Path.segments path = first :: rest) :
    w.start path = if first = "" then ([], rest) else (w.current, first :: rest) := by
  unfold start
  split
  · next rest' heq =>
      rw [h, List.cons.injEq] at heq
      rw [if_pos heq.1, heq.2]
  · next hne =>
      rw [if_neg, h]
      rintro rfl
      exact hne rest h

theorem start_ne_nil (h : path ≠ "") : (w.start path).2 ≠ [] := by
  obtain ⟨first, rest, hsegments⟩ := List.exists_cons_of_ne_nil (Path.segments_ne_nil path)
  rw [start_of_segments hsegments]
  split
  · next hfirst =>
      rintro rfl
      subst hfirst
      exact h (Path.segments_eq_singleton_iff.1 hsegments)
  · simp

theorem start_ne_nil_of_resolve (h : w.resolve path = .ok place) : (w.start path).2 ≠ [] :=
  start_ne_nil (Path.fault?_eq_none_iff.1 (resolve_eq_ok_iff.1 h).1).2.1

theorem start_join {directory name : String} (hdirectory : directory ≠ "")
    (hname : '/' ∉ name.toList) :
    w.start (join directory name) =
      ((w.start directory).1, openEnd (w.start directory).2 ++ [name]) := by
  obtain ⟨first, rest, hsegments⟩ := List.exists_cons_of_ne_nil (Path.segments_ne_nil directory)
  have hjoin := Path.segments_join directory hname
  rw [start_of_segments hsegments]
  by_cases hfirst : first = ""
  · have hrest : rest ≠ [] := by
      rintro rfl
      rw [hfirst] at hsegments
      exact hdirectory (Path.segments_eq_singleton_iff.1 hsegments)
    rw [hsegments, Path.openEnd_cons hrest, List.cons_append] at hjoin
    rw [start_of_segments hjoin, if_pos hfirst, if_pos hfirst]
  · have hopen : ∃ more, openEnd (first :: rest) = first :: more := by
      by_cases hrest : rest = []
      · exact ⟨[], by simp [hrest, openEnd, hfirst]⟩
      · exact ⟨_, Path.openEnd_cons hrest⟩
    obtain ⟨more, hmore⟩ := hopen
    rw [hsegments, hmore, List.cons_append] at hjoin
    rw [start_of_segments hjoin, if_neg hfirst, if_neg hfirst, hmore, List.cons_append]

theorem isFile_eq_true_iff :
    w.isFile path = true ↔
      ∃ place content, w.resolve path = .ok place ∧ w.tree.get? place = some (.file content) := by
  unfold isFile entry?
  cases hresolve : w.resolve path with
  | error e => simp
  | ok place =>
      cases hentry : w.tree.get? place with
      | none => simp [hentry]
      | some entry => cases entry <;> simp [hentry]

theorem isFile_empty (w : Workspace) : w.isFile "" = false := by
  have hfault : Path.fault? "" = some .notFound := by decide
  rw [← Bool.not_eq_true, isFile_eq_true_iff]
  rintro ⟨place, _, hresolve, _⟩
  rw [resolve_eq_ok_iff, hfault] at hresolve
  cases hresolve.1

theorem readText_eq_ok_iff {text : String} :
    w.readText path = .ok text ↔
      ∃ place, w.resolve path = .ok place ∧ w.tree.get? place = some (.file (.text text)) := by
  unfold readText
  cases hresolve : w.resolve path with
  | error e => simp
  | ok place =>
      cases hentry : w.tree.get? place with
      | none => simp [hentry]
      | some entry =>
          cases entry with
          | directory => simp [hentry]
          | file content => cases content <;> simp [hentry]

theorem isFile_of_readText {text : String} (h : w.readText path = .ok text) :
    w.isFile path = true := by
  obtain ⟨place, hresolve, hentry⟩ := readText_eq_ok_iff.1 h
  exact isFile_eq_true_iff.2 ⟨place, _, hresolve, hentry⟩

theorem isPresent_eq_true_iff :
    w.isPresent path = true ↔ ∃ place, w.resolve path = .ok place ∧ w.tree.get? place ≠ none := by
  unfold isPresent entry?
  cases hresolve : w.resolve path with
  | error e => simp
  | ok place => simp [Option.isSome_iff_ne_none]

theorem isDirectory_eq_true_iff :
    w.isDirectory path = true ↔
      ∃ place, w.resolve path = .ok place ∧ w.tree.get? place = some .directory := by
  unfold isDirectory entry?
  cases hresolve : w.resolve path with
  | error e => simp
  | ok place => simp

/-- What a name leads to behind a path that leads somewhere. -/
theorem resolve_join_iff {directory name : String} {next : Location} (hname : Path.IsName name)
    (h : w.resolve directory = .ok place) :
    w.resolve (join directory name) = .ok next ↔
      Path.fault? (join directory name) = none ∧ w.tree.get? place = some .directory ∧
        next = place ++ [name] ∧ w.tree.get? next ≠ none := by
  obtain ⟨hfault, hwalk⟩ := resolve_eq_ok_iff.1 h
  have hopen := FileTree.walk_openEnd hwalk
  rw [resolve_eq_ok_iff, start_join (Path.fault?_eq_none_iff.1 hfault).2.1 hname.noSlash,
    FileTree.walk_concat_eq_ok_iff]
  refine and_congr_right fun _ => ?_
  simp only [hopen, Except.ok.injEq, exists_eq_left', FileTree.step_eq_ok_iff]
  refine and_congr_right fun _ => ?_
  constructor
  · intro hleads
    cases hleads with
    | idle hidle =>
        rw [hname.notIdle] at hidle
        cases hidle
    | up => exact absurd rfl hname.notUp
    | entry _ _ _ hentry => exact ⟨rfl, hentry⟩
  · rintro ⟨rfl, hentry⟩
    exact .entry hname.notIdle hname.notUp hname.size_le hentry

/-- Where there is something below a path, there is no file at it. -/
theorem isFile_of_resolve_join {directory name : String} (hname : '/' ∉ name.toList)
    (h : w.resolve (join directory name) = .ok place) : w.isFile directory = false := by
  by_cases hempty : directory = ""
  · subst hempty
    exact isFile_empty w
  rw [← Bool.not_eq_true, isFile_eq_true_iff]
  rintro ⟨found, content, hfound, hcontent⟩
  obtain ⟨_, hwalk⟩ := resolve_eq_ok_iff.1 h
  rw [start_join hempty hname] at hwalk
  obtain ⟨middle, hmiddle, hstep⟩ := FileTree.walk_concat_eq_ok_iff.1 hwalk
  have hdirectory := (FileTree.step_eq_ok_iff.1 hstep).1
  have hsame := FileTree.walk_openEnd (resolve_eq_ok_iff.1 hfound).2
  rw [hmiddle, Except.ok.injEq] at hsame
  rw [← hsame, hdirectory] at hcontent
  cases hcontent

theorem getLast?_of_resolve_join {directory name : String} (hname : Path.IsName name)
    (h : w.resolve (join directory name) = .ok place) : place.getLast? = some name := by
  obtain ⟨_, hwalk⟩ := resolve_eq_ok_iff.1 h
  have hlast : ∃ front, (w.start (join directory name)).2 = front ++ [name] := by
    by_cases hempty : directory = ""
    · have hjoin := Path.segments_join directory hname.noSlash
      have hfirst : name ≠ "" := by
        rintro rfl
        exact absurd hname.notIdle (by decide)
      rw [hempty] at hjoin
      rw [hempty, start_of_segments hjoin, if_neg hfirst]
      exact ⟨[], rfl⟩
    · rw [start_join hempty hname.noSlash]
      exact ⟨_, rfl⟩
  obtain ⟨front, hfront⟩ := hlast
  rw [hfront] at hwalk
  obtain ⟨middle, _, hstep⟩ := FileTree.walk_concat_eq_ok_iff.1 hwalk
  rw [FileTree.eq_append_of_leads hname.notIdle hname.notUp (FileTree.step_eq_ok_iff.1 hstep).2]
  exact List.getLast?_concat

/-- The directory that a path names an entry of is there if the path leads anywhere. -/
theorem resolve_parent {directory : String} (hparent : Path.parent? path = some directory)
    (hne : directory ≠ "") (h : w.resolve path = .ok place) :
    ∃ above, w.resolve directory = .ok above ∧ w.tree.get? above = some .directory := by
  obtain ⟨first, front, more, hsegments, hmore, rfl⟩ :=
    (Path.parent?_cases hparent).resolve_left hne
  obtain ⟨hfault, hwalk⟩ := resolve_eq_ok_iff.1 h
  have hslash : ∀ part ∈ first :: front, '/' ∉ part.toList := by
    intro part hpart
    have hmem : part ∈ Path.segments path := by
      rw [hsegments, ← List.cons_append]
      exact List.mem_append_left _ hpart
    exact Path.slash_notMem_of_mem_segments hmem
  have hparts := Path.segments_assemble hslash
  have hsound := Path.fault?_of_prefix (Path.assemble_prefix hsegments hmore) hne hfault
  rw [start_of_segments hsegments] at hwalk
  by_cases hfirst : first = ""
  · rw [if_pos hfirst] at hwalk
    obtain ⟨above, habove, hrest⟩ := FileTree.walk_append_eq_ok_iff.1 hwalk
    refine ⟨above, resolve_eq_ok_iff.2 ⟨hsound, ?_⟩, FileTree.directory_of_walk hmore hrest⟩
    by_cases hfront : front = []
    · rw [if_pos ⟨hfirst, hfront⟩] at hparts
      rw [start_of_segments hparts, if_pos rfl]
      rw [hfront] at habove
      cases habove
      rfl
    · rw [if_neg fun hboth => hfront hboth.2] at hparts
      rw [start_of_segments hparts, if_pos hfirst]
      exact habove
  · rw [if_neg hfirst, ← List.cons_append] at hwalk
    obtain ⟨above, habove, hrest⟩ := FileTree.walk_append_eq_ok_iff.1 hwalk
    rw [if_neg fun hboth => hfirst hboth.1] at hparts
    refine ⟨above, resolve_eq_ok_iff.2 ⟨hsound, ?_⟩, FileTree.directory_of_walk hmore hrest⟩
    rw [start_of_segments hparts, if_neg hfirst]
    exact habove

/-! ## Sound workspaces -/

/-- Every entry is in a directory, and names lead to the current directory. -/
structure Sound (w : Workspace) : Prop where
  rooted : w.tree.Rooted
  current : w.tree.get? w.current = some .directory
  names : ∀ name ∈ w.current, Path.IsName name

theorem mem_segments_of_mem_start {part : String} (h : part ∈ (w.start path).2) :
    part ∈ Path.segments path := by
  obtain ⟨first, rest, hsegments⟩ := List.exists_cons_of_ne_nil (Path.segments_ne_nil path)
  rw [start_of_segments hsegments] at h
  rw [hsegments]
  split at h
  · exact List.mem_cons_of_mem _ h
  · exact h

theorem Sound.present_of_resolve (hw : w.Sound) (h : w.resolve path = .ok place) :
    w.tree.get? place ≠ none := by
  refine hw.rooted.present_of_walk ?_ (resolve_eq_ok_iff.1 h).2
  obtain ⟨first, rest, hsegments⟩ := List.exists_cons_of_ne_nil (Path.segments_ne_nil path)
  rw [start_of_segments hsegments]
  split
  · exact Option.some_ne_none _
  · simp [hw.current]

/-- What is a file in a directory above the current one. -/
theorem Sound.isFile_join_absolute (hw : w.Sound) {above : Location} (habove : above <+: w.current)
    {name : String} (hname : Path.IsName name) :
    w.isFile (join (absolute above) name) = true ↔
      Path.fault? (join (absolute above) name) = none ∧
        ∃ content, w.tree.get? (above ++ [name]) = some (.file content) := by
  obtain ⟨below, hbelow⟩ := habove
  have hnames : ∀ other ∈ above, Path.IsName other := fun other hother =>
    hw.names other (hbelow ▸ List.mem_append_left _ hother)
  have hdirectory : w.tree.get? above = some .directory :=
    hw.rooted.directory_of_append (hbelow.symm ▸ hw.current)
  have hstart := start_of_segments (w := w) (Path.segments_join_absolute hnames hname.noSlash)
  rw [if_pos rfl] at hstart
  have hwalk := hw.rooted.walk_names hnames hdirectory
  rw [isFile_eq_true_iff]
  simp only [resolve_eq_ok_iff, hstart, FileTree.walk_concat_eq_ok_iff]
  constructor
  · rintro ⟨place, content, ⟨hfault, middle, hmiddle, hstep⟩, hcontent⟩
    rw [hwalk, Except.ok.injEq] at hmiddle
    subst hmiddle
    have hleads := (FileTree.step_eq_ok_iff.1 hstep).2
    rw [FileTree.eq_append_of_leads hname.notIdle hname.notUp hleads] at hcontent
    exact ⟨hfault, content, hcontent⟩
  · rintro ⟨hfault, content, hcontent⟩
    refine ⟨above ++ [name], content, ⟨hfault, above, hwalk, ?_⟩, hcontent⟩
    exact FileTree.step_eq_ok_iff.2 ⟨hdirectory, .entry hname.notIdle hname.notUp hname.size_le
      (by simp [hcontent])⟩

end Workspace

end InstanceForge

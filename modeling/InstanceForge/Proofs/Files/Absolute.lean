import InstanceForge.Proofs.Files.Change

/-!
# Absolute paths

An absolute path leads to the same place from every directory, and so do all paths that are made of
it. Asking about such paths and changing files under them is therefore the same wherever the
current directory is.
-/

namespace InstanceForge

namespace Path

variable {path directory : String}

theorem isAbsolute_absolute (place : Location) : isAbsolute (absolute place) = true := by
  simp [isAbsolute, absolute]

theorem segments_of_isAbsolute (h : isAbsolute path = true) :
    ∃ rest, segments path = "" :: rest := by
  rw [isAbsolute, decide_eq_true_eq] at h
  obtain ⟨tail, htail⟩ := List.head?_eq_some_iff.1 h
  exact ⟨(split tail).map String.ofList, by simp [segments, htail, split]⟩

theorem isAbsolute_join (h : isAbsolute directory = true) (path : String) :
    isAbsolute (join directory path) = true := by
  by_cases hpath : isAbsolute path = true
  · rw [join, if_pos hpath, hpath]
  · rw [isAbsolute, decide_eq_true_eq] at h ⊢
    obtain ⟨tail, htail⟩ := List.head?_eq_some_iff.1 h
    rcases join_cases directory (Bool.eq_false_iff.2 hpath) with heq | heq <;>
      simp [heq, htail]

theorem isAbsolute_assemble (rest : List String) : isAbsolute (assemble "" rest) = true := by
  rw [← absolute_eq_assemble]
  exact isAbsolute_absolute rest

/-- What an absolute path names an entry of is absolute. -/
theorem isAbsolute_parent? (h : isAbsolute path = true) (hparent : parent? path = some directory) :
    isAbsolute directory = true := by
  obtain ⟨rest, hrest⟩ := segments_of_isAbsolute h
  rw [parent?, hrest] at hparent
  dsimp only at hparent
  split at hparent
  · simp at hparent
  · cases hparent
    exact isAbsolute_assemble _

theorem isAbsolute_of_mem_ancestors (h : isAbsolute path = true)
    (hdirectory : directory ∈ ancestors path) : isAbsolute directory = true := by
  unfold ancestors at hdirectory
  generalize (segments path).length = n at hdirectory
  induction n generalizing path with
  | zero =>
      rw [ancestorsWithin, List.mem_singleton] at hdirectory
      exact hdirectory ▸ h
  | succ n ih =>
      rw [ancestorsWithin] at hdirectory
      split at hdirectory
      · next up hup =>
          rcases List.mem_cons.1 hdirectory with rfl | hmem
          · exact h
          · exact ih (isAbsolute_parent? h hup) hmem
      · rw [List.mem_singleton] at hdirectory
        exact hdirectory ▸ h

/-- The directories from a location up to the root: the location, and those of what it is in. -/
theorem ancestors_absolute_concat {place : Location} {name : String}
    (h : ∀ other ∈ place ++ [name], IsName other) :
    ancestors (absolute (place ++ [name])) =
      absolute (place ++ [name]) :: ancestors (absolute place) := by
  have hplace : ∀ other ∈ place, IsName other :=
    fun other hother => h other (List.mem_append_left _ hother)
  have hparent := parent?_absolute h (by simp)
  rw [List.dropLast_concat] at hparent
  rw [ancestors, segments_absolute h, if_neg (by simp), List.length_cons, ancestorsWithin, hparent,
    ancestors, segments_absolute hplace]
  dsimp only
  split
  · next hnil =>
      have hroot : parent? (absolute []) = none := by decide
      subst hnil
      simp [ancestorsWithin, hroot]
  · simp

/-- What is looked for from a location up is found above it, unless it is on the way there. -/
theorem find?_ancestors_append {p : String -> Bool} {above below : Location}
    (hnames : ∀ name ∈ above ++ below, IsName name)
    (hbelow : ∀ front, front ≠ [] -> front <+: below -> p (absolute (above ++ front)) = false) :
    (ancestors (absolute (above ++ below))).find? p = (ancestors (absolute above)).find? p := by
  induction below using List.reverseRecOn with
  | nil => rw [List.append_nil]
  | append_singleton below name ih =>
      rw [← List.append_assoc] at hnames ⊢
      have hlast := hbelow (below ++ [name]) (by simp) (List.prefix_refl _)
      rw [← List.append_assoc] at hlast
      rw [ancestors_absolute_concat hnames, List.find?_cons_of_neg (ne_true_of_eq_false hlast)]
      exact ih (fun other hother => hnames other (List.mem_append_left _ hother))
        fun front hne hfront => hbelow front hne (hfront.trans (List.prefix_append _ _))

end Path

def FileChange.path : FileChange -> String
  | makeDirectories path => path
  | write path _ => path
  | create path _ => path

namespace Workspace

/-- The same files, seen from another directory. -/
def enter (w : Workspace) (place : Location) : Workspace :=
  { w with current := place }

@[simp] theorem tree_enter (w : Workspace) (place : Location) : (w.enter place).tree = w.tree := rfl

@[simp] theorem set_enter (w : Workspace) (place other : Location) (entry : FileEntry) :
    (w.enter place).set other entry = (w.set other entry).enter place := rfl

variable {path : String} (w : Workspace) (place : Location)

section Absolute

variable (h : Path.isAbsolute path = true)
include h

theorem start_enter : (w.enter place).start path = w.start path := by
  obtain ⟨rest, hrest⟩ := Path.segments_of_isAbsolute h
  rw [start_of_segments hrest, start_of_segments hrest, if_pos rfl, if_pos rfl]

theorem resolve_enter : (w.enter place).resolve path = w.resolve path := by
  rw [resolve, resolve, start_enter w place h, tree_enter]

theorem entry?_enter : entry? (w.enter place) path = w.entry? path := by
  unfold entry?
  rw [resolve_enter w place h, tree_enter]

theorem isFile_enter : (w.enter place).isFile path = w.isFile path := by
  rw [isFile, isFile, entry?_enter w place h]

theorem isDirectory_enter : (w.enter place).isDirectory path = w.isDirectory path := by
  rw [isDirectory, isDirectory, entry?_enter w place h]

theorem readText_enter : (w.enter place).readText path = w.readText path := by
  rw [readText, readText, resolve_enter w place h, tree_enter]

theorem target_enter : (w.enter place).target path = w.target path := by
  unfold target
  rw [start_enter w place h, tree_enter]

theorem makeDirectory_enter :
    (w.enter place).makeDirectory path = (w.makeDirectory path).map (·.enter place) := by
  simp only [makeDirectory, target_enter w place h, tree_enter, set_enter]
  split
  · rfl
  · rfl
  · split <;> rfl

theorem write_enter (text : String) :
    (w.enter place).write path text = (w.write path text).map (·.enter place) := by
  simp only [write, target_enter w place h, tree_enter, set_enter]
  split
  · rfl
  · rfl
  · rfl
  · split <;> rfl

theorem create_enter (text : String) :
    (w.enter place).create path text = (w.create path text).map (·.enter place) := by
  simp only [create, target_enter w place h, tree_enter, set_enter]
  split
  · rfl
  · rfl
  · rfl
  · split <;> rfl

end Absolute

/-! ## Changes -/

theorem makeChain_enter {paths : List String} (h : ∀ path ∈ paths, Path.isAbsolute path = true) :
    (w.enter place).makeChain paths =
      ((w.makeChain paths).1.enter place, (w.makeChain paths).2) := by
  induction paths with
  | nil => rfl
  | cons path above ih =>
      rw [List.forall_mem_cons] at h
      simp only [makeChain, makeDirectory_enter w place h.1, isDirectory_enter w place h.1, ih h.2]
      split
      · rfl
      · cases w.makeDirectory path with
        | ok made => rfl
        | error fault =>
            cases fault with
            | notFound =>
                cases w.makeChain above with
                | mk made fault? =>
                    cases fault? with
                    | some e => rfl
                    | none =>
                        simp only [makeDirectory_enter made place h.1,
                          isDirectory_enter made place h.1, Except.map]
                        cases made.makeDirectory path <;> rfl
            | _ => rfl

theorem change_enter {c : FileChange} (h : Path.isAbsolute c.path = true) :
    (w.enter place).change c = ((w.change c).1.enter place, (w.change c).2) := by
  cases c with
  | makeDirectories path =>
      exact makeChain_enter w place fun _ hmem => Path.isAbsolute_of_mem_ancestors h hmem
  | write path text =>
      have habsolute : Path.isAbsolute path = true := h
      rw [change, change, write_enter w place habsolute]
      cases w.write path text <;> rfl
  | create path text =>
      have habsolute : Path.isAbsolute path = true := h
      rw [change, change, create_enter w place habsolute]
      cases w.create path text <;> rfl

/-- Changes at absolute paths are the same from every directory. -/
theorem changeAll_enter {changes : List FileChange}
    (h : ∀ c ∈ changes, Path.isAbsolute c.path = true) :
    (w.enter place).changeAll changes =
      ((w.changeAll changes).1.enter place, (w.changeAll changes).2) := by
  induction changes generalizing w with
  | nil => rfl
  | cons c rest ih =>
      rw [List.forall_mem_cons] at h
      rw [changeAll, changeAll, change_enter w place h.1]
      cases w.change c with
      | mk next fault? =>
          cases fault? with
          | some e => rfl
          | none => exact ih next h.2

end Workspace

end InstanceForge

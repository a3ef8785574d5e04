import InstanceForge.Proofs.Files.Change

/-!
# Made directories

Which directories are made for a path, and when a text can be created in them. A directory that is
made is where its path leads afterwards. A path that never goes up spells where it leads, and all
directories that are made for it are on the way there.
-/

namespace InstanceForge

open InstanceForge.Path (join)

namespace Workspace

variable {w w' : Workspace} {path : String} {place : Location}

/-! ## Single directories -/

theorem makeDirectory_eq_ok (h : w.makeDirectory path = .ok w') :
    ∃ place, w' = w.set place .directory ∧ w.tree.get? place = none ∧
      w'.tree.get? place = some .directory ∧ w'.resolve path = .ok place := by
  have hdug := dug_of_makeDirectory h
  unfold makeDirectory at h
  split at h
  · cases h
  · cases h
  · next directory name slashed htarget =>
      split at h
      · cases h
      · cases h
      · next hfind =>
          cases h
          obtain ⟨hsize, hnone⟩ := FileTree.find_eq_ok_iff.1 hfind
          have hmade : (w.set (directory ++ [name]) .directory).tree.get? (directory ++ [name]) =
              some .directory := w.tree.get?_set_concat _ _ _
          exact ⟨_, rfl, hnone, hmade,
            resolve_of_target htarget hsize rfl hdug.extends (by simp [hmade]) fun _ => hmade⟩

/-- A path asks for a name in the directory that it is joined to. -/
theorem target_join {directory name : String} (hname : Path.IsName name)
    (hfault : Path.fault? (join directory name) = none) (h : w.resolve directory = .ok place)
    (hplace : w.tree.get? place = some .directory) :
    w.target (join directory name) = .ok ⟨place, some name, false⟩ := by
  obtain ⟨hsound, hwalk⟩ := resolve_eq_ok_iff.1 h
  have hempty : name ≠ "" := by
    rintro rfl
    exact absurd hname.notIdle (by decide)
  have hstays : name ≠ "." := by
    rintro rfl
    exact absurd hname.notIdle (by decide)
  have hstart := start_join (w := w) (Path.fault?_eq_none_iff.1 hsound).2.1 hname.noSlash
  have hnamed : named (w.start (join directory name)).2 =
      Path.openEnd (w.start directory).2 ++ [name] := by
    rw [hstart]
    simp [named, hempty]
  refine target_eq_ok_iff.2 ⟨hfault, ?_, hplace, ?_, ?_⟩
  · rw [hnamed, List.dropLast_concat, hstart]
    exact FileTree.walk_openEnd hwalk
  · rw [hnamed, List.getLast?_concat]
    simp [Option.filter, hstays, hname.notUp]
  · rw [hnamed, hstart]
    simp

/-- Why a text cannot be created in a directory. -/
theorem exists_error_create_join_iff {directory name : String} (hname : Path.IsName name)
    (text : String) (h : w.resolve directory = .ok place)
    (hplace : w.tree.get? place = some .directory) :
    (∃ e, w.create (join directory name) text = .error e) ↔
      Path.fault? (join directory name) ≠ none ∨ w.tree.get? (place ++ [name]) ≠ none := by
  cases hfault : Path.fault? (join directory name) with
  | some e =>
      have htarget : w.target (join directory name) = .error e := by
        simp only [target, hfault]
      simp [create, htarget]
  | none =>
      have hfind : w.tree.find place name = .ok (w.tree.get? (place ++ [name])) :=
        FileTree.find_eq_ok_iff.2 ⟨hname.size_le, rfl⟩
      simp only [create, target_join hname hfault h hplace, hfind]
      cases w.tree.get? (place ++ [name]) <;> simp

theorem isPresent_join_iff {directory name : String} (hname : Path.IsName name)
    (h : w.resolve directory = .ok place) (hplace : w.tree.get? place = some .directory) :
    w.isPresent (join directory name) = true ↔
      Path.fault? (join directory name) = none ∧ w.tree.get? (place ++ [name]) ≠ none := by
  simp only [isPresent_eq_true_iff, resolve_join_iff hname h]
  constructor
  · rintro ⟨next, ⟨hfault, -, rfl, hentry⟩, -⟩
    exact ⟨hfault, hentry⟩
  · rintro ⟨hfault, hentry⟩
    exact ⟨_, ⟨hfault, hplace, rfl, hentry⟩, hentry⟩

/-! ## Chains of directories -/

/-- Once a directory is made with those above it, its path leads to it. -/
theorem isDirectory_of_makeDirectories (hne : path ≠ "") (h : (w.makeDirectories path).2 = none) :
    (w.makeDirectories path).1.isDirectory path = true := by
  have hlast : ∀ {v last : Workspace}, v.makeDirectory path = .ok last ->
      last.isDirectory path = true := by
    intro v last hmade
    obtain ⟨place, -, -, hplace, hresolve⟩ := makeDirectory_eq_ok hmade
    exact isDirectory_eq_true_iff.2 ⟨place, hresolve, hplace⟩
  have hpresent : ∀ {v : Workspace} {e : FileFault},
      (if v.isDirectory path = true then none else some e) = none ->
      v.isDirectory path = true := by
    intro v e hnone
    split at hnone
    · assumption
    · cases hnone
  obtain ⟨above, habove⟩ := Path.exists_ancestors path
  rw [makeDirectories, habove, makeChain, if_neg hne] at h ⊢
  split at h
  · next made hmade => exact hlast hmade
  · split at h
    · cases h
    · split at h
      · next last hmade => exact hlast hmade
      · exact hpresent h
  · exact hpresent h

/-- The location that a path spells; without steps upwards, no other is where it can lead. -/
def spelled (w : Workspace) (path : String) : Location :=
  (w.start path).1 ++ (w.start path).2.filter fun part => !Path.isIdle part

theorem spelled_of_current (h : w'.current = w.current) (path : String) :
    w'.spelled path = w.spelled path := by
  rw [spelled, spelled, start_of_current h]

theorem eq_spelled_of_resolve (hup : ".." ∉ (w.start path).2) (h : w.resolve path = .ok place) :
    place = w.spelled path :=
  FileTree.eq_of_walk hup (resolve_eq_ok_iff.1 h).2

/-- What is new after a chain of directories is spelled by one of the paths in it. -/
theorem exists_mem_of_makeChain {paths : List String}
    (hup : ∀ path ∈ paths, ".." ∉ (w.start path).2)
    (hnew : (w.makeChain paths).1.tree.get? place ≠ w.tree.get? place) :
    ∃ path ∈ paths, place = w.spelled path := by
  induction paths with
  | nil => exact absurd rfl hnew
  | cons path above ih =>
      rw [List.forall_mem_cons] at hup
      have hhere : ∀ {v last : Workspace}, v.current = w.current ->
          v.makeDirectory path = .ok last ->
          last.tree.get? place ≠ v.tree.get? place -> place = w.spelled path := by
        intro v last hcurrent hmade hchanged
        obtain ⟨made, rfl, -, -, hresolve⟩ := makeDirectory_eq_ok hmade
        have hplace : place = made := by
          by_contra hother
          exact hchanged (v.tree.get?_set_of_ne hother _)
        have hsame : (v.set made .directory).current = w.current := hcurrent
        rw [hplace, ← spelled_of_current hsame]
        exact eq_spelled_of_resolve (start_of_current hsame path ▸ hup.1) hresolve
      have habove : (w.makeChain above).1.tree.get? place ≠ w.tree.get? place ->
          ∃ path' ∈ path :: above, place = w.spelled path' := by
        intro hchanged
        obtain ⟨path', hpath', hplace⟩ := ih hup.2 hchanged
        exact ⟨path', List.mem_cons_of_mem _ hpath', hplace⟩
      unfold makeChain at hnew
      split at hnew
      · exact absurd rfl hnew
      · split at hnew
        · next made hmade => exact ⟨path, List.mem_cons_self, hhere rfl hmade hnew⟩
        · split at hnew
          · next made e hchain => exact habove (by rwa [hchain])
          · next made hchain =>
              have hdug := dug_makeChain w above
              rw [hchain] at habove hdug
              by_cases hchanged : made.tree.get? place = w.tree.get? place
              · split at hnew
                · next last hlast =>
                    exact ⟨path, List.mem_cons_self,
                      hhere hdug.current hlast (hchanged ▸ hnew)⟩
                · exact absurd hchanged hnew
              · exact habove hchanged
        · exact absurd rfl hnew

/-! ## Ways -/

/-- The directory of a path that never goes up is on the way that the path spells. -/
theorem spelled_parent {above : String} (hup : ".." ∉ (w.start path).2)
    (h : Path.parent? path = some above) :
    ".." ∉ (w.start above).2 ∧ w.spelled above <+: w.spelled path := by
  rcases Path.parent?_cases h with rfl | ⟨first, front, more, hsegments, -, rfl⟩
  · have hempty : Path.segments "" = [""] := by decide
    simp [spelled, start_of_segments hempty]
  · have hslash : ∀ part ∈ first :: front, '/' ∉ part.toList := by
      intro part hpart
      have hmem : part ∈ Path.segments path := by
        rw [hsegments, ← List.cons_append]
        exact List.mem_append_left _ hpart
      exact Path.slash_notMem_of_mem_segments hmem
    have hstart := start_of_segments (w := w) hsegments
    have habove := Path.segments_assemble hslash
    by_cases hfirst : first = ""
    · rw [if_pos hfirst] at hstart
      rw [hstart, List.mem_append, not_or] at hup
      by_cases hfront : front = []
      · rw [if_pos ⟨hfirst, hfront⟩] at habove
        have hroot := start_of_segments (w := w) habove
        rw [if_pos rfl] at hroot
        rw [spelled, hroot]
        exact ⟨by decide, List.nil_prefix⟩
      · rw [if_neg fun hboth => hfront hboth.2] at habove
        have hroot := start_of_segments (w := w) habove
        rw [if_pos hfirst] at hroot
        rw [spelled, spelled, hroot, hstart, List.filter_append]
        exact ⟨hup.1, List.prefix_append _ _⟩
    · rw [if_neg hfirst, ← List.cons_append] at hstart
      rw [hstart, List.mem_append, not_or] at hup
      rw [if_neg fun hboth => hfirst hboth.1] at habove
      have hbelow := start_of_segments (w := w) habove
      rw [if_neg hfirst] at hbelow
      rw [spelled, spelled, hbelow, hstart, List.filter_append, ← List.append_assoc]
      exact ⟨hup.1, List.prefix_append _ _⟩

theorem spelled_of_mem_ancestorsWithin {n : Nat} {above : String}
    (hup : ".." ∉ (w.start path).2) (h : above ∈ Path.ancestorsWithin n path) :
    ".." ∉ (w.start above).2 ∧ w.spelled above <+: w.spelled path := by
  induction n generalizing path with
  | zero =>
      rw [List.mem_singleton.1 h]
      exact ⟨hup, List.prefix_refl _⟩
  | succ n ih =>
      unfold Path.ancestorsWithin at h
      split at h
      · next parent hparent =>
          obtain ⟨hparentUp, hspelled⟩ := spelled_parent hup hparent
          rcases List.mem_cons.1 h with rfl | h
          · exact ⟨hup, List.prefix_refl _⟩
          · obtain ⟨haboveUp, habove⟩ := ih hparentUp h
            exact ⟨haboveUp, habove.trans hspelled⟩
      · rw [List.mem_singleton.1 h]
        exact ⟨hup, List.prefix_refl _⟩

/-- The directories that are made for a path that never goes up are on the way it spells. -/
theorem prefix_of_makeDirectories (hup : ".." ∉ (w.start path).2)
    (hnew : (w.makeDirectories path).1.tree.get? place ≠ w.tree.get? place) :
    place <+: w.spelled path := by
  obtain ⟨above, habove, rfl⟩ := exists_mem_of_makeChain
    (fun above habove => (spelled_of_mem_ancestorsWithin hup habove).1) hnew
  exact (spelled_of_mem_ancestorsWithin hup habove).2

end Workspace

end InstanceForge

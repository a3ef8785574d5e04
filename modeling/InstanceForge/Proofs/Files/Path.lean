import InstanceForge.Files.Workspace
import Mathlib.Data.List.Infix

/-!
# Segments of paths

The segments of joined paths, of parents and of ancestors. A joined path goes through the
segments of its directory, and so does a path through those of its parent.
-/

namespace InstanceForge

namespace Path

/-! ## Splitting -/

theorem split_append_slash (cs rest : List Char) :
    split (cs ++ '/' :: rest) = split cs ++ split rest := by
  induction cs with
  | nil => simp [split]
  | cons c tail ih =>
      by_cases hc : c = '/'
      · simp [split, hc, ih]
      · obtain ⟨segment, more, hsplit⟩ := List.exists_cons_of_ne_nil (split_ne_nil tail)
        simp [split, hc, ih, hsplit]

theorem split_of_notMem {cs : List Char} (h : '/' ∉ cs) : split cs = [cs] := by
  induction cs with
  | nil => rfl
  | cons c tail ih =>
      rw [List.mem_cons, not_or] at h
      rw [split, if_neg (Ne.symm h.1), ih h.2]

theorem slash_notMem_of_mem_split {cs part : List Char} (h : part ∈ split cs) : '/' ∉ part := by
  induction cs generalizing part with
  | nil =>
      rw [split, List.mem_singleton] at h
      simp [h]
  | cons c tail ih =>
      obtain ⟨segment, more, hsplit⟩ := List.exists_cons_of_ne_nil (split_ne_nil tail)
      rw [hsplit, List.forall_mem_cons] at ih
      by_cases hc : c = '/'
      · rw [split, if_pos hc, hsplit, List.mem_cons, List.mem_cons] at h
        rcases h with rfl | rfl | h
        · exact List.not_mem_nil
        · exact ih.1
        · exact ih.2 part h
      · rw [split, if_neg hc, hsplit, List.mem_cons] at h
        rcases h with rfl | h
        · rw [List.mem_cons, not_or]
          exact ⟨Ne.symm hc, ih.1⟩
        · exact ih.2 part h

theorem unsplit_append {front back : List (List Char)} (hfront : front ≠ []) (hback : back ≠ []) :
    unsplit (front ++ back) = unsplit front ++ '/' :: unsplit back := by
  induction front with
  | nil => exact absurd rfl hfront
  | cons part rest ih =>
      cases rest with
      | nil =>
          obtain ⟨next, more, rfl⟩ := List.exists_cons_of_ne_nil hback
          rfl
      | cons next more =>
          have hstep := ih (by simp)
          rw [List.cons_append] at hstep
          rw [List.cons_append, List.cons_append, unsplit, hstep, unsplit]
          simp

theorem split_unsplit {parts : List (List Char)} (hne : parts ≠ [])
    (h : ∀ part ∈ parts, '/' ∉ part) : split (unsplit parts) = parts := by
  induction parts with
  | nil => exact absurd rfl hne
  | cons part rest ih =>
      rw [List.forall_mem_cons] at h
      cases rest with
      | nil => exact split_of_notMem h.1
      | cons next more =>
          rw [unsplit, split_append_slash, split_of_notMem h.1, ih (by simp) h.2]
          rfl

/-! ## Segments -/

theorem segments_ne_nil (path : String) : segments path ≠ [] := by
  simpa [segments] using split_ne_nil path.toList

theorem slash_notMem_of_mem_segments {path segment : String} (h : segment ∈ segments path) :
    '/' ∉ segment.toList := by
  obtain ⟨part, hpart, rfl⟩ := List.mem_map.1 h
  rw [String.toList_ofList]
  exact slash_notMem_of_mem_split hpart

theorem segments_ofSegments {parts : List String} (hne : parts ≠ [])
    (h : ∀ part ∈ parts, '/' ∉ part.toList) : segments (ofSegments parts) = parts := by
  have hsplit : split (unsplit (parts.map String.toList)) = parts.map String.toList := by
    refine split_unsplit (by simpa using hne) fun part hpart => ?_
    obtain ⟨name, hname, rfl⟩ := List.mem_map.1 hpart
    exact h name hname
  rw [segments, ofSegments, String.toList_ofList, hsplit, List.map_map]
  simp [Function.comp_def]

theorem toList_eq_unsplit (path : String) :
    path.toList = unsplit ((segments path).map String.toList) := by
  have hpath := congrArg String.toList (ofSegments_segments path)
  rw [ofSegments, String.toList_ofList] at hpath
  exact hpath.symm

theorem segments_eq_singleton_iff {path : String} : segments path = [""] ↔ path = "" := by
  constructor
  · intro h
    rw [← ofSegments_segments path, h]
    rfl
  · rintro rfl
    decide

/-- Segments without an empty one at the end, which a slash at the end leaves. -/
def openEnd (parts : List String) : List String :=
  if parts.getLast? = some "" then parts.dropLast else parts

theorem openEnd_concat_empty (parts : List String) : openEnd (parts ++ [""]) = parts := by
  simp [openEnd]

theorem openEnd_cons {first : String} {rest : List String} (h : rest ≠ []) :
    openEnd (first :: rest) = first :: openEnd rest := by
  obtain ⟨second, more, rfl⟩ := List.exists_cons_of_ne_nil h
  unfold openEnd
  split
  · next hlast => rw [if_pos (by simpa using hlast), List.dropLast_cons_of_ne_nil h]
  · next hlast => rw [if_neg (by simpa using hlast)]

theorem openEnd_cases (parts : List String) :
    parts = openEnd parts ∨ parts = openEnd parts ++ [""] := by
  unfold openEnd
  split
  · next h =>
      obtain ⟨front, rfl⟩ := List.getLast?_eq_some_iff.1 h
      exact .inr (by simp)
  · exact .inl rfl

theorem openEnd_prefix {parts : List String} : openEnd parts <+: parts := by
  unfold openEnd
  split
  · exact List.dropLast_prefix _
  · exact List.prefix_refl _

/-- A path that ends with an empty segment is empty or ends with a slash. -/
theorem endsOpen_of_getLast? {path : String} (h : (segments path).getLast? = some "") :
    endsOpen path = true := by
  obtain ⟨front, hfront⟩ := List.getLast?_eq_some_iff.1 h
  rw [endsOpen, Bool.or_eq_true, decide_eq_true_eq, toList_eq_unsplit, hfront]
  cases front with
  | nil => exact .inl rfl
  | cons part rest =>
      rw [List.map_append, unsplit_append (by simp) (by simp)]
      exact .inr (by simp [unsplit])

/-- A joined path goes through the segments of its directory. -/
theorem segments_join (directory : String) {name : String} (hname : '/' ∉ name.toList) :
    segments (join directory name) = openEnd (segments directory) ++ [name] := by
  have habsolute : isAbsolute name = false := by
    rw [isAbsolute, decide_eq_false_iff_not]
    exact fun h => hname (List.mem_of_head? h)
  have hsingle : (split name.toList).map String.ofList = [name] := by
    rw [split_of_notMem hname]
    simp
  rw [join, habsolute, if_neg Bool.false_ne_true]
  split
  · next hopen =>
      rw [endsOpen, Bool.or_eq_true, decide_eq_true_eq, List.isEmpty_iff] at hopen
      rcases hopen with hempty | hslash
      · have hdirectory : segments directory = [""] := by
          rw [segments, hempty]
          rfl
        rw [hdirectory, segments, String.toList_append, hempty, List.nil_append, hsingle]
        rfl
      · obtain ⟨front, hfront⟩ := List.getLast?_eq_some_iff.1 hslash
        have hdirectory : segments directory = (split front).map String.ofList ++ [""] := by
          rw [segments, hfront, split_append_slash, List.map_append]
          rfl
        rw [hdirectory, openEnd_concat_empty, segments, String.toList_append, hfront,
          List.append_assoc, List.singleton_append, split_append_slash, List.map_append, hsingle]
  · next hopen =>
      have hlast : (segments directory).getLast? ≠ some "" :=
        fun h => hopen (endsOpen_of_getLast? h)
      have hslash : "/".toList = ['/'] := by decide
      rw [openEnd, if_neg hlast, segments, String.toList_append, String.toList_append, hslash,
        List.append_assoc, List.singleton_append, split_append_slash, List.map_append, hsingle]
      rfl

/-- A path is put behind a directory, after a slash where none is there. -/
theorem join_cases (directory : String) {path : String} (h : isAbsolute path = false) :
    join directory path = directory ++ path ∨ join directory path = directory ++ "/" ++ path := by
  rw [join, h, if_neg Bool.false_ne_true]
  split
  · exact .inl rfl
  · exact .inr rfl

theorem mem_toList_join_iff {c : Char} (hc : c ≠ '/') (directory : String) {path : String}
    (h : isAbsolute path = false) :
    c ∈ (join directory path).toList ↔ c ∈ directory.toList ∨ c ∈ path.toList := by
  have hslash : "/".toList = ['/'] := by decide
  rcases join_cases directory h with heq | heq <;>
    simp [heq, hslash, hc]

/-! ## Parents -/

theorem trimEnd_concat {front : List String} {last : String} (h : isIdle last = false) :
    trimEnd (front ++ [last]) = front ++ [last] := by
  simp [trimEnd, h]

theorem trimEnd_prefix (parts : List String) : trimEnd parts <+: parts := by
  have hsuffix := List.dropWhile_suffix isIdle (l := parts.reverse)
  rw [← List.reverse_prefix, List.reverse_reverse] at hsuffix
  exact hsuffix

theorem parent?_cases {path directory : String} (h : parent? path = some directory) :
    directory = "" ∨ ∃ first front more, segments path = first :: (front ++ more) ∧ more ≠ [] ∧
      directory = assemble first front := by
  unfold parent? at h
  split at h
  · cases h
  · next first rest hsegments =>
      split at h
      · split at h
        · cases h
        · exact .inl (Option.some.inj h).symm
      · next part parts htrim =>
          -- what two trims and a dropped segment leave begins the segments, and is shorter
          have hfront : trimEnd (part :: parts).dropLast <+: (part :: parts).dropLast :=
            trimEnd_prefix _
          have hlength := hfront.length_le
          have hprefix : trimEnd (part :: parts).dropLast <+: rest :=
            (hfront.trans (List.dropLast_prefix _)).trans (htrim ▸ trimEnd_prefix rest)
          have hrest := (htrim ▸ trimEnd_prefix rest).length_le
          obtain ⟨more, hmore⟩ := hprefix
          refine .inr ⟨first, _, more, by rw [hsegments, hmore], ?_, (Option.some.inj h).symm⟩
          rintro rfl
          have htotal := congrArg List.length hmore
          simp only [List.length_append, List.length_nil, List.length_dropLast, List.length_cons]
            at htotal hlength hrest
          omega

theorem segments_assemble {first : String} {front : List String}
    (h : ∀ part ∈ first :: front, '/' ∉ part.toList) :
    segments (assemble first front) =
      if first = "" ∧ front = [] then ["", ""] else first :: front := by
  unfold assemble
  by_cases hroot : first = "" ∧ front = []
  · rw [if_pos (by simpa using hroot), if_pos hroot]
    decide
  · rw [if_neg (by simpa using hroot), if_neg hroot, segments_ofSegments (by simp) h]

/-- The parent of a joined path is the directory, if that ends in a proper segment. -/
theorem parent?_join {directory name last : String} {front : List String}
    (hdirectory : segments directory = front ++ [last]) (hlast : isIdle last = false)
    (hname : isIdle name = false) (hslash : '/' ∉ name.toList) :
    parent? (join directory name) = some directory := by
  have hnonempty : last ≠ "" := by
    rintro rfl
    exact absurd hlast (by decide)
  have hjoin := segments_join directory hslash
  have hopen : openEnd (front ++ [last]) = front ++ [last] := by
    simp [openEnd, hnonempty]
  rw [hdirectory, hopen] at hjoin
  have hrest : ∀ {first : String} {rest : List String}, front ++ [last] = first :: rest ->
      trimEnd rest = rest -> assemble first rest = directory ->
      parent? (join directory name) = some directory := by
    intro first rest hcons htrim hassemble
    rw [hcons, List.cons_append] at hjoin
    obtain ⟨part, parts, hparts⟩ := List.exists_cons_of_ne_nil (l := rest ++ [name]) (by simp)
    unfold parent?
    rw [hjoin]
    dsimp only
    rw [trimEnd_concat hname, hparts]
    dsimp only
    rw [← hparts, List.dropLast_concat, htrim, hassemble]
  have hsame : ofSegments (front ++ [last]) = directory := by
    rw [← hdirectory, ofSegments_segments]
  cases front with
  | nil =>
      refine hrest rfl rfl ?_
      rw [assemble, if_neg (by simp [hnonempty])]
      exact hsame
  | cons first more =>
      refine hrest rfl (trimEnd_concat hlast) ?_
      rw [assemble, if_neg (by simp)]
      exact hsame

theorem fault?_eq_none_iff {path : String} :
    fault? path = none ↔ '\x00' ∉ path.toList ∧ path ≠ "" ∧ path.utf8ByteSize ≤ maxSize := by
  unfold fault?
  by_cases hnul : '\x00' ∈ path.toList
  · simp [hnul]
  · by_cases hempty : path = "" <;> simp [hnul, hempty]

/-- What begins a path that is not refused is not refused. -/
theorem fault?_of_prefix {start path : String} (hbegins : start.toList <+: path.toList)
    (hne : start ≠ "") (h : fault? path = none) : fault? start = none := by
  obtain ⟨hnul, _, hsize⟩ := fault?_eq_none_iff.1 h
  obtain ⟨rest, hrest⟩ := hbegins
  have hpath : path = start ++ String.ofList rest := by
    rw [String.ext_iff, String.toList_append, String.toList_ofList, hrest]
  rw [hpath, String.utf8ByteSize_append] at hsize
  exact fault?_eq_none_iff.2
    ⟨fun hmem => hnul (hrest ▸ List.mem_append_left _ hmem), hne, by omega⟩

theorem assemble_prefix {path first : String} {front more : List String}
    (h : segments path = first :: (front ++ more)) (hmore : more ≠ []) :
    (assemble first front).toList <+: path.toList := by
  have hpath : path.toList = unsplit ((first :: front).map String.toList) ++
      '/' :: unsplit (more.map String.toList) := by
    rw [← unsplit_append (by simp) (by simpa using hmore), ← List.map_append, List.cons_append,
      ← h, ← toList_eq_unsplit]
  rw [hpath]
  unfold assemble
  split
  · next hroot =>
      have hroot : first = "" ∧ front = [] := by simpa using hroot
      rw [hroot.1, hroot.2]
      exact ⟨_, rfl⟩
  · rw [ofSegments, String.toList_ofList]
    exact List.prefix_append _ _

/-! ## Ancestors -/

theorem exists_ancestors (path : String) : ∃ above, ancestors path = path :: above := by
  unfold ancestors ancestorsWithin
  split
  · exact ⟨_, rfl⟩
  · split <;> exact ⟨_, rfl⟩

def absolute (place : Location) : String :=
  "/" ++ ofSegments place

theorem absolute_eq_assemble (place : Location) : absolute place = assemble "" place := by
  cases place with
  | nil => decide
  | cons name rest =>
      rw [absolute, assemble, if_neg (by simp), String.ext_iff]
      simp only [String.toList_append, ofSegments, String.toList_ofList]
      rfl

/-- A name that leads from a directory to an entry in it. -/
structure IsName (name : String) : Prop where
  notIdle : isIdle name = false
  notUp : name ≠ ".."
  noSlash : '/' ∉ name.toList
  size_le : name.utf8ByteSize ≤ maxNameSize

theorem trimEnd_of_isName {place : Location} (h : ∀ name ∈ place, IsName name) :
    trimEnd place = place := by
  unfold trimEnd
  cases hreverse : place.reverse with
  | nil => simpa using hreverse.symm
  | cons last rest =>
      have hlast : last ∈ place := List.mem_reverse.1 (hreverse ▸ List.mem_cons_self)
      rw [List.dropWhile_cons_of_neg (by simp [(h last hlast).notIdle]), ← hreverse,
        List.reverse_reverse]

theorem segments_absolute {place : Location} (h : ∀ name ∈ place, IsName name) :
    segments (absolute place) = if place = [] then ["", ""] else "" :: place := by
  rw [absolute_eq_assemble, segments_assemble]
  · simp
  · refine List.forall_mem_cons.2 ⟨by simp, fun name hname => (h name hname).noSlash⟩

theorem segments_join_absolute {place : Location} (h : ∀ name ∈ place, IsName name)
    {name : String} (hname : '/' ∉ name.toList) :
    segments (join (absolute place) name) = "" :: (place ++ [name]) := by
  rw [segments_join _ hname, segments_absolute h]
  split
  · next hnil =>
      rw [hnil]
      rfl
  · next hne =>
      have hlast : place.getLast? ≠ some "" := by
        intro hlast
        exact absurd (h "" (List.mem_of_getLast? hlast)).notIdle (by decide)
      rw [openEnd_cons hne, openEnd, if_neg hlast]
      rfl

theorem join_absolute {place : Location} (h : ∀ name ∈ place, IsName name) {name : String}
    (hname : '/' ∉ name.toList) : join (absolute place) name = absolute (place ++ [name]) := by
  rw [← ofSegments_segments (join _ _), segments_join_absolute h hname, absolute_eq_assemble,
    assemble, if_neg (by simp)]

theorem absolute_concat {place : Location} (hne : place ≠ []) (name : String) :
    absolute (place ++ [name]) = absolute place ++ "/" ++ name := by
  have hsplit : unsplit (place.map String.toList ++ [name.toList]) =
      unsplit (place.map String.toList) ++ '/' :: unsplit [name.toList] :=
    unsplit_append (by simpa using hne) (by simp)
  rw [absolute, absolute, String.ext_iff, ofSegments, ofSegments, List.map_append]
  simp only [String.toList_append, String.toList_ofList, List.map_cons, List.map_nil, hsplit]
  rw [List.append_assoc, List.append_assoc]
  rfl

theorem utf8ByteSize_absolute_concat {place : Location} (hne : place ≠ []) (name : String) :
    (absolute (place ++ [name])).utf8ByteSize =
      (absolute place).utf8ByteSize + 1 + name.utf8ByteSize := by
  have hslash : "/".utf8ByteSize = 1 := by decide
  rw [absolute_concat hne, String.utf8ByteSize_append, String.utf8ByteSize_append, hslash]

theorem utf8ByteSize_absolute_replicate (name : String) (n : Nat) :
    (absolute (List.replicate (n + 1) name)).utf8ByteSize =
      (n + 1) * (name.utf8ByteSize + 1) := by
  induction n with
  | zero =>
      have hone : absolute [name] = "/" ++ name := by
        simp [absolute, ofSegments, unsplit]
      have hslash : "/".utf8ByteSize = 1 := by decide
      rw [List.replicate_one, hone, String.utf8ByteSize_append]
      omega
  | succ n ih =>
      rw [List.replicate_succ', utf8ByteSize_absolute_concat (by simp), ih,
        Nat.add_one_mul (n + 1)]
      omega

theorem parent?_absolute {place : Location} (h : ∀ name ∈ place, IsName name) (hne : place ≠ []) :
    parent? (absolute place) = some (absolute place.dropLast) := by
  have hdropLast : ∀ name ∈ place.dropLast, IsName name :=
    fun name hname => h name (List.mem_of_mem_dropLast hname)
  obtain ⟨name, rest, rfl⟩ := List.exists_cons_of_ne_nil hne
  rw [parent?, segments_absolute h, if_neg hne]
  simp only [trimEnd_of_isName h, trimEnd_of_isName hdropLast, absolute_eq_assemble]

/-- The directories that a location is in have the locations that begin it. -/
theorem exists_prefix_of_mem_ancestorsWithin {n : Nat} {place : Location}
    (h : ∀ name ∈ place, IsName name) {path : String}
    (hpath : path ∈ ancestorsWithin n (absolute place)) :
    ∃ above, above <+: place ∧ path = absolute above := by
  induction n generalizing place with
  | zero => exact ⟨place, List.prefix_refl _, List.mem_singleton.1 hpath⟩
  | succ n ih =>
      unfold ancestorsWithin at hpath
      by_cases hnil : place = []
      · have hroot : parent? (absolute place) = none := by
          rw [hnil]
          decide
        rw [hroot] at hpath
        exact ⟨place, List.prefix_refl _, List.mem_singleton.1 hpath⟩
      · rw [parent?_absolute h hnil] at hpath
        rcases List.mem_cons.1 hpath with rfl | hpath
        · exact ⟨place, List.prefix_refl _, rfl⟩
        · obtain ⟨above, habove, rfl⟩ :=
            ih (fun name hname => h name (List.mem_of_mem_dropLast hname)) hpath
          exact ⟨above, habove.trans (List.dropLast_prefix _), rfl⟩

end Path

end InstanceForge

import InstanceForge.Proofs.Name
import Mathlib.Data.List.Infix

/-!
# Paths and simple names

The simple name of a type that has a path is the last segment of the path. So types with one path
have one simple name, even if their names are written with different separators.
-/

namespace InstanceForge

namespace Name

/-! ## Separators -/

theorem splitDots_ne_nil (cs : List Char) : splitDots cs ≠ [] := by
  cases cs with
  | nil => simp [splitDots]
  | cons c rest =>
      rw [splitDots]
      split
      · simp
      · cases splitDots rest <;> simp [consHead]

theorem splitDots_of_notMem {cs : List Char} (h : '.' ∉ cs) : splitDots cs = [cs] := by
  induction cs with
  | nil => rfl
  | cons c rest ih =>
      rw [List.mem_cons, not_or] at h
      rw [splitDots, if_neg (Ne.symm h.1), ih h.2]
      rfl

theorem getLast?_consHead (c : Char) {first second : List Char} {rest : List (List Char)} :
    (consHead c (first :: second :: rest)).getLast? = (first :: second :: rest).getLast? := by
  simp [consHead]

theorem exists_splitDots_of_mem {cs : List Char} (h : '.' ∈ cs) :
    ∃ first second rest, splitDots cs = first :: second :: rest := by
  induction cs with
  | nil => cases h
  | cons c tail ih =>
      by_cases hc : c = '.'
      · rw [splitDots, if_pos hc]
        obtain ⟨first, rest, hrest⟩ := List.exists_cons_of_ne_nil (splitDots_ne_nil tail)
        exact ⟨[], first, rest, by rw [hrest]⟩
      · obtain ⟨first, second, rest, hrest⟩ := ih ((List.mem_cons.1 h).resolve_left (Ne.symm hc))
        rw [splitDots, if_neg hc, hrest]
        exact ⟨c :: first, second, rest, rfl⟩

/-- What follows the last dot is the last of the parts between dots. -/
theorem getLast?_splitDots (cs : List Char) : (splitDots cs).getLast? = some (afterDot cs) := by
  induction cs with
  | nil => rfl
  | cons c tail ih =>
      by_cases hmem : '.' ∈ tail
      · have hafter : afterDot (c :: tail) = afterDot tail := by
          rw [afterDot, if_pos (by simpa using hmem)]
        obtain ⟨first, second, rest, hrest⟩ := exists_splitDots_of_mem hmem
        rw [hafter, ← ih, splitDots, hrest]
        split
        · simp
        · exact getLast?_consHead c
      · rw [afterDot, if_neg (by simpa using hmem), splitDots, splitDots_of_notMem hmem]
        split <;> simp [consHead]

theorem splitPairs_ne_nil (cs : List Char) : splitPairs cs ≠ [] := by
  cases cs using splitPairs.fun_cases with
  | case1 => simp [splitPairs]
  | case2 rest => simp [splitPairs]
  | case3 c rest hne =>
      rw [splitPairs]
      · cases splitPairs rest <;> simp [consHead]
      · exact hne

theorem notMem_consHead {c d : Char} {parts : List (List Char)}
    (h : ∀ part ∈ consHead c parts, d ∉ part) : d ≠ c ∧ ∀ part ∈ parts, d ∉ part := by
  cases parts with
  | nil => simpa [consHead] using h
  | cons first rest =>
      rw [consHead, List.forall_mem_cons, List.mem_cons, not_or] at h
      exact ⟨h.1.1, List.forall_mem_cons.2 ⟨h.1.2, h.2⟩⟩

theorem afterPair_cons_of_eq_some {c : Char} {rest tail : List Char}
    (h : afterPair rest = some tail) : afterPair (c :: rest) = some tail := by
  unfold afterPair
  rw [h]

theorem afterPair_cons_of_eq_none {c : Char} {rest : List Char} (h : afterPair rest = none)
    (hc : c ≠ ':' ∨ rest.head? ≠ some ':') : afterPair (c :: rest) = none := by
  unfold afterPair
  rw [h]
  dsimp only
  split
  · next tail =>
      rcases hc with hc | hc
      · exact if_neg hc
      · exact absurd rfl hc
  · rfl

theorem afterPair_pair {rest : List Char} (h : afterPair rest = none) (hc : ':' ∉ rest) :
    afterPair (':' :: ':' :: rest) = some rest := by
  have hhead : rest.head? ≠ some ':' := fun heq => hc (List.mem_of_head? heq)
  unfold afterPair
  rw [afterPair_cons_of_eq_none h (.inr hhead)]
  rfl

/--
What follows the last pair of colons is the last of the parts between pairs, as long as no colon
is left in a part: of three colons in a row the last pair is not the first.
-/
theorem splitPairs_cases {cs : List Char} (h : ∀ part ∈ splitPairs cs, ':' ∉ part) :
    (splitPairs cs = [cs] ∧ afterPair cs = none) ∨
      ∃ first second rest last, splitPairs cs = first :: second :: rest ∧
        (splitPairs cs).getLast? = some last ∧ afterPair cs = some last := by
  induction cs using splitPairs.induct with
  | case1 => exact .inl ⟨rfl, rfl⟩
  | case2 tail ih =>
      rw [splitPairs] at h ⊢
      have htail := fun part hpart => h part (List.mem_cons_of_mem _ hpart)
      right
      rcases ih htail with ⟨hsplit, hafter⟩ | ⟨first, second, rest, last, hsplit, hlast, hafter⟩
      · refine ⟨[], tail, [], tail, by rw [hsplit], by rw [hsplit]; rfl, ?_⟩
        exact afterPair_pair hafter (htail tail (by simp [hsplit]))
      · refine ⟨[], first, second :: rest, last, by rw [hsplit], ?_, ?_⟩
        · rw [hsplit] at hlast ⊢
          exact hlast
        · exact afterPair_cons_of_eq_some (afterPair_cons_of_eq_some hafter)
  | case3 c tail hne ih =>
      rw [splitPairs.eq_3 c tail hne] at h ⊢
      obtain ⟨hc, htail⟩ := notMem_consHead h
      rcases ih htail with ⟨hsplit, hnone⟩ | ⟨first, second, rest, last, hsplit, hlast, hafter⟩
      · exact .inl ⟨by rw [hsplit]; rfl, afterPair_cons_of_eq_none hnone (.inl (Ne.symm hc))⟩
      · refine .inr ⟨c :: first, second, rest, last, by rw [hsplit]; rfl, ?_,
          afterPair_cons_of_eq_some hafter⟩
        rw [hsplit] at hlast ⊢
        rw [getLast?_consHead, hlast]

/-! ## Segments -/

/-- The simple name is the last segment, if no colon is left in a segment. -/
theorem getLast?_segments {cs : List Char} (h : ∀ part ∈ splitPairs cs, ':' ∉ part) :
    (segments cs).getLast? = some (simpleChars cs) := by
  have hlast : (splitPairs cs).getLast? = some ((afterPair cs).getD cs) := by
    rcases splitPairs_cases h with ⟨hsplit, hafter⟩ | ⟨_, _, _, last, _, hlast, hafter⟩
    · rw [hsplit, hafter]
      rfl
    · rw [hlast, hafter]
      rfl
  obtain ⟨front, hfront⟩ := List.getLast?_eq_some_iff.1 hlast
  rw [segments, hfront, List.flatMap_append, List.flatMap_singleton, List.getLast?_append,
    getLast?_splitDots]
  rfl

theorem colon_notMem_of_isIdentChars {cs : List Char} (h : isIdentChars cs = true) :
    ':' ∉ cs := by
  intro hmem
  have hrest := isIdentRest_of_mem h hmem
  exact absurd hrest (by decide)

theorem isIdentChars_of_path? {name path : String} (h : path? name = some path) :
    (∀ segment ∈ segments name.toList, isIdentChars segment = true) ∧
      path = String.ofList (joinPairs (segments name.toList)) := by
  rw [path?] at h
  split at h
  · next hall =>
      rw [Option.some.injEq] at h
      exact ⟨List.all_eq_true.1 hall, h.symm⟩
  · cases h

theorem dot_notMem_of_isIdentChars {cs : List Char} (h : isIdentChars cs = true) :
    '.' ∉ cs := by
  intro hmem
  have hrest := isIdentRest_of_mem h hmem
  exact absurd hrest (by decide)

theorem colon_notMem_of_segments {cs : List Char}
    (h : ∀ segment ∈ segments cs, isIdentChars segment = true) :
    ∀ part ∈ splitPairs cs, ':' ∉ part := by
  intro part hpart hcolon
  obtain ⟨segment, hsegment, hmem⟩ := (mem_splitDots hcolon).resolve_left (by decide)
  exact colon_notMem_of_isIdentChars
    (h segment (List.mem_flatMap.2 ⟨part, hpart, hsegment⟩)) hmem

theorem colon_notMem_of_path? {name path : String} (h : path? name = some path) :
    ∀ part ∈ splitPairs name.toList, ':' ∉ part :=
  colon_notMem_of_segments (isIdentChars_of_path? h).1

theorem splitPairs_of_notMem {cs : List Char} (h : ':' ∉ cs) : splitPairs cs = [cs] := by
  induction cs using splitPairs.induct with
  | case1 => rfl
  | case2 rest ih => exact absurd List.mem_cons_self h
  | case3 c rest hne ih =>
      rw [List.mem_cons, not_or] at h
      rw [splitPairs.eq_3 c rest hne, ih h.2]
      rfl

theorem splitPairs_append_pair {part : List Char} (h : ':' ∉ part) (rest : List Char) :
    splitPairs (part ++ ':' :: ':' :: rest) = part :: splitPairs rest := by
  induction part with
  | nil => rfl
  | cons c tail ih =>
      rw [List.mem_cons, not_or] at h
      rw [List.cons_append, splitPairs.eq_3 c _ (by intro _ hc; exact absurd hc.symm h.1), ih h.2]
      rfl

theorem splitDots_append_dot {part : List Char} (h : '.' ∉ part) (rest : List Char) :
    splitDots (part ++ '.' :: rest) = part :: splitDots rest := by
  induction part with
  | nil => rfl
  | cons c tail ih =>
      rw [List.mem_cons, not_or] at h
      rw [List.cons_append, splitDots, if_neg (Ne.symm h.1), ih h.2]
      rfl

theorem splitPairs_append_of_notMem {part : List Char} (h : ':' ∉ part) {first : List Char}
    {rest : List Char} {more : List (List Char)} (hrest : splitPairs rest = first :: more) :
    splitPairs (part ++ rest) = (part ++ first) :: more := by
  induction part with
  | nil => exact hrest
  | cons c tail ih =>
      rw [List.mem_cons, not_or] at h
      rw [List.cons_append, splitPairs.eq_3 c _ (by intro _ hc; exact absurd hc.symm h.1), ih h.2]
      rfl

theorem segments_of_isIdentChars {cs : List Char} (h : isIdentChars cs = true) :
    segments cs = [cs] := by
  rw [segments, splitPairs_of_notMem (colon_notMem_of_isIdentChars h), List.flatMap_singleton,
    splitDots_of_notMem (dot_notMem_of_isIdentChars h)]

theorem segments_append_pair {part : List Char} (h : isIdentChars part = true)
    (rest : List Char) : segments (part ++ ':' :: ':' :: rest) = part :: segments rest := by
  rw [segments, splitPairs_append_pair (colon_notMem_of_isIdentChars h), List.flatMap_cons,
    splitDots_of_notMem (dot_notMem_of_isIdentChars h)]
  rfl

theorem segments_append_dot {part : List Char} (h : isIdentChars part = true)
    (rest : List Char) : segments (part ++ '.' :: rest) = part :: segments rest := by
  obtain ⟨first, more, hrest⟩ := List.exists_cons_of_ne_nil (splitPairs_ne_nil rest)
  have hdot : splitPairs ('.' :: rest) = ('.' :: first) :: more := by
    rw [splitPairs.eq_3 '.' rest (by intro _ hc; exact absurd hc (by decide)), hrest]
    rfl
  rw [segments, splitPairs_append_of_notMem (colon_notMem_of_isIdentChars h) hdot,
    List.flatMap_cons, splitDots_append_dot (dot_notMem_of_isIdentChars h), segments, hrest,
    List.flatMap_cons, List.cons_append]

/-- The parts that were joined are found again. -/
theorem splitPairs_joinPairs {parts : List (List Char)} (hne : parts ≠ [])
    (h : ∀ part ∈ parts, ':' ∉ part) : splitPairs (joinPairs parts) = parts := by
  induction parts with
  | nil => exact absurd rfl hne
  | cons first rest ih =>
      rw [List.forall_mem_cons] at h
      cases rest with
      | nil =>
          rw [joinPairs, List.intercalate_singleton]
          exact splitPairs_of_notMem h.1
      | cons second more =>
          have hjoin : joinPairs (first :: second :: more) =
              first ++ ':' :: ':' :: joinPairs (second :: more) := by
            rw [joinPairs, List.intercalate_cons_cons]
            simp [joinPairs]
          rw [hjoin, splitPairs_append_pair h.1, ih (by simp) h.2]

theorem splitPairs_of_path? {name path : String} (h : path? name = some path) :
    splitPairs path.toList = segments name.toList := by
  obtain ⟨hident, rfl⟩ := isIdentChars_of_path? h
  have hlast := getLast?_segments (colon_notMem_of_path? h)
  have hne : segments name.toList ≠ [] := fun hnil => by simp [hnil] at hlast
  rw [String.toList_ofList]
  exact splitPairs_joinPairs hne fun part hpart =>
    colon_notMem_of_isIdentChars (hident part hpart)

/-- Types with one path have one simple name. -/
theorem simpleChars_eq_of_path?_eq {a b path : String} (ha : path? a = some path)
    (hb : path? b = some path) : simpleChars a.toList = simpleChars b.toList := by
  have hsame : segments a.toList = segments b.toList :=
    (splitPairs_of_path? ha).symm.trans (splitPairs_of_path? hb)
  have hlast := getLast?_segments (colon_notMem_of_path? ha)
  rw [hsame, getLast?_segments (colon_notMem_of_path? hb), Option.some.injEq] at hlast
  exact hlast.symm

theorem lowerCamel_eq_of_path?_eq {a b path : String} (ha : path? a = some path)
    (hb : path? b = some path) : lowerCamel a = lowerCamel b := by
  rw [lowerCamel, lowerCamel, simpleChars_eq_of_path?_eq ha hb]

/-! ## Paths of paths -/

/-- A path has the segments of the name, none of which has a dot to be split at. -/
theorem segments_path {name path : String} (h : path? name = some path) :
    segments path.toList = segments name.toList := by
  have hwhole : ∀ segment ∈ segments name.toList, splitDots segment = [segment] := by
    intro segment hsegment
    exact splitDots_of_notMem (dot_notMem_of_isIdentChars ((isIdentChars_of_path? h).1 _ hsegment))
  calc segments path.toList
      = (segments name.toList).flatMap splitDots := by rw [segments, splitPairs_of_path? h]
    _ = (segments name.toList).flatMap fun segment => [segment] := List.flatMap_congr hwhole
    _ = segments name.toList := List.flatMap_singleton' _

theorem path?_path {name path : String} (h : path? name = some path) : path? path = some path := by
  obtain ⟨hident, hpath⟩ := isIdentChars_of_path? h
  rw [path?, segments_path h, if_pos (List.all_eq_true.2 hident), ← hpath]

theorem simple_path {name path : String} (h : path? name = some path) :
    simple name = simple path := by
  rw [simple, simple, simpleChars_eq_of_path?_eq h (path?_path h)]

/-- The simple name of a type is the last part of its path. -/
theorem getLast?_splitPairs_path {name path : String} (h : path? name = some path) :
    (splitPairs path.toList).getLast? = some (simple name).toList := by
  rw [splitPairs_of_path? h, getLast?_segments (colon_notMem_of_path? h), simple,
    String.toList_ofList]

end Name

end InstanceForge

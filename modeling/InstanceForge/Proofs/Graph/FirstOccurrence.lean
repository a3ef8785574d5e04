import Mathlib.Data.List.Nodup

/-!
# First occurrences

`List.eraseDups` keeps of equal items the first. What it gives for a list that grows at its end
depends on the items of the list so far, and its order is the order in which items first occur.
-/

namespace InstanceForge

namespace FirstOccurrence

variable {α : Type} [BEq α] [LawfulBEq α]

theorem nodup_eraseDups (items : List α) : items.eraseDups.Nodup := by
  match items with
  | [] => simp
  | first :: rest =>
      rw [List.eraseDups_cons, List.nodup_cons]
      refine ⟨?_, nodup_eraseDups _⟩
      intro hmem
      have hne := (List.mem_filter.1 (List.mem_eraseDups.1 hmem)).2
      simp at hne
termination_by items.length
decreasing_by exact Nat.lt_succ_of_le (List.length_filter_le _ _)

theorem eraseDups_of_nodup {items : List α} (hnodup : items.Nodup) :
    items.eraseDups = items := by
  induction items with
  | nil => rfl
  | cons first rest ih =>
      rw [List.nodup_cons] at hnodup
      have hkeep : (rest.filter fun b => !b == first) = rest := by
        rw [List.filter_eq_self]
        intro b hb
        have hne : b ≠ first := fun h => hnodup.1 (h ▸ hb)
        simpa using hne
      rw [List.eraseDups_cons, hkeep, ih hnodup.2]

/-- First occurrences are picked and renamed alike before and after, if no two items are given one
new name. -/
theorem eraseDups_filterMap {β : Type} [BEq β] [LawfulBEq β] {f : α -> Option β}
    (hinj : ∀ x y b, f x = some b -> f y = some b -> x = y) (items : List α) :
    (items.filterMap f).eraseDups = items.eraseDups.filterMap f := by
  match items with
  | [] => rfl
  | first :: rest =>
      rw [List.eraseDups_cons, List.filterMap_cons]
      cases hfirst : f first with
      | none =>
          have hsame : (rest.filter fun x => !x == first).filterMap f = rest.filterMap f := by
            rw [List.filterMap_filter]
            refine List.filterMap_congr fun x _ => ?_
            by_cases hx : x = first
            · simp [hx, hfirst]
            · simp [hx]
          rw [List.filterMap_cons_none hfirst, ← eraseDups_filterMap hinj, hsame]
      | some b =>
          have hsame : (rest.filterMap f).filter (fun x => !x == b) =
              (rest.filter fun x => !x == first).filterMap f := by
            rw [List.filter_filterMap, List.filterMap_filter]
            refine List.filterMap_congr fun x _ => ?_
            by_cases hx : x = first
            · simp [hx, hfirst]
            · have hne : ∀ c, f x = some c -> c ≠ b := by
                rintro c hc rfl
                exact hx (hinj x first c hc hfirst)
              cases hfx : f x with
              | none => simp [hx]
              | some c => simp [hx, hne c hfx]
          rw [List.filterMap_cons_some hfirst, ← eraseDups_filterMap hinj, List.eraseDups_cons,
            hsame]
termination_by items.length
decreasing_by
  all_goals exact Nat.lt_succ_of_le (List.length_filter_le _ _)

theorem removeAll_congr {known other : List α} (h : ∀ x, x ∈ known ↔ x ∈ other)
    (items : List α) : items.removeAll known = items.removeAll other := by
  unfold List.removeAll
  apply List.filter_congr
  intro x _
  rw [Bool.eq_iff_iff]
  simp [h x]

/-- Lists with the same first occurrences keep them the same when both grow alike. -/
theorem eraseDups_append_congr {known other : List α} (h : known.eraseDups = other.eraseDups)
    (items : List α) : (known ++ items).eraseDups = (other ++ items).eraseDups := by
  have hmem : ∀ x, x ∈ known ↔ x ∈ other := by
    intro x
    rw [← List.mem_eraseDups, h, List.mem_eraseDups]
  rw [List.eraseDups_append, List.eraseDups_append, h, removeAll_congr hmem]

/-- Items that occurred before may be left out. -/
theorem eraseDups_append_filter (known middle items : List α) :
    (known ++ middle ++ items.filter fun x => !known.contains x).eraseDups =
      (known ++ middle ++ items).eraseDups := by
  have hsame : (items.filter fun x => !known.contains x).removeAll (known ++ middle) =
      items.removeAll (known ++ middle) := by
    unfold List.removeAll
    rw [List.filter_filter]
    apply List.filter_congr
    intro x _
    by_cases hx : x ∈ known <;> simp [hx]
  rw [List.eraseDups_append, hsame, ← List.eraseDups_append]

theorem eraseDups_append_cons_of_mem {known : List α} {x : α} (hx : x ∈ known)
    (items : List α) : (known ++ x :: items).eraseDups = (known ++ items).eraseDups := by
  rw [List.eraseDups_append, List.eraseDups_append]
  congr 2
  unfold List.removeAll
  rw [List.filter_cons_of_neg (by simpa using hx)]

theorem eraseDups_concat_of_mem {known : List α} {x : α} (hx : x ∈ known) :
    (known ++ [x]).eraseDups = known.eraseDups := by
  rw [eraseDups_append_cons_of_mem hx, List.append_nil]

theorem eraseDups_concat_of_notMem {known : List α} {x : α} (hx : x ∉ known) :
    (known ++ [x]).eraseDups = known.eraseDups ++ [x] := by
  have hkeep : [x].removeAll known = [x] := by
    rw [List.removeAll, List.filter_cons_of_pos (by simpa using hx), List.filter_nil]
  rw [List.eraseDups_append, hkeep, eraseDups_of_nodup (List.nodup_singleton x)]

theorem eraseDups_prefix (front back : List α) :
    front.eraseDups <+: (front ++ back).eraseDups := by
  rw [List.eraseDups_append]
  exact List.prefix_append _ _

/-- An item that first occurs no later than one of the front is of the front itself. -/
theorem mem_front_of_le {front back : List α} {i j : Nat} {x y : α}
    (hx : (front ++ back).eraseDups[i]? = some x) (hy : (front ++ back).eraseDups[j]? = some y)
    (hle : i <= j) (hfront : y ∈ front) : x ∈ front := by
  obtain ⟨k, hk⟩ := List.getElem?_of_mem (List.mem_eraseDups.2 hfront)
  have hklt : k < front.eraseDups.length := (List.getElem?_eq_some_iff.1 hk).choose
  have hky : (front ++ back).eraseDups[k]? = some y := by
    rw [List.eraseDups_append, List.getElem?_append_left hklt, hk]
  have hjlt := (List.getElem?_eq_some_iff.1 hy).choose
  have hjk : j = k := (List.getElem?_inj hjlt (nodup_eraseDups _)).1 (hy.trans hky.symm)
  have hilt : i < front.eraseDups.length := by omega
  rw [List.eraseDups_append, List.getElem?_append_left hilt] at hx
  exact List.mem_eraseDups.1 (List.mem_of_getElem? hx)

/-- The first item with a property is one item, however the others are split around it. -/
theorem first_unique {β : Type} {P : β -> Prop} {items before after before' after' : List β}
    {a b : β} (h : items = before ++ a :: after) (ha : P a) (hbefore : ∀ x ∈ before, ¬ P x)
    (h' : items = before' ++ b :: after') (hb : P b) (hbefore' : ∀ x ∈ before', ¬ P x) :
    a = b := by
  classical
  have hfind : ∀ {front back : List β} {c : β}, items = front ++ c :: back -> P c ->
      (∀ x ∈ front, ¬ P x) -> items.find? (fun x => decide (P x)) = some c := by
    intro front back c hitems hc hfront
    rw [List.find?_eq_some_iff_append]
    exact ⟨by simpa using hc, front, back, hitems, by simpa using hfront⟩
  exact Option.some.inj ((hfind h ha hbefore).symm.trans (hfind h' hb hbefore'))

end FirstOccurrence

end InstanceForge

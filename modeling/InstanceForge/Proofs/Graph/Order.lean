import InstanceForge.Graph.Discover
import InstanceForge.Proofs.Graph.FirstOccurrence
import Mathlib.Data.List.Perm.Subperm
import Mathlib.Logic.Relation

/-!
# The order of discovery

The types that a root reaches have one breadth-first order: it is what first occurs in the root
and the references of its own entries. Along it no type is closer to the root than one before it.
-/

namespace InstanceForge

namespace Provider

open Relation FirstOccurrence

variable {S : Provider} {root : String}

def Refers (S : Provider) (a b : String) : Prop :=
  b ∈ S.references a

/-- A type reaches itself by one or more references. -/
def OnCycle (S : Provider) (a : String) : Prop :=
  TransGen S.Refers a a

theorem reaches_iff {a b : String} : S.Reaches a b ↔ ReflTransGen S.Refers a b := by
  constructor
  · intro h
    induction h with
    | root => exact .refl
    | step _ hnext ih => exact ih.tail hnext
  · intro h
    induction h with
    | refl => exact .root
    | tail _ hnext ih => exact .step ih hnext

/-- Names that are closed under references have among them all that one of them reaches. -/
theorem mem_of_reaches {names : List String} (hroot : root ∈ names)
    (hclosed : ∀ a ∈ names, ∀ b ∈ S.references a, b ∈ names) {name : String}
    (h : S.Reaches root name) : name ∈ names := by
  induction h with
  | root => exact hroot
  | step _ hnext ih => exact hclosed _ ih _ hnext

/-- Names whose references only lead upwards are on no cycle. -/
theorem not_onCycle_of_rank (rank : String -> Nat) {names : List String}
    (hclosed : ∀ a ∈ names, ∀ b ∈ S.references a, b ∈ names)
    (hrank : ∀ a ∈ names, ∀ b ∈ S.references a, rank a < rank b) {a : String}
    (ha : a ∈ names) : ¬ S.OnCycle a := by
  have hup : ∀ {b}, TransGen S.Refers a b -> b ∈ names ∧ rank a < rank b := by
    intro b hab
    induction hab with
    | single h => exact ⟨hclosed a ha _ h, hrank a ha _ h⟩
    | tail _ h ih => exact ⟨hclosed _ ih.1 _ h, Nat.lt_trans ih.2 (hrank _ ih.1 _ h)⟩
  exact fun hcycle => Nat.lt_irrefl _ (hup hcycle).2

/-- The names that are reached from a root by so many references. -/
inductive ReachesIn (S : Provider) (root : String) : Nat -> String -> Prop where
  | root : ReachesIn S root 0 root
  | step {n : Nat} {name next : String} :
      ReachesIn S root n name -> S.Refers name next -> ReachesIn S root (n + 1) next

theorem ReachesIn.reaches {n : Nat} {name : String} (h : S.ReachesIn root n name) :
    S.Reaches root name := by
  induction h with
  | root => exact .root
  | step _ hnext ih => exact .step ih hnext

/-- Whatever number of references reaches the second name, no more of them reach the first. -/
def NoFarther (S : Provider) (root a b : String) : Prop :=
  ∀ n, S.ReachesIn root n b -> ∃ m, m <= n ∧ S.ReachesIn root m a

/--
The types that a root reaches, in breadth-first order: the first occurrences in the root followed
by the references of each entry in turn.
-/
structure DiscoveryOrder (S : Provider) (root : String) (names : List String) : Prop where
  mem_iff : ∀ name, name ∈ names ↔ S.Reaches root name
  eq_eraseDups : names = (root :: names.flatMap S.references).eraseDups

namespace DiscoveryOrder

variable {names other : List String}

/-- First occurrences that are all reached are all that is reached. -/
theorem of_eq_eraseDups (heq : names = (root :: names.flatMap S.references).eraseDups)
    (hreached : ∀ name ∈ names, S.Reaches root name) : S.DiscoveryOrder root names := by
  have hmem : ∀ name, name ∈ root :: names.flatMap S.references -> name ∈ names := by
    intro name h
    rw [heq]
    exact List.mem_eraseDups.2 h
  refine ⟨fun name => ⟨hreached name, mem_of_reaches (hmem root List.mem_cons_self) ?_⟩, heq⟩
  intro a ha b hb
  exact hmem b (List.mem_cons_of_mem _ (List.mem_flatMap.2 ⟨a, ha, hb⟩))

theorem nodup (h : S.DiscoveryOrder root names) : names.Nodup := by
  rw [h.eq_eraseDups]
  exact nodup_eraseDups _

theorem head? (h : S.DiscoveryOrder root names) : names.head? = some root := by
  rw [h.eq_eraseDups, List.eraseDups_cons]
  rfl

/-- The references of some first entries are in order before those of the others. -/
theorem eq_eraseDups_split (h : S.DiscoveryOrder root names) (k : Nat) :
    names = ((root :: (names.take k).flatMap S.references) ++
      (names.drop k).flatMap S.references).eraseDups := by
  rw [List.cons_append, ← List.flatMap_append, List.take_append_drop]
  exact h.eq_eraseDups

/-! ## Parents -/

/-- An entry no later than one that an entry at `k` refers to is the root or is referred to by an
entry up to `k`. -/
theorem root_or_parent_of_le (h : S.DiscoveryOrder root names) {i j k : Nat}
    {a b parent : String} (hi : names[i]? = some a) (hj : names[j]? = some b) (hle : i <= j)
    (hk : names[k]? = some parent) (hrefers : S.Refers parent b) :
    a = root ∨ ∃ l q, l <= k ∧ names[l]? = some q ∧ S.Refers q a := by
  -- `b` occurs among the references of the entries up to its parent, and `a` no later.
  have hsplit := h.eq_eraseDups_split (k + 1)
  have hbfront : b ∈ root :: (names.take (k + 1)).flatMap S.references := by
    have htake : (names.take (k + 1))[k]? = some parent := by
      rw [List.getElem?_take_of_lt (Nat.lt_succ_self k), hk]
    exact List.mem_cons_of_mem _
      (List.mem_flatMap.2 ⟨parent, List.mem_of_getElem? htake, hrefers⟩)
  rw [hsplit] at hi hj
  refine (List.mem_cons.1 (mem_front_of_le hi hj hle hbfront)).imp_right fun hmem => ?_
  obtain ⟨q, hq, hqa⟩ := List.mem_flatMap.1 hmem
  obtain ⟨l, hl, rfl⟩ := List.mem_take_iff_getElem.1 hq
  exact ⟨l, _, by omega, List.getElem?_eq_getElem (by omega), hqa⟩

theorem ne_root (h : S.DiscoveryOrder root names) {i : Nat} {a : String}
    (hi : names[i]? = some a) (hpos : 0 < i) : a ≠ root := by
  rintro rfl
  have hhead : names[0]? = some a := by
    rw [← List.head?_eq_getElem?]
    exact h.head?
  have hilt := (List.getElem?_eq_some_iff.1 hi).choose
  have hzero : i = 0 := (List.getElem?_inj hilt h.nodup).1 (hi.trans hhead.symm)
  omega

/-! ## Distances -/

theorem noFarther_of_le (h : S.DiscoveryOrder root names) {n : Nat} {b : String}
    (hb : S.ReachesIn root n b) : ∀ {i j : Nat} {a : String}, names[i]? = some a ->
      names[j]? = some b -> i <= j -> ∃ m, m <= n ∧ S.ReachesIn root m a := by
  induction hb with
  | root =>
      intro i j a hi hj hle
      have hj0 : j = 0 := Nat.eq_zero_of_not_pos fun hpos => h.ne_root hj hpos rfl
      have hi0 : i = j := by omega
      rw [hi0, hj, Option.some.injEq] at hi
      exact ⟨0, Nat.le_refl _, hi ▸ .root⟩
  | @step n parent b hparent hrefers ih =>
      intro i j a hi hj hle
      obtain ⟨k, hk⟩ := List.getElem?_of_mem ((h.mem_iff parent).2 hparent.reaches)
      rcases h.root_or_parent_of_le hi hj hle hk hrefers with rfl | ⟨l, q, hlk, hl, hqa⟩
      · exact ⟨0, Nat.zero_le _, .root⟩
      · obtain ⟨m, hm, hreach⟩ := ih hl hk hlk
        exact ⟨m + 1, by omega, .step hreach hqa⟩

theorem pairwise_noFarther (h : S.DiscoveryOrder root names) :
    names.Pairwise (S.NoFarther root) := by
  rw [List.pairwise_iff_getElem]
  intro i j hi hj hlt n hn
  exact h.noFarther_of_le hn (List.getElem?_eq_getElem hi) (List.getElem?_eq_getElem hj)
    (Nat.le_of_lt hlt)

/-! ## Uniqueness -/

/-- The references of the first `k` entries determine at least one entry more, as long as there
are entries left: otherwise these entries would be closed under references. -/
theorem lt_length_eraseDups (h : S.DiscoveryOrder root names) {k : Nat}
    (hk : k < names.length) :
    k < (root :: (names.take k).flatMap S.references).eraseDups.length := by
  by_contra hle
  have hsplit := h.eq_eraseDups_split k
  have hprefix := eraseDups_prefix (root :: (names.take k).flatMap S.references)
    ((names.drop k).flatMap S.references)
  rw [← hsplit] at hprefix
  have htake : ∀ a ∈ (root :: (names.take k).flatMap S.references).eraseDups,
      a ∈ names.take k := by
    intro a ha
    rw [List.prefix_iff_eq_take.1 hprefix] at ha
    exact (List.take_prefix_take_left (by omega)).subset ha
  have hsub : names ⊆ (root :: (names.take k).flatMap S.references).eraseDups := by
    intro name hname
    refine mem_of_reaches (List.mem_eraseDups.2 List.mem_cons_self) ?_ ((h.mem_iff name).1 hname)
    intro a ha b hb
    exact List.mem_eraseDups.2 (List.mem_cons_of_mem _
      (List.mem_flatMap.2 ⟨a, htake a ha, hb⟩))
  have hlen := (h.nodup.subperm hsub).length_le
  omega

/-- Every entry but the root is referred to by an entry before it. -/
theorem exists_parent_lt (h : S.DiscoveryOrder root names) {i : Nat} {a : String}
    (hi : names[i]? = some a) (hpos : 0 < i) :
    ∃ l q, l < i ∧ names[l]? = some q ∧ S.Refers q a := by
  have hlt := h.lt_length_eraseDups (List.getElem?_eq_some_iff.1 hi).choose
  have hprefix := eraseDups_prefix (root :: (names.take i).flatMap S.references)
    ((names.drop i).flatMap S.references)
  rw [← h.eq_eraseDups_split i] at hprefix
  have hsame := Option.some.inj ((List.prefix_iff_getElem?.1 hprefix i hlt).symm.trans hi)
  have hmem := hsame ▸ List.getElem_mem hlt
  rcases List.mem_cons.1 (List.mem_eraseDups.1 hmem) with hroot | hmem
  · exact absurd hroot (h.ne_root hi hpos)
  · obtain ⟨q, hq, hqa⟩ := List.mem_flatMap.1 hmem
    obtain ⟨l, hl, rfl⟩ := List.mem_take_iff_getElem.1 hq
    exact ⟨l, _, by omega, List.getElem?_eq_getElem (by omega), hqa⟩

theorem take_eq_take (h : S.DiscoveryOrder root names) (h' : S.DiscoveryOrder root other)
    (k : Nat) (hk : k <= names.length) : names.take k = other.take k := by
  induction k with
  | zero => simp
  | succ k ih =>
      have hsame := ih (by omega)
      have hlt := h.lt_length_eraseDups (k := k) (by omega)
      have hnames := eraseDups_prefix (root :: (names.take k).flatMap S.references)
        ((names.drop k).flatMap S.references)
      have hother := eraseDups_prefix (root :: (other.take k).flatMap S.references)
        ((other.drop k).flatMap S.references)
      rw [← h.eq_eraseDups_split k] at hnames
      rw [← h'.eq_eraseDups_split k, ← hsame] at hother
      rw [List.take_add_one, List.take_add_one, hsame,
        List.prefix_iff_getElem?.1 hnames k hlt, List.prefix_iff_getElem?.1 hother k hlt]

theorem unique (h : S.DiscoveryOrder root names) (h' : S.DiscoveryOrder root other) :
    names = other := by
  have hperm : names.Perm other := by
    rw [List.perm_ext_iff_of_nodup h.nodup h'.nodup]
    intro a
    rw [h.mem_iff, h'.mem_iff]
  have htake := h.take_eq_take h' names.length (Nat.le_refl _)
  rwa [List.take_length, hperm.length_eq, List.take_length] at htake

end DiscoveryOrder

end Provider

end InstanceForge

import InstanceForge.Proofs.Graph.FirstOccurrence
import InstanceForge.Proofs.SymbolTable
import Mathlib.Data.List.Induction

/-!
# Keys of strings

A store keeps strings under keys of 32 bits. What is known of it concerns one call at a time: a new
string gets the key of the number of strings so far, and nothing else changes. After any calls the
keys are then the numbers of the strings in the order in which they were first entered, and the
store answers as a symbol table does.
-/

namespace InstanceForge

structure Ident where
  raw : UInt32
  deriving DecidableEq

namespace Ident

def toIndex (k : Ident) : Nat :=
  k.raw.toNat

/-- The key with a number, if the number has no more than 32 bits. -/
def ofIndex? (n : Nat) : Option Ident :=
  if n < UInt32.size then some ⟨n.toUInt32⟩ else none

theorem ofIndex?_eq_some_iff {n : Nat} {k : Ident} : ofIndex? n = some k ↔ k.toIndex = n := by
  unfold ofIndex?
  constructor
  · intro h
    split at h
    · next hlt =>
        cases h
        exact UInt32.toNat_ofNat_of_lt' hlt
    · cases h
  · rintro rfl
    have hlt : k.toIndex < UInt32.size := UInt32.toNat_lt_size k.raw
    rw [if_pos hlt]
    exact congrArg (fun raw => some (Ident.mk raw)) UInt32.ofNat_toNat

theorem toIndex_inj {j k : Ident} : j.toIndex = k.toIndex ↔ j = k := by
  rw [toIndex, toIndex, UInt32.toNat_inj]
  exact ⟨fun h => congrArg Ident.mk h, fun h => congrArg Ident.raw h⟩

theorem exists_ofIndex? {n : Nat} (h : n < UInt32.size) : ∃ k, ofIndex? n = some k :=
  ⟨_, if_pos h⟩

end Ident

/-- Strings under keys in states of some kind. What has no answer is refused. -/
structure StringStore (Key : Type) where
  State : Type
  new : State
  intern : State -> String -> Option (Key × State)
  find : State -> String -> Option Key
  resolve : State -> Key -> Option String
  size : State -> Nat

namespace StringStore

section Calls

variable {Key : Type}

/-! ## What is known of a store -/

/-- A state differs from another by one string more under a key. -/
structure Adds (R : StringStore Key) (st : R.State) (s : String) (k : Key) (next : R.State) :
    Prop where
  size_eq : R.size next = R.size st + 1
  find_self : R.find next s = some k
  find_of_ne : ∀ other, other ≠ s -> R.find next other = R.find st other
  resolve_self : R.resolve next k = some s
  resolve_of_ne : ∀ j, j ≠ k -> R.resolve next j = R.resolve st j

/-- A new store is empty, a string with a key is not entered again, and one without a key gets the
key that is made of the number of strings, if one can be. -/
structure Lawful (key? : Nat -> Option Key) (R : StringStore Key) : Prop where
  size_new : R.size R.new = 0
  find_new : ∀ s, R.find R.new s = none
  resolve_new : ∀ k, R.resolve R.new k = none
  intern_of_find : ∀ st s k, R.find st s = some k -> R.intern st s = some (k, st)
  intern_of_key : ∀ st s k, R.find st s = none -> key? (R.size st) = some k ->
    ∃ next, R.intern st s = some (k, next) ∧ R.Adds st s k next

/-! ## Calls -/

inductive Call (Key : Type) where
  | intern (s : String)
  | find (s : String)
  | resolve (k : Key)

inductive Answer (Key : Type) where
  | key (k : Key)
  | found (k : Option Key)
  | text (s : String)
  | refused

def answer (R : StringStore Key) (st : R.State) : Call Key -> Answer Key × R.State
  | .intern s =>
      match R.intern st s with
      | some (k, next) => (.key k, next)
      | none => (.refused, st)
  | .find s => (.found (R.find st s), st)
  | .resolve k =>
      match R.resolve st k with
      | some s => (.text s, st)
      | none => (.refused, st)

def answerAll (R : StringStore Key) (st : R.State) :
    List (Call Key) -> List (Answer Key) × R.State
  | [] => ([], st)
  | call :: rest =>
      let (first, next) := R.answer st call
      let (others, last) := R.answerAll next rest
      (first :: others, last)

theorem answerAll_append (R : StringStore Key) (st : R.State) (first second : List (Call Key)) :
    R.answerAll st (first ++ second) =
      ((R.answerAll st first).1 ++ (R.answerAll (R.answerAll st first).2 second).1,
        (R.answerAll (R.answerAll st first).2 second).2) := by
  induction first generalizing st with
  | nil => rfl
  | cons call rest ih => simp only [List.cons_append, answerAll, ih]

def after (R : StringStore Key) (calls : List (Call Key)) : R.State :=
  (R.answerAll R.new calls).2

theorem after_concat (R : StringStore Key) (calls : List (Call Key)) (call : Call Key) :
    R.after (calls ++ [call]) = (R.answer (R.after calls) call).2 := by
  rw [after, answerAll_append]
  rfl

theorem answers_concat (R : StringStore Key) (calls : List (Call Key)) (call : Call Key) :
    (R.answerAll R.new (calls ++ [call])).1 =
      (R.answerAll R.new calls).1 ++ [(R.answer (R.after calls) call).1] := by
  rw [answerAll_append]
  rfl

def Call.entered? : Call Key -> Option String
  | intern s => some s
  | find _ => none
  | resolve _ => none

/-- The strings that calls enter, each where it is entered first. -/
def distinct (calls : List (Call Key)) : List String :=
  (calls.filterMap Call.entered?).eraseDups

variable {calls : List (Call Key)} {s : String}

theorem mem_distinct : s ∈ distinct calls ↔ Call.intern s ∈ calls := by
  rw [distinct, List.mem_eraseDups, List.mem_filterMap]
  constructor
  · rintro ⟨call, hcall, hentered⟩
    cases call with
    | intern t =>
        cases hentered
        exact hcall
    | find t => cases hentered
    | resolve k => cases hentered
  · intro h
    exact ⟨_, h, rfl⟩

theorem distinct_prefix_append (first second : List (Call Key)) :
    distinct first <+: distinct (first ++ second) := by
  rw [distinct, distinct, List.filterMap_append]
  exact FirstOccurrence.eraseDups_prefix _ _

theorem distinct_concat_of_mem (h : s ∈ distinct calls) :
    distinct (calls ++ [.intern s]) = distinct calls := by
  rw [distinct, List.mem_eraseDups] at h
  rw [distinct, List.filterMap_append]
  exact FirstOccurrence.eraseDups_concat_of_mem h

theorem distinct_concat_of_notMem (h : s ∉ distinct calls) :
    distinct (calls ++ [.intern s]) = distinct calls ++ [s] := by
  rw [distinct, List.mem_eraseDups] at h
  rw [distinct, List.filterMap_append]
  exact FirstOccurrence.eraseDups_concat_of_notMem h

theorem distinct_concat_of_entered? (call : Call Key) (h : call.entered? = none) :
    distinct (calls ++ [call]) = distinct calls := by
  rw [distinct, List.filterMap_append, List.filterMap_cons_none h, List.filterMap_nil,
    List.append_nil, distinct]

end Calls

/-! ## Numbers -/

variable {R : StringStore Ident} {st : R.State} {names : List String} {s : String} {k : Ident}
  {calls first second : List (Call Ident)}

/-- The keys of a store are the numbers of some strings in their order. -/
structure Numbered (R : StringStore Ident) (names : List String) (st : R.State) : Prop where
  nodup : names.Nodup
  size_eq : R.size st = names.length
  find_iff : ∀ s k, R.find st s = some k ↔ names[k.toIndex]? = some s
  resolve_iff : ∀ k s, R.resolve st k = some s ↔ names[k.toIndex]? = some s

theorem numbered_new (hR : R.Lawful Ident.ofIndex?) : Numbered R [] R.new where
  nodup := List.nodup_nil
  size_eq := hR.size_new
  find_iff s k := by simp [hR.find_new]
  resolve_iff k s := by simp [hR.resolve_new]

theorem getElem?_concat_eq_some_iff {n : Nat} {last : String} :
    (names ++ [last])[n]? = some s ↔ names[n]? = some s ∨ n = names.length ∧ last = s := by
  rw [List.getElem?_append]
  split
  · next hlt => exact (or_iff_left fun h => Nat.ne_of_lt hlt h.1).symm
  · next hle =>
      have hnone : names[n]? = none := List.getElem?_eq_none (Nat.le_of_not_lt hle)
      rw [hnone, List.getElem?_singleton]
      split
      · next hzero => simp [show n = names.length by omega]
      · next hpos => simp [show n ≠ names.length by omega]

namespace Numbered

theorem exists_find (h : Numbered R names st) (hfew : names.length <= UInt32.size)
    (hs : s ∈ names) : ∃ k, R.find st s = some k := by
  obtain ⟨n, hn⟩ := List.getElem?_of_mem hs
  have hlt : n < UInt32.size := Nat.lt_of_lt_of_le (List.getElem?_eq_some_iff.1 hn).choose hfew
  obtain ⟨k, hk⟩ := Ident.exists_ofIndex? hlt
  refine ⟨k, (h.find_iff s k).2 ?_⟩
  rw [Ident.ofIndex?_eq_some_iff.1 hk, hn]

theorem mem_of_find (h : Numbered R names st) (hfind : R.find st s = some k) : s ∈ names :=
  List.mem_of_getElem? ((h.find_iff s k).1 hfind)

theorem find_eq_none (h : Numbered R names st) (hs : s ∉ names) : R.find st s = none :=
  Option.eq_none_iff_forall_ne_some.2 fun _ hfind => hs (h.mem_of_find hfind)

theorem isSome_find (h : Numbered R names st) (hfew : names.length <= UInt32.size) (s : String) :
    (R.find st s).isSome ↔ s ∈ names := by
  constructor
  · intro hs
    obtain ⟨k, hk⟩ := Option.isSome_iff_exists.1 hs
    exact h.mem_of_find hk
  · intro hs
    exact Option.isSome_iff_exists.2 (h.exists_find hfew hs)

theorem isSome_resolve (h : Numbered R names st) (k : Ident) :
    (R.resolve st k).isSome ↔ k.toIndex < R.size st := by
  rw [h.size_eq]
  constructor
  · intro hs
    obtain ⟨s, hs⟩ := Option.isSome_iff_exists.1 hs
    exact (List.getElem?_eq_some_iff.1 ((h.resolve_iff k s).1 hs)).choose
  · intro hk
    exact Option.isSome_iff_exists.2 ⟨_, (h.resolve_iff k _).2 (List.getElem?_eq_getElem hk)⟩

theorem resolve_eq_none (h : Numbered R names st) (hk : names.length <= k.toIndex) :
    R.resolve st k = none := by
  rw [← Option.not_isSome_iff_eq_none, h.isSome_resolve, h.size_eq]
  exact Nat.not_lt.2 hk

/-- The keys in the order of the strings are all the keys in their order. -/
theorem map_find (h : Numbered R names st) (hfew : names.length <= UInt32.size) :
    names.map (R.find st) = (List.range (R.size st)).map Ident.ofIndex? := by
  rw [h.size_eq]
  refine List.ext_getElem (by simp) fun n hn _ => ?_
  rw [List.length_map] at hn
  obtain ⟨k, hk⟩ := Ident.exists_ofIndex? (Nat.lt_of_lt_of_le hn hfew)
  rw [List.getElem_map, List.getElem_map, List.getElem_range, hk, h.find_iff,
    Ident.ofIndex?_eq_some_iff.1 hk, List.getElem?_eq_getElem hn]

/-- A new string gets the next number, and all others keep theirs. -/
theorem adds (h : Numbered R names st) (hs : s ∉ names) (hk : k.toIndex = names.length)
    {next : R.State} (hadds : R.Adds st s k next) : Numbered R (names ++ [s]) next where
  nodup := by
    rw [← List.concat_eq_append]
    exact h.nodup.concat hs
  size_eq := by rw [hadds.size_eq, h.size_eq, List.length_append, List.length_singleton]
  find_iff other j := by
    rw [getElem?_concat_eq_some_iff, ← hk, Ident.toIndex_inj]
    by_cases hother : other = s
    · subst hother
      rw [hadds.find_self, Option.some.injEq]
      constructor
      · rintro rfl
        exact .inr ⟨rfl, rfl⟩
      · rintro (hmem | ⟨rfl, -⟩)
        · exact absurd (List.mem_of_getElem? hmem) hs
        · rfl
    · rw [hadds.find_of_ne other hother, h.find_iff]
      exact (or_iff_left fun heq => hother heq.2.symm).symm
  resolve_iff j other := by
    rw [getElem?_concat_eq_some_iff, ← hk, Ident.toIndex_inj]
    by_cases hj : j = k
    · subst hj
      have hnone : names[j.toIndex]? = none := List.getElem?_eq_none (by omega)
      simp [hadds.resolve_self, hnone]
    · rw [hadds.resolve_of_ne j hj, h.resolve_iff]
      exact (or_iff_left fun heq => hj heq.1).symm

theorem intern_of_mem (h : Numbered R names st) (hR : R.Lawful Ident.ofIndex?)
    (hfew : names.length <= UInt32.size) (hs : s ∈ names) :
    ∃ k, names[k.toIndex]? = some s ∧ R.intern st s = some (k, st) := by
  obtain ⟨k, hk⟩ := h.exists_find hfew hs
  exact ⟨k, (h.find_iff s k).1 hk, hR.intern_of_find st s k hk⟩

theorem intern_of_notMem (h : Numbered R names st) (hR : R.Lawful Ident.ofIndex?)
    (hlt : names.length < UInt32.size) (hs : s ∉ names) :
    ∃ k next, (names ++ [s])[k.toIndex]? = some s ∧ R.intern st s = some (k, next) ∧
      Numbered R (names ++ [s]) next := by
  obtain ⟨k, hk⟩ := Ident.exists_ofIndex? hlt
  obtain ⟨next, hintern, hadds⟩ :=
    hR.intern_of_key st s k (h.find_eq_none hs) (by rw [h.size_eq, hk])
  have hindex := Ident.ofIndex?_eq_some_iff.1 hk
  exact ⟨k, next, by rw [hindex, List.getElem?_concat_length], hintern, h.adds hs hindex hadds⟩

end Numbered

/-! ## Answers -/

/-- The answer to a call, told from the strings that were entered before it and after it. -/
inductive Answered (before after : List String) : Call Ident -> Answer Ident -> Prop
  | key {s : String} {k : Ident} : after[k.toIndex]? = some s ->
      Answered before after (.intern s) (.key k)
  | found {s : String} {found : Option Ident} :
      (∀ k, found = some k ↔ before[k.toIndex]? = some s) ->
      Answered before after (.find s) (.found found)
  | text {k : Ident} {s : String} : before[k.toIndex]? = some s ->
      Answered before after (.resolve k) (.text s)
  | refused {k : Ident} : before.length <= k.toIndex ->
      Answered before after (.resolve k) .refused

/-- Distinct strings leave one answer to a call. -/
theorem Answered.unique {before after : List String} (hnodup : after.Nodup) {call : Call Ident}
    {a b : Answer Ident} (ha : Answered before after call a) (hb : Answered before after call b) :
    a = b := by
  cases ha with
  | key hj =>
      cases hb with
      | key hk =>
          have hlt := (List.getElem?_eq_some_iff.1 hj).choose
          have hindex := (List.getElem?_inj hlt hnodup).1 (hj.trans hk.symm)
          rw [Ident.toIndex_inj.1 hindex]
  | found hfound =>
      cases hb with
      | found hother =>
          congr 1
          exact Option.ext fun k => (hfound k).trans (hother k).symm
  | text hs =>
      cases hb with
      | text ht => rw [Option.some.inj (hs.symm.trans ht)]
      | refused hle => rw [List.getElem?_eq_none hle] at hs; cases hs
  | refused hle =>
      cases hb with
      | text hs => rw [List.getElem?_eq_none hle] at hs; cases hs
      | refused _ => rfl

/-- One call keeps the numbers and is answered from them. -/
theorem Numbered.answer (h : Numbered R (distinct calls) st) (hR : R.Lawful Ident.ofIndex?)
    (call : Call Ident) (hfew : (distinct (calls ++ [call])).length <= UInt32.size) :
    Numbered R (distinct (calls ++ [call])) (R.answer st call).2 ∧
      Answered (distinct calls) (distinct (calls ++ [call])) call (R.answer st call).1 := by
  cases call with
  | intern s =>
      by_cases hs : s ∈ distinct calls
      · rw [distinct_concat_of_mem hs] at hfew ⊢
        obtain ⟨k, hk, hintern⟩ := h.intern_of_mem hR hfew hs
        rw [StringStore.answer, hintern]
        exact ⟨h, .key hk⟩
      · rw [distinct_concat_of_notMem hs] at hfew ⊢
        rw [List.length_append, List.length_singleton] at hfew
        obtain ⟨k, next, hk, hintern, hnext⟩ := h.intern_of_notMem hR hfew hs
        rw [StringStore.answer, hintern]
        exact ⟨hnext, .key hk⟩
  | find s =>
      rw [distinct_concat_of_entered? (.find s) rfl]
      exact ⟨h, .found fun k => h.find_iff s k⟩
  | resolve k =>
      rw [distinct_concat_of_entered? (.resolve k) rfl, StringStore.answer]
      by_cases hk : k.toIndex < (distinct calls).length
      · have hs := List.getElem?_eq_getElem hk
        rw [(h.resolve_iff k _).2 hs]
        exact ⟨h, .text hs⟩
      · rw [h.resolve_eq_none (Nat.le_of_not_lt hk)]
        exact ⟨h, .refused (Nat.le_of_not_lt hk)⟩

theorem length_distinct_le (hfew : (distinct (first ++ second)).length <= UInt32.size) :
    (distinct first).length <= UInt32.size :=
  Nat.le_trans (distinct_prefix_append first second).length_le hfew

theorem numbered_after (hR : R.Lawful Ident.ofIndex?)
    (hfew : (distinct calls).length <= UInt32.size) :
    Numbered R (distinct calls) (R.after calls) := by
  induction calls using List.reverseRecOn with
  | nil => exact numbered_new hR
  | append_singleton calls call ih =>
      rw [after_concat]
      exact ((ih (length_distinct_le hfew)).answer hR call hfew).1

/-- Only a string that is new changes the state. -/
theorem after_eq_after_distinct (hR : R.Lawful Ident.ofIndex?)
    (hfew : (distinct calls).length <= UInt32.size) :
    R.after calls = R.after ((distinct calls).map .intern) := by
  induction calls using List.reverseRecOn with
  | nil => rfl
  | append_singleton calls call ih =>
      have hbefore := length_distinct_le hfew
      rw [after_concat]
      cases call with
      | intern s =>
          by_cases hs : s ∈ distinct calls
          · obtain ⟨k, -, hintern⟩ := (numbered_after hR hbefore).intern_of_mem hR hbefore hs
            rw [distinct_concat_of_mem hs, ← ih hbefore, answer, hintern]
          · rw [distinct_concat_of_notMem hs, List.map_append, List.map_singleton, after_concat,
              ih hbefore]
      | find s => rw [distinct_concat_of_entered? _ rfl, ← ih hbefore, answer]
      | resolve k =>
          rw [distinct_concat_of_entered? _ rfl, ← ih hbefore, answer]
          cases R.resolve (R.after calls) k <;> rfl

/-- Nothing tells two stores apart. -/
theorem answers_unique {T : StringStore Ident} (hR : R.Lawful Ident.ofIndex?)
    (hT : T.Lawful Ident.ofIndex?) (hfew : (distinct calls).length <= UInt32.size) :
    (R.answerAll R.new calls).1 = (T.answerAll T.new calls).1 := by
  induction calls using List.reverseRecOn with
  | nil => rfl
  | append_singleton calls call ih =>
      have hbefore := length_distinct_le hfew
      obtain ⟨hnext, hanswer⟩ := (numbered_after hR hbefore).answer hR call hfew
      have hanswer' := ((numbered_after hT hbefore).answer hT call hfew).2
      rw [answers_concat, answers_concat, ih hbefore, hanswer.unique hnext.nodup hanswer']

end StringStore

/-! ## Symbol tables as stores -/

namespace SymbolTable

def store : StringStore Ident where
  State := SymbolTable
  new := empty
  intern t s := (Ident.ofIndex? (t.insert s).1).map fun k => (k, (t.insert s).2)
  find t s := (t.find? s).bind Ident.ofIndex?
  resolve t k := t.symbol? k.toIndex
  size t := t.size

variable {t : SymbolTable} {s : String} {n : Nat} {k : Ident}

theorem insert_of_find? (h : t.find? s = some n) : t.insert s = (n, t) := by
  have hsymbol := find?_eq_some_iff.1 h
  have hmem : s ∈ t.symbols := List.mem_of_getElem? hsymbol
  rw [insert_of_mem hmem, number_unique (List.getElem?_idxOf hmem) hsymbol]

theorem insert_of_find?_eq_none (h : t.find? s = none) :
    (t.insert s).1 = t.size ∧ (t.insert s).2.symbols = t.symbols ++ [s] := by
  have hnew : s ∉ t.symbols := by rwa [find?, List.idxOf?_eq_none_iff] at h
  rw [insert, dif_neg hnew]
  exact ⟨rfl, rfl⟩

theorem symbol?_insert_iff (h : t.find? s = none) {other : String} :
    (t.insert s).2.symbol? n = some other ↔
      t.symbol? n = some other ∨ n = t.size ∧ s = other := by
  rw [symbol?, (insert_of_find?_eq_none h).2]
  exact StringStore.getElem?_concat_eq_some_iff

theorem find_store_iff : store.find t s = some k ↔ t.symbol? k.toIndex = some s := by
  rw [← find?_eq_some_iff]
  constructor
  · intro h
    obtain ⟨n, hn, hk⟩ := Option.bind_eq_some_iff.1 h
    rwa [Ident.ofIndex?_eq_some_iff.1 hk]
  · intro h
    exact Option.bind_eq_some_iff.2 ⟨_, h, Ident.ofIndex?_eq_some_iff.2 rfl⟩

/-- A string without a key is not in the table, as long as there are keys left. -/
theorem find?_eq_none_of_store (h : store.find t s = none) (hk : k.toIndex = t.size) :
    t.find? s = none := by
  cases hfind : t.find? s with
  | none => rfl
  | some n =>
      have hlt : n < t.size := (List.getElem?_eq_some_iff.1 (find?_eq_some_iff.1 hfind)).choose
      have hbits : k.toIndex < UInt32.size := UInt32.toNat_lt_size k.raw
      obtain ⟨j, hj⟩ := Ident.exists_ofIndex? (show n < UInt32.size by omega)
      rw [← Ident.ofIndex?_eq_some_iff.1 hj, find?_eq_some_iff, ← find_store_iff, h] at hfind
      cases hfind

theorem adds_store (h : t.find? s = none) (hk : k.toIndex = t.size) :
    store.Adds t s k (t.insert s).2 where
  size_eq := by
    change (t.insert s).2.symbols.length = t.symbols.length + 1
    rw [(insert_of_find?_eq_none h).2, List.length_append, List.length_singleton]
  find_self := find_store_iff.2 ((symbol?_insert_iff h).2 (.inr ⟨hk, rfl⟩))
  find_of_ne other hother := by
    refine Option.ext fun j => ?_
    rw [find_store_iff, find_store_iff, symbol?_insert_iff h]
    exact or_iff_left fun heq => hother heq.2.symm
  resolve_self := (symbol?_insert_iff h).2 (.inr ⟨hk, rfl⟩)
  resolve_of_ne j hj := by
    refine Option.ext fun other => ?_
    refine (symbol?_insert_iff h).trans (or_iff_left fun heq => hj ?_)
    exact Ident.toIndex_inj.1 (heq.1.trans hk.symm)

theorem lawful_store : store.Lawful Ident.ofIndex? where
  size_new := rfl
  find_new _ := rfl
  resolve_new _ := rfl
  intern_of_find t s k h := by
    have hinsert := insert_of_find? (find?_eq_some_iff.2 (find_store_iff.1 h))
    change (Ident.ofIndex? (t.insert s).1).map (fun k => (k, (t.insert s).2)) = some (k, t)
    rw [hinsert, Ident.ofIndex?_eq_some_iff.2 rfl]
    rfl
  intern_of_key t s k h hk := by
    have hindex : k.toIndex = t.size := Ident.ofIndex?_eq_some_iff.1 hk
    have hfind := find?_eq_none_of_store h hindex
    refine ⟨(t.insert s).2, ?_, adds_store hfind hindex⟩
    change (Ident.ofIndex? (t.insert s).1).map (fun k => (k, (t.insert s).2)) = _
    rw [(insert_of_find?_eq_none hfind).1, Ident.ofIndex?_eq_some_iff.2 hindex]
    rfl

end SymbolTable

/-! ## After any calls -/

namespace StringStore

variable {R : StringStore Ident} {calls : List (Call Ident)}

/-- A string that is entered is found at the key that it was given. -/
theorem exists_key_of_intern (hR : R.Lawful Ident.ofIndex?) {s : String}
    (hfew : (distinct (calls ++ [.intern s])).length <= UInt32.size) :
    ∃ k, (R.answer (R.after calls) (.intern s)).1 = .key k ∧
      R.find (R.after (calls ++ [.intern s])) s = some k := by
  have h := numbered_after hR (length_distinct_le hfew)
  obtain ⟨hnext, hanswer⟩ := h.answer hR (.intern s) hfew
  rw [after_concat]
  generalize (R.answer (R.after calls) (.intern s)).1 = a at hanswer ⊢
  cases hanswer with
  | @key _ k hk => exact ⟨k, rfl, (hnext.find_iff s k).2 hk⟩

/-- The key of a string is kept through later calls. -/
theorem find_after_append (hR : R.Lawful Ident.ofIndex?) {first second : List (Call Ident)}
    (hfew : (distinct (first ++ second)).length <= UInt32.size) {s : String} {k : Ident}
    (h : R.find (R.after first) s = some k) : R.find (R.after (first ++ second)) s = some k := by
  rw [(numbered_after hR (length_distinct_le hfew)).find_iff] at h
  rw [(numbered_after hR hfew).find_iff]
  obtain ⟨hlt, rfl⟩ := List.getElem?_eq_some_iff.1 h
  exact List.prefix_iff_getElem?.1 (distinct_prefix_append first second) _ hlt

/-- The keys after any calls are the numbers below that of the strings, in the order in which the
strings are first entered. A string has one key from the first time on, and the answers are those of
a symbol table. -/
theorem keys_of_calls {R : StringStore Ident} (hR : R.Lawful Ident.ofIndex?)
    (calls : List (Call Ident)) (hfew : (distinct calls).length <= UInt32.size) :
    (distinct calls).map (R.find (R.after calls)) =
        (List.range (R.size (R.after calls))).map Ident.ofIndex? ∧
      R.size (R.after calls) = (distinct calls).length ∧
      R.after calls = R.after ((distinct calls).map .intern) ∧
      (∀ before s rest, calls = before ++ .intern s :: rest ->
        ∃ k, (R.answer (R.after before) (.intern s)).1 = .key k ∧
          R.find (R.after calls) s = some k ∧
          R.answer (R.after calls) (.intern s) = (.key k, R.after calls)) ∧
      (∀ s, (R.find (R.after calls) s).isSome ↔ .intern s ∈ calls) ∧
      (∀ s k, R.resolve (R.after calls) k = some s ↔ R.find (R.after calls) s = some k) ∧
      (∀ k, R.answer (R.after calls) (.resolve k) = (.refused, R.after calls) ↔
        R.size (R.after calls) <= k.toIndex) ∧
      (R.answerAll R.new calls).1 = (SymbolTable.store.answerAll .empty calls).1 := by
  have h := numbered_after hR hfew
  refine ⟨h.map_find hfew, h.size_eq, after_eq_after_distinct hR hfew, ?again, ?found,
    fun s k => (h.resolve_iff k s).trans (h.find_iff s k).symm, ?refused,
    answers_unique hR SymbolTable.lawful_store hfew⟩
  case again =>
    rintro before s rest rfl
    rw [← List.singleton_append, ← List.append_assoc] at hfew h ⊢
    obtain ⟨k, hanswer, hfind⟩ := exists_key_of_intern hR (length_distinct_le hfew)
    have hlast := find_after_append hR hfew hfind
    exact ⟨k, hanswer, hlast, by rw [answer, hR.intern_of_find _ s k hlast]⟩
  case found =>
    intro s
    rw [h.isSome_find hfew, mem_distinct]
  case refused =>
    intro k
    rw [← not_iff_not, Nat.not_le, ← h.isSome_resolve, answer]
    cases R.resolve (R.after calls) k <;> simp

def fewCalls : List (Call Ident) :=
  [.intern "b", .find "a", .intern "a", .intern "b", .resolve ⟨1⟩, .resolve ⟨2⟩]

theorem keys_of_fewCalls :
    SymbolTable.store.Lawful Ident.ofIndex? ∧ (distinct fewCalls).length <= UInt32.size ∧
      distinct fewCalls = ["b", "a"] ∧
      (distinct fewCalls).map (SymbolTable.store.find (SymbolTable.store.after fewCalls)) =
        [some ⟨0⟩, some ⟨1⟩] ∧
      SymbolTable.store.size (SymbolTable.store.after fewCalls) = 2 ∧
      SymbolTable.store.resolve (SymbolTable.store.after fewCalls) ⟨1⟩ = some "a" ∧
      SymbolTable.store.answer (SymbolTable.store.after fewCalls) (.resolve ⟨2⟩) =
        (.refused, SymbolTable.store.after fewCalls) := by
  have hdistinct : distinct fewCalls = ["b", "a"] := by decide
  have hfew : (distinct fewCalls).length <= UInt32.size := by rw [hdistinct]; decide
  obtain ⟨hkeys, hsize, -, -, -, hresolve, hrefused, -⟩ :=
    keys_of_calls SymbolTable.lawful_store fewCalls hfew
  have htwo : SymbolTable.store.size (SymbolTable.store.after fewCalls) = 2 := by
    rw [hsize, hdistinct]
    rfl
  rw [htwo] at hkeys
  have hlast : SymbolTable.store.find (SymbolTable.store.after fewCalls) "a" = some ⟨1⟩ := by
    rw [hdistinct] at hkeys
    exact (List.cons.inj (List.cons.inj hkeys).2).1
  refine ⟨SymbolTable.lawful_store, hfew, hdistinct, hkeys, htwo, (hresolve _ _).2 hlast, ?_⟩
  exact (hrefused ⟨2⟩).2 (by rw [htwo]; decide)

end StringStore

end InstanceForge

import InstanceForge.Name

/-!
# Characters of names

A type name that has a path is made of the characters of identifiers, colons and dots.
-/

namespace InstanceForge

namespace Name

/-! ## Segments -/

theorem exists_mem_consHead (c : Char) (parts : List (List Char)) :
    ∃ part ∈ consHead c parts, c ∈ part := by
  cases parts with
  | nil => exact ⟨[c], List.mem_cons_self, List.mem_cons_self⟩
  | cons part rest => exact ⟨c :: part, List.mem_cons_self, List.mem_cons_self⟩

theorem exists_mem_consHead_of_mem {c d : Char} {parts : List (List Char)}
    (h : ∃ part ∈ parts, d ∈ part) : ∃ part ∈ consHead c parts, d ∈ part := by
  obtain ⟨part, hpart, hd⟩ := h
  cases parts with
  | nil => cases hpart
  | cons first rest =>
      rcases List.mem_cons.1 hpart with rfl | hpart
      · exact ⟨c :: part, List.mem_cons_self, List.mem_cons_of_mem _ hd⟩
      · exact ⟨part, List.mem_cons_of_mem _ hpart, hd⟩

theorem mem_splitDots {d : Char} {cs : List Char} (h : d ∈ cs) :
    d = '.' ∨ ∃ part ∈ splitDots cs, d ∈ part := by
  induction cs with
  | nil => cases h
  | cons c rest ih =>
      by_cases hc : c = '.'
      · rw [splitDots, if_pos hc]
        rcases List.mem_cons.1 h with rfl | h
        · exact .inl hc
        · rcases ih h with hdot | ⟨part, hpart, hd⟩
          · exact .inl hdot
          · exact .inr ⟨part, List.mem_cons_of_mem _ hpart, hd⟩
      · rw [splitDots, if_neg hc]
        rcases List.mem_cons.1 h with rfl | h
        · exact .inr (exists_mem_consHead d _)
        · exact (ih h).imp_right exists_mem_consHead_of_mem

theorem mem_splitPairs {d : Char} {cs : List Char} (h : d ∈ cs) :
    d = ':' ∨ ∃ part ∈ splitPairs cs, d ∈ part := by
  induction cs using splitPairs.induct with
  | case1 => cases h
  | case2 rest ih =>
      rw [splitPairs]
      rcases List.mem_cons.1 h with rfl | h
      · exact .inl rfl
      rcases List.mem_cons.1 h with rfl | h
      · exact .inl rfl
      rcases ih h with hcolon | ⟨part, hpart, hd⟩
      · exact .inl hcolon
      · exact .inr ⟨part, List.mem_cons_of_mem _ hpart, hd⟩
  | case3 c rest hne ih =>
      rw [splitPairs]
      · rcases List.mem_cons.1 h with rfl | h
        · exact .inr (exists_mem_consHead d _)
        · exact (ih h).imp_right exists_mem_consHead_of_mem
      · exact hne

theorem mem_segments {d : Char} {cs : List Char} (h : d ∈ cs) :
    d = ':' ∨ d = '.' ∨ ∃ segment ∈ segments cs, d ∈ segment := by
  rcases mem_splitPairs h with hcolon | ⟨part, hpart, hd⟩
  · exact .inl hcolon
  · rcases mem_splitDots hd with hdot | ⟨segment, hsegment, hd⟩
    · exact .inr (.inl hdot)
    · exact .inr (.inr ⟨segment, List.mem_flatMap.2 ⟨part, hpart, hsegment⟩, hd⟩)

/-! ## Identifiers -/

theorem toNat_of_isIdentRest {c : Char} (h : isIdentRest c = true) :
    48 ≤ c.toNat ∧ c.toNat ≤ 122 := by
  rw [isIdentRest, Char.isAlphanum, Bool.or_eq_true, Bool.or_eq_true, beq_iff_eq] at h
  rcases h with (halpha | hdigit) | rfl
  · rcases Bool.or_eq_true_iff.1 halpha with hupper | hlower
    · have hbounds := of_decide_eq_true hupper
      have hlow : 65 ≤ c.toNat := hbounds.1
      have hhigh : c.toNat ≤ 90 := hbounds.2
      omega
    · have hbounds := (Bool.and_eq_true_iff.1 hlower).imp of_decide_eq_true of_decide_eq_true
      have hlow : 97 ≤ c.toNat := hbounds.1
      have hhigh : c.toNat ≤ 122 := hbounds.2
      omega
  · have hbounds := (Bool.and_eq_true_iff.1 hdigit).imp of_decide_eq_true of_decide_eq_true
    have hlow : 48 ≤ c.toNat := hbounds.1
    have hhigh : c.toNat ≤ 57 := hbounds.2
    omega
  · decide

theorem isIdentRest_of_isIdentStart {c : Char} (h : isIdentStart c = true) :
    isIdentRest c = true := by
  rw [isIdentStart, Bool.or_eq_true] at h
  rw [isIdentRest, Char.isAlphanum, Bool.or_eq_true, Bool.or_eq_true]
  exact h.imp_left .inl

theorem isIdentRest_of_mem {cs : List Char} {c : Char} (h : isIdentChars cs = true)
    (hc : c ∈ cs) : isIdentRest c = true := by
  cases cs with
  | nil => cases hc
  | cons first rest =>
      rw [isIdentChars, Bool.and_eq_true] at h
      rcases List.mem_cons.1 hc with rfl | hc
      · exact isIdentRest_of_isIdentStart h.1
      · exact List.all_eq_true.1 h.2 c hc

/-! ## Paths -/

def isPathChar (c : Char) : Bool :=
  c == ':' || c == '.' || isIdentRest c

theorem isPathChar_of_mem {name path : String} {c : Char} (h : path? name = some path)
    (hc : c ∈ name.toList) : isPathChar c = true := by
  have hall : (segments name.toList).all isIdentChars = true := by
    rw [path?] at h
    split at h
    · next hall => exact hall
    · cases h
  rw [isPathChar, Bool.or_eq_true, Bool.or_eq_true, beq_iff_eq, beq_iff_eq, or_assoc]
  rcases mem_segments hc with hcolon | hdot | ⟨segment, hsegment, hc⟩
  · exact .inl hcolon
  · exact .inr (.inl hdot)
  · exact .inr (.inr (isIdentRest_of_mem (List.all_eq_true.1 hall segment hsegment) hc))

end Name

end InstanceForge

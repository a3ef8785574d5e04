import InstanceForge.Proofs.Name.Identifier

/-!
# Identifiers in snake case

An identifier is written character by character in lower case, with an underscore in front of each
upper-case letter that begins a word. So it stays an identifier and gets no shorter, and an
upper-case letter after another character leaves an underscore behind.
-/

namespace InstanceForge

namespace Name

/-! ## Characters -/

variable {c : Char}

theorem isIdentRest_toLower (h : isIdentRest c = true) : isIdentRest c.toLower = true :=
  of_lt_128 (P := fun c => isIdentRest c = true -> isIdentRest c.toLower = true)
    (by decide +kernel) (toNat_lt_of_isIdentRest h) h

theorem isUpper_of_isIdentRest (h : isIdentRest c = true) : Text.isUpper c = c.isUpper :=
  if_pos (toNat_lt_of_isIdentRest h)

theorem isLower_of_isIdentRest (h : isIdentRest c = true) : Text.isLower c = c.isLower :=
  if_pos (toNat_lt_of_isIdentRest h)

theorem toLower_of_not_isUpper (h : c.isUpper = false) : c.toLower = c :=
  dif_neg (of_decide_eq_false h)

theorem toLower_ne_underscore (hc : isIdentRest c = true) (h : c.isUpper = true) :
    c.toLower ≠ '_' :=
  of_lt_128 (P := fun c => c.isUpper = true -> c.toLower ≠ '_') (by decide +kernel)
    (toNat_lt_of_isIdentRest hc) h

theorem isUpper_toLower (h : isIdentRest c = true) : c.toLower.isUpper = false :=
  of_lt_128 (P := fun c => c.toLower.isUpper = false) (by decide +kernel)
    (toNat_lt_of_isIdentRest h)

/-- A character of an identifier that is no upper-case letter is an underscore, or a word begins
after it. -/
theorem startsWord_of_not_isUpper (hc : isIdentRest c = true) (h : c.isUpper = false)
    (hne : c ≠ '_') (after : Option Char) : startsWord c after = true := by
  have halphanum : c.isAlphanum = (c.isUpper || c.isLower || c.isDigit) := rfl
  have hkind := hc
  rw [isIdentRest, halphanum, h, Bool.false_or, Bool.or_eq_true, Bool.or_eq_true,
    beq_iff_eq] at hkind
  rcases hkind with (hlower | hdigit) | hunderscore
  · simp [startsWord, isLower_of_isIdentRest hc, hlower]
  · simp [startsWord, hdigit]
  · exact absurd hunderscore hne

/-! ## Steps -/

/-- One character of an identifier in snake case. -/
theorem snakeFrom_cons (h : isIdentRest c = true) (before : Option Char) (underscored : Bool)
    (rest : List Char) :
    snakeFrom before underscored (c :: rest) =
      (if c.isUpper && (before.any (startsWord · rest.head?) && !underscored) then ['_'] else []) ++
        c.toLower :: snakeFrom (some c) (c == '_') rest := by
  rw [snakeFrom, isUpper_of_isIdentRest h, lower_of_isIdentRest h]
  cases hupper : c.isUpper with
  | false => simp [toLower_of_not_isUpper hupper]
  | true =>
      have hwritten : (some c.toLower == some '_') = false := by
        simpa using toLower_ne_underscore h hupper
      have hother : (c == '_') = false := by
        refine beq_eq_false_iff_ne.2 ?_
        rintro rfl
        exact absurd hupper (by decide)
      simp only [if_true, List.getLast?_singleton, hwritten, hother, Bool.true_and]
      split <;> rfl

/-- The characters of identifiers are kept in their kind. -/
theorem isIdentRest_of_mem_snakeFrom {cs : List Char} (h : ∀ c ∈ cs, isIdentRest c = true)
    (before : Option Char) (underscored : Bool) :
    ∀ d ∈ snakeFrom before underscored cs, isIdentRest d = true := by
  induction cs generalizing before underscored with
  | nil => exact fun d hd => absurd hd List.not_mem_nil
  | cons c rest ih =>
      rw [List.forall_mem_cons] at h
      rw [snakeFrom_cons h.1, List.forall_mem_append, List.forall_mem_cons]
      refine ⟨fun d hd => ?_, isIdentRest_toLower h.1, ih h.2 _ _⟩
      split at hd
      · rw [List.mem_singleton.1 hd]
        decide
      · cases hd

theorem length_le_snakeFrom {cs : List Char} (h : ∀ c ∈ cs, isIdentRest c = true)
    (before : Option Char) (underscored : Bool) :
    cs.length <= (snakeFrom before underscored cs).length := by
  induction cs generalizing before underscored with
  | nil => exact Nat.zero_le _
  | cons c rest ih =>
      rw [List.forall_mem_cons] at h
      rw [snakeFrom_cons h.1, List.length_append, List.length_cons, List.length_cons]
      have hrest := ih h.2 (some c) (c == '_')
      omega

/-- After a character that is no upper-case letter, the next one that is has an underscore before
it, whether written here or there already. -/
theorem underscore_mem_snakeFrom {p : Char} (hp : isIdentRest p = true)
    (hlower : p.isUpper = false) {cs : List Char} (h : ∀ c ∈ cs, isIdentRest c = true)
    (hupper : ∃ c ∈ cs, c.isUpper = true) :
    p = '_' ∨ '_' ∈ snakeFrom (some p) (p == '_') cs := by
  induction cs generalizing p with
  | nil =>
      obtain ⟨_, hmem, _⟩ := hupper
      cases hmem
  | cons c rest ih =>
      rw [List.forall_mem_cons] at h
      -- the first upper-case letter is the next one, or `c` takes the place of `p`
      refine or_iff_not_imp_left.2 fun hne => ?_
      rw [snakeFrom_cons h.1]
      cases hc : c.isUpper with
      | true => simp [startsWord_of_not_isUpper hp hlower hne, hne]
      | false =>
          have hrest : ∃ c ∈ rest, c.isUpper = true := by simpa [hc] using hupper
          rw [toLower_of_not_isUpper hc]
          rcases ih h.1 hc h.2 hrest with rfl | hmem
          · simp
          · exact List.mem_append_right _ (List.mem_cons_of_mem _ hmem)

/-! ## Names -/

variable {name : String}

theorem isIdentifier_snake (h : isIdentifier name = true) : isIdentifier (snake name) = true := by
  rw [isIdentifier] at h ⊢
  have hall := fun c hc => isIdentRest_of_mem h (c := c) hc
  rw [snake, String.toList_ofList]
  cases hname : name.toList with
  | nil => simp [hname, isIdentChars] at h
  | cons first rest =>
      rw [hname] at h hall
      rw [List.forall_mem_cons] at hall
      rw [isIdentChars, Bool.and_eq_true] at h
      rw [snakeFrom_cons hall.1, Option.any_none, Bool.false_and, Bool.and_false, if_neg (by decide),
        List.nil_append, isIdentChars, isIdentStart_toLower h.1, Bool.true_and, List.all_eq_true]
      exact isIdentRest_of_mem_snakeFrom hall.2 _ _

theorem length_le_snake (h : isIdentifier name = true) : name.length <= (snake name).length := by
  rw [snake, String.length_ofList, ← String.length_toList]
  exact length_le_snakeFrom (fun c hc => isIdentRest_of_mem h hc) _ _

/-- An upper-case letter inside a name that begins in lower case leaves an underscore. -/
theorem underscore_mem_snake (h : isIdentifier name = true) {first : Char} {rest : List Char}
    (hname : name.toList = first :: rest) (hfirst : first.isUpper = false)
    (hupper : ∃ c ∈ rest, c.isUpper = true) : '_' ∈ (snake name).toList := by
  have hall := fun c hc => isIdentRest_of_mem h (c := c) hc
  rw [hname, List.forall_mem_cons] at hall
  rw [snake, String.toList_ofList, hname, snakeFrom_cons hall.1, toLower_of_not_isUpper hfirst]
  rcases underscore_mem_snakeFrom hall.1 hfirst hall.2 hupper with rfl | hmem
  · simp
  · exact List.mem_append_right _ (List.mem_cons_of_mem _ hmem)

end Name

end InstanceForge

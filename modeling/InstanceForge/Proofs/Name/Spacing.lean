import InstanceForge.Proofs.Name.Snake

/-!
# Words in snake case

Snake case lowers the upper-case letters of a name and puts underscores between its words, and does
nothing else. In an identifier an underscore is put exactly where a word begins, and there is none
on either side of it, so what is written is in snake case already. Names in the same snake case
differ in nothing but upper-case letters and underscores.
-/

namespace InstanceForge

namespace Name

/-! ## Letters -/

def lowered (c : Char) : List Char :=
  if Text.isUpper c then Text.lower c else [c]

/-- What is left of a name without the case of its upper-case letters and without underscores. -/
def letters (name : String) : List Char :=
  (name.toList.flatMap lowered).filter (· != '_')

/-- The underscores that snake case adds are all that it adds. -/
theorem filter_snakeFrom (before : Option Char) (underscored : Bool) (cs : List Char) :
    (snakeFrom before underscored cs).filter (· != '_') =
      (cs.flatMap lowered).filter (· != '_') := by
  induction cs generalizing before underscored with
  | nil => rfl
  | cons c rest ih =>
      rw [snakeFrom, List.flatMap_cons, List.filter_append, lowered]
      split
      · dsimp only
        split
        · rw [List.filter_cons_of_neg (by decide), List.filter_append, ih]
        · rw [List.filter_append, ih]
      · rw [← List.singleton_append, List.filter_append, ih]

theorem filter_snake (name : String) :
    (snake name).toList.filter (· != '_') = letters name := by
  rw [snake, String.toList_ofList, filter_snakeFrom, letters]

theorem letters_eq_of_snake_eq {a b : String} (h : snake a = snake b) :
    letters a = letters b := by
  rw [← filter_snake, h, filter_snake]

theorem lowered_of_isIdentRest {c : Char} (h : isIdentRest c = true) :
    lowered c = [c.toLower] := by
  rw [lowered, isUpper_of_isIdentRest h, lower_of_isIdentRest h]
  cases hupper : c.isUpper with
  | true => rfl
  | false => rw [toLower_of_not_isUpper hupper, if_neg (by decide)]

/-- The letters of an identifier are those of its lower case. -/
theorem letters_of_isIdentifier {name : String} (h : isIdentifier name = true) :
    letters name = (name.toList.map Char.toLower).filter (· != '_') := by
  have hlowered : ∀ c ∈ name.toList, lowered c = [c.toLower] := fun c hc =>
    lowered_of_isIdentRest (isIdentRest_of_mem h hc)
  rw [letters, List.flatMap_congr hlowered, ← List.map_eq_flatMap]

/-! ## Names in snake case -/

theorem isUpper_of_mem_snakeFrom {cs : List Char} (h : ∀ c ∈ cs, isIdentRest c = true)
    (before : Option Char) (underscored : Bool) :
    ∀ d ∈ snakeFrom before underscored cs, d.isUpper = false := by
  induction cs generalizing before underscored with
  | nil => exact fun d hd => absurd hd List.not_mem_nil
  | cons c rest ih =>
      rw [List.forall_mem_cons] at h
      rw [snakeFrom_cons h.1, List.forall_mem_append, List.forall_mem_cons]
      refine ⟨fun d hd => ?_, isUpper_toLower h.1, ih h.2 _ _⟩
      split at hd
      · rw [List.mem_singleton.1 hd]
        decide
      · cases hd

/-- Without upper-case letters there is nothing to do. -/
theorem snakeFrom_of_not_isUpper {cs : List Char} (h : ∀ c ∈ cs, Text.isUpper c = false)
    (before : Option Char) (underscored : Bool) : snakeFrom before underscored cs = cs := by
  induction cs generalizing before underscored with
  | nil => rfl
  | cons c rest ih =>
      rw [List.forall_mem_cons] at h
      rw [snakeFrom, if_neg (by simp [h.1]), ih h.2]

/-! ## Underscores -/

/-- A word begins at a capital after a small letter or a digit, and at the last of several capitals
if a small letter follows it. -/
def BeginsWord (before : Option Char) (c : Char) (after : Option Char) : Prop :=
  c.isUpper = true ∧ ∃ b ∈ before, b.isLower = true ∨ b.isDigit = true ∨
    b.isUpper = true ∧ ∃ d ∈ after, d.isLower = true

/--
A text is written from characters, given the one before them: each in lower case, and with an
underscore in front of it exactly if a word begins there. The characters on both sides of such an
underscore are none themselves.
-/
inductive Spaced : Option Char -> List Char -> List Char -> Prop
  | nil {before : Option Char} : Spaced before [] []
  | keep {before : Option Char} {c : Char} {cs written : List Char} :
      ¬ BeginsWord before c cs.head? -> Spaced (some c) cs written ->
      Spaced before (c :: cs) (c.toLower :: written)
  | space {b c : Char} {cs written : List Char} :
      BeginsWord (some b) c cs.head? -> b.toLower ≠ '_' -> c.toLower ≠ '_' ->
      Spaced (some c) cs written -> Spaced (some b) (c :: cs) ('_' :: c.toLower :: written)

theorem toLower_eq_underscore_iff {c : Char} (h : isIdentRest c = true) :
    c.toLower = '_' ↔ c = '_' :=
  of_lt_128 (P := fun c => c.toLower = '_' ↔ c = '_') (by decide +kernel)
    (toNat_lt_of_isIdentRest h)

theorem startsWord_iff {b : Char} (hb : isIdentRest b = true) {after : Option Char}
    (hafter : ∀ d ∈ after, isIdentRest d = true) :
    startsWord b after = true ↔
      b.isLower = true ∨ b.isDigit = true ∨ b.isUpper = true ∧ ∃ d ∈ after, d.isLower = true := by
  have hnext : after.any Text.isLower = true ↔ ∃ d ∈ after, d.isLower = true := by
    cases after with
    | none => simp
    | some d => simp [isLower_of_isIdentRest (hafter d rfl)]
  rw [startsWord, isLower_of_isIdentRest hb, isUpper_of_isIdentRest hb, Bool.or_eq_true,
    Bool.or_eq_true, Bool.and_eq_true, hnext, or_assoc]

/-- In an identifier no word begins after an underscore, so it need not be asked what was written
last. -/
theorem beginsWord_iff {before : Option Char} (hbefore : ∀ b ∈ before, isIdentRest b = true)
    {c : Char} {after : Option Char} (hafter : ∀ d ∈ after, isIdentRest d = true) :
    (c.isUpper && (before.any (startsWord · after) && !(before == some '_'))) = true ↔
      BeginsWord before c after := by
  cases before with
  | none => simp [BeginsWord]
  | some b =>
      have hstarts := startsWord_iff (hbefore b rfl) hafter
      have hother : startsWord b after = true -> b ≠ '_' := by
        rintro h rfl
        simp [startsWord_iff (hbefore _ rfl) hafter] at h
      rw [BeginsWord, Bool.and_eq_true, Bool.and_eq_true, Option.any_some]
      refine and_congr_right fun _ => ⟨fun h => ⟨b, rfl, hstarts.1 h.1⟩, ?_⟩
      rintro ⟨_, ⟨⟩, hword⟩
      have hb := hstarts.2 hword
      exact ⟨hb, by simpa using hother hb⟩

theorem spaced_snakeFrom {cs : List Char} (h : ∀ c ∈ cs, isIdentRest c = true)
    {before : Option Char} (hbefore : ∀ b ∈ before, isIdentRest b = true) :
    Spaced before cs (snakeFrom before (before == some '_') cs) := by
  induction cs generalizing before with
  | nil => exact .nil
  | cons c rest ih =>
      rw [List.forall_mem_cons] at h
      have hc : ∀ b ∈ some c, isIdentRest b = true := by simpa using h.1
      have hrest : Spaced (some c) rest (snakeFrom (some c) (c == '_') rest) := ih h.2 hc
      have hafter : ∀ d ∈ rest.head?, isIdentRest d = true := fun d hd =>
        h.2 d (List.mem_of_head? hd)
      rw [snakeFrom_cons h.1]
      split
      · next hspace =>
          have hword := (beginsWord_iff hbefore hafter).1 hspace
          obtain ⟨hupper, b, hb, -⟩ := id hword
          obtain rfl : before = some b := hb
          have hother : b ≠ '_' := by
            rintro rfl
            simp at hspace
          rw [Ne, ← toLower_eq_underscore_iff (hbefore b rfl)] at hother
          exact .space hword hother (toLower_ne_underscore h.1 hupper) hrest
      · next hspace => exact .keep (mt (beginsWord_iff hbefore hafter).2 hspace) hrest

structure SnakeForm (name written : String) : Prop where
  isIdentifier : isIdentifier written = true
  isUpper : ∀ c ∈ written.toList, Text.isUpper c = false
  snake_eq : snake written = written
  letters_eq : written.toList.filter (· != '_') =
    (name.toList.map Char.toLower).filter (· != '_')
  spaced : Spaced none name.toList written.toList

theorem snakeForm_snake {name : String} (h : isIdentifier name = true) :
    SnakeForm name (snake name) := by
  have hname : ∀ c ∈ name.toList, isIdentRest c = true := fun c hc => isIdentRest_of_mem h hc
  have hsnake := isIdentifier_snake h
  have hupper : ∀ c ∈ (snake name).toList, Text.isUpper c = false := by
    intro c hc
    rw [isUpper_of_isIdentRest (isIdentRest_of_mem hsnake hc)]
    rw [snake, String.toList_ofList] at hc
    exact isUpper_of_mem_snakeFrom hname _ _ c hc
  refine ⟨hsnake, hupper, ?_, ?_, ?_⟩
  · rw [snake, snakeFrom_of_not_isUpper hupper, String.ofList_toList]
  · rw [filter_snake, letters_of_isIdentifier h]
  · rw [snake, String.toList_ofList]
    exact spaced_snakeFrom hname fun b hb => absurd hb (Option.not_mem_none b)

end Name

end InstanceForge

import Mathlib.Data.List.Forall2

/-!
# Outcomes and positions

Computations that may fail, and lists that are related position by position.
-/

namespace InstanceForge

section Outcomes

variable {ε α β : Type}

/-- A sequence succeeds if its first step does and the rest succeeds on what that gives. -/
theorem bind_eq_ok_iff {x : Except ε α} {f : α -> Except ε β} {b : β} :
    (x >>= f) = .ok b ↔ ∃ a, x = .ok a ∧ f a = .ok b := by
  cases x with
  | error e =>
      constructor
      · intro h
        cases h
      · rintro ⟨a, h, _⟩
        cases h
  | ok a =>
      constructor
      · intro h
        exact ⟨a, rfl, h⟩
      · rintro ⟨a', h, hf⟩
        cases h
        exact hf

/-- A sequence fails in its first step, or else in the rest. -/
theorem bind_eq_error_iff {x : Except ε α} {f : α -> Except ε β} {e : ε} :
    (x >>= f) = .error e ↔ x = .error e ∨ ∃ a, x = .ok a ∧ f a = .error e := by
  cases x with
  | error e' =>
      constructor
      · intro h
        cases h
        exact .inl rfl
      · rintro (h | ⟨a, h, _⟩)
        · cases h
          rfl
        · cases h
  | ok a =>
      constructor
      · intro h
        exact .inr ⟨a, rfl, h⟩
      · rintro (h | ⟨a', h, hf⟩)
        · cases h
        · cases h
          exact hf

theorem map_eq_ok_iff {x : Except ε α} {f : α -> β} {b : β} :
    x.map f = .ok b ↔ ∃ a, x = .ok a ∧ f a = b := by
  cases x <;> simp [Except.map]

theorem exists_of_isSome_toOption {result : Except ε α} (h : result.toOption.isSome = true) :
    ∃ out, result = .ok out := by
  cases result with
  | ok out => exact ⟨out, rfl⟩
  | error e => cases h

theorem toOption_eq_some_iff {result : Except ε α} {out : α} :
    result.toOption = some out ↔ result = .ok out := by
  cases result <;> simp [Except.toOption]

def reason? : Except ε α -> Option ε
  | .ok _ => none
  | .error e => some e

theorem reason?_eq_some_iff {result : Except ε α} {e : ε} :
    reason? result = some e ↔ result = .error e := by
  cases result <;> simp [reason?]

end Outcomes

section Positions

variable {α β γ : Type} {R : α -> β -> Prop} {as : List α} {bs : List β}

theorem exists_of_forall₂ (h : List.Forall₂ R as bs) {a : α} (ha : a ∈ as) :
    ∃ b ∈ bs, R a b := by
  induction h with
  | nil => cases ha
  | cons hab _ ih =>
      rcases List.mem_cons.1 ha with rfl | ha
      · exact ⟨_, List.mem_cons_self, hab⟩
      · obtain ⟨b, hb, hR⟩ := ih ha
        exact ⟨b, List.mem_cons_of_mem _ hb, hR⟩

theorem map_eq_map_of_forall₂ {f : α -> γ} {g : β -> γ} (h : List.Forall₂ R as bs)
    (hsame : ∀ a b, R a b -> f a = g b) : as.map f = bs.map g := by
  induction h with
  | nil => rfl
  | cons hab _ ih => rw [List.map_cons, List.map_cons, hsame _ _ hab, ih]

end Positions

end InstanceForge

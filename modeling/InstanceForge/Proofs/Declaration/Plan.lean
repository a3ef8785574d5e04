import InstanceForge.Declaration.Basic
import Mathlib.Data.List.Nodup

/-!
# Planned declarations

A plan declares every pair of a type and a capability, types outermost, unless two pairs have one
identifier. Then it is refused at the first pair whose identifier occurred before, and the refusal
names that pair and the one pair before it that has the identifier too.
-/

namespace InstanceForge

/-! ## Pairs -/

namespace Run

def pairs (nodes : List TypeNode) (capabilities : List String) : List (TypeNode × String) :=
  nodes.flatMap fun node => capabilities.map fun capability => (node, capability)

theorem mem_pairs {nodes : List TypeNode} {capabilities : List String} {p : TypeNode × String} :
    p ∈ pairs nodes capabilities ↔ p.1 ∈ nodes ∧ p.2 ∈ capabilities := by
  obtain ⟨node, capability⟩ := p
  simp [pairs]

def identifierOf (p : TypeNode × String) : String :=
  Declaration.identifierFor p.1.typeName p.2

theorem candidates_eq_map_pairs (scope : Scope) (nodes : List TypeNode)
    (capabilities : List String) :
    Declaration.candidates scope nodes capabilities =
      (pairs nodes capabilities).map fun p => Declaration.ofPair scope p.1 p.2 := by
  simp [Declaration.candidates, pairs, List.map_flatMap, Function.comp_def]

theorem map_identifier_candidates (scope : Scope) (nodes : List TypeNode)
    (capabilities : List String) :
    (Declaration.candidates scope nodes capabilities).map Declaration.identifier =
      (pairs nodes capabilities).map identifierOf := by
  rw [candidates_eq_map_pairs, List.map_map]
  rfl

end Run

namespace Declaration

open Run

/-! ## Distinct identifiers -/

/-- The identifiers of a plan: all declarations are taken, or one has the identifier of an
earlier one. -/
theorem takeDistinct_cases (taken ds : List Declaration)
    (hnodup : (taken.map identifier).Nodup) :
    (((taken ++ ds).map identifier).Nodup ∧ takeDistinct taken ds = .ok (taken ++ ds)) ∨
      ∃ before d after e, ds = before ++ d :: after ∧
        ((taken ++ before).map identifier).Nodup ∧ e ∈ taken ++ before ∧
        e.identifier = d.identifier ∧
        takeDistinct taken ds = .error (.duplicateIdentifier d.identifier e.node.typeName
          e.capability d.node.typeName d.capability) := by
  induction ds generalizing taken with
  | nil => exact .inl ⟨by simpa using hnodup, by simp [takeDistinct]⟩
  | cons d rest ih =>
      cases hfind : taken.find? fun e => e.identifier == d.identifier with
      | some e =>
          refine .inr ⟨[], d, rest, e, rfl, by simpa using hnodup, ?_, ?_, ?_⟩
          · simpa using List.mem_of_find?_eq_some hfind
          · simpa using List.find?_some hfind
          · simp [takeDistinct, hfind]
      | none =>
          have hnew : d.identifier ∉ taken.map identifier := by
            intro hmem
            obtain ⟨e, he, hsame⟩ := List.mem_map.1 hmem
            simpa [hsame] using List.find?_eq_none.1 hfind e he
          have hnext : ((taken ++ [d]).map identifier).Nodup := by
            rw [List.map_append, List.map_singleton, ← List.concat_eq_append]
            exact hnodup.concat hnew
          have hstep : takeDistinct taken (d :: rest) = takeDistinct (taken ++ [d]) rest := by
            simp [takeDistinct, hfind]
          rw [hstep]
          rcases ih (taken ++ [d]) hnext with ⟨hall, hok⟩ | ⟨before, c, after, e, hrest, hbefore,
            he, hsame, herror⟩
          · rw [List.append_assoc, List.singleton_append] at hall hok
            exact .inl ⟨hall, hok⟩
          · rw [List.append_assoc, List.singleton_append] at hbefore he
            exact .inr ⟨d :: before, c, after, e, by rw [hrest]; rfl, hbefore, he, hsame, herror⟩

/--
Of two pairs with one identifier the later, at position `j`, is the first pair whose identifier
occurred before, and the earlier, at position `i`, is the only one before it with this identifier.
-/
structure Clash (ps : List (TypeNode × String)) (i j : Nat) (p q : TypeNode × String) :
    Prop where
  lt : i < j
  earlier : ps[i]? = some p
  later : ps[j]? = some q
  same : identifierOf p = identifierOf q
  first : ∀ k < j, ∀ l < k, ∀ a b, ps[l]? = some a -> ps[k]? = some b ->
    identifierOf a ≠ identifierOf b
  only : ∀ k < j, ∀ a, ps[k]? = some a -> identifierOf a = identifierOf q -> k = i

namespace Clash

variable {ps : List (TypeNode × String)} {i j i' j' : Nat} {p q p' q' : TypeNode × String}

/-- Distinct identifiers up to a pair that has one of them make a clash. -/
theorem of_append {front back : List (TypeNode × String)}
    (hnodup : (front.map identifierOf).Nodup) (hi : front[i]? = some p)
    (hsame : identifierOf p = identifierOf q) :
    Clash (front ++ q :: back) i front.length p q := by
  have hilt : i < front.length := (List.getElem?_eq_some_iff.1 hi).choose
  have hfront : ∀ {k}, k < front.length -> (front ++ q :: back)[k]? = front[k]? :=
    fun hk => List.getElem?_append_left hk
  -- positions before the later pair are told apart by their identifiers
  have hinj : ∀ {k l a b}, k < front.length -> l < front.length ->
      (front ++ q :: back)[k]? = some a -> (front ++ q :: back)[l]? = some b ->
      identifierOf a = identifierOf b -> k = l := by
    intro k l a b hk hl ha hb hab
    rw [hfront hk] at ha
    rw [hfront hl] at hb
    have hlt : k < (front.map identifierOf).length := by simpa using hk
    refine (List.getElem?_inj hlt hnodup).1 ?_
    rw [List.getElem?_map, List.getElem?_map, ha, hb, Option.map_some, Option.map_some, hab]
  have hearlier : (front ++ q :: back)[i]? = some p := (hfront hilt).trans hi
  refine ⟨hilt, hearlier, by simp, hsame, ?_, ?_⟩
  · intro k hk l hl a b ha hb hab
    exact absurd (hinj (Nat.lt_trans hl hk) hk ha hb hab) (Nat.ne_of_lt hl)
  · intro k hk a ha hab
    exact hinj hk hilt ha hearlier (hab.trans hsame.symm)

theorem unique (h : Clash ps i j p q) (h' : Clash ps i' j' p' q') : p = p' ∧ q = q' := by
  have hle : ∀ {i j i' j' p q p' q'}, Clash ps i j p q -> Clash ps i' j' p' q' -> j <= j' := by
    intro i j i' j' p q p' q' h h'
    by_contra hlt
    exact h.first j' (by omega) i' h'.lt p' q' h'.earlier h'.later h'.same
  obtain rfl : j = j' := Nat.le_antisymm (hle h h') (hle h' h)
  have hq : q = q' := Option.some.inj (h.later.symm.trans h'.later)
  have hi : i' = i := h.only i' h'.lt p' h'.earlier (h'.same.trans (congrArg identifierOf hq.symm))
  exact ⟨Option.some.inj (h.earlier.symm.trans (hi ▸ h'.earlier)), hq⟩

theorem not_nodup (h : Clash ps i j p q) : ¬ (ps.map identifierOf).Nodup := by
  intro hnodup
  have hlt : i < (ps.map identifierOf).length := by
    simpa using (List.getElem?_eq_some_iff.1 h.earlier).choose
  refine Nat.ne_of_lt h.lt ((List.getElem?_inj hlt hnodup).1 ?_)
  rw [List.getElem?_map, List.getElem?_map, h.earlier, h.later, Option.map_some, Option.map_some,
    h.same]

end Clash

/-! ## Plans -/

/-- Nothing is requested, or all pairs are declared, or two pairs clash. -/
theorem plan_cases (g : TypeGraph) (capabilities : List String) (scope : Scope) :
    (capabilities = [] ∧ plan g capabilities scope = .error .emptyCapabilitySet) ∨
      capabilities ≠ [] ∧
        ((((pairs g.nodes capabilities).map identifierOf).Nodup ∧
            plan g capabilities scope = .ok (candidates scope g.nodes capabilities)) ∨
          ∃ i j p q, Clash (pairs g.nodes capabilities) i j p q ∧
            plan g capabilities scope = .error
              (.duplicateIdentifier (identifierOf q) p.1.typeName p.2 q.1.typeName q.2)) := by
  cases hcapabilities : capabilities with
  | nil => exact .inl ⟨rfl, rfl⟩
  | cons capability rest =>
      rw [← hcapabilities]
      have hne : capabilities ≠ [] := by simp [hcapabilities]
      have hplan : plan g capabilities scope =
          takeDistinct [] (candidates scope g.nodes capabilities) := by
        simp only [plan, hcapabilities]
      refine .inr ⟨hne, ?_⟩
      rw [hplan]
      rcases takeDistinct_cases [] (candidates scope g.nodes capabilities) (by simp) with
        ⟨hnodup, hok⟩ | ⟨before, d, after, e, hsplit, hbefore, he, hsame, herror⟩
      · rw [List.nil_append, map_identifier_candidates] at hnodup
        exact .inl ⟨hnodup, hok⟩
      · rw [candidates_eq_map_pairs, List.map_eq_append_iff] at hsplit
        obtain ⟨front, back, hpairs, rfl, hback⟩ := hsplit
        obtain ⟨q, more, rfl, rfl, rfl⟩ := List.map_eq_cons_iff.1 hback
        rw [List.nil_append] at hbefore he
        obtain ⟨p, hp, rfl⟩ := List.mem_map.1 he
        obtain ⟨i, hi⟩ := List.getElem?_of_mem hp
        rw [List.map_map] at hbefore
        refine .inr ⟨i, front.length, p, q, ?_, herror⟩
        rw [hpairs]
        exact .of_append hbefore hi hsame

theorem plan_eq_ok {g : TypeGraph} {capabilities : List String} {scope : Scope}
    {ds : List Declaration} (h : plan g capabilities scope = .ok ds) :
    capabilities ≠ [] ∧ ds = candidates scope g.nodes capabilities ∧
      ((pairs g.nodes capabilities).map identifierOf).Nodup := by
  rcases plan_cases g capabilities scope with ⟨_, hplan⟩ |
    ⟨hne, ⟨hnodup, hplan⟩ | ⟨_, _, _, _, _, hplan⟩⟩
  · rw [hplan] at h
    cases h
  · rw [hplan, Except.ok.injEq] at h
    exact ⟨hne, h.symm, hnodup⟩
  · rw [hplan] at h
    cases h

/--
A plan is refused for want of capabilities exactly if none is requested. It declares every pair of
a type and a capability in their order exactly if the identifiers are distinct, and otherwise it is
refused with the first pair whose identifier occurred before and the one earlier pair that has it.
-/
theorem plan_outcome (g : TypeGraph) (capabilities : List String) (scope : Scope) :
    (plan g capabilities scope = .error .emptyCapabilitySet ↔ capabilities = []) ∧
    (∀ ds, plan g capabilities scope = .ok ds ↔
      capabilities ≠ [] ∧
        ((pairs g.nodes capabilities).map fun p => Name.lowerCamel p.1.typeName ++ p.2).Nodup ∧
        ds = (pairs g.nodes capabilities).map fun p =>
          ⟨p.1, p.2, Name.lowerCamel p.1.typeName ++ p.2, scope⟩) ∧
    (∀ e, plan g capabilities scope = .error e ↔
      (capabilities = [] ∧ e = .emptyCapabilitySet) ∨
        ∃ i j existing conflicting,
          Clash (pairs g.nodes capabilities) i j existing conflicting ∧
          e = .duplicateIdentifier (Name.lowerCamel conflicting.1.typeName ++ conflicting.2)
            existing.1.typeName existing.2 conflicting.1.typeName conflicting.2) := by
  have hnone : ∀ {i j p q}, capabilities = [] -> ¬ Clash (pairs g.nodes capabilities) i j p q := by
    rintro i j p q rfl h
    have hmem := mem_pairs.1 (List.mem_of_getElem? h.later)
    cases hmem.2
  rcases plan_cases g capabilities scope with ⟨hnil, hplan⟩ |
    ⟨hne, ⟨hnodup, hplan⟩ | ⟨i, j, p, q, hclash, hplan⟩⟩
  · rw [hplan]
    refine ⟨by simp [hnil], by simp [hnil], fun e => ?_⟩
    constructor
    · intro h
      exact .inl ⟨hnil, (Except.error.inj h).symm⟩
    · rintro (⟨-, rfl⟩ | ⟨i, j, p, q, hclash, -⟩)
      · rfl
      · exact absurd hclash (hnone hnil)
  · rw [hplan, candidates_eq_map_pairs]
    refine ⟨by simp [hne], fun ds => ?_, fun e => ?_⟩
    · rw [Except.ok.injEq, eq_comm]
      exact ⟨fun h => ⟨hne, hnodup, h⟩, fun h => h.2.2⟩
    · constructor
      · intro h
        cases h
      · rintro (⟨hnil, -⟩ | ⟨i, j, p, q, hclash, -⟩)
        · exact absurd hnil hne
        · exact absurd hnodup hclash.not_nodup
  · rw [hplan]
    refine ⟨by simp [hne], fun ds => ?_, fun e => ?_⟩
    · constructor
      · intro h
        cases h
      · intro h
        exact absurd h.2.1 hclash.not_nodup
    · rw [Except.error.injEq]
      constructor
      · rintro rfl
        exact .inr ⟨i, j, p, q, hclash, rfl⟩
      · rintro (⟨hnil, -⟩ | ⟨i', j', p', q', hclash', rfl⟩)
        · exact absurd hnil hne
        · obtain ⟨rfl, rfl⟩ := hclash.unique hclash'
          rfl

/-- Identifiers also repeat where the type name of one ends inside the capability of another. -/
example : plan ⟨[.ofType "Ab", .ofType "A"], []⟩ ["C", "bC"] .shared =
    .error (.duplicateIdentifier "abC" "Ab" "C" "A" "bC") := by decide +kernel

end Declaration

end InstanceForge

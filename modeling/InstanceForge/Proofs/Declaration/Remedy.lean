import InstanceForge.Proofs.Declaration.Plan
import InstanceForge.Proofs.Graph.Discovery
import InstanceForge.Run.Report
import Mathlib.Data.List.NodupEquivFin

/-!
# Remedies for repeated identifiers

A repeated identifier is reported with a remedy. For one type, a capability is requested twice. For
two types with one capability, the simple names have one binding form. For two types with two
capabilities, the end of one simple name has become the front of the other capability; then the
simple names are told apart by more than case already, and the remedy does not apply.
-/

namespace InstanceForge

namespace Name

/-! ## Binding forms -/

inductive AgreeUpToCase : List Char -> List Char -> Prop
  | nil : AgreeUpToCase [] []
  | cons {c d : Char} (rest : List Char) (same : Text.lower c = Text.lower d) :
      AgreeUpToCase (c :: rest) (d :: rest)

/--
A dotted capital I, the one character with a lower-case form of two, stands in one name for an `i`
with a combining dot in the other.
-/
inductive AgreeUpToDot : List Char -> List Char -> Prop
  | left {d : Char} (rest : List Char) (same : Text.lower d = ['i']) :
      AgreeUpToDot ('\u0130' :: rest) (d :: '\u0307' :: rest)
  | right {c : Char} (rest : List Char) (same : Text.lower c = ['i']) :
      AgreeUpToDot (c :: '\u0307' :: rest) ('\u0130' :: rest)

def lowerFirst : List Char -> List Char
  | [] => []
  | c :: rest => Text.lower c ++ rest

theorem toList_lowerCamel (name : String) :
    (lowerCamel name).toList = lowerFirst (simpleChars name.toList) := by
  unfold lowerCamel
  split
  · next hnil => rw [hnil, lowerFirst, String.toList_empty]
  · next hcons => rw [hcons, lowerFirst, String.toList_ofList]

theorem lower_dotted : Text.lower '\u0130' = ['i', '\u0307'] := by decide

theorem lower_cases (c : Char) : c = '\u0130' ∨ ∃ d, Text.lower c = [d] := by
  unfold Text.lower
  split
  · exact .inr ⟨_, rfl⟩
  split
  · next hdotted => exact .inl (Char.ext (UInt32.toNat.inj hdotted))
  split <;> exact .inr ⟨_, rfl⟩

theorem AgreeUpToCase.lowerFirst_eq {s t : List Char} (h : AgreeUpToCase s t) :
    lowerFirst s = lowerFirst t := by
  cases h with
  | nil => rfl
  | cons rest same => rw [lowerFirst, lowerFirst, same]

theorem AgreeUpToDot.lowerFirst_eq {s t : List Char} (h : AgreeUpToDot s t) :
    lowerFirst s = lowerFirst t := by
  cases h <;> next same => simp [lowerFirst, same, lower_dotted]

/-- Names have one binding form exactly if they agree up to the case of the first character, where
a dotted capital I counts as an `i` with a dot. -/
theorem lowerFirst_eq_iff {s t : List Char} :
    lowerFirst s = lowerFirst t ↔ AgreeUpToCase s t ∨ AgreeUpToDot s t := by
  constructor
  · intro h
    match s, t with
    | [], [] => exact .inl .nil
    | [], d :: rest | d :: rest, [] =>
        rcases lower_cases d with rfl | ⟨_, hlower⟩
        · simp [lowerFirst, lower_dotted] at h
        · simp [lowerFirst, hlower] at h
    | c :: front, d :: back =>
        -- what follows is shifted by one if just one of the first characters becomes two
        rw [lowerFirst, lowerFirst] at h
        rcases lower_cases c with rfl | ⟨c', hc⟩ <;> rcases lower_cases d with rfl | ⟨d', hd⟩
        · rw [List.append_cancel_left_eq] at h
          exact .inl (h ▸ .cons front rfl)
        · rw [lower_dotted, hd] at h
          obtain ⟨rfl, rfl⟩ : 'i' = d' ∧ '\u0307' :: front = back := by simpa using h
          exact .inr (.left front hd)
        · rw [lower_dotted, hc] at h
          obtain ⟨rfl, rfl⟩ : c' = 'i' ∧ front = '\u0307' :: back := by simpa using h
          exact .inr (.right back hc)
        · rw [hc, hd] at h
          obtain ⟨rfl, rfl⟩ : c' = d' ∧ front = back := by simpa using h
          exact .inl (.cons front (hc.trans hd.symm))
  · rintro (h | h)
    · exact h.lowerFirst_eq
    · exact h.lowerFirst_eq

theorem lowerCamel_eq_iff {a b : String} :
    lowerCamel a = lowerCamel b ↔
      AgreeUpToCase (simpleChars a.toList) (simpleChars b.toList) ∨
        AgreeUpToDot (simpleChars a.toList) (simpleChars b.toList) := by
  rw [← String.toList_inj, toList_lowerCamel, toList_lowerCamel, lowerFirst_eq_iff]

end Name

/-! ## Pairs that occur twice -/

namespace Run

theorem count_pairs (nodes : List TypeNode) (capabilities : List String) (node : TypeNode)
    (capability : String) :
    (pairs nodes capabilities).count (node, capability) =
      nodes.count node * capabilities.count capability := by
  induction nodes with
  | nil => simp [pairs]
  | cons first rest ih =>
      have hfirst : (capabilities.map fun c => (first, c)).count (node, capability) =
          if first = node then capabilities.count capability else 0 := by
        split
        · next hsame =>
            rw [hsame, List.count, List.countP_map, List.count]
            congr 1
            funext c
            simp
        · next hne => simp [List.count_eq_zero, hne]
      rw [pairs, List.flatMap_cons, List.count_append, hfirst, ← pairs, ih, List.count_cons]
      by_cases hsame : first = node <;> simp [hsame, Nat.add_mul, Nat.add_comm]

end Run

namespace TypeGraph

inductive Built : TypeGraph -> Prop
  | ofNodes (nodes : List TypeNode) : Built (ofNodes nodes)
  | discovered {S : Provider} {root : String} {finite : S.FinitelyReaches root} {g : TypeGraph} :
      discover S root finite = .ok g -> Built g
  | single {S : Provider} {root : String} {g : TypeGraph} : single S root = .ok g -> Built g

theorem Built.nodup_typeName {g : TypeGraph} (h : Built g) :
    (g.nodes.map TypeNode.typeName).Nodup := by
  cases h with
  | ofNodes nodes => exact nodup_typeName_ofNodes nodes
  | discovered hdiscover => exact nodup_typeName_of_discover hdiscover
  | single hsingle => exact nodup_typeName_of_single hsingle

end TypeGraph

namespace Declaration

open Run

variable {a b c d : String}

/-! ## Equal identifiers -/

/-- The simple name of the second type goes on with the front of the first capability. -/
def Overlaps (a c b d : String) : Prop :=
  ∃ part, part ≠ "" ∧ Name.lowerCamel b = Name.lowerCamel a ++ part ∧ c = part ++ d

theorem Overlaps.capability_ne (h : Overlaps a c b d) : c ≠ d := by
  obtain ⟨part, hne, -, rfl⟩ := h
  intro hsame
  have hlength := congrArg String.length hsame
  rw [String.length_append] at hlength
  exact hne (String.length_eq_zero_iff.1 (by omega))

theorem overlaps_of_append {part : List Char} (hne : part ≠ [])
    (hname : (Name.lowerCamel b).toList = (Name.lowerCamel a).toList ++ part)
    (hcapability : c.toList = part ++ d.toList) : Overlaps a c b d := by
  refine ⟨String.ofList part, fun hnil => hne (by simpa using hnil), ?_, ?_⟩
  · rw [← String.toList_inj, hname, String.toList_append, String.toList_ofList]
  · rw [← String.toList_inj, hcapability, String.toList_append, String.toList_ofList]

/-- Of two equal identifiers with different capabilities, one simple name ends inside the other
capability. -/
theorem overlaps_of_ne (h : identifierFor a c = identifierFor b d) (hne : c ≠ d) :
    Overlaps a c b d ∨ Overlaps b d a c := by
  rw [identifierFor, identifierFor, ← String.toList_inj, String.toList_append,
    String.toList_append] at h
  rcases List.append_eq_append_iff.1 h with ⟨part, hb, hc⟩ | ⟨part, ha, hd⟩
  · refine .inl (overlaps_of_append ?_ hb hc)
    rintro rfl
    exact hne (String.toList_inj.1 hc)
  · refine .inr (overlaps_of_append ?_ ha hd)
    rintro rfl
    exact hne (String.toList_inj.1 hd.symm)

theorem eq_capability_iff (h : identifierFor a c = identifierFor b d) :
    c = d ↔ Name.lowerCamel a = Name.lowerCamel b := by
  rw [identifierFor, identifierFor] at h
  constructor
  · rintro rfl
    exact (String.append_left_inj _).1 h
  · intro hname
    rw [hname] at h
    exact (String.append_right_inj _).1 h

theorem ne_capability_iff (h : identifierFor a c = identifierFor b d) :
    c ≠ d ↔ Overlaps a c b d ∨ Overlaps b d a c := by
  constructor
  · exact overlaps_of_ne h
  · rintro (hover | hover)
    · exact hover.capability_ne
    · exact hover.capability_ne.symm

/-- A pair that clashes with itself is there twice. -/
theorem Clash.two_le_count {ps : List (TypeNode × String)} {i j : Nat} {p : TypeNode × String}
    (h : Clash ps i j p p) : 2 <= ps.count p := by
  obtain ⟨hi, hp⟩ := List.getElem?_eq_some_iff.1 h.earlier
  obtain ⟨hj, hq⟩ := List.getElem?_eq_some_iff.1 h.later
  exact List.replicate_sublist_iff.1 (List.duplicate_iff_sublist.1
    (List.duplicate_iff_exists_distinct_get.2 ⟨⟨i, hi⟩, ⟨j, hj⟩, h.lt, hp.symm, hq.symm⟩))

/-! ## Remedies -/

variable {g : TypeGraph} {capabilities : List String} {scope : Scope}
  {identifier existingType existing conflictingType conflicting : String}

/-- Two pairs of a refused plan with one type are one pair, whose capability is requested twice. -/
theorem repeated_of_clash (hg : g.Built) {i j : Nat} {p q : TypeNode × String}
    (h : Clash (pairs g.nodes capabilities) i j p q) (htype : p.1.typeName = q.1.typeName) :
    p.2 = q.2 ∧ 2 <= capabilities.count p.2 := by
  have hp := mem_pairs.1 (List.mem_of_getElem? h.earlier)
  have hq := mem_pairs.1 (List.mem_of_getElem? h.later)
  have hnode : p.1 = q.1 := List.inj_on_of_nodup_map hg.nodup_typeName hp.1 hq.1 htype
  have hcapability : p.2 = q.2 := (eq_capability_iff h.same).2 (congrArg Name.lowerCamel htype)
  obtain rfl : p = q := Prod.ext hnode hcapability
  refine ⟨rfl, ?_⟩
  have hcount := h.two_le_count
  rw [count_pairs, (hg.nodup_typeName.of_map _).count, if_pos hp.1, Nat.one_mul] at hcount
  exact hcount

theorem help_of_type_eq (h : existingType = conflictingType) :
    (PlanError.duplicateIdentifier identifier existingType existing conflictingType
      conflicting).diagnostic.help = ["remove the repeated capability name"] := by
  rw [PlanError.diagnostic, if_pos h]

theorem help_of_type_ne (h : existingType ≠ conflictingType) :
    (PlanError.duplicateIdentifier identifier existingType existing conflictingType
      conflicting).diagnostic.help =
      ["rename `" ++ existingType ++ "` or `" ++ conflictingType ++
        "` so their simple names differ"] := by
  rw [PlanError.diagnostic, if_neg h]

/--
The remedy of a repeated identifier. For one type it is to remove a repeated capability, which the
request has indeed at least twice. For two types it is to make their simple names differ. These
have one binding form if the capability is the same; if it is not, one binding form goes on where
the other ends, so that the names differ already.
-/
theorem remedy_of_plan (hg : g.Built)
    (h : plan g capabilities scope = .error (.duplicateIdentifier identifier existingType existing
      conflictingType conflicting)) :
    let help := (PlanError.duplicateIdentifier identifier existingType existing conflictingType
      conflicting).diagnostic.help
    (existingType = conflictingType ->
      help = ["remove the repeated capability name"] ∧ existing = conflicting ∧
        2 <= capabilities.count existing) ∧
    (existingType ≠ conflictingType ->
      help = ["rename `" ++ existingType ++ "` or `" ++ conflictingType ++
        "` so their simple names differ"] ∧
      (existing = conflicting ↔
        Name.AgreeUpToCase (Name.simpleChars existingType.toList)
            (Name.simpleChars conflictingType.toList) ∨
          Name.AgreeUpToDot (Name.simpleChars existingType.toList)
            (Name.simpleChars conflictingType.toList)) ∧
      (existing ≠ conflicting ↔
        Overlaps existingType existing conflictingType conflicting ∨
          Overlaps conflictingType conflicting existingType existing)) := by
  rcases plan_cases g capabilities scope with ⟨_, hplan⟩ |
    ⟨_, ⟨_, hplan⟩ | ⟨i, j, p, q, hclash, hplan⟩⟩ <;> rw [h] at hplan
  · cases hplan
  · cases hplan
  rw [Except.error.injEq, PlanError.duplicateIdentifier.injEq] at hplan
  obtain ⟨rfl, rfl, rfl, rfl, rfl⟩ := hplan
  refine ⟨fun htype => ⟨help_of_type_eq htype, repeated_of_clash hg hclash htype⟩,
    fun htype => ⟨help_of_type_ne htype, ?_, ?_⟩⟩
  · rw [← Name.lowerCamel_eq_iff]
    exact eq_capability_iff hclash.same
  · exact ne_capability_iff hclash.same

/-- A capability that is requested twice, simple names that differ by case, and a simple name that
ends inside a capability. -/
theorem remedy_threeKinds :
    ["Codec", "Show", "Codec"].count "Codec" = 2 ∧
      Name.AgreeUpToCase "Address".toList "address".toList ∧ Overlaps "A" "bC" "Ab" "C" := by
  obtain ⟨hone, -⟩ := remedy_of_plan (.ofNodes [.ofType "Address"])
    (by decide +kernel : plan (.ofNodes [.ofType "Address"]) ["Codec", "Show", "Codec"]
      .besideType = .error (.duplicateIdentifier "addressCodec" "Address" "Codec" "Address" "Codec"))
  obtain ⟨-, htwo⟩ := remedy_of_plan (.ofNodes [.ofType "billing::Address", .ofType "address"])
    (by decide +kernel : plan (.ofNodes [.ofType "billing::Address", .ofType "address"]) ["Codec"]
      .shared =
        .error (.duplicateIdentifier "addressCodec" "billing::Address" "Codec" "address" "Codec"))
  obtain ⟨-, hboundary⟩ := remedy_of_plan (.ofNodes [.ofType "Ab", .ofType "A"])
    (by decide +kernel : plan (.ofNodes [.ofType "Ab", .ofType "A"]) ["C", "bC"] .shared =
      .error (.duplicateIdentifier "abC" "Ab" "C" "A" "bC"))
  refine ⟨?_, ?_, ?_⟩
  · exact Nat.le_antisymm (by decide) (hone rfl).2.2
  · refine ((htwo (by decide)).2.1.1 rfl).resolve_right ?_
    intro hdot
    cases hdot
  · refine ((hboundary (by decide)).2.2.1 (by decide)).resolve_left ?_
    rintro ⟨part, -, hname, -⟩
    have hlength := congrArg String.length hname
    rw [String.length_append, (by decide : (Name.lowerCamel "A").length = 1),
      (by decide : (Name.lowerCamel "Ab").length = 2)] at hlength
    omega

/-- Simple names that differ by more than case are to be made different. -/
theorem boundary_not_agreeUpToCase :
    plan (.ofNodes [.ofType "Ab", .ofType "A"]) ["C", "bC"] .shared =
        .error (.duplicateIdentifier "abC" "Ab" "C" "A" "bC") ∧
      (PlanError.duplicateIdentifier "abC" "Ab" "C" "A" "bC").diagnostic.help =
        ["rename `Ab` or `A` so their simple names differ"] ∧
      ¬ Name.AgreeUpToCase (Name.simpleChars "Ab".toList) (Name.simpleChars "A".toList) := by
  refine ⟨by decide +kernel, by decide, ?_⟩
  intro h
  cases h

end Declaration

end InstanceForge

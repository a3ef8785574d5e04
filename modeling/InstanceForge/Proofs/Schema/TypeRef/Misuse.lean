import InstanceForge.Proofs.Schema.TypeRef.Fault

/-!
# Where a misused name is reported

A name with arguments that it does not take is reported where the reading of its type began. That
is where the name begins in a type that is no argument. The white space before an argument is read
as part of it, so the name of an argument is reported right after the mark before the argument.
-/

namespace InstanceForge

namespace TypeRef

def FaultKind.name? : FaultKind -> Option String
  | unsupportedGeneric name => some name
  | wrongArity name _ _ => some name
  | _ => none

def firstIdent (name : String) : List Char :=
  name.toList.takeWhile Name.isIdentRest

/-- At a byte offset the text goes on with the first identifier of a name. -/
def StandsAt (input name : String) (offset : Nat) : Prop :=
  ∃ left, Cursor.sliceFrom? input.toList offset = some left ∧ firstIdent name <+: left

/-- A text begins with a name and arguments that it does not take. -/
def Misapplied (cs : List Char) (name : String) (kind : FaultKind) : Prop :=
  ∃ tokens last inner types rest, IsPath tokens last ∧ name = String.ofList (written tokens) ∧
    Derives inner (.arguments types) ∧
    Spells (tokens ++ .less :: (inner ++ [.greater])) cs rest ∧ Misuse name types kind

variable {cs rest : List Char} {tokens more : List Token} {last : Ident} {name : String}
  {kind : FaultKind}

/-! ## First identifiers -/

theorem takeWhile_isSpace_eq_nil_iff : cs.takeWhile Text.isSpace = [] ↔ skipSpace cs = cs := by
  have hcs := takeWhile_append_skipSpace cs
  constructor
  · intro h
    rwa [h] at hcs
  · intro h
    rwa [h, List.append_left_eq_self] at hcs

theorem IsPath.endsIdent_tail {first : Ident} (h : IsPath (.ident first :: more) last) :
    EndsIdent (written more) := by
  cases h with
  | ident => exact fun c hc => by cases hc
  | next _ hmark _ => exact endsIdent_separator hmark _

theorem IsPath.exists_firstIdent (h : IsPath tokens last) : ∃ first others,
    tokens = .ident first :: others ∧ firstIdent (String.ofList (written tokens)) = first.val := by
  obtain ⟨first, others, rfl⟩ : ∃ first others, tokens = .ident first :: others := by
    cases h with
    | ident => exact ⟨last, [], rfl⟩
    | next name => exact ⟨name, _, rfl⟩
  refine ⟨first, others, rfl, ?_⟩
  have hwritten : written (.ident first :: others) = first.val ++ written others := rfl
  have hrest : ∀ c ∈ first.val, Name.isIdentRest c = true :=
    fun c hc => Name.isIdentRest_of_mem first.property hc
  rw [firstIdent, String.toList_ofList, hwritten, List.takeWhile_append_of_pos hrest,
    h.endsIdent_tail.takeWhile, List.append_nil]

/-- After white space the text goes on with the first identifier of the name. -/
theorem Misapplied.firstIdent_prefix (h : Misapplied cs name kind) :
    firstIdent name <+: skipSpace cs := by
  obtain ⟨tokens, last, inner, types, rest, hpath, rfl, -, hspells, -⟩ := h
  obtain ⟨first, others, rfl, hfirst⟩ := hpath.exists_firstIdent
  obtain ⟨after, hcs, -⟩ := spells_cons_iff.1 hspells
  rw [hfirst, hcs]
  exact List.prefix_append _ _

theorem Misapplied.skipSpace (h : Misapplied cs name kind) :
    Misapplied (skipSpace cs) name kind := by
  obtain ⟨tokens, last, inner, types, rest, hpath, hname, hderives, hspells, hmisuse⟩ := h
  refine ⟨tokens, last, inner, types, rest, hpath, hname, hderives, ?_, hmisuse⟩
  obtain ⟨first, others, rfl, -⟩ := hpath.exists_firstIdent
  obtain ⟨after, hcs, hafter⟩ := spells_cons_iff.1 hspells
  exact spells_cons_iff.2 ⟨after, by rw [skipSpace_skipSpace, hcs], hafter⟩

/-- The first identifier stands at the front exactly if no white space does. -/
theorem Misapplied.firstIdent_prefix_iff (h : Misapplied cs name kind) :
    firstIdent name <+: cs ↔ cs.takeWhile Text.isSpace = [] := by
  constructor
  · rintro ⟨after, rfl⟩
    obtain ⟨tokens, last, inner, types, rest, hpath, rfl, -, -, -⟩ := h
    obtain ⟨first, others, rfl, hfirst⟩ := hpath.exists_firstIdent
    obtain ⟨c, chars, hchars⟩ := List.exists_cons_of_ne_nil (Token.ident first).chars_ne_nil
    have hmem : c ∈ (Token.ident first).chars := by
      rw [hchars]
      exact List.mem_cons_self
    have hspace := Token.isSpace_of_mem_chars hmem
    rw [Token.chars] at hchars
    rw [hfirst, hchars, List.cons_append]
    exact List.takeWhile_cons_of_neg (by simp [hspace])
  · intro hspace
    have hprefix := h.firstIdent_prefix
    rwa [takeWhile_isSpace_eq_nil_iff.1 hspace] at hprefix

/-! ## Reports -/

/-- A misused name is reported where its type begins. -/
theorem Misread.misapplied {left : List Char} (h : Misread cs ⟨left, kind⟩)
    (hname : kind.name? = some name) : left = cs ∧ Misapplied cs name kind := by
  cases h with
  | identifier => cases hname
  | closing => cases hname
  | wrapper hpath hderives hspells hmisuse =>
      next tokens _ _ _ _ =>
      have hwritten : String.ofList (written tokens) = name := by
        cases hmisuse <;> exact Option.some.inj hname
      rw [hwritten] at hmisuse
      exact ⟨rfl, _, _, _, _, _, hpath, hwritten.symm, hderives, hspells, hmisuse⟩

theorem Rejects.misapplied {left : List Char} (h : Rejects cs ⟨left, kind⟩)
    (hname : kind.name? = some name) : Misapplied left name kind ∧ ∃ front, cs = front ++ left ∧
      (Blank front ∧ left.takeWhile Text.isSpace = [] ∨
        ∃ c, (c = '<' ∨ c = ',') ∧ front.getLast? = some c) := by
  cases h with
  | blank => cases hname
  | trailing => cases hname
  | misread hbegins hmisread =>
      obtain ⟨rfl, hmisapplied⟩ := hmisread.misapplied hname
      obtain ⟨front, hfront⟩ := hbegins.exists_fronts
      have hcs := takeWhile_append_skipSpace cs
      rw [hfront.eq, ← List.append_assoc] at hcs
      refine ⟨hmisapplied, _, hcs.symm, ?_⟩
      cases hlast : front.getLast? with
      | none =>
          rw [List.getLast?_eq_none_iff] at hlast
          subst hlast
          refine .inl ⟨by rw [List.append_nil]; exact blank_takeWhile cs, ?_⟩
          have hskip := skipSpace_skipSpace cs
          rw [hfront.eq, List.nil_append] at hskip
          exact takeWhile_isSpace_eq_nil_iff.2 hskip
      | some c =>
          refine .inr ⟨c, hfront.marked c hlast, ?_⟩
          rw [List.getLast?_append, hlast]
          rfl

/--
A name that does not take its arguments is reported where its type begins, and there the text goes
on with white space and the name with these arguments. Either nothing but white space is in front
and the name itself is next, or the mark before an argument is right in front. So the text goes on
with the first identifier of the name exactly if there is no white space between mark and name.
-/
theorem misapplied_of_parse {input name : String} {e : ParseError} (h : parse input = .error e)
    (hname : e.kind.name? = some name) :
    ∃ front space path : String, input = front ++ space ++ path ∧
      front.utf8ByteSize = e.offset ∧ Blank space.toList ∧
      firstIdent name <+: path.toList ∧ Misapplied path.toList name e.kind ∧
      (Blank front.toList ∧ space = "" ∨
        ∃ c, (c = '<' ∨ c = ',') ∧ front.toList.getLast? = some c) ∧
      (StandsAt input name e.offset ↔ space = "") := by
  obtain ⟨-, left, hrejects, hoffset⟩ := rejects_of_parse h
  obtain ⟨hmisapplied, front, hfront, hmark⟩ := hrejects.misapplied hname
  have hempty : String.ofList (left.takeWhile Text.isSpace) = "" ↔
      left.takeWhile Text.isSpace = [] := by
    rw [← String.toList_inj, String.toList_ofList, String.toList_empty]
  refine ⟨String.ofList front, String.ofList (left.takeWhile Text.isSpace),
    String.ofList (skipSpace left), ?_, ?_, ?_, ?_, ?_, ?_, ?_⟩
  · rw [← String.toList_inj]
    simp [hfront, takeWhile_append_skipSpace]
  · rw [utf8ByteSize_ofList, hoffset front hfront]
  · rw [String.toList_ofList]
    exact blank_takeWhile left
  · rw [String.toList_ofList]
    exact hmisapplied.firstIdent_prefix
  · rw [String.toList_ofList]
    exact hmisapplied.skipSpace
  · rw [String.toList_ofList, hempty]
    exact hmark
  · rw [hempty, ← hmisapplied.firstIdent_prefix_iff, StandsAt, hfront, hoffset front hfront,
      Cursor.sliceFrom?_byteLength]
    simp

/-- White space after a comma stands before the name of the argument. -/
theorem misapplied_spacedArgument :
    parse "Map<A,\u3000b.Option<C, D>>" =
        .error ⟨"Map<A,\u3000b.Option<C, D>>", 6, .wrongArity "b.Option" 1 2⟩ ∧
      ∃ front space path : String, "Map<A,\u3000b.Option<C, D>>" = front ++ space ++ path ∧
        front.utf8ByteSize = 6 ∧ space ≠ "" ∧ firstIdent "b.Option" <+: path.toList := by
  have hparse : parse "Map<A,\u3000b.Option<C, D>>" =
      .error ⟨"Map<A,\u3000b.Option<C, D>>", 6, .wrongArity "b.Option" 1 2⟩ := by decide +kernel
  obtain ⟨front, space, path, hinput, hsize, -, hfirst, -, -, hstands⟩ :=
    misapplied_of_parse hparse rfl
  refine ⟨hparse, front, space, path, hinput, hsize, fun hspace => ?_, hfirst⟩
  obtain ⟨left, hleft, hprefix⟩ := hstands.2 hspace
  have hslice : Cursor.sliceFrom? "Map<A,\u3000b.Option<C, D>>".toList 6 =
      some "\u3000b.Option<C, D>>".toList := by decide +kernel
  rw [hslice, Option.some.injEq] at hleft
  exact absurd (hleft ▸ hprefix) (by decide +kernel)

/-- The name of an argument with white space before it does not begin where it is reported. -/
theorem not_standsAt_spacedArgument :
    parse "Option< Either<A>>" =
        .error ⟨"Option< Either<A>>", 7, .unsupportedGeneric "Either"⟩ ∧
      ¬ StandsAt "Option< Either<A>>" "Either" 7 := by
  refine ⟨by decide +kernel, ?_⟩
  rintro ⟨left, hleft, hprefix⟩
  have hslice : Cursor.sliceFrom? "Option< Either<A>>".toList 7 = some " Either<A>>".toList := by
    decide +kernel
  rw [hslice, Option.some.injEq] at hleft
  exact absurd (hleft ▸ hprefix) (by decide +kernel)

end TypeRef

end InstanceForge

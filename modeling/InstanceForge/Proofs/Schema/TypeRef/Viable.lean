import InstanceForge.Proofs.Schema.TypeRef.Fault
import InstanceForge.Proofs.Schema.TypeRef.Rendering

/-!
# How far a text was in the grammar

The grammar without its wrappers allows arguments, as many as there are, on every path. Up to the
byte offset where a text is rejected it can go on to a sentence of this grammar, or is a type
reference already, and what comes next is nothing that the grammar allows there.
-/

namespace InstanceForge

namespace TypeRef

/-! ## The grammar without wrappers -/

/-- The tokens of types and of arguments, where every path takes any arguments. -/
inductive Shaped : List Token -> Form -> Prop where
  | path {tokens : List Token} {last : Ident} : IsPath tokens last -> Shaped tokens .type
  | applied {tokens inner : List Token} {last : Ident} : IsPath tokens last ->
      Shaped inner .arguments -> Shaped (tokens ++ .less :: (inner ++ [.greater])) .type
  | argument {tokens : List Token} : Shaped tokens .type -> Shaped tokens .arguments
  | arguments {tokens more : List Token} : Shaped tokens .type -> Shaped more .arguments ->
      Shaped (tokens ++ .comma :: more) .arguments

/-- The whole text is tokens of a type, white space around each. -/
def Sentence (cs : List Char) : Prop :=
  ∃ tokens, Spells tokens cs [] ∧ Shaped tokens .type

def Viable (cs : List Char) : Prop :=
  ∃ more, Sentence (cs ++ more)

def Phrase.form : Phrase -> Form
  | .type _ => .type
  | .arguments _ => .arguments

variable {tokens before more : List Token} {cs start front left : List Char} {form : Form}

theorem Derives.shaped {phrase : Phrase} (h : Derives tokens phrase) :
    Shaped tokens phrase.form := by
  induction h with
  | named hpath => exact .path hpath
  | wrapped hpath _ _ ih => exact .applied hpath ih
  | argument _ ih => exact .argument ih
  | arguments _ _ ihtype iharguments => exact .arguments ihtype iharguments

/-- Arguments are complete with the closing bracket. -/
theorem Shaped.closed {inner : List Token} {last : Ident} (h : Shaped inner .arguments)
    (hpath : IsPath tokens last) : Shaped (tokens ++ .less :: inner ++ [.greater]) .type := by
  simpa using Shaped.applied hpath h

theorem viable_of_spells (hspells : Spells tokens cs []) (h : Shaped (tokens ++ more) .type) :
    Viable cs := by
  obtain ⟨front, hcs, hfront⟩ := hspells.exists_front
  rw [List.append_nil] at hcs
  subst hcs
  have hmore : Spells more (written more) [] := by
    have hmore := spells_written more []
    rwa [List.append_nil] at hmore
  exact ⟨written more, tokens ++ more, (hfront _).append hmore, h⟩

/-! ## Types that are to be completed -/

theorem PathFront.append {rest : List Token} {last : Ident} (h : PathFront before)
    (hrest : IsPath rest last) : IsPath (before ++ rest) last := by
  induction h with
  | nil => exact hrest
  | next name hmark _ ih => exact .next name hmark ih

/-- Any type in the place of the one that begins is completed by the same tokens. -/
theorem Begins.exists_after (h : Begins form cs before start) :
    ∃ after, ∀ hole, Shaped hole .type -> Shaped (before ++ (hole ++ after)) form := by
  induction h with
  | here cs => exact ⟨[], fun hole hhole => by simpa using hhole⟩
  | inside hpath _ _ ih =>
      obtain ⟨after, hafter⟩ := ih
      refine ⟨after ++ [.greater], fun hole hhole => ?_⟩
      simpa using Shaped.applied hpath (hafter hole hhole)
  | first _ ih =>
      obtain ⟨after, hafter⟩ := ih
      exact ⟨after, fun hole hhole => .argument (hafter hole hhole)⟩
  | later hderives _ _ ih =>
      obtain ⟨after, hafter⟩ := ih
      refine ⟨after, fun hole hhole => ?_⟩
      simpa using Shaped.arguments hderives.shaped (hafter hole hhole)

/-- What was read of a type that is to be completed is viable in its place. -/
theorem Begins.viable {hole rest : List Token} (h : Begins .type (skipSpace cs) before start)
    (hspells : Spells hole start left) (hshaped : Shaped (hole ++ rest) .type) :
    ∃ front, cs = front ++ left ∧ Viable front := by
  obtain ⟨after, hafter⟩ := h.exists_after
  obtain ⟨outer, houter⟩ := h.exists_fronts
  obtain ⟨inner, rfl, hinner⟩ := hspells.exists_front
  have hcs := takeWhile_append_skipSpace cs
  rw [houter.eq] at hcs
  refine ⟨cs.takeWhile Text.isSpace ++ (outer ++ inner), by simpa using hcs.symm, ?_⟩
  have hread := (houter.spells inner).append (by simpa using hinner [])
  have hcompleted : Shaped (before ++ hole ++ (rest ++ after)) .type := by
    simpa using hafter _ hshaped
  exact viable_of_spells (hread.blank_append (blank_takeWhile cs)) hcompleted

/-! ## Reports -/

/-- What the two parts of a rejected text have to do with the kind of its fault. -/
def Explains (front left : String) : FaultKind -> Prop
  | .empty => Blank front.toList ∧ left = ""
  | .expectedIdent => Viable front.toList ∧
      ∀ c, left.toList.head? = some c -> Text.isSpace c = false ∧ Name.isIdentStart c = false
  | .expected mark => mark = '>' ∧ Viable front.toList ∧
      ∀ c, left.toList.head? = some c -> Text.isSpace c = false ∧ c ≠ ',' ∧ c ≠ '>'
  | .trailingInput => left ≠ "" ∧ ∃ type, parse front = .ok type
  | .unsupportedGeneric _ | .wrongArity _ _ _ => Viable front.toList

theorem isSpace_of_head? {c : Char} (hskip : skipSpace cs = cs) (hc : cs.head? = some c) :
    Text.isSpace c = false :=
  isSpace_of_head?_skipSpace (hskip.symm ▸ hc)

def someIdent : Ident :=
  ⟨['_'], by decide⟩

theorem Misread.explains {input left : String} {kind : FaultKind}
    (h : Misread start ⟨left.toList, kind⟩)
    (hbegins : Begins .type (skipSpace input.toList) before start) :
    ∃ front : String, input = front ++ left ∧ Explains front left kind := by
  have hstring : ∀ {front}, input.toList = front ++ left.toList ->
      input = String.ofList front ++ left := by
    intro front hfront
    rw [← String.toList_inj, hfront]
    simp
  cases h with
  | identifier hfront hspells hskip hstart =>
      obtain ⟨front, hinput, hviable⟩ :=
        hbegins.viable hspells (.path (hfront.append (.ident someIdent)))
      refine ⟨_, hstring hinput, ?_, fun c hc => ⟨isSpace_of_head? hskip hc, hstart c hc⟩⟩
      rwa [String.toList_ofList]
  | closing hpath hderives hspells hskip hmarks =>
      obtain ⟨front, hinput, hviable⟩ := hbegins.viable hspells (hderives.shaped.closed hpath)
      refine ⟨_, hstring hinput, rfl, ?_, fun c hc => ⟨isSpace_of_head? hskip hc, hmarks c hc⟩⟩
      rwa [String.toList_ofList]
  | wrapper hpath _ _ hmisuse =>
      obtain ⟨front, hinput, hviable⟩ := hbegins.viable (.nil Blank.nil) (.path hpath)
      refine ⟨_, hstring hinput, ?_⟩
      cases hmisuse <;> simpa [Explains] using hviable

theorem Rejects.explains {input left : String} {kind : FaultKind}
    (h : Rejects input.toList ⟨left.toList, kind⟩) :
    ∃ front : String, input = front ++ left ∧ Explains front left kind := by
  generalize hleft : left.toList = chars at h
  cases h with
  | blank hblank =>
      obtain rfl : left = "" := String.toList_inj.1 hleft
      exact ⟨input, String.append_empty.symm, hblank, rfl⟩
  | misread hbegins hmisread =>
      subst hleft
      exact hmisread.explains hbegins
  | trailing hderives hspells hne =>
      next tokens type =>
      subst hleft
      obtain ⟨front, hinput, hfront⟩ := hspells.exists_front
      have hall := hfront []
      rw [List.append_nil] at hall
      refine ⟨String.ofList front, by rw [← String.toList_inj, hinput]; simp, ?_, type, ?_⟩
      · rintro rfl
        exact hne rfl
      · exact parse_eq_ok_iff.2 ⟨tokens, by rwa [String.toList_ofList], hderives⟩

/--
A rejected text is split at the byte offset of its fault. If it is not blank, its front is a type
reference and more follows, or can go on to a sentence of the grammar; and what follows is no
identifier where one is expected, and neither a comma nor a closing bracket where one is expected.
-/
theorem explained_of_parse {input : String} {e : ParseError} (h : parse input = .error e) :
    e.input = input ∧ e.offset ≤ input.utf8ByteSize ∧
      ∃ front left : String, input = front ++ left ∧ front.utf8ByteSize = e.offset ∧
        Explains front left e.kind := by
  obtain ⟨hinput, left, hrejects, hoffset⟩ := rejects_of_parse h
  rw [← String.toList_ofList (l := left)] at hrejects
  obtain ⟨front, hfront, hexplains⟩ := hrejects.explains
  have hsize : front.utf8ByteSize = e.offset := by
    rw [hoffset front.toList (by rw [hfront]; simp), ← utf8ByteSize_ofList, String.ofList_toList]
  refine ⟨hinput, ?_, front, _, hfront, hsize, hexplains⟩
  rw [hfront, String.utf8ByteSize_append, hsize]
  exact Nat.le_add_right _ _

/-- A letter that begins no identifier is met in a path, within arguments that are not closed. -/
theorem explained_nestedPath :
    parse "Vec<a,\u3000Map<b::\u3000é" =
        .error ⟨"Vec<a,\u3000Map<b::\u3000é", 19, .expectedIdent⟩ ∧
      ∃ front left : String, "Vec<a,\u3000Map<b::\u3000é" = front ++ left ∧
        front.utf8ByteSize = 19 ∧ Viable front.toList := by
  have hparse : parse "Vec<a,\u3000Map<b::\u3000é" =
      .error ⟨"Vec<a,\u3000Map<b::\u3000é", 19, .expectedIdent⟩ := by decide +kernel
  obtain ⟨-, -, front, left, hinput, hsize, hviable, -⟩ := explained_of_parse hparse
  exact ⟨hparse, front, left, hinput, hsize, hviable⟩

end TypeRef

end InstanceForge

import InstanceForge.Proofs.Name.Path
import InstanceForge.Schema.TypeRef
import Mathlib.Data.List.TakeWhile

/-!
# The grammar of type references

Type references are sequences of tokens:

    type := path | path '<' type (',' type)* '>'
    path := identifier (('::' | '.') identifier)*

A path with arguments stands for the wrapper that its last identifier names. White space may
stand before and after every token, and nowhere else.
-/

namespace InstanceForge

namespace TypeRef

/-! ## Tokens -/

abbrev Ident :=
  { name : List Char // Name.isIdentChars name = true }

inductive Token where
  | ident (name : Ident)
  | pair
  | dot
  | less
  | comma
  | greater

def Token.chars : Token -> List Char
  | ident name => name.val
  | pair => [':', ':']
  | dot => ['.']
  | less => ['<']
  | comma => [',']
  | greater => ['>']

def written (tokens : List Token) : List Char :=
  tokens.flatMap Token.chars

def Blank (cs : List Char) : Prop :=
  ∀ c ∈ cs, Text.isSpace c = true

/-- The tokens stand at the front of a text, white space around each; the last text follows. -/
inductive Spells : List Token -> List Char -> List Char -> Prop where
  | nil {space rest : List Char} : Blank space -> Spells [] (space ++ rest) rest
  | cons {space more rest : List Char} {token : Token} {tokens : List Token} : Blank space ->
      Spells tokens more rest -> Spells (token :: tokens) (space ++ (token.chars ++ more)) rest

/-! ## Types -/

inductive IsPath : List Token -> Ident -> Prop where
  | ident (name : Ident) : IsPath [.ident name] name
  | next (name : Ident) {mark : Token} {tokens : List Token} {last : Ident} :
      mark = .pair ∨ mark = .dot -> IsPath tokens last ->
      IsPath (.ident name :: mark :: tokens) last

inductive Wraps (name : String) : List FieldType -> FieldType -> Prop where
  | optional {inner : FieldType} : name ∈ optionalNames -> Wraps name [inner] (.optional inner)
  | sequence {inner : FieldType} : name ∈ sequenceNames -> Wraps name [inner] (.sequence inner)
  | map {key value : FieldType} : name ∈ mapNames -> Wraps name [key, value] (.map key value)

inductive Phrase where
  | type (type : FieldType)
  | arguments (types : List FieldType)

/-- The tokens of types, and of one or more types with commas between them. -/
inductive Derives : List Token -> Phrase -> Prop where
  | named {tokens : List Token} {last : Ident} : IsPath tokens last ->
      Derives tokens (.type (.named (String.ofList (written tokens))))
  | wrapped {tokens inner : List Token} {last : Ident} {types : List FieldType}
      {type : FieldType} : IsPath tokens last -> Derives inner (.arguments types) ->
      Wraps (String.ofList last.val) types type ->
      Derives (tokens ++ .less :: (inner ++ [.greater])) (.type type)
  | argument {tokens : List Token} {type : FieldType} : Derives tokens (.type type) ->
      Derives tokens (.arguments [type])
  | arguments {tokens more : List Token} {type : FieldType} {types : List FieldType} :
      Derives tokens (.type type) -> Derives more (.arguments types) ->
      Derives (tokens ++ .comma :: more) (.arguments (type :: types))

/-- The whole text is a type reference for the type. -/
def Denotes (cs : List Char) (type : FieldType) : Prop :=
  ∃ tokens, Spells tokens cs [] ∧ Derives tokens (.type type)

/-! ## White space -/

theorem Blank.append {cs ds : List Char} (hcs : Blank cs) (hds : Blank ds) : Blank (cs ++ ds) :=
  List.forall_mem_append.2 ⟨hcs, hds⟩

theorem Blank.nil : Blank [] :=
  List.forall_mem_nil _

theorem blank_takeWhile (cs : List Char) : Blank (cs.takeWhile Text.isSpace) :=
  fun _ hc => List.mem_takeWhile_imp hc

theorem takeWhile_append_skipSpace (cs : List Char) :
    cs.takeWhile Text.isSpace ++ skipSpace cs = cs :=
  List.takeWhile_append_dropWhile

@[simp]
theorem skipSpace_append {space : List Char} (h : Blank space) (cs : List Char) :
    skipSpace (space ++ cs) = skipSpace cs :=
  List.dropWhile_append_of_pos h

theorem skipSpace_cons {c : Char} (h : Text.isSpace c = false) (cs : List Char) :
    skipSpace (c :: cs) = c :: cs :=
  List.dropWhile_cons_of_neg (by simp [h])

theorem isSpace_of_head?_skipSpace {cs : List Char} {c : Char}
    (h : (skipSpace cs).head? = some c) : Text.isSpace c = false := by
  have hhead := List.head?_dropWhile_not Text.isSpace cs
  rw [skipSpace] at h
  rw [h] at hhead
  simpa using hhead

@[simp]
theorem skipSpace_skipSpace (cs : List Char) : skipSpace (skipSpace cs) = skipSpace cs := by
  cases h : skipSpace cs with
  | nil => rfl
  | cons c rest => exact skipSpace_cons (isSpace_of_head?_skipSpace (by rw [h]; rfl)) rest

theorem filter_of_blank {cs : List Char} (h : Blank cs) : cs.filter (!Text.isSpace ·) = [] := by
  rw [List.filter_eq_nil_iff]
  intro c hc
  simp [h c hc]

theorem isSpace_of_isIdentRest {c : Char} (h : Name.isIdentRest c = true) :
    Text.isSpace c = false := by
  have hbounds := Name.toNat_of_isIdentRest h
  simp only [Text.isSpace, Bool.or_eq_false_iff, Bool.and_eq_false_iff, decide_eq_false_iff_not,
    beq_eq_false_iff_ne]
  omega

theorem Token.isSpace_of_mem_chars {token : Token} {c : Char} (h : c ∈ token.chars) :
    Text.isSpace c = false := by
  cases token with
  | ident name => exact isSpace_of_isIdentRest (Name.isIdentRest_of_mem name.property h)
  | pair | dot | less | comma | greater =>
      simp only [Token.chars, List.mem_cons, List.not_mem_nil, or_false, or_self] at h
      subst h
      decide

theorem Token.chars_ne_nil (token : Token) : token.chars ≠ [] := by
  cases token with
  | ident name =>
      intro hnil
      have hname := name.property
      rw [Token.chars] at hnil
      rw [hnil] at hname
      cases hname
  | pair | dot | less | comma | greater => simp [Token.chars]

theorem skipSpace_chars_append (token : Token) (more : List Char) :
    skipSpace (token.chars ++ more) = token.chars ++ more := by
  obtain ⟨c, rest, hchars⟩ := List.exists_cons_of_ne_nil token.chars_ne_nil
  have hspace : Text.isSpace c = false :=
    Token.isSpace_of_mem_chars (by rw [hchars]; exact List.mem_cons_self)
  rw [hchars, List.cons_append, skipSpace_cons hspace]

/-! ## Spelled tokens -/

variable {tokens first second : List Token} {cs mid more rest : List Char} {token : Token}

theorem spells_nil_iff : Spells [] cs rest ↔ ∃ space, Blank space ∧ cs = space ++ rest := by
  constructor
  · intro h
    cases h with
    | nil hspace => exact ⟨_, hspace, rfl⟩
  · rintro ⟨space, hspace, rfl⟩
    exact .nil hspace

theorem Spells.blank_append {space : List Char} (hspace : Blank space)
    (h : Spells tokens cs rest) : Spells tokens (space ++ cs) rest := by
  cases h with
  | nil hblank =>
      rw [← List.append_assoc]
      exact .nil (hspace.append hblank)
  | cons hblank hmore =>
      rw [← List.append_assoc]
      exact .cons (hspace.append hblank) hmore

theorem Spells.of_skipSpace (h : Spells tokens (skipSpace cs) rest) : Spells tokens cs rest := by
  have hspace := h.blank_append (blank_takeWhile cs)
  rwa [takeWhile_append_skipSpace] at hspace

theorem spells_skipSpace (cs : List Char) : Spells [] cs (skipSpace cs) :=
  spells_nil_iff.2 ⟨_, blank_takeWhile cs, (takeWhile_append_skipSpace cs).symm⟩

theorem skipSpace_eq_of_spells_nil (h : Spells [] cs rest) : skipSpace cs = skipSpace rest := by
  obtain ⟨space, hspace, rfl⟩ := spells_nil_iff.1 h
  exact skipSpace_append hspace rest

/-- The first token stands after the white space. -/
theorem spells_cons_iff : Spells (token :: tokens) cs rest ↔
    ∃ more, skipSpace cs = token.chars ++ more ∧ Spells tokens more rest := by
  constructor
  · intro h
    cases h with
    | cons hspace hmore =>
        exact ⟨_, by rw [skipSpace_append hspace, skipSpace_chars_append], hmore⟩
  · rintro ⟨more, hcs, hmore⟩
    have htoken : Spells (token :: tokens) (token.chars ++ more) rest := .cons Blank.nil hmore
    rw [← hcs] at htoken
    exact htoken.of_skipSpace

theorem Spells.append (hfirst : Spells first cs mid) (hsecond : Spells second mid rest) :
    Spells (first ++ second) cs rest := by
  induction hfirst with
  | nil hspace => exact hsecond.blank_append hspace
  | cons hspace _ ih => exact .cons hspace (ih hsecond)

theorem Spells.exists_of_append (h : Spells (first ++ second) cs rest) :
    ∃ mid, Spells first cs mid ∧ Spells second mid rest := by
  induction first generalizing cs with
  | nil => exact ⟨cs, .nil Blank.nil, h⟩
  | cons token tokens ih =>
      obtain ⟨more, hcs, hmore⟩ := spells_cons_iff.1 h
      obtain ⟨mid, hfirst, hsecond⟩ := ih hmore
      exact ⟨mid, spells_cons_iff.2 ⟨more, hcs, hfirst⟩, hsecond⟩

theorem Spells.length_le (h : Spells tokens cs rest) :
    tokens.length + rest.length ≤ cs.length := by
  induction h with
  | nil => simp
  | cons _ _ ih =>
      next token _ _ _ =>
      have hpos : 0 < token.chars.length := List.length_pos_iff.2 token.chars_ne_nil
      simp only [List.length_append, List.length_cons]
      omega

/-- The tokens with no white space between them are the text without its white space. -/
theorem Spells.written_append_filter (h : Spells tokens cs rest) :
    written tokens ++ rest.filter (!Text.isSpace ·) = cs.filter (!Text.isSpace ·) := by
  induction h with
  | nil hspace =>
      rw [List.filter_append, filter_of_blank hspace]
      rfl
  | cons hspace _ ih =>
      next token _ _ =>
      have hchars : token.chars.filter (!Text.isSpace ·) = token.chars :=
        List.filter_eq_self.2 fun c hc => by simp [Token.isSpace_of_mem_chars hc]
      rw [List.filter_append, List.filter_append, filter_of_blank hspace, hchars, ← ih,
        List.nil_append, ← List.append_assoc]
      rfl

/-! ## Paths -/

theorem IsPath.ne_nil {last : Ident} (h : IsPath tokens last) : tokens ≠ [] := by
  cases h <;> simp

theorem Derives.ne_nil {phrase : Phrase} (h : Derives tokens phrase) : tokens ≠ [] := by
  induction h with
  | named hpath => exact hpath.ne_nil
  | wrapped hpath => simp
  | argument _ ih => exact ih
  | arguments _ _ ih => simp

/-- The segments of a path are its identifiers. -/
theorem IsPath.segments {last : Ident} (h : IsPath tokens last) :
    (∀ segment ∈ Name.segments (written tokens), Name.isIdentChars segment = true) ∧
      (Name.segments (written tokens)).getLast? = some last.val := by
  induction h with
  | ident name =>
      simp only [written, List.flatMap_singleton, Token.chars]
      rw [Name.segments_of_isIdentChars name.property]
      simpa using name.property
  | next name hmark _ ih =>
      next mark tokens last _ =>
      have hsegments : Name.segments (written (.ident name :: mark :: tokens)) =
          name.val :: Name.segments (written tokens) := by
        rcases hmark with rfl | rfl
        · exact Name.segments_append_pair name.property _
        · exact Name.segments_append_dot name.property _
      rw [hsegments]
      refine ⟨List.forall_mem_cons.2 ⟨name.property, ih.1⟩, ?_⟩
      rw [List.getLast?_cons, ih.2]
      rfl

/-- The simple name of a path is its last identifier. -/
theorem IsPath.simple {last : Ident} (h : IsPath tokens last) :
    Name.simple (String.ofList (written tokens)) = String.ofList last.val := by
  have hlast := Name.getLast?_segments (Name.colon_notMem_of_segments h.segments.1)
  rw [h.segments.2, Option.some.injEq] at hlast
  rw [Name.simple, String.toList_ofList, hlast]

/-- A text with no arguments names a type by what is not white space in it. -/
theorem named_of_denotes {name : String} (h : Denotes cs (.named name)) :
    name = String.ofList (cs.filter (!Text.isSpace ·)) := by
  obtain ⟨tokens, hspells, hderives⟩ := h
  cases hderives with
  | named hpath =>
      have hwritten := hspells.written_append_filter
      rw [List.filter_nil, List.append_nil] at hwritten
      rw [hwritten]
  | wrapped _ _ hwraps => cases hwraps

end TypeRef

end InstanceForge

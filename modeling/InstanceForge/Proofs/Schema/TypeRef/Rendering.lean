import InstanceForge.Proofs.Schema.TypeRef.Reading

/-!
# Rendered types read back

A rendered type is a text of the grammar as long as the names in it are paths, and the names in a
type that was read always are. So a type that was read is read again from its rendering, and the
rendering is one form for all the texts of a type.
-/

namespace InstanceForge

namespace TypeRef

/-- A name that is a path of the grammar, with no white space in it. -/
def PathName (name : String) : Prop :=
  ∃ tokens last, IsPath tokens last ∧ name = String.ofList (written tokens)

/-! ## Rendered types are in the grammar -/

theorem spells_written (tokens : List Token) (rest : List Char) :
    Spells tokens (written tokens ++ rest) rest := by
  induction tokens with
  | nil => exact .nil Blank.nil
  | cons token tokens ih =>
      have hspells : Spells (token :: tokens) (token.chars ++ (written tokens ++ rest)) rest :=
        .cons Blank.nil ih
      rwa [← List.append_assoc] at hspells

/-- The characters spell tokens of the phrase, whatever follows them. -/
def Prints (phrase : Phrase) (cs : List Char) : Prop :=
  ∃ tokens, Derives tokens phrase ∧ ∀ rest, Spells tokens (cs ++ rest) rest

theorem Prints.named {name : String} (h : PathName name) :
    Prints (.type (.named name)) name.toList := by
  obtain ⟨tokens, last, hpath, rfl⟩ := h
  refine ⟨tokens, .named hpath, ?_⟩
  rw [String.toList_ofList]
  exact spells_written tokens

theorem Prints.argument {type : FieldType} {cs : List Char} (h : Prints (.type type) cs) :
    Prints (.arguments [type]) cs := by
  obtain ⟨tokens, hderives, hspells⟩ := h
  exact ⟨tokens, .argument hderives, hspells⟩

/-- A comma and a blank stand between arguments. -/
theorem Prints.arguments {type : FieldType} {types : List FieldType} {cs ds : List Char}
    (htype : Prints (.type type) cs) (htypes : Prints (.arguments types) ds) :
    Prints (.arguments (type :: types)) (cs ++ [',', ' '] ++ ds) := by
  obtain ⟨tokens, hderives, hspells⟩ := htype
  obtain ⟨more, hmore, hothers⟩ := htypes
  refine ⟨tokens ++ .comma :: more, .arguments hderives hmore, fun rest => ?_⟩
  have hblank : Blank [' '] := List.forall_mem_singleton.2 (by decide)
  have hcomma : Spells (.comma :: more) ([',', ' '] ++ (ds ++ rest)) rest :=
    .cons Blank.nil ((hothers rest).blank_append hblank)
  simpa using (hspells _).append hcomma

theorem Prints.wrapped {types : List FieldType} {type : FieldType} {cs : List Char} (name : Ident)
    (htypes : Prints (.arguments types) cs) (hwraps : Wraps (String.ofList name.val) types type) :
    Prints (.type type) (name.val ++ ['<'] ++ cs ++ ['>']) := by
  obtain ⟨inner, hderives, hspells⟩ := htypes
  refine ⟨_, .wrapped (.ident name) hderives hwraps, fun rest => ?_⟩
  have hclose : Spells [.greater] ('>' :: rest) rest := spells_written [.greater] rest
  have hopen : Spells (.less :: (inner ++ [.greater])) ('<' :: (cs ++ '>' :: rest)) rest :=
    .cons Blank.nil ((hspells _).append hclose)
  simpa [written, Token.chars] using (spells_written [.ident name] _).append hopen

theorem prints_render {type : FieldType} (h : ∀ name ∈ type.innermost, PathName name) :
    Prints (.type type) type.render.toList := by
  induction type with
  | named name => exact .named (h name (List.mem_singleton_self name))
  | optional inner ih =>
      have hprints := (ih h).argument.wrapped ⟨"Option".toList, by decide⟩
        (.optional (by decide))
      simpa [FieldType.render] using hprints
  | sequence inner ih =>
      have hprints := (ih h).argument.wrapped ⟨"Vec".toList, by decide⟩ (.sequence (by decide))
      simpa [FieldType.render] using hprints
  | map key value ihkey ihvalue =>
      obtain ⟨hkey, hvalue⟩ := List.forall_mem_append.1 h
      have hprints := ((ihkey hkey).arguments (ihvalue hvalue).argument).wrapped
        ⟨"Map".toList, by decide⟩ (.map (by decide))
      simpa [FieldType.render] using hprints

theorem parse_render {type : FieldType} (h : ∀ name ∈ type.innermost, PathName name) :
    parse type.render = .ok type := by
  obtain ⟨tokens, hderives, hspells⟩ := prints_render h
  have hall := hspells []
  rw [List.append_nil] at hall
  exact parse_eq_ok_iff.2 ⟨tokens, hall, hderives⟩

/-! ## Names of types that were read -/

def Phrase.names : Phrase -> List String
  | .type found => found.innermost
  | .arguments types => types.flatMap FieldType.innermost

theorem Wraps.innermost {name : String} {types : List FieldType} {type : FieldType}
    (h : Wraps name types type) : type.innermost = types.flatMap FieldType.innermost := by
  cases h <;> simp [FieldType.innermost]

theorem Derives.pathName {tokens : List Token} {phrase : Phrase} (h : Derives tokens phrase) :
    ∀ name ∈ phrase.names, PathName name := by
  induction h with
  | named hpath =>
      intro name hname
      exact ⟨_, _, hpath, List.mem_singleton.1 hname⟩
  | wrapped _ _ hwraps ih =>
      rw [Phrase.names, hwraps.innermost]
      exact ih
  | argument _ ih => simpa [Phrase.names] using ih
  | arguments _ _ ihtype ihtypes => exact List.forall_mem_append.2 ⟨ihtype, ihtypes⟩

theorem pathName_of_parse {input : String} {type : FieldType} (h : parse input = .ok type) :
    ∀ name ∈ type.innermost, PathName name := by
  obtain ⟨_, _, hderives⟩ := parse_eq_ok_iff.1 h
  exact hderives.pathName

/--
A rendered type is read as the type exactly if the names in it are paths, be they spelled like
wrappers or not. Every type that was read is such a type, so its rendering reads back, and of two
texts that are read the renderings are the same exactly if the types are.
-/
theorem render_normal :
    (∀ type : FieldType,
      parse type.render = .ok type ↔ ∀ name ∈ type.innermost, PathName name) ∧
      ∀ input type, parse input = .ok type ->
        (∀ name ∈ type.innermost, PathName name) ∧ parse type.render = .ok type ∧
          ∀ other found, parse other = .ok found ->
            (found.render = type.render ↔ found = type) := by
  refine ⟨fun type => ⟨pathName_of_parse, parse_render⟩, ?_⟩
  intro input type h
  have hread := parse_render (pathName_of_parse h)
  refine ⟨pathName_of_parse h, hread, fun other found hfound => ⟨fun hsame => ?_, congrArg _⟩⟩
  have hother := parse_render (pathName_of_parse hfound)
  rw [hsame, hread] at hother
  exact (Except.ok.inj hother).symm

example : (parse " java.util.List < Map<a :: Option,Set> >").toOption.map FieldType.render =
    some "Vec<Map<a::Option, Set>>" := by decide +kernel

end TypeRef

end InstanceForge

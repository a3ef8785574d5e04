import InstanceForge.Proofs.Basic
import InstanceForge.Proofs.Schema.TypeRef.Grammar

/-!
# Reading type references

The reader accepts the texts of the grammar, each for the type that the grammar gives it, and it
rejects every other text. That it accepts nothing else is by induction on the depth of the
reading; that it accepts every text of the grammar is by induction on the derivation, where the
text that follows must not go on with a token that the reader would take.
-/

namespace InstanceForge

namespace TypeRef

variable {tokens : List Token} {cs rest : List Char} {last : Ident}

/-! ## Wrappers -/

def Wrapper.names : Wrapper -> List String
  | optional => optionalNames
  | sequence => sequenceNames
  | map => mapNames

/-- No name is the name of two wrappers. -/
theorem Wrapper.eq_of_mem_names {v w : Wrapper} {name : String} (hv : name ∈ v.names)
    (hw : name ∈ w.names) : v = w := by
  have hdisjoint : ∀ v w : Wrapper, v = w ∨ ∀ name ∈ v.names, name ∉ w.names := by
    intro v w
    cases v <;> cases w <;> decide
  exact (hdisjoint v w).resolve_right fun h => h name hv hw

theorem wrapper?_eq_some_iff {name : String} {w : Wrapper} :
    wrapper? name = some w ↔ Name.simple name ∈ w.names := by
  constructor
  · intro h
    simp only [wrapper?] at h
    split at h
    · next hname =>
        cases h
        exact hname
    split at h
    · next hname =>
        cases h
        exact hname
    split at h
    · next hname =>
        cases h
        exact hname
    · cases h
  · intro h
    have huniq : ∀ v : Wrapper, Name.simple name ∈ v.names -> v = w :=
      fun v hv => Wrapper.eq_of_mem_names hv h
    simp only [wrapper?]
    split
    · next hname => rw [huniq .optional hname]
    split
    · next hname => rw [huniq .sequence hname]
    split
    · next hname => rw [huniq .map hname]
    · next hoptional hsequence hmap =>
        cases w with
        | optional => exact absurd h hoptional
        | sequence => exact absurd h hsequence
        | map => exact absurd h hmap

/-- A type with arguments is read for what its wrapper makes of them. -/
theorem wrap_eq_ok_iff {start : List Char} {name : String} {types : List FieldType}
    {type : FieldType} :
    wrap start name types = .ok type ↔ Wraps (Name.simple name) types type := by
  constructor
  · intro h
    rw [wrap] at h
    split at h
    · cases h
    next w hw =>
      have hname := wrapper?_eq_some_iff.1 hw
      split at h
      · cases h
        exact .optional hname
      · cases h
        exact .sequence hname
      · cases h
        exact .map hname
      · cases h
  · intro h
    rw [wrap]
    cases h with
    | optional hname =>
        have hw : wrapper? name = some .optional := wrapper?_eq_some_iff.2 hname
        rw [hw]
    | sequence hname =>
        have hw : wrapper? name = some .sequence := wrapper?_eq_some_iff.2 hname
        rw [hw]
    | map hname =>
        have hw : wrapper? name = some .map := wrapper?_eq_some_iff.2 hname
        rw [hw]

/-! ## What is accepted is in the grammar -/

theorem spells_of_ident {name : List Char} (h : ident cs = .ok (name, rest)) :
    ∃ hname, Spells [.ident ⟨name, hname⟩] cs (skipSpace rest) := by
  rw [ident] at h
  split at h
  · cases h
  next c more hcs =>
    split at h
    · next hstart =>
        cases h
        have hname : Name.isIdentChars (c :: more.takeWhile Name.isIdentRest) = true := by
          rw [Name.isIdentChars, hstart, Bool.true_and, List.all_takeWhile]
        refine ⟨hname, spells_cons_iff.2 ⟨_, ?_, spells_skipSpace _⟩⟩
        rw [hcs, Token.chars, List.cons_append, List.takeWhile_append_dropWhile]
    · cases h

theorem exists_of_separator? {mark : List Char} (h : separator? cs = some (mark, rest)) :
    ∃ token : Token, (token = .pair ∨ token = .dot) ∧ token.chars = mark ∧ cs = mark ++ rest := by
  unfold separator? at h
  split at h
  · cases h
    exact ⟨.pair, .inl rfl, rfl, rfl⟩
  · cases h
    exact ⟨.dot, .inr rfl, rfl, rfl⟩
  · cases h

theorem isPath_of_pathWithin {n : Nat} {name : List Char}
    (h : pathWithin n cs = .ok (name, rest)) :
    ∃ tokens last, IsPath tokens last ∧ written tokens = name ∧ Spells tokens cs rest := by
  induction n generalizing cs name rest with
  | zero => cases h
  | succ n ih =>
      rw [pathWithin, bind_eq_ok_iff] at h
      obtain ⟨⟨first, more⟩, hfirst, h⟩ := h
      obtain ⟨hname, hspells⟩ := spells_of_ident hfirst
      dsimp only at h
      split at h
      · next mark inner hmark =>
          obtain ⟨⟨tail, left⟩, htail, h⟩ := bind_eq_ok_iff.1 h
          cases h
          obtain ⟨token, hseparator, rfl, hmore⟩ := exists_of_separator? hmark
          obtain ⟨tokens, last, hpath, rfl, hrest⟩ := ih htail
          have hsecond : Spells (token :: tokens) (skipSpace more) left :=
            spells_cons_iff.2 ⟨inner, by rw [skipSpace_skipSpace, hmore], hrest⟩
          refine ⟨_, last, .next ⟨first, hname⟩ hseparator hpath, ?_, hspells.append hsecond⟩
          simp [written, Token.chars]
      · cases h
        exact ⟨_, _, .ident ⟨name, hname⟩, by simp [written, Token.chars], hspells⟩

def TypeSound (n : Nat) : Prop :=
  ∀ {cs type rest}, typeWithin n cs = .ok (type, rest) ->
    ∃ tokens, Derives tokens (.type type) ∧ Spells tokens cs (skipSpace rest)

def ArgumentsSound (n : Nat) : Prop :=
  ∀ {cs types rest}, argumentsWithin n cs = .ok (types, rest) ->
    ∃ tokens, Derives tokens (.arguments types) ∧ Spells tokens cs rest

theorem spells_brackets {arguments : List Token} {inner more : List Char}
    (h : Spells arguments inner ('>' :: more)) :
    Spells (.less :: (arguments ++ [.greater])) ('<' :: inner) (skipSpace more) := by
  have hclose : Spells [.greater] ('>' :: more) (skipSpace more) :=
    spells_cons_iff.2 ⟨more, skipSpace_cons (by decide) more, spells_skipSpace more⟩
  exact spells_cons_iff.2 ⟨inner, skipSpace_cons (by decide) inner, h.append hclose⟩

theorem typeSound_succ {n : Nat} (iharguments : ArgumentsSound n) : TypeSound (n + 1) := by
  intro cs type rest h
  obtain ⟨⟨name, left⟩, hpath, h⟩ := bind_eq_ok_iff.1 h
  obtain ⟨tokens, last, htokens, rfl, hspells⟩ := isPath_of_pathWithin hpath
  dsimp only at h
  split at h
  · next inner =>
      obtain ⟨⟨types, after⟩, harguments, h⟩ := bind_eq_ok_iff.1 h
      obtain ⟨arguments, hderives, hinner⟩ := iharguments harguments
      dsimp only at h
      split at h
      · next more =>
          obtain ⟨found, hwrap, h⟩ := bind_eq_ok_iff.1 h
          cases h
          rw [wrap_eq_ok_iff, htokens.simple] at hwrap
          exact ⟨_, .wrapped htokens hderives hwrap, hspells.append (spells_brackets hinner)⟩
      · cases h
  · cases h
    have hend := hspells.append (spells_skipSpace rest)
    rw [List.append_nil] at hend
    exact ⟨tokens, .named htokens, hend⟩

theorem argumentsSound_succ {n : Nat} (ihtype : TypeSound n) (iharguments : ArgumentsSound n) :
    ArgumentsSound (n + 1) := by
  intro cs types rest h
  obtain ⟨⟨type, left⟩, htype, h⟩ := bind_eq_ok_iff.1 h
  obtain ⟨tokens, hderives, hspells⟩ := ihtype htype
  dsimp only at h
  split at h
  · next more hleft =>
      obtain ⟨⟨others, after⟩, hothers, h⟩ := bind_eq_ok_iff.1 h
      cases h
      obtain ⟨arguments, hmore, hinner⟩ := iharguments hothers
      have hcomma : Spells (.comma :: arguments) (skipSpace left) after :=
        spells_cons_iff.2 ⟨more, by rw [skipSpace_skipSpace, hleft]; rfl, hinner⟩
      exact ⟨_, .arguments hderives hmore, hspells.append hcomma⟩
  · cases h
    exact ⟨tokens, .argument hderives, hspells⟩

theorem sound_within (n : Nat) : TypeSound n ∧ ArgumentsSound n := by
  induction n with
  | zero =>
      constructor
      · intro cs type rest h
        cases h
      · intro cs types rest h
        cases h
  | succ n ih => exact ⟨typeSound_succ ih.2, argumentsSound_succ ih.1 ih.2⟩

theorem denotes_of_parseChars {type : FieldType} (h : parseChars cs = .ok type) :
    Denotes cs type := by
  rw [parseChars] at h
  split at h
  · cases h
  · obtain ⟨⟨found, left⟩, htype, h⟩ := bind_eq_ok_iff.1 h
    dsimp only at h
    split at h
    · next hleft =>
        cases h
        obtain ⟨tokens, hderives, hspells⟩ := (sound_within _).1 htype
        rw [hleft] at hspells
        exact ⟨tokens, hspells.of_skipSpace, hderives⟩
    · cases h

/-! ## What is in the grammar is accepted -/

/-- After white space the text is at its end or goes on with one of these characters. -/
def Ends (marks cs : List Char) : Prop :=
  ∀ c, (skipSpace cs).head? = some c -> c ∈ marks

theorem Ends.mono {marks others : List Char} (h : Ends marks cs) (hmarks : marks ⊆ others) :
    Ends others cs :=
  fun c hc => hmarks (h c hc)

theorem ends_of_skipSpace_eq_cons {marks more : List Char} {c : Char}
    (h : skipSpace cs = c :: more) (hc : c ∈ marks) : Ends marks cs := by
  intro d hd
  rw [h] at hd
  cases hd
  exact hc

theorem ends_congr {marks ds : List Char} (h : skipSpace cs = skipSpace ds) :
    Ends marks cs ↔ Ends marks ds := by
  rw [Ends, Ends, h]

def EndsIdent (cs : List Char) : Prop :=
  ∀ c, cs.head? = some c -> Name.isIdentRest c = false

theorem endsIdent_of_skipSpace (h : EndsIdent (skipSpace cs)) : EndsIdent cs := by
  intro c hc
  cases hspace : Text.isSpace c with
  | true =>
      rw [← Bool.not_eq_true]
      intro hrest
      rw [isSpace_of_isIdentRest hrest] at hspace
      cases hspace
  | false =>
      obtain ⟨rest, rfl⟩ := List.head?_eq_some_iff.1 hc
      rw [skipSpace_cons hspace] at h
      exact h c hc

theorem EndsIdent.takeWhile (h : EndsIdent cs) : cs.takeWhile Name.isIdentRest = [] := by
  cases cs with
  | nil => rfl
  | cons c rest => exact List.takeWhile_cons_of_neg (by simp [h c rfl])

theorem EndsIdent.dropWhile (h : EndsIdent cs) : cs.dropWhile Name.isIdentRest = cs := by
  cases cs with
  | nil => rfl
  | cons c rest => exact List.dropWhile_cons_of_neg (by simp [h c rfl])

theorem ident_of_skipSpace_eq {name : Ident} (h : skipSpace cs = name.val ++ rest)
    (hrest : EndsIdent rest) : ident cs = .ok (name.val, rest) := by
  obtain ⟨chars, hname⟩ := name
  cases chars with
  | nil => cases hname
  | cons c tail =>
      rw [Name.isIdentChars, Bool.and_eq_true, List.all_eq_true] at hname
      rw [ident, h]
      simp only [List.cons_append, if_pos hname.1, List.takeWhile_append_of_pos hname.2,
        List.dropWhile_append_of_pos hname.2, hrest.takeWhile, hrest.dropWhile, List.append_nil]

theorem separator?_eq_none (h : Ends ['<', ',', '>'] cs) : separator? (skipSpace cs) = none := by
  cases hcs : skipSpace cs with
  | nil => rfl
  | cons c more =>
      have hc := h c (by rw [hcs]; rfl)
      simp only [List.mem_cons, List.not_mem_nil, or_false] at hc
      rcases hc with rfl | rfl | rfl <;> rfl

theorem endsIdent_of_ends (h : Ends ['<', ',', '>'] cs) : EndsIdent cs := by
  refine endsIdent_of_skipSpace fun c hc => ?_
  have hmark := h c hc
  simp only [List.mem_cons, List.not_mem_nil, or_false] at hmark
  rcases hmark with rfl | rfl | rfl <;> decide

theorem separator?_append {mark : Token} (h : mark = .pair ∨ mark = .dot) (rest : List Char) :
    separator? (mark.chars ++ rest) = some (mark.chars, rest) := by
  rcases h with rfl | rfl <;> rfl

theorem endsIdent_separator {mark : Token} (h : mark = .pair ∨ mark = .dot) (rest : List Char) :
    EndsIdent (mark.chars ++ rest) := by
  intro c hc
  rcases h with rfl | rfl <;> cases hc <;> decide

theorem pathWithin_of_isPath {n : Nat} (h : IsPath tokens last) (hspells : Spells tokens cs rest)
    (hrest : Ends ['<', ',', '>'] rest) (hn : tokens.length ≤ n) :
    pathWithin n cs = .ok (written tokens, skipSpace rest) := by
  induction h generalizing cs n with
  | ident name =>
      obtain ⟨n, rfl⟩ := Nat.exists_eq_add_of_le' hn
      obtain ⟨more, hcs, hmore⟩ := spells_cons_iff.1 hspells
      have hskip := skipSpace_eq_of_spells_nil hmore
      have hends : Ends ['<', ',', '>'] more := (ends_congr hskip).2 hrest
      refine bind_eq_ok_iff.2 ⟨_, ident_of_skipSpace_eq hcs (endsIdent_of_ends hends), ?_⟩
      dsimp only
      rw [separator?_eq_none hends, hskip]
      simp [written, Token.chars, pure, Except.pure]
  | next name hmark hpath ih =>
      next mark tokens last =>
      obtain ⟨n, rfl⟩ := Nat.exists_eq_add_of_le' hn
      obtain ⟨more, hcs, hmore⟩ := spells_cons_iff.1 hspells
      obtain ⟨after, hskip, hafter⟩ := spells_cons_iff.1 hmore
      -- The separator ends the identifier before it, with or without white space between.
      have hends : EndsIdent more :=
        endsIdent_of_skipSpace (by rw [hskip]; exact endsIdent_separator hmark after)
      have htail := ih (n := n + tokens.length + 1) hafter (by omega)
      refine bind_eq_ok_iff.2 ⟨_, ident_of_skipSpace_eq hcs hends, ?_⟩
      dsimp only
      rw [hskip, separator?_append hmark]
      refine bind_eq_ok_iff.2 ⟨_, htail, ?_⟩
      simp [written, Token.chars, pure, Except.pure]

theorem path_of_isPath (h : IsPath tokens last) (hspells : Spells tokens cs rest)
    (hrest : Ends ['<', ',', '>'] rest) : path cs = .ok (written tokens, skipSpace rest) := by
  have hlength := hspells.length_le
  exact pathWithin_of_isPath h hspells hrest (by omega)

/-- The reading of a phrase at the front of a text, to a depth no less than its tokens. -/
def Reads (tokens : List Token) : Phrase -> Prop
  | .type type => ∀ {cs rest n}, Spells tokens cs rest -> Ends [',', '>'] rest ->
      tokens.length ≤ n ->
      ∃ left, typeWithin n cs = .ok (type, left) ∧ skipSpace left = skipSpace rest
  | .arguments types => ∀ {cs rest n}, Spells tokens cs rest -> Ends ['>'] rest ->
      tokens.length + 1 ≤ n -> argumentsWithin n cs = .ok (types, skipSpace rest)

theorem Reads.named (h : IsPath tokens last) :
    Reads tokens (.type (.named (String.ofList (written tokens)))) := by
  intro cs rest n hspells hrest hn
  have hpos : 0 < n := Nat.lt_of_lt_of_le (List.length_pos_iff.2 h.ne_nil) hn
  obtain ⟨n, rfl⟩ := Nat.exists_eq_add_of_le' hpos
  have hread := path_of_isPath h hspells (hrest.mono (by decide))
  refine ⟨skipSpace rest, bind_eq_ok_iff.2 ⟨_, hread, ?_⟩, skipSpace_skipSpace rest⟩
  dsimp only
  split
  · next inner hinner =>
      have hmark := hrest '<' (by rw [hinner]; rfl)
      exact absurd hmark (by decide)
  · rfl

theorem Reads.wrapped {inner : List Token} {types : List FieldType} {type : FieldType}
    (h : IsPath tokens last) (ih : Reads inner (.arguments types))
    (hwraps : Wraps (String.ofList last.val) types type) :
    Reads (tokens ++ .less :: (inner ++ [.greater])) (.type type) := by
  intro cs rest n hspells hrest hn
  have hpos : 0 < tokens.length := List.length_pos_iff.2 h.ne_nil
  simp only [List.length_append, List.length_cons, List.length_nil] at hn
  obtain ⟨n, rfl⟩ := Nat.exists_eq_add_of_le' (show 1 ≤ n by omega)
  obtain ⟨mid, hfirst, hsecond⟩ := hspells.exists_of_append
  obtain ⟨opened, hmid, hopened⟩ := spells_cons_iff.1 hsecond
  obtain ⟨closing, harguments, hclosing⟩ := hopened.exists_of_append
  obtain ⟨left, hclose, hleft⟩ := spells_cons_iff.1 hclosing
  have hread := path_of_isPath h hfirst (ends_of_skipSpace_eq_cons hmid (by decide))
  have htypes := ih harguments (ends_of_skipSpace_eq_cons hclose (by decide))
    (show inner.length + 1 ≤ n by omega)
  have hwrap : wrap cs (String.ofList (written tokens)) types = .ok type :=
    wrap_eq_ok_iff.2 (h.simple ▸ hwraps)
  refine ⟨left, bind_eq_ok_iff.2 ⟨_, hread, ?_⟩, skipSpace_eq_of_spells_nil hleft⟩
  rw [hmid]
  refine bind_eq_ok_iff.2 ⟨_, htypes, ?_⟩
  rw [hclose]
  exact bind_eq_ok_iff.2 ⟨type, hwrap, rfl⟩

theorem Reads.argument {type : FieldType} (ih : Reads tokens (.type type)) :
    Reads tokens (.arguments [type]) := by
  intro cs rest n hspells hrest hn
  obtain ⟨n, rfl⟩ := Nat.exists_eq_add_of_le' (show 1 ≤ n by omega)
  obtain ⟨left, hread, hleft⟩ :=
    ih hspells (hrest.mono (by decide)) (show _ ≤ n by omega)
  refine bind_eq_ok_iff.2 ⟨_, hread, ?_⟩
  dsimp only
  rw [hleft]
  split
  · next more hmore =>
      have hmark := hrest ',' (by rw [hmore]; rfl)
      exact absurd hmark (by decide)
  · rfl

theorem Reads.arguments {more : List Token} {type : FieldType} {types : List FieldType}
    (ihtype : Reads tokens (.type type)) (iharguments : Reads more (.arguments types)) :
    Reads (tokens ++ .comma :: more) (.arguments (type :: types)) := by
  intro cs rest n hspells hrest hn
  simp only [List.length_append, List.length_cons] at hn
  obtain ⟨n, rfl⟩ := Nat.exists_eq_add_of_le' (show 1 ≤ n by omega)
  obtain ⟨mid, hfirst, hsecond⟩ := hspells.exists_of_append
  obtain ⟨after, hmid, hafter⟩ := spells_cons_iff.1 hsecond
  obtain ⟨left, hread, hleft⟩ :=
    ihtype hfirst (ends_of_skipSpace_eq_cons hmid (by decide)) (show _ ≤ n by omega)
  have hothers := iharguments hafter hrest (show _ ≤ n by omega)
  refine bind_eq_ok_iff.2 ⟨_, hread, ?_⟩
  dsimp only
  rw [hleft, hmid]
  exact bind_eq_ok_iff.2 ⟨_, hothers, rfl⟩

theorem reads_of_derives {phrase : Phrase} (h : Derives tokens phrase) : Reads tokens phrase := by
  induction h with
  | named hpath => exact Reads.named hpath
  | wrapped hpath _ hwraps ih => exact Reads.wrapped hpath ih hwraps
  | argument _ ih => exact Reads.argument ih
  | arguments _ _ ihtype iharguments => exact Reads.arguments ihtype iharguments

theorem parseChars_of_denotes {type : FieldType} (h : Denotes cs type) :
    parseChars cs = .ok type := by
  obtain ⟨tokens, hspells, hderives⟩ := h
  -- The reader has skipped the white space before the first token already.
  obtain ⟨token, others, rfl⟩ := List.exists_cons_of_ne_nil hderives.ne_nil
  obtain ⟨more, hcs, hmore⟩ := spells_cons_iff.1 hspells
  have hstart : Spells (token :: others) (skipSpace cs) [] :=
    spells_cons_iff.2 ⟨more, by rw [skipSpace_skipSpace, hcs], hmore⟩
  have hlength := hstart.length_le
  have hend : Ends [',', '>'] [] := fun c hc => by cases hc
  obtain ⟨left, hread, hleft⟩ := reads_of_derives hderives hstart hend
    (show _ ≤ 2 * (skipSpace cs).length + 2 by omega)
  rw [parseChars]
  split
  · next hnil =>
      rw [hnil] at hcs
      exact absurd (List.append_eq_nil_iff.1 hcs.symm).1 token.chars_ne_nil
  · refine bind_eq_ok_iff.2 ⟨_, hread, ?_⟩
    dsimp only
    rw [hleft]
    rfl

theorem parseChars_eq_ok_iff {type : FieldType} :
    parseChars cs = .ok type ↔ Denotes cs type :=
  ⟨denotes_of_parseChars, parseChars_of_denotes⟩

theorem parse_eq_ok_iff {input : String} {type : FieldType} :
    parse input = .ok type ↔ Denotes input.toList type := by
  rw [← parseChars_eq_ok_iff, parse]
  split
  · next found h => rw [h, Except.ok.injEq, Except.ok.injEq]
  · next fault h => simp [h]

end TypeRef

end InstanceForge

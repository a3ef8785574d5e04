import InstanceForge.Proofs.Schema.TypeRef.Cursor

/-!
# Where a reading fails

A reading fails for a type that begins at the start of the text or where an argument of another
type begins. What was read before it is kept as tokens. The type fails for a reason of its own: an
identifier is missing from its path, its arguments are not closed, or its path does not take them.
-/

namespace InstanceForge

namespace TypeRef

variable {tokens before : List Token} {front cs left rest start : List Char}
  {types : List FieldType} {fault : Fault}

/-! ## Reasons to fail -/

/-- The arguments are not those that the name takes. -/
inductive Misuse (name : String) (types : List FieldType) : FaultKind -> Prop where
  | unsupported : wrapper? name = none -> Misuse name types (.unsupportedGeneric name)
  | arity {w : Wrapper} : wrapper? name = some w -> types.length ≠ w.arity ->
      Misuse name types (.wrongArity name w.arity types.length)

/-- The identifiers of a path that is to go on, a separator after each. -/
inductive PathFront : List Token -> Prop where
  | nil : PathFront []
  | next (name : Ident) {mark : Token} {tokens : List Token} : mark = .pair ∨ mark = .dot ->
      PathFront tokens -> PathFront (.ident name :: mark :: tokens)

/-- A type that begins the text fails for a reason of its own. -/
inductive Misread (cs : List Char) : Fault -> Prop where
  | identifier {front : List Token} {left : List Char} : PathFront front ->
      Spells front cs left -> skipSpace left = left ->
      (∀ c, left.head? = some c -> Name.isIdentStart c = false) ->
      Misread cs ⟨left, .expectedIdent⟩
  | closing {tokens inner : List Token} {last : Ident} {types : List FieldType}
      {left : List Char} : IsPath tokens last -> Derives inner (.arguments types) ->
      Spells (tokens ++ .less :: inner) cs left -> skipSpace left = left ->
      (∀ c, left.head? = some c -> c ≠ ',' ∧ c ≠ '>') -> Misread cs ⟨left, .expected '>'⟩
  | wrapper {tokens inner : List Token} {last : Ident} {types : List FieldType}
      {rest : List Char} {kind : FaultKind} : IsPath tokens last ->
      Derives inner (.arguments types) ->
      Spells (tokens ++ .less :: (inner ++ [.greater])) cs rest ->
      Misuse (String.ofList (written tokens)) types kind -> Misread cs ⟨cs, kind⟩

/-- What is read: a type, or one or more types with commas between them. -/
inductive Form where
  | type
  | arguments

/-- In a text that is read for a form, a type begins after some tokens. -/
inductive Begins : Form -> List Char -> List Token -> List Char -> Prop where
  | here (cs : List Char) : Begins .type cs [] cs
  | inside {tokens before : List Token} {last : Ident} {cs inner start : List Char} :
      IsPath tokens last -> Spells tokens cs ('<' :: inner) ->
      Begins .arguments inner before start -> Begins .type cs (tokens ++ .less :: before) start
  | first {before : List Token} {cs start : List Char} : Begins .type cs before start ->
      Begins .arguments cs before start
  | later {tokens before : List Token} {type : FieldType} {cs more start : List Char} :
      Derives tokens (.type type) -> Spells tokens cs (',' :: more) ->
      Begins .arguments more before start ->
      Begins .arguments cs (tokens ++ .comma :: before) start

inductive Rejects (cs : List Char) : Fault -> Prop where
  | blank : Blank cs -> Rejects cs ⟨[], .empty⟩
  | misread {before : List Token} {start : List Char} {fault : Fault} :
      Begins .type (skipSpace cs) before start -> Misread start fault -> Rejects cs fault
  | trailing {tokens : List Token} {type : FieldType} {left : List Char} :
      Derives tokens (.type type) -> Spells tokens cs left -> left ≠ [] ->
      Rejects cs ⟨left, .trailingInput⟩

/-! ## Failing readings -/

theorem wrap_eq_error {name : String} (h : wrap start name types = .error fault) :
    fault.left = start ∧ Misuse name types fault.kind := by
  rw [wrap] at h
  split at h
  · next hnone =>
      cases h
      exact ⟨rfl, .unsupported hnone⟩
  · next w hw =>
      split at h
      · cases h
      · cases h
      · cases h
      · next hoptional hsequence hmap =>
          cases h
          refine ⟨rfl, .arity hw fun harity => ?_⟩
          cases w with
          | optional =>
              obtain ⟨inner, rfl⟩ := List.length_eq_one_iff.1 harity
              exact hoptional inner rfl rfl
          | sequence =>
              obtain ⟨inner, rfl⟩ := List.length_eq_one_iff.1 harity
              exact hsequence inner rfl rfl
          | map =>
              obtain ⟨key, value, rfl⟩ := List.length_eq_two.1 harity
              exact hmap key value rfl rfl

theorem ident_eq_error (h : ident cs = .error fault) :
    fault = ⟨skipSpace cs, .expectedIdent⟩ ∧
      ∀ c, (skipSpace cs).head? = some c -> Name.isIdentStart c = false := by
  rw [ident] at h
  split at h
  · next hcs =>
      cases h
      rw [hcs]
      exact ⟨rfl, fun c hc => by cases hc⟩
  · next c rest hcs =>
      split at h
      · cases h
      · next hstart =>
          cases h
          rw [hcs]
          refine ⟨rfl, fun d hd => ?_⟩
          cases hd
          simpa using hstart

/-- A path fails where an identifier is to come next. -/
theorem pathWithin_eq_error {n : Nat} (h : pathWithin n cs = .error fault) (hn : cs.length < n) :
    ∃ front, PathFront front ∧ Spells front cs fault.left ∧ fault.kind = .expectedIdent ∧
      skipSpace fault.left = fault.left ∧
      ∀ c, fault.left.head? = some c -> Name.isIdentStart c = false := by
  induction n generalizing cs with
  | zero => omega
  | succ n ih =>
      rcases bind_eq_error_iff.1 h with hident | ⟨⟨name, more⟩, hident, h⟩
      · obtain ⟨rfl, hstart⟩ := ident_eq_error hident
        exact ⟨[], .nil, spells_skipSpace cs, rfl, skipSpace_skipSpace cs, hstart⟩
      · obtain ⟨hname, hspells⟩ := spells_of_ident hident
        dsimp only at h
        split at h
        · next mark after hmark =>
            obtain ⟨token, hseparator, rfl, hmore⟩ := exists_of_separator? hmark
            rw [hmore] at hspells
            have hsecond : Spells [token] (token.chars ++ after) after :=
              spells_cons_iff.2 ⟨after, skipSpace_chars_append token after, .nil Blank.nil⟩
            have hboth := hspells.append hsecond
            have hlength := hboth.length_le
            simp only [List.length_append, List.length_cons, List.length_nil] at hlength
            rcases bind_eq_error_iff.1 h with htail | ⟨_, _, h⟩
            · obtain ⟨front, hfront, hrest, hfault⟩ := ih htail (by omega)
              exact ⟨_, .next ⟨name, hname⟩ hseparator hfront, hboth.append hrest, hfault⟩
            · cases h
        · cases h

theorem misread_of_path (h : path cs = .error fault) : Misread cs fault := by
  obtain ⟨left, kind⟩ := fault
  obtain ⟨front, hfront, hspells, rfl, hskip, hstart⟩ :=
    pathWithin_eq_error h (Nat.lt_succ_self _)
  exact .identifier hfront hspells hskip hstart

/-- Arguments are read for as long as a comma follows. -/
theorem head?_ne_comma_of_argumentsWithin {n : Nat}
    (h : argumentsWithin n cs = .ok (types, left)) : left.head? ≠ some ',' := by
  induction n generalizing cs types with
  | zero => cases h
  | succ n ih =>
      obtain ⟨⟨type, more⟩, _, h⟩ := bind_eq_ok_iff.1 h
      dsimp only at h
      split at h
      · obtain ⟨⟨others, after⟩, hothers, h⟩ := bind_eq_ok_iff.1 h
        cases h
        exact ih hothers
      · next hne =>
          cases h
          intro hhead
          obtain ⟨after, hafter⟩ := List.head?_eq_some_iff.1 hhead
          exact hne after hafter

/-- What fails as a type fails for a type that begins in it. -/
def TypeFails (n : Nat) : Prop :=
  ∀ {cs fault}, 2 * cs.length + 2 ≤ n -> typeWithin n cs = .error fault ->
    ∃ before start, Begins .type cs before start ∧ Misread start fault

def ArgumentsFail (n : Nat) : Prop :=
  ∀ {cs fault}, 2 * cs.length + 3 ≤ n -> argumentsWithin n cs = .error fault ->
    ∃ before start, Begins .arguments cs before start ∧ Misread start fault

theorem typeFails_succ {n : Nat} (iharguments : ArgumentsFail n) : TypeFails (n + 1) := by
  intro cs fault hn h
  rcases bind_eq_error_iff.1 h with hpath | ⟨⟨name, rest⟩, hpath, h⟩
  · exact ⟨[], cs, .here cs, misread_of_path hpath⟩
  obtain ⟨tokens, last, htokens, rfl, hspells⟩ := isPath_of_pathWithin hpath
  dsimp only at h
  split at h
  · next inner =>
      have hlength := hspells.length_le
      have hpos := List.length_pos_iff.2 htokens.ne_nil
      rw [List.length_cons] at hlength
      rcases bind_eq_error_iff.1 h with harguments | ⟨⟨types, left⟩, harguments, h⟩
      · obtain ⟨before, start, hbegins, hmisread⟩ := iharguments (by omega) harguments
        exact ⟨_, start, .inside htokens hspells hbegins, hmisread⟩
      obtain ⟨arguments, hderives, hinner⟩ := (sound_within n).2 harguments
      dsimp only at h
      split at h
      · next more =>
          rcases bind_eq_error_iff.1 h with hwrap | ⟨_, _, h⟩
          · obtain ⟨left, kind⟩ := fault
            obtain ⟨rfl, hmisuse⟩ := wrap_eq_error hwrap
            have hall := hspells.append (spells_brackets hinner)
            exact ⟨[], left, .here left, .wrapper htokens hderives hall hmisuse⟩
          · cases h
      · next hne =>
          cases h
          have hopen : Spells (.less :: arguments) ('<' :: inner) left :=
            spells_cons_iff.2 ⟨inner, skipSpace_cons (by decide) inner, hinner⟩
          refine ⟨[], cs, .here cs, .closing htokens hderives (hspells.append hopen)
            (Cursor.skipSpace_of_argumentsWithin harguments) fun c hc => ⟨?_, ?_⟩⟩
          · rintro rfl
            exact head?_ne_comma_of_argumentsWithin harguments hc
          · rintro rfl
            obtain ⟨more, rfl⟩ := List.head?_eq_some_iff.1 hc
            exact hne more rfl
  · cases h

theorem argumentsFail_succ {n : Nat} (ihtype : TypeFails n) (iharguments : ArgumentsFail n) :
    ArgumentsFail (n + 1) := by
  intro cs fault hn h
  rcases bind_eq_error_iff.1 h with htype | ⟨⟨type, rest⟩, htype, h⟩
  · obtain ⟨before, start, hbegins, hmisread⟩ := ihtype (by omega) htype
    exact ⟨before, start, .first hbegins, hmisread⟩
  obtain ⟨tokens, hderives, hspells⟩ := (sound_within n).1 htype
  dsimp only at h
  split at h
  · next more hmore =>
      rw [hmore] at hspells
      have hlength := hspells.length_le
      rw [List.length_cons] at hlength
      rcases bind_eq_error_iff.1 h with harguments | ⟨_, _, h⟩
      · obtain ⟨before, start, hbegins, hmisread⟩ := iharguments (by omega) harguments
        exact ⟨_, start, .later hderives hspells hbegins, hmisread⟩
      · cases h
  · cases h

theorem fails_within (n : Nat) : TypeFails n ∧ ArgumentsFail n := by
  induction n with
  | zero =>
      constructor
      · intro cs fault hn
        omega
      · intro cs fault hn
        omega
  | succ n ih => exact ⟨typeFails_succ ih.2, argumentsFail_succ ih.1 ih.2⟩

theorem blank_of_skipSpace_eq_nil (h : skipSpace cs = []) : Blank cs := by
  have hcs := takeWhile_append_skipSpace cs
  rw [h, List.append_nil] at hcs
  exact hcs ▸ blank_takeWhile cs

theorem rejects_of_parseChars (h : parseChars cs = .error fault) : Rejects cs fault := by
  rw [parseChars] at h
  split at h
  · next hnil =>
      cases h
      exact .blank (blank_of_skipSpace_eq_nil hnil)
  · rcases bind_eq_error_iff.1 h with htype | ⟨⟨type, rest⟩, htype, h⟩
    · obtain ⟨before, start, hbegins, hmisread⟩ := (fails_within _).1 (Nat.le_refl _) htype
      exact .misread hbegins hmisread
    · obtain ⟨tokens, hderives, hspells⟩ := (sound_within _).1 htype
      dsimp only at h
      split at h
      · cases h
      · next hne =>
          cases h
          exact .trailing hderives hspells.of_skipSpace hne

/-! ## Fronts -/

/-- Tokens stand in a front of the text, whatever follows them. -/
theorem Spells.exists_front (h : Spells tokens cs rest) :
    ∃ front, cs = front ++ rest ∧ ∀ other, Spells tokens (front ++ other) other := by
  induction h with
  | @nil space rest hspace => exact ⟨space, rfl, fun _ => .nil hspace⟩
  | @cons space more rest token tokens hspace _ ih =>
      obtain ⟨front, rfl, hfront⟩ := ih
      refine ⟨space ++ (token.chars ++ front), by simp, fun other => ?_⟩
      have hspells : Spells (token :: tokens) (space ++ (token.chars ++ (front ++ other))) other :=
        .cons hspace (hfront other)
      simpa using hspells

/-- A text is split before a type: the tokens are in its front, and a mark before an argument
ends the front if it is not empty. -/
structure Fronts (front cs : List Char) (before : List Token) (start : List Char) : Prop where
  eq : cs = front ++ start
  spells : ∀ other, Spells before (front ++ other) other
  marked : ∀ c, front.getLast? = some c -> c = '<' ∨ c = ','

theorem Fronts.after {mark : Token} {c : Char} {more : List Char} (hmark : mark.chars = [c])
    (hc : c = '<' ∨ c = ',') (hspells : Spells tokens cs (c :: more))
    (h : Fronts front more before start) :
    ∃ longer, Fronts longer cs (tokens ++ mark :: before) start := by
  obtain ⟨opening, rfl, hopening⟩ := hspells.exists_front
  refine ⟨opening ++ c :: front, ⟨by rw [h.eq]; simp, fun other => ?_, fun d hd => ?_⟩⟩
  · have hrest : Spells (mark :: before) (mark.chars ++ (front ++ other)) other :=
      .cons Blank.nil (h.spells other)
    rw [hmark] at hrest
    simpa using (hopening _).append hrest
  · rw [List.getLast?_append, List.getLast?_cons] at hd
    cases hlast : front.getLast? with
    | none =>
        rw [hlast] at hd
        cases hd
        exact hc
    | some e =>
        rw [hlast] at hd
        cases hd
        exact h.marked e hlast

theorem Begins.exists_fronts {form : Form} (h : Begins form cs before start) :
    ∃ front, Fronts front cs before start := by
  induction h with
  | here cs => exact ⟨[], rfl, fun _ => .nil Blank.nil, fun c hc => by cases hc⟩
  | inside _ hspells _ ih =>
      obtain ⟨front, hfront⟩ := ih
      exact hfront.after rfl (.inl rfl) hspells
  | first _ ih => exact ih
  | later _ hspells _ ih =>
      obtain ⟨front, hfront⟩ := ih
      exact hfront.after rfl (.inr rfl) hspells

/-! ## Offsets -/

theorem utf8ByteSize_ofList (cs : List Char) :
    (String.ofList cs).utf8ByteSize = byteLength cs := by
  induction cs with
  | nil => rfl
  | cons c rest ih =>
      rw [← List.singleton_append, String.ofList_append, String.utf8ByteSize_append, ih,
        ← String.singleton_eq_ofList, String.utf8ByteSize_singleton]
      rfl

/-- The fault is at the byte offset where the text goes on as was left. -/
theorem rejects_of_parse {input : String} {e : ParseError} (h : parse input = .error e) :
    e.input = input ∧ ∃ left, Rejects input.toList ⟨left, e.kind⟩ ∧
      ∀ front, input.toList = front ++ left -> e.offset = byteLength front := by
  rw [parse] at h
  split at h
  · cases h
  · next fault hfault =>
      cases h
      refine ⟨rfl, fault.left, rejects_of_parseChars hfault, fun front hfront => ?_⟩
      exact Cursor.At.sub_byteLength ⟨front, hfront.symm, rfl⟩

end TypeRef

end InstanceForge

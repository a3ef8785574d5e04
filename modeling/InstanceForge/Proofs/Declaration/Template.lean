import InstanceForge.Declaration.Template
import Mathlib.Data.List.Infix
import Mathlib.Data.String.Basic

/-!
# Templates and their pieces

A template is filled in exactly if it is written piece by piece. Otherwise it has a first fault,
right behind the longest beginning that is written so, and that is its error, whatever it was to
be filled in for.
-/

namespace InstanceForge

namespace Template

variable {piece other : Piece} {pieces : List Piece} {cs front rest : List Char}
  {e : DerivationError} {offset : Nat}

/-! ## Pieces -/

def Plain (cs : List Char) : Prop :=
  '{' ∉ cs ∧ '}' ∉ cs

inductive Spelled : Piece -> List Char -> Prop where
  | char {c : Char} : c ≠ '{' -> c ≠ '}' -> Spelled (.char c) [c]
  | opening : Spelled (.char '{') ['{', '{']
  | closing : Spelled (.char '}') ['}', '}']
  | placeholder {name : List Char} {p : Placeholder} : Plain name ->
      (String.ofList (Text.trimChars name), p) ∈ Placeholder.byName ->
      Spelled (.placeholder p) ('{' :: (name ++ ['}']))

inductive Written : List Piece -> List Char -> Prop where
  | nil : Written [] []
  | cons {piece : Piece} {pieces : List Piece} {front rest : List Char} :
      Spelled piece front -> Written pieces rest -> Written (piece :: pieces) (front ++ rest)

/-- What is wrong with characters from an offset on that begin with a brace, but with no piece. -/
inductive Stray (offset : Nat) : List Char -> DerivationError -> Prop where
  | closing {rest : List Char} : rest.head? ≠ some '}' ->
      Stray offset ('}' :: rest) (.unbalancedBrace '}' offset)
  | unclosed {name : List Char} : Plain name ->
      Stray offset ('{' :: name) (.unbalancedBrace '{' offset)
  | reopened {name rest : List Char} : Plain name -> name ≠ [] ->
      Stray offset ('{' :: (name ++ '{' :: rest)) (.unbalancedBrace '{' offset)
  | unknown {name rest : List Char} : Plain name ->
      (∀ p, (String.ofList (Text.trimChars name), p) ∉ Placeholder.byName) ->
      Stray offset ('{' :: (name ++ '}' :: rest)) (.unknownPlaceholder (String.ofList name))

/-- The fault right behind the longest beginning that is written piece by piece. -/
def Leftmost (cs : List Char) (e : DerivationError) : Prop :=
  ∃ front back, cs = front ++ back ∧ (∃ pieces, Written pieces front) ∧
    (∀ pieces longer, Written pieces longer -> longer <+: cs -> longer <+: front) ∧
    Stray (String.ofList front).utf8ByteSize back e

theorem Spelled.ne_nil (h : Spelled piece front) : front ≠ [] := by
  cases h <;> simp

theorem plain_nil : Plain [] := by
  simp [Plain]

theorem plain_cons {c : Char} : Plain (c :: cs) ↔ (c ≠ '{' ∧ c ≠ '}') ∧ Plain cs := by
  simp only [Plain, List.mem_cons, not_or, ne_eq, eq_comm (a := '{'), eq_comm (a := '}')]
  tauto

/-- Characters are plain up to a first brace, or to their end. -/
theorem plain_cases (cs : List Char) :
    Plain cs ∨ ∃ name brace rest, cs = name ++ brace :: rest ∧ Plain name ∧
      (brace = '{' ∨ brace = '}') := by
  induction cs with
  | nil => exact .inl plain_nil
  | cons c rest ih =>
      by_cases hc : c = '{' ∨ c = '}'
      · exact .inr ⟨[], c, rest, rfl, plain_nil, hc⟩
      · rw [not_or] at hc
        rcases ih with hplain | ⟨name, brace, more, rfl, hplain, hbrace⟩
        · exact .inl (plain_cons.2 ⟨hc, hplain⟩)
        · exact .inr ⟨c :: name, brace, more, rfl, plain_cons.2 ⟨hc, hplain⟩, hbrace⟩

/-- What follows plain characters up to a brace is determined by the whole. -/
theorem plain_append_unique {name name' : List Char} {brace brace' : Char}
    {rest' : List Char} (hname : Plain name) (hname' : Plain name')
    (hbrace : brace = '{' ∨ brace = '}') (hbrace' : brace' = '{' ∨ brace' = '}')
    (h : name ++ brace :: rest = name' ++ brace' :: rest') :
    name = name' ∧ brace = brace' ∧ rest = rest' := by
  induction name generalizing name' with
  | nil =>
      cases name' with
      | nil => simpa using h
      | cons c more =>
          rw [List.nil_append, List.cons_append, List.cons.injEq] at h
          have hc := (plain_cons.1 hname').1
          rcases hbrace with rfl | rfl <;> simp [← h.1] at hc
  | cons c more ih =>
      cases name' with
      | nil =>
          rw [List.nil_append, List.cons_append, List.cons.injEq] at h
          have hc := (plain_cons.1 hname).1
          rcases hbrace' with rfl | rfl <;> simp [h.1] at hc
      | cons c' more' =>
          rw [List.cons_append, List.cons_append, List.cons.injEq] at h
          obtain ⟨hmore, hrest⟩ := ih (plain_cons.1 hname).2 (plain_cons.1 hname').2 h.2
          exact ⟨by rw [h.1, hmore], hrest⟩

/-- Characters begin with a piece or are stray, unless there are none. -/
theorem begins_cases (offset : Nat) (cs : List Char) :
    cs = [] ∨ (∃ piece front rest, Spelled piece front ∧ cs = front ++ rest) ∨
      ∃ e, Stray offset cs e := by
  match cs with
  | [] => exact .inl rfl
  | c :: rest =>
      by_cases hopen : c = '{'
      · subst hopen
        rcases plain_cases rest with hplain | ⟨name, brace, more, rfl, hplain, rfl | rfl⟩
        · exact .inr (.inr ⟨_, .unclosed hplain⟩)
        · by_cases hname : name = []
          · subst hname
            exact .inr (.inl ⟨_, _, more, .opening, rfl⟩)
          · exact .inr (.inr ⟨_, .reopened hplain hname⟩)
        · by_cases hknown : ∃ p, (String.ofList (Text.trimChars name), p) ∈ Placeholder.byName
          · obtain ⟨p, hp⟩ := hknown
            exact .inr (.inl ⟨_, _, more, .placeholder hplain hp, by simp⟩)
          · exact .inr (.inr ⟨_, .unknown hplain (not_exists.1 hknown)⟩)
      · by_cases hclose : c = '}'
        · subst hclose
          by_cases hhead : rest.head? = some '}'
          · obtain ⟨more, rfl⟩ := List.head?_eq_some_iff.1 hhead
            exact .inr (.inl ⟨_, _, more, .closing, rfl⟩)
          · exact .inr (.inr ⟨_, .closing hhead⟩)
        · exact .inr (.inl ⟨_, _, rest, .char hopen hclose, rfl⟩)

/-- Where a piece begins, it ends in one place. -/
theorem Spelled.front_unique {front' rest' : List Char} (h : Spelled piece front)
    (h' : Spelled other front') (heq : front ++ rest = front' ++ rest') : front = front' := by
  cases h with
  | char hopen hclose =>
      cases h' <;> simp_all
  | opening =>
      cases h' with
      | char hopen hclose => simp [← (List.cons.inj heq).1] at hopen
      | opening => rfl
      | closing => simp at heq
      | @placeholder name p hname hp =>
          have hbraces : [] ++ '{' :: rest = name ++ '}' :: rest' := by simpa using heq
          simpa using (plain_append_unique plain_nil hname (.inl rfl) (.inr rfl) hbraces).2.1
  | closing =>
      cases h' with
      | char hopen hclose => simp [← (List.cons.inj heq).1] at hclose
      | closing => rfl
      | opening => simp at heq
      | placeholder => simp at heq
  | @placeholder name p hname hp =>
      cases h' with
      | char hopen hclose => simp [← (List.cons.inj heq).1] at hopen
      | opening =>
          have hbraces : name ++ '}' :: rest = [] ++ '{' :: rest' := by simpa using heq
          simpa using (plain_append_unique hname plain_nil (.inr rfl) (.inl rfl) hbraces).2.1
      | closing => simp at heq
      | @placeholder name' p' hname' hp' =>
          have hbraces : name ++ '}' :: rest = name' ++ '}' :: rest' := by simpa using heq
          rw [(plain_append_unique hname hname' (.inr rfl) (.inr rfl) hbraces).1]

/-- No piece begins where characters are stray. -/
theorem Stray.not_spelled (h : Stray offset (front ++ rest) e) : ¬ Spelled piece front := by
  intro hspelled
  generalize hcs : front ++ rest = cs at h
  cases hspelled with
  | char hopen hclose => cases h <;> simp_all
  | opening =>
      cases h with
      | closing => simp at hcs
      | @unclosed name hname =>
          have hbrace : '{' :: rest = name := by simpa using hcs
          exact hname.1 (by simp [← hbrace])
      | @reopened name more hname hne =>
          have hbraces : [] ++ '{' :: rest = name ++ '{' :: more := by simpa using hcs
          exact hne (plain_append_unique plain_nil hname (.inl rfl) (.inl rfl) hbraces).1.symm
      | @unknown name more hname =>
          have hbraces : [] ++ '{' :: rest = name ++ '}' :: more := by simpa using hcs
          simpa using (plain_append_unique plain_nil hname (.inl rfl) (.inr rfl) hbraces).2.1
  | closing =>
      cases h with
      | @closing more hhead =>
          have hmore : '}' :: rest = more := by simpa using hcs
          exact hhead (by simp [← hmore])
      | unclosed => simp at hcs
      | reopened => simp at hcs
      | unknown => simp at hcs
  | @placeholder name p hname hp =>
      cases h with
      | closing => simp at hcs
      | @unclosed name' hname' =>
          have hbrace : name ++ '}' :: rest = name' := by simpa using hcs
          exact hname'.2 (by simp [← hbrace])
      | @reopened name' more hname' =>
          have hbraces : name ++ '}' :: rest = name' ++ '{' :: more := by simpa using hcs
          simpa using (plain_append_unique hname hname' (.inr rfl) (.inl rfl) hbraces).2.1
      | @unknown name' more hname' hunknown =>
          have hbraces : name ++ '}' :: rest = name' ++ '}' :: more := by simpa using hcs
          have hsame := (plain_append_unique hname hname' (.inr rfl) (.inr rfl) hbraces).1
          exact hunknown p (hsame ▸ hp)

/-- What is written piece by piece ends before stray characters. -/
theorem Written.prefix_of_stray {longer back : List Char} {more : List Piece}
    (h : Written pieces front) (hmore : Written more longer) (hstray : Stray offset back e)
    (hlonger : longer <+: front ++ back) : longer <+: front := by
  induction hmore generalizing pieces front with
  | nil => exact List.nil_prefix
  | @cons piece rest start tail hpiece _ ih =>
      obtain ⟨after, hafter⟩ := hlonger
      rw [List.append_assoc] at hafter
      cases h with
      | nil =>
          rw [List.nil_append] at hafter
          exact absurd hpiece (Stray.not_spelled (hafter ▸ hstray))
      | @cons other others start' tail' hother hothers =>
          rw [List.append_assoc] at hafter
          obtain rfl := hpiece.front_unique hother hafter
          rw [List.append_cancel_left_eq] at hafter
          exact (List.prefix_append_right_inj start).2 (ih hothers ⟨after, hafter⟩)

/-- Pieces go on to the end, or up to stray characters. -/
theorem exists_split (offset : Nat) (cs : List Char) :
    ∃ pieces front back, cs = front ++ back ∧ Written pieces front ∧
      (back = [] ∨ ∃ e, Stray (offset + (String.ofList front).utf8ByteSize) back e) := by
  induction hlength : cs.length using Nat.strong_induction_on generalizing offset cs with
  | h n ih =>
      subst hlength
      rcases begins_cases offset cs with rfl | ⟨piece, start, rest, hpiece, rfl⟩ | ⟨e, hstray⟩
      · exact ⟨[], [], [], rfl, .nil, .inl rfl⟩
      · have hlt : rest.length < (start ++ rest).length := by
          have := List.length_pos_of_ne_nil hpiece.ne_nil
          rw [List.length_append]
          omega
        obtain ⟨pieces, front, back, rfl, hwritten, hback⟩ :=
          ih _ hlt (offset + (String.ofList start).utf8ByteSize) rest rfl
        refine ⟨piece :: pieces, start ++ front, back, by simp, .cons hpiece hwritten, ?_⟩
        rw [String.ofList_append, String.utf8ByteSize_append, ← Nat.add_assoc]
        exact hback
      · exact ⟨[], [], cs, rfl, .nil, .inr ⟨e, by simpa using hstray⟩⟩

/-- A template is written piece by piece, or it has a leftmost fault. -/
theorem written_or_leftmost (cs : List Char) :
    (∃ pieces, Written pieces cs) ∨ ∃ e, Leftmost cs e := by
  obtain ⟨pieces, front, back, rfl, hwritten, hback⟩ := exists_split 0 cs
  rcases hback with rfl | ⟨e, hstray⟩
  · exact .inl ⟨pieces, by simpa using hwritten⟩
  · rw [Nat.zero_add] at hstray
    refine .inr ⟨e, front, back, rfl, ⟨pieces, hwritten⟩, ?_, hstray⟩
    intro more longer hmore hlonger
    exact hwritten.prefix_of_stray hmore hstray hlonger

/-- A brace that is at fault is the first of the stray characters. -/
theorem Stray.exists_brace {brace : Char} {place : Nat}
    (h : Stray offset cs (.unbalancedBrace brace place)) :
    place = offset ∧ ∃ rest, cs = brace :: rest := by
  cases h with
  | closing => exact ⟨rfl, _, rfl⟩
  | unclosed => exact ⟨rfl, _, rfl⟩
  | reopened => exact ⟨rfl, _, rfl⟩

/-! ## Reading -/

theorem lookup_byName_eq_some_iff {name : String} {p : Placeholder} :
    Placeholder.byName.lookup name = some p ↔ (name, p) ∈ Placeholder.byName := by
  constructor
  · intro h
    obtain ⟨before, after, hentries, -⟩ := List.lookup_eq_some_iff.1 h
    simp [hentries]
  · intro h
    simp only [Placeholder.byName, List.mem_cons, Prod.mk.injEq, List.not_mem_nil, or_false] at h
    rcases h with ⟨rfl, rfl⟩ | ⟨rfl, rfl⟩ | ⟨rfl, rfl⟩ | ⟨rfl, rfl⟩ | ⟨rfl, rfl⟩ | ⟨rfl, rfl⟩ <;>
      decide

/-- Inside a placeholder plain characters are taken into its name. -/
theorem piecesFrom_plain {name : List Char} (h : Plain name) (start : Nat) (known : List Char)
    (offset : Nat) (rest : List Char) :
    piecesFrom (some ⟨start, known⟩) offset (name ++ rest) =
      piecesFrom (some ⟨start, known ++ name⟩)
        (offset + (String.ofList name).utf8ByteSize) rest := by
  induction name generalizing known offset with
  | nil => simp
  | cons c more ih =>
      obtain ⟨⟨hopen, hclose⟩, hmore⟩ := plain_cons.1 h
      rw [List.cons_append, piecesFrom, if_neg hclose, if_neg hopen, ih hmore, String.ofList_cons,
        String.utf8ByteSize_append, String.utf8ByteSize_singleton]
      simp [Nat.add_assoc]

theorem piecesFrom_open {name : List Char} (h : Plain name) (offset : Nat) (rest : List Char)
    (hrest : name = [] -> rest.head? ≠ some '{') :
    piecesFrom none offset ('{' :: (name ++ rest)) =
      piecesFrom (some ⟨offset, name⟩)
        (offset + 1 + (String.ofList name).utf8ByteSize) rest := by
  rw [piecesFrom]
  · simpa using piecesFrom_plain h offset [] (offset + 1) rest
  · -- a second brace would belong to the rest, or to the name, which has none
    intro more _ hmore
    cases name with
    | nil =>
        rw [List.nil_append] at hmore
        exact hrest rfl (by simp [hmore])
    | cons c tail =>
        rw [List.cons_append, List.cons.injEq] at hmore
        exact (plain_cons.1 h).1.1 hmore.1
  · simp

/-- A placeholder ends with the brace that closes it. -/
theorem piecesFrom_close (start : Nat) (name : List Char) (offset : Nat) (rest : List Char) :
    piecesFrom (some ⟨start, name⟩) offset ('}' :: rest) =
      match placeholder? name with
      | .error e => .error e
      | .ok p => (piecesFrom none (offset + 1) rest).map (.placeholder p :: ·) := by
  rw [piecesFrom, if_pos rfl]
  cases placeholder? name with
  | error e => rfl
  | ok p => cases piecesFrom none (offset + 1) rest <;> rfl

theorem piecesFrom_spelled (h : Spelled piece front) (offset : Nat) (rest : List Char) :
    piecesFrom none offset (front ++ rest) =
      (piecesFrom none (offset + (String.ofList front).utf8ByteSize) rest).map (piece :: ·) := by
  cases h with
  | @char c hopen hclose =>
      have hsize : (String.ofList [c]).utf8ByteSize = c.utf8Size := by simp
      rw [hsize, List.singleton_append, piecesFrom, if_neg hopen, if_neg hclose]
      · cases piecesFrom none (offset + c.utf8Size) rest <;> rfl
      · exact fun _ hbrace _ => hopen hbrace
      · exact fun _ hbrace _ => hclose hbrace
  | opening =>
      show piecesFrom none offset ('{' :: '{' :: rest) = (piecesFrom none (offset + 2) rest).map _
      rw [piecesFrom]
      cases piecesFrom none (offset + 2) rest <;> rfl
  | closing =>
      show piecesFrom none offset ('}' :: '}' :: rest) = (piecesFrom none (offset + 2) rest).map _
      rw [piecesFrom]
      cases piecesFrom none (offset + 2) rest <;> rfl
  | @placeholder name p hname hp =>
      have hknown : placeholder? name = .ok p := by
        rw [placeholder?, lookup_byName_eq_some_iff.2 hp]
      have hsize : (String.ofList ('{' :: (name ++ ['}']))).utf8ByteSize =
          1 + (String.ofList name).utf8ByteSize + 1 := by
        have hopen : "\x7b".utf8ByteSize = 1 := rfl
        have hclose : "\x7d".utf8ByteSize = 1 := rfl
        simp [hopen, hclose, Nat.add_assoc]
      rw [hsize, List.cons_append, List.append_assoc, piecesFrom_open hname _ _ (by simp),
        List.singleton_append, piecesFrom_close, hknown]
      simp only [Nat.add_assoc]

theorem piecesFrom_stray (h : Stray offset cs e) : piecesFrom none offset cs = .error e := by
  cases h with
  | @closing rest hhead =>
      rw [piecesFrom, if_neg (by decide), if_pos rfl]
      · simp
      · intro more _ hmore
        exact hhead (by simp [hmore])
  | @unclosed name hname =>
      have hopen := piecesFrom_open hname offset [] (by simp)
      rw [List.append_nil] at hopen
      rw [hopen, piecesFrom]
  | @reopened name rest hname hne =>
      rw [piecesFrom_open hname offset _ (fun h => absurd h hne), piecesFrom,
        if_neg (by decide), if_pos rfl]
  | @unknown name rest hname hunknown =>
      have hnone : Placeholder.byName.lookup (String.ofList (Text.trimChars name)) = none := by
        rw [Option.eq_none_iff_forall_ne_some]
        intro p hp
        exact hunknown p (lookup_byName_eq_some_iff.1 hp)
      rw [piecesFrom_open hname _ _ (by simp), piecesFrom_close, placeholder?, hnone]

theorem piecesFrom_written (h : Written pieces front) (offset : Nat) (rest : List Char) :
    piecesFrom none offset (front ++ rest) =
      (piecesFrom none (offset + (String.ofList front).utf8ByteSize) rest).map
        (pieces ++ ·) := by
  induction h generalizing offset with
  | nil =>
      have hsize : (String.ofList []).utf8ByteSize = 0 := rfl
      rw [List.nil_append, hsize, Nat.add_zero]
      cases piecesFrom none offset rest <;> rfl
  | @cons piece pieces start tail hpiece _ ih =>
      rw [List.append_assoc, piecesFrom_spelled hpiece, ih, String.ofList_append,
        String.utf8ByteSize_append, ← Nat.add_assoc]
      cases piecesFrom none _ rest <;> rfl

theorem pieces_of_written {template : String} (h : Written pieces template.toList) :
    Template.pieces template = .ok pieces := by
  have hread := piecesFrom_written h 0 []
  rw [List.append_nil, piecesFrom_nil] at hread
  rw [Template.pieces, hread]
  simp [Except.map]

theorem pieces_of_leftmost {template : String} (h : Leftmost template.toList e) :
    Template.pieces template = .error e := by
  obtain ⟨front, back, hsplit, ⟨pieces, hwritten⟩, -, hstray⟩ := h
  rw [Template.pieces, hsplit, piecesFrom_written hwritten, Nat.zero_add,
    piecesFrom_stray hstray]
  rfl

theorem pieces_eq_ok_iff {template : String} :
    Template.pieces template = .ok pieces ↔ Written pieces template.toList := by
  constructor
  · intro h
    rcases written_or_leftmost template.toList with ⟨others, hwritten⟩ | ⟨e, hleftmost⟩
    · rw [pieces_of_written hwritten, Except.ok.injEq] at h
      exact h ▸ hwritten
    · rw [pieces_of_leftmost hleftmost] at h
      cases h
  · exact pieces_of_written

theorem pieces_eq_error_iff {template : String} :
    Template.pieces template = .error e ↔ Leftmost template.toList e := by
  constructor
  · intro h
    rcases written_or_leftmost template.toList with ⟨others, hwritten⟩ | ⟨fault, hleftmost⟩
    · rw [pieces_of_written hwritten] at h
      cases h
    · rw [pieces_of_leftmost hleftmost, Except.error.injEq] at h
      exact h ▸ hleftmost
  · exact pieces_of_leftmost

/-! ## Doubled braces -/

def doubled (cs : List Char) : List Char :=
  cs.flatMap fun c => if c = '{' ∨ c = '}' then [c, c] else [c]

theorem written_doubled (cs : List Char) : Written (cs.map .char) (doubled cs) := by
  induction cs with
  | nil => exact .nil
  | cons c rest ih =>
      rw [doubled, List.flatMap_cons]
      refine .cons ?_ ih
      by_cases hopen : c = '{'
      · rw [if_pos (.inl hopen), hopen]
        exact .opening
      · by_cases hclose : c = '}'
        · rw [if_pos (.inr hclose), hclose]
          exact .closing
        · rw [if_neg (by simp [hopen, hclose])]
          exact .char hopen hclose

theorem join_fill_char (cs : List Char) (node : TypeNode) (capability : String) :
    String.join ((cs.map Piece.char).map (Piece.fill node capability)) = String.ofList cs := by
  induction cs with
  | nil => rfl
  | cons c rest ih =>
      rw [List.map_cons, List.map_cons, String.join_cons, ih, String.ofList_cons, Piece.fill]

end Template

open Template

theorem Engine.ofTemplate_derive (template : String) (node : TypeNode) (capability : String) :
    (ofTemplate template).derive node capability = fill template node capability := rfl

/--
A template is filled in, each piece in its place, exactly if it is written piece by piece. It
fails exactly with its leftmost fault, which only the template decides, and where the fault is a
brace, that brace is at the offset. A text whose braces are doubled is filled in as the text.
-/
theorem Engine.derive_ofTemplate (template : String) :
    (∀ node capability text, (ofTemplate template).derive node capability = .ok text ↔
      ∃ pieces, Written pieces template.toList ∧
        text = String.join (pieces.map (Piece.fill node capability))) ∧
    (∀ node capability e, (ofTemplate template).derive node capability = .error e ↔
      Leftmost template.toList e) ∧
    (∀ brace offset, Leftmost template.toList (.unbalancedBrace brace offset) ->
      ∃ front rest, template = front ++ String.singleton brace ++ rest ∧
        front.utf8ByteSize = offset) ∧
    ∀ node capability,
      (ofTemplate (String.ofList (doubled template.toList))).derive node capability =
        .ok template := by
  refine ⟨fun node capability text => ?_, fun node capability e => ?_, ?_, ?_⟩
  · simp only [ofTemplate_derive, ← pieces_eq_ok_iff, fill]
    cases pieces template <;> simp [eq_comm]
  · rw [ofTemplate_derive, ← pieces_eq_error_iff, fill]
    cases pieces template <;> simp
  · rintro brace offset ⟨front, back, hsplit, -, -, hstray⟩
    obtain ⟨rfl, rest, rfl⟩ := hstray.exists_brace
    refine ⟨String.ofList front, String.ofList rest, ?_, rfl⟩
    rw [String.ext_iff]
    simpa using hsplit
  · intro node capability
    have hwritten := written_doubled template.toList
    rw [← String.toList_ofList (l := doubled template.toList)] at hwritten
    rw [ofTemplate_derive, fill, pieces_of_written hwritten]
    dsimp only
    rw [join_fill_char, String.ofList_toList]

/-- A placeholder between braces that stand for themselves, and a name that is opened twice after
a character of two bytes. -/
theorem Engine.derive_ofTemplate_nested :
    (ofTemplate "\x7b\x7b\x7b type \x7d\x7d\x7d").derive (.ofType "a.B") "Show" =
      .ok "\x7ba::B\x7d" ∧
    (ofTemplate "é\x7bname \x7b").derive (.ofType "a.B") "Show" = .error (.unbalancedBrace '{' 2) ∧
    (∃ front rest, "é\x7bname \x7b" = front ++ String.singleton '{' ++ rest ∧
      front.utf8ByteSize = 2) ∧
    (ofTemplate (String.ofList (doubled "\x7b type \x7d\x7d".toList))).derive (.ofType "a.B")
      "Show" = .ok "\x7b type \x7d\x7d" := by
  have hfault : (ofTemplate "é\x7bname \x7b").derive (.ofType "a.B") "Show" =
      .error (.unbalancedBrace '{' 2) := by decide +kernel
  obtain ⟨-, hleftmost, hbrace, -⟩ := derive_ofTemplate "é\x7bname \x7b"
  obtain ⟨-, -, -, hdoubled⟩ := derive_ofTemplate "\x7b type \x7d\x7d"
  exact ⟨by decide +kernel, hfault, hbrace '{' 2 ((hleftmost _ _ _).1 hfault), hdoubled _ _⟩

end InstanceForge

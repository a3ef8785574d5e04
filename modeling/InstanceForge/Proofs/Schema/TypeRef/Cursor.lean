import InstanceForge.Proofs.Schema.TypeRef.Reading

/-!
# Reading by byte offsets

A reader of type references that keeps a byte offset into the text and looks at the text only
through slices. Everything that such a reader must not do ends it with an outcome of its own: a
slice off the boundary of a character or past the end, an arm that is held to be impossible, a
bound on the steps that is spent. Lists of characters that are left are the view that the proofs
take of an offset.
-/

namespace InstanceForge

namespace TypeRef

namespace Cursor

/-! ## The reader -/

inductive Stop where
  | fault (offset : Nat) (kind : FaultKind)
  | badSlice
  | unreachable
  | exhausted
  deriving DecidableEq

/-- The characters from a byte offset on, if the offset is on the boundary of a character. -/
def sliceFrom? : List Char -> Nat -> Option (List Char)
  | cs, 0 => some cs
  | [], _ + 1 => none
  | c :: rest, n + 1 =>
      if c.utf8Size ≤ n + 1 then sliceFrom? rest (n + 1 - c.utf8Size) else none

def slice? (cs : List Char) (start stop : Nat) : Option (List Char) := do
  let left <- sliceFrom? cs start
  let after <- sliceFrom? cs stop
  if start ≤ stop then some (left.take (left.length - after.length)) else none

section Reader

variable (src : List Char)

def sliceFrom (pos : Nat) : Except Stop (List Char) :=
  match sliceFrom? src pos with
  | some left => .ok left
  | none => .error .badSlice

def slice (start stop : Nat) : Except Stop (List Char) :=
  match slice? src start stop with
  | some part => .ok part
  | none => .error .badSlice

def peek (pos : Nat) : Except Stop (Option Char) := do
  let left <- sliceFrom src pos
  pure left.head?

/-- Moves over characters with a property, by a number of bytes for each of them. -/
def skipWhile (p : Char -> Bool) (width : Char -> Nat) : Nat -> Nat -> Except Stop Nat
  | 0, _ => .error .exhausted
  | n + 1, pos => do
      match <- peek src pos with
      | some c => if p c then skipWhile p width n (pos + width c) else pure pos
      | none => pure pos

def skipSpace (pos : Nat) : Except Stop Nat :=
  skipWhile src Text.isSpace Char.utf8Size (src.length + 1) pos

/-- Moves over white space, and over the character if it is there. -/
def eat (c : Char) (pos : Nat) : Except Stop (Bool × Nat) := do
  let pos <- skipSpace src pos
  let found <- peek src pos
  if found = some c then pure (true, pos + c.utf8Size) else pure (false, pos)

def ident (pos : Nat) : Except Stop (List Char × Nat) := do
  let start <- skipSpace src pos
  match <- peek src start with
  | some c =>
      if Name.isIdentStart c then do
        let stop <- skipWhile src Name.isIdentRest (fun _ => 1) (src.length + 1) (start + 1)
        let name <- slice src start stop
        pure (name, stop)
      else .error (.fault start .expectedIdent)
  | none => .error (.fault start .expectedIdent)

def pathFrom : Nat -> List Char -> Nat -> Except Stop (List Char × Nat)
  | 0, _, _ => .error .exhausted
  | n + 1, front, pos => do
      let pos <- skipSpace src pos
      let left <- sliceFrom src pos
      if [':', ':'].isPrefixOf left then do
        let (name, pos) <- ident src (pos + 2)
        pathFrom n (front ++ [':', ':'] ++ name) pos
      else if ['.'].isPrefixOf left then do
        let (name, pos) <- ident src (pos + 1)
        pathFrom n (front ++ ['.'] ++ name) pos
      else pure (front, pos)

def path (pos : Nat) : Except Stop (List Char × Nat) := do
  let (name, pos) <- ident src pos
  pathFrom src (src.length + 1) name pos

/-- Applies the wrapper that a path names, its arity checked first. -/
def wrap (start : Nat) (name : String) (args : List FieldType) : Except Stop FieldType :=
  match wrapper? name with
  | none => .error (.fault start (.unsupportedGeneric name))
  | some w =>
      if args.length ≠ w.arity then
        .error (.fault start (.wrongArity name w.arity args.length))
      else
        match w, args[0]?, args[1]? with
        | .optional, some inner, none => .ok (.optional inner)
        | .sequence, some inner, none => .ok (.sequence inner)
        | .map, some key, some value => .ok (.map key value)
        | _, _, _ => .error .unreachable

mutual

def typeWithin : Nat -> Nat -> Except Stop (FieldType × Nat)
  | 0, _ => .error .exhausted
  | n + 1, start => do
      let (name, pos) <- path src start
      match <- eat src '<' pos with
      | (false, pos) => pure (.named (String.ofList name), pos)
      | (true, pos) => do
          let (first, pos) <- typeWithin n pos
          let (args, pos) <- argumentsFrom n [first] pos
          match <- eat src '>' pos with
          | (false, pos) => .error (.fault pos (.expected '>'))
          | (true, pos) => do
              let type <- wrap start (String.ofList name) args
              pure (type, pos)

def argumentsFrom : Nat -> List FieldType -> Nat -> Except Stop (List FieldType × Nat)
  | 0, _, _ => .error .exhausted
  | n + 1, args, pos => do
      match <- eat src ',' pos with
      | (false, pos) => pure (args, pos)
      | (true, pos) => do
          let (type, pos) <- typeWithin n pos
          argumentsFrom n (args ++ [type]) pos

end

def parseChars : Except Stop FieldType := do
  let start <- skipSpace src 0
  if byteLength src ≤ start then .error (.fault start .empty)
  else do
    let (type, pos) <- typeWithin src (2 * src.length + 2) start
    let pos <- skipSpace src pos
    if byteLength src ≤ pos then pure type else .error (.fault pos .trailingInput)

end Reader

def parse (input : String) : Except Stop FieldType :=
  parseChars input.toList

/-! ## Offsets -/

variable {src left : List Char} {pos : Nat}

/-- What is left of the text at a byte offset. -/
def At (src : List Char) (pos : Nat) (left : List Char) : Prop :=
  ∃ before, before ++ left = src ∧ byteLength before = pos

@[simp]
theorem byteLength_append (cs ds : List Char) :
    byteLength (cs ++ ds) = byteLength cs + byteLength ds := by
  induction cs with
  | nil => simp [byteLength]
  | cons c rest ih =>
      rw [List.cons_append, byteLength, byteLength, ih]
      omega

theorem At.start (src : List Char) : At src 0 src :=
  ⟨[], rfl, rfl⟩

theorem At.append (part : List Char) (h : At src pos (part ++ left)) :
    At src (pos + byteLength part) left := by
  obtain ⟨before, rfl, rfl⟩ := h
  exact ⟨before ++ part, List.append_assoc _ _ _, byteLength_append _ _⟩

theorem At.cons {c : Char} (h : At src pos (c :: left)) : At src (pos + c.utf8Size) left :=
  At.append [c] h

theorem At.byteLength_eq (h : At src pos left) : byteLength src = pos + byteLength left := by
  obtain ⟨before, rfl, rfl⟩ := h
  exact byteLength_append _ _

theorem At.length_le (h : At src pos left) : left.length ≤ src.length := by
  obtain ⟨before, rfl, rfl⟩ := h
  simp

/-- The offset is at the end of the text exactly if nothing is left there. -/
theorem At.byteLength_le_iff (h : At src pos left) : byteLength src ≤ pos ↔ left = [] := by
  have hlength := h.byteLength_eq
  cases left with
  | nil =>
      simp only [byteLength] at hlength
      simp only [iff_true]
      omega
  | cons c rest =>
      have hpos := c.utf8Size_pos
      rw [byteLength] at hlength
      simp only [reduceCtorEq, iff_false]
      omega

theorem sliceFrom?_byteLength (before left : List Char) :
    sliceFrom? (before ++ left) (byteLength before) = some left := by
  induction before with
  | nil =>
      rw [List.nil_append, byteLength, sliceFrom?]
  | cons c rest ih =>
      have hpos := c.utf8Size_pos
      obtain ⟨n, hn⟩ := Nat.exists_eq_add_of_le' (show 1 ≤ byteLength (c :: rest) by
        rw [byteLength]
        omega)
      rw [hn, List.cons_append, sliceFrom?, ← hn, byteLength, if_pos (by omega),
        Nat.add_sub_cancel_left, ih]

theorem At.sliceFrom (h : At src pos left) : sliceFrom src pos = .ok left := by
  obtain ⟨before, rfl, rfl⟩ := h
  rw [Cursor.sliceFrom, sliceFrom?_byteLength]

theorem At.slice {part : List Char} (h : At src pos (part ++ left)) :
    slice src pos (pos + byteLength part) = .ok part := by
  have hleft := h.append part
  obtain ⟨before, hbefore, hpos⟩ := h
  obtain ⟨front, hfront, hstop⟩ := hleft
  have hslice : slice? src pos (pos + byteLength part) = some part := by
    rw [slice?, ← hstop, ← hfront, sliceFrom?_byteLength, hfront, ← hbefore, ← hpos,
      sliceFrom?_byteLength]
    simp [hstop, hpos]
  rw [Cursor.slice, hslice]

theorem At.peek (h : At src pos left) : peek src pos = .ok left.head? := by
  rw [Cursor.peek, h.sliceFrom]
  rfl

theorem At.skipWhile {p : Char -> Bool} {width : Char -> Nat} {n : Nat}
    (hwidth : ∀ c, p c = true -> width c = c.utf8Size) (h : At src pos left)
    (hn : left.length < n) :
    skipWhile src p width n pos = .ok (pos + byteLength (left.takeWhile p)) := by
  induction n generalizing pos left with
  | zero => omega
  | succ n ih =>
      refine bind_eq_ok_iff.2 ⟨_, h.peek, ?_⟩
      cases left with
      | nil => rfl
      | cons c rest =>
          rw [List.length_cons] at hn
          dsimp only [List.head?_cons]
          by_cases hc : p c = true
          · rw [if_pos hc, List.takeWhile_cons_of_pos hc, hwidth c hc, ih h.cons (by omega),
              byteLength, Nat.add_assoc]
          · rw [if_neg hc, List.takeWhile_cons_of_neg hc]
            rfl

theorem At.exists_skipSpace (h : At src pos left) :
    ∃ next, skipSpace src pos = .ok next ∧ At src next (TypeRef.skipSpace left) := by
  have hlength := h.length_le
  refine ⟨_, h.skipWhile (fun _ _ => rfl) (by omega), At.append _ ?_⟩
  rw [takeWhile_append_skipSpace]
  exact h

theorem At.exists_eat {c : Char} {after : List Char} (h : At src pos left)
    (hleft : TypeRef.skipSpace left = c :: after) :
    ∃ next, eat src c pos = .ok (true, next) ∧ At src next after := by
  obtain ⟨next, hskip, hnext⟩ := h.exists_skipSpace
  rw [hleft] at hnext
  refine ⟨_, bind_eq_ok_iff.2 ⟨_, hskip, bind_eq_ok_iff.2 ⟨_, hnext.peek, ?_⟩⟩, hnext.cons⟩
  exact if_pos rfl

theorem At.exists_eat_of_ne {c : Char} (h : At src pos left)
    (hleft : ∀ more, TypeRef.skipSpace left ≠ c :: more) :
    ∃ next, eat src c pos = .ok (false, next) ∧ At src next (TypeRef.skipSpace left) := by
  have hhead : (TypeRef.skipSpace left).head? ≠ some c := by
    intro hhead
    obtain ⟨more, hmore⟩ := List.head?_eq_some_iff.1 hhead
    exact hleft more hmore
  obtain ⟨next, hskip, hnext⟩ := h.exists_skipSpace
  refine ⟨_, bind_eq_ok_iff.2 ⟨_, hskip, bind_eq_ok_iff.2 ⟨_, hnext.peek, ?_⟩⟩, hnext⟩
  exact if_neg hhead

/-! ## The two readers -/

/-- A reading by offsets ends as a reading of characters does, at the offset of what is left. -/
inductive Follows (src : List Char) {α : Type} :
    Except Stop (α × Nat) -> Except Fault (α × List Char) -> Prop where
  | ok (a : α) {pos : Nat} {left : List Char} : At src pos left ->
      Follows src (.ok (a, pos)) (.ok (a, left))
  | fault (kind : FaultKind) {pos : Nat} {left : List Char} : At src pos left ->
      Follows src (.error (.fault pos kind)) (.error ⟨left, kind⟩)

theorem Follows.bind {α β : Type} {x : Except Stop (α × Nat)} {y : Except Fault (α × List Char)}
    {f : α × Nat -> Except Stop (β × Nat)} {g : α × List Char -> Except Fault (β × List Char)}
    (h : Follows src x y)
    (hnext : ∀ a pos left, y = .ok (a, left) -> At src pos left ->
      Follows src (f (a, pos)) (g (a, left))) : Follows src (x >>= f) (y >>= g) := by
  cases h with
  | ok a hat => exact hnext a _ _ rfl hat
  | fault kind hat => exact .fault kind hat

/-- A step that gives its value without a fault. -/
theorem Follows.bind_ok {α β : Type} {x : Except Stop α} {a : α} (hx : x = .ok a)
    {f : α -> Except Stop (β × Nat)} {y : Except Fault (β × List Char)}
    (h : Follows src (f a) y) : Follows src (x >>= f) y := by
  rw [hx]
  exact h

theorem utf8Size_of_isIdentRest {c : Char} (h : Name.isIdentRest c = true) : c.utf8Size = 1 := by
  have hbound : c.val.toNat ≤ 127 := (Name.toNat_of_isIdentRest h).2.trans (by decide)
  exact if_pos hbound

theorem follows_ident (h : At src pos left) : Follows src (ident src pos) (TypeRef.ident left) := by
  obtain ⟨start, hskip, hstart⟩ := h.exists_skipSpace
  refine .bind_ok hskip (.bind_ok hstart.peek ?_)
  rw [TypeRef.ident]
  cases hleft : TypeRef.skipSpace left with
  | nil =>
      rw [hleft] at hstart
      exact .fault _ hstart
  | cons c rest =>
      rw [hleft] at hstart
      dsimp only [List.head?_cons]
      by_cases hc : Name.isIdentStart c = true
      · rw [if_pos hc, if_pos hc]
        have hsize := utf8Size_of_isIdentRest (Name.isIdentRest_of_isIdentStart hc)
        have hrest : At src (start + 1) rest := hsize ▸ hstart.cons
        have hlength := hrest.length_le
        have hstop := hrest.skipWhile (p := Name.isIdentRest) (n := src.length + 1)
          (fun _ hd => (utf8Size_of_isIdentRest hd).symm) (by omega)
        have hparts : At src start
            (c :: rest.takeWhile Name.isIdentRest ++ rest.dropWhile Name.isIdentRest) := by
          rw [List.cons_append, List.takeWhile_append_dropWhile]
          exact hstart
        have hbytes : start + 1 + byteLength (rest.takeWhile Name.isIdentRest) =
            start + byteLength (c :: rest.takeWhile Name.isIdentRest) := by
          rw [byteLength, hsize, Nat.add_assoc]
        rw [hbytes] at hstop
        exact .bind_ok hstop (.bind_ok hparts.slice (.ok _ (hparts.append _)))
      · rw [if_neg hc, if_neg hc]
        exact .fault _ hstart

theorem separator_cases (cs : List Char) :
    (∃ more, cs = ':' :: ':' :: more) ∨ (∃ more, cs = '.' :: more) ∨
      (separator? cs = none ∧ [':', ':'].isPrefixOf cs = false ∧ ['.'].isPrefixOf cs = false) := by
  cases cs using separator?.fun_cases with
  | case1 more => exact .inl ⟨more, rfl⟩
  | case2 more => exact .inr (.inl ⟨more, rfl⟩)
  | case3 cs hpair hdot =>
      refine .inr (.inr ⟨separator?.eq_3 cs hpair hdot, ?_, ?_⟩)
      · rw [← Bool.not_eq_true, List.isPrefixOf_iff_prefix]
        rintro ⟨more, rfl⟩
        exact hpair more rfl
      · rw [← Bool.not_eq_true, List.isPrefixOf_iff_prefix]
        rintro ⟨more, rfl⟩
        exact hdot more rfl

/-- A path is read on from its front, the next identifier included. -/
theorem follows_pathFrom {n m : Nat} (front : List Char) (h : At src pos left)
    (hn : left.length < n) (hm : left.length < m) :
    Follows src
      (do
        let (name, pos) <- ident src pos
        pathFrom src m (front ++ name) pos)
      (do
        let (name, left) <- pathWithin n left
        pure (front ++ name, left)) := by
  -- What was read of the path joins the front, so the induction is over every front.
  induction n generalizing m front pos left with
  | zero => omega
  | succ n ih =>
      obtain ⟨m, rfl⟩ := Nat.exists_eq_add_of_le' (show 1 ≤ m by omega)
      rw [pathWithin, bind_assoc]
      refine (follows_ident h).bind ?_
      intro name pos rest hident hrest
      obtain ⟨hname, hspells⟩ := spells_of_ident hident
      have hlength : (TypeRef.skipSpace rest).length < left.length := by
        have := hspells.length_le
        simp only [List.length_cons, List.length_nil] at this
        omega
      obtain ⟨next, hskip, hnext⟩ := hrest.exists_skipSpace
      refine .bind_ok hskip (.bind_ok hnext.sliceFrom ?_)
      dsimp only
      rcases separator_cases (TypeRef.skipSpace rest) with ⟨more, hmore⟩ | ⟨more, hmore⟩ |
        ⟨hnone, hpair, hdot⟩
      · rw [hmore] at hnext hlength ⊢
        simp only [List.length_cons] at hlength
        have hat : At src (next + 2) more := hnext.append [':', ':']
        have hread := ih (front ++ name ++ [':', ':']) hat (by omega) (m := m) (by omega)
        simpa [separator?] using hread
      · rw [hmore] at hnext hlength ⊢
        simp only [List.length_cons] at hlength
        have hat : At src (next + 1) more := hnext.append ['.']
        have hread := ih (front ++ name ++ ['.']) hat (by omega) (m := m) (by omega)
        simpa [separator?] using hread
      · rw [hnone, hpair, hdot]
        exact .ok _ hnext

theorem follows_path (h : At src pos left) : Follows src (path src pos) (TypeRef.path left) := by
  have hlength := h.length_le
  have hread := follows_pathFrom [] h (Nat.lt_succ_self _) (show left.length < src.length + 1 by omega)
  simpa [path, TypeRef.path] using hread

/-- The arm that is held to be impossible is so, since the arity is checked. -/
theorem follows_wrap {start next : Nat} {cs after : List Char} {name : String}
    {args : List FieldType} (hstart : At src start cs) (hnext : At src next after) :
    Follows src (do pure (← wrap start name args, next))
      (do pure (← TypeRef.wrap cs name args, after)) := by
  rw [wrap, TypeRef.wrap]
  cases wrapper? name with
  | none => exact .fault _ hstart
  | some w =>
      dsimp only
      split
      · next harity =>
          split
          · exact absurd rfl harity
          · exact absurd rfl harity
          · exact absurd rfl harity
          · exact .fault _ hstart
      · next harity =>
          rw [Decidable.not_not] at harity
          cases w with
          | optional =>
              obtain ⟨inner, rfl⟩ := List.length_eq_one_iff.1 harity
              exact .ok _ hnext
          | sequence =>
              obtain ⟨inner, rfl⟩ := List.length_eq_one_iff.1 harity
              exact .ok _ hnext
          | map =>
              obtain ⟨key, value, rfl⟩ := List.length_eq_two.1 harity
              exact .ok _ hnext

theorem skipSpace_of_pathWithin {n : Nat} {name : List Char} {rest : List Char}
    (h : pathWithin n left = .ok (name, rest)) : TypeRef.skipSpace rest = rest := by
  induction n generalizing left name rest with
  | zero => cases h
  | succ n ih =>
      obtain ⟨⟨first, more⟩, _, h⟩ := bind_eq_ok_iff.1 h
      dsimp only at h
      split at h
      · obtain ⟨⟨tail, after⟩, htail, h⟩ := bind_eq_ok_iff.1 h
        cases h
        exact ih htail
      · cases h
        exact skipSpace_skipSpace more

theorem skipSpace_of_argumentsWithin {n : Nat} {types : List FieldType} {rest : List Char}
    (h : argumentsWithin n left = .ok (types, rest)) : TypeRef.skipSpace rest = rest := by
  induction n generalizing left types rest with
  | zero => cases h
  | succ n ih =>
      obtain ⟨⟨first, more⟩, _, h⟩ := bind_eq_ok_iff.1 h
      dsimp only at h
      split at h
      · obtain ⟨⟨tail, after⟩, htail, h⟩ := bind_eq_ok_iff.1 h
        cases h
        exact ih htail
      · cases h
        exact skipSpace_skipSpace more

/-- Types are read alike, to depths that the text cannot use up. -/
def FollowsType (src : List Char) (n : Nat) : Prop :=
  ∀ {m pos left}, At src pos left -> 2 * left.length + 2 ≤ n -> 2 * left.length + 2 ≤ m ->
    Follows src (typeWithin src m pos) (TypeRef.typeWithin n left)

def FollowsArguments (src : List Char) (n : Nat) : Prop :=
  ∀ {m pos left} (args : List FieldType), At src pos left -> 2 * left.length + 3 ≤ n ->
    2 * left.length + 2 ≤ m ->
    Follows src
      (do
        let (type, pos) <- typeWithin src m pos
        argumentsFrom src m (args ++ [type]) pos)
      (do
        let (types, left) <- argumentsWithin n left
        pure (args ++ types, left))

theorem followsType_succ {n : Nat} (iharguments : FollowsArguments src n) :
    FollowsType src (n + 1) := by
  intro m pos left h hn hm
  obtain ⟨m, rfl⟩ := Nat.exists_eq_add_of_le' (show 1 ≤ m by omega)
  rw [typeWithin, TypeRef.typeWithin]
  refine (follows_path h).bind ?_
  intro name next rest hpath hrest
  have hskip := skipSpace_of_pathWithin hpath
  -- A path has at least one token, so less of the text is left and the depth is enough for it.
  obtain ⟨tokens, last, htokens, _, hspells⟩ := isPath_of_pathWithin hpath
  have hlength := hspells.length_le
  have htokens := List.length_pos_iff.2 htokens.ne_nil
  dsimp only
  split
  · next inner =>
      rw [List.length_cons] at hlength
      obtain ⟨opened, heat, hopened⟩ := hrest.exists_eat hskip
      refine .bind_ok heat ?_
      have hread : Follows src
          (typeWithin src m opened >>= fun first => argumentsFrom src m [first.1] first.2)
          (argumentsWithin n inner) := by
        have hread := iharguments (m := m) [] hopened (by omega) (by omega)
        simpa using hread
      dsimp only
      rw [← bind_assoc]
      refine hread.bind ?_
      intro args closing after harguments hclosing
      have hafter := skipSpace_of_argumentsWithin harguments
      dsimp only
      split
      · next more =>
          obtain ⟨stop, heat, hstop⟩ := hclosing.exists_eat hafter
          exact .bind_ok heat (follows_wrap h hstop)
      · next hne =>
          obtain ⟨stop, heat, hstop⟩ := hclosing.exists_eat_of_ne (hafter.symm ▸ hne)
          rw [hafter] at hstop
          exact .bind_ok heat (.fault _ hstop)
  · next hne =>
      obtain ⟨stop, heat, hstop⟩ := hrest.exists_eat_of_ne (hskip.symm ▸ hne)
      rw [hskip] at hstop
      exact .bind_ok heat (.ok _ hstop)

theorem followsArguments_succ {n : Nat} (ihtype : FollowsType src n)
    (iharguments : FollowsArguments src n) : FollowsArguments src (n + 1) := by
  intro m pos left args h hn hm
  rw [argumentsWithin, bind_assoc]
  refine (ihtype h (by omega) hm).bind ?_
  intro type next rest htype hrest
  obtain ⟨tokens, htokens, hspells⟩ := (sound_within n).1 htype
  have hlength := hspells.length_le
  have htokens := List.length_pos_iff.2 htokens.ne_nil
  obtain ⟨m, rfl⟩ := Nat.exists_eq_add_of_le' (show 1 ≤ m by omega)
  dsimp only
  rw [argumentsFrom]
  split
  · next more hmore =>
      rw [hmore, List.length_cons] at hlength
      obtain ⟨after, heat, hafter⟩ := hrest.exists_eat hmore
      have hread := iharguments (m := m) (args ++ [type]) hafter (by omega) (by omega)
      refine .bind_ok heat ?_
      simpa using hread
  · next hne =>
      obtain ⟨stop, heat, hstop⟩ := hrest.exists_eat_of_ne hne
      exact .bind_ok heat (.ok _ hstop)

theorem follows_within (src : List Char) (n : Nat) :
    FollowsType src n ∧ FollowsArguments src n := by
  induction n with
  | zero =>
      constructor
      · intro m pos left _ hn
        omega
      · intro m pos left args _ hn
        omega
  | succ n ih => exact ⟨followsType_succ ih.2, followsArguments_succ ih.1 ih.2⟩

/-- The offset of what is left. -/
theorem At.sub_byteLength (h : At src pos left) : byteLength src - byteLength left = pos := by
  have hlength := h.byteLength_eq
  omega

def located (src : List Char) (fault : Fault) : Stop :=
  .fault (byteLength src - byteLength fault.left) fault.kind

theorem located_of_at (kind : FaultKind) (h : At src pos left) :
    located src ⟨left, kind⟩ = .fault pos kind := by
  rw [located, h.sub_byteLength]

theorem Follows.finish {α β : Type} {x : Except Stop (α × Nat)}
    {y : Except Fault (α × List Char)} {f : α × Nat -> Except Stop β}
    {g : α × List Char -> Except Fault β} (h : Follows src x y)
    (hnext : ∀ a pos left, At src pos left ->
      f (a, pos) = (g (a, left)).mapError (located src)) :
    (x >>= f) = (y >>= g).mapError (located src) := by
  cases h with
  | ok a hat => exact hnext a _ _ hat
  | fault kind hat => exact congrArg Except.error (located_of_at kind hat).symm

theorem parseChars_eq (src : List Char) :
    parseChars src = (TypeRef.parseChars src).mapError (located src) := by
  obtain ⟨start, hskip, hstart⟩ := (At.start src).exists_skipSpace
  rw [parseChars, hskip, TypeRef.parseChars]
  change (if _ then _ else _) = _
  split
  · next hend =>
      have hnil := hstart.byteLength_le_iff.1 hend
      rw [hnil] at hstart ⊢
      exact congrArg Except.error (located_of_at .empty hstart).symm
  · next hend =>
      have hne := mt hstart.byteLength_le_iff.2 hend
      have hlength := hstart.length_le
      split
      · next hnil => exact absurd hnil hne
      have hread := (follows_within src (2 * (TypeRef.skipSpace src).length + 2)).1
        (m := 2 * src.length + 2) hstart (Nat.le_refl _) (by omega)
      refine hread.finish ?_
      intro type pos left hat
      obtain ⟨stop, hskip, hstop⟩ := hat.exists_skipSpace
      dsimp only
      rw [hskip]
      change (if _ then _ else _) = _
      split
      · next hend =>
          rw [hstop.byteLength_le_iff.1 hend]
          rfl
      · next hend =>
          split
          · next hnil => exact absurd (hstop.byteLength_le_iff.2 hnil) hend
          · exact congrArg Except.error (located_of_at .trailingInput hstop).symm

/-- The reading by offsets stops where the reading of characters does, for the same reason. -/
theorem parse_eq (input : String) :
    parse input = (TypeRef.parse input).mapError fun e => .fault e.offset e.kind := by
  rw [parse, parseChars_eq, TypeRef.parse]
  cases TypeRef.parseChars input.toList with
  | ok type => rfl
  | error fault => rfl

end Cursor

/-! ## Readings and the grammar -/

theorem parse_eq_error_iff {input : String} :
    (∃ e, parse input = .error e) ↔ ∀ type, ¬ Denotes input.toList type := by
  constructor
  · rintro ⟨e, he⟩ type htype
    rw [parse_eq_ok_iff.2 htype] at he
    cases he
  · intro hnone
    cases h : parse input with
    | ok type => exact absurd (parse_eq_ok_iff.1 h) (hnone type)
    | error e => exact ⟨e, rfl⟩

/--
The texts of the grammar are read for their types, a path for its text without white space, and
every other text is rejected. A reader that works by byte offsets gives the same types and the
same faults, so it never slices off a boundary, past the end or into an impossible arm.
-/
theorem parse_iff_denotes (input : String) :
    (∀ type, parse input = .ok type ↔ Denotes input.toList type) ∧
      (∀ name, parse input = .ok (.named name) ->
        name = String.ofList (input.toList.filter (!Text.isSpace ·))) ∧
      ((∃ e, parse input = .error e) ↔ ∀ type, ¬ Denotes input.toList type) ∧
      Cursor.parse input = (parse input).mapError fun e => .fault e.offset e.kind := by
  refine ⟨fun type => parse_eq_ok_iff, ?_, parse_eq_error_iff, Cursor.parse_eq input⟩
  intro name h
  exact named_of_denotes (parse_eq_ok_iff.1 h)

example : (parse "Map < a :: B,Vec<c> >").toOption =
    some (.map (.named "a::B") (.sequence (.named "c"))) := by decide +kernel

example : Cursor.parse "Vec<\u3000é>" = .error (.fault 7 .expectedIdent) := by decide +kernel

end TypeRef

end InstanceForge

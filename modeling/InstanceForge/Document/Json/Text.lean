import InstanceForge.Document.Datum
import InstanceForge.Text.Basic

/-!
# JSON strings

Written strings escape the quote, the backslash and the characters below the space. Read
strings may use every escape of JSON; a surrogate escape stands for a character only together
with its other half.
-/

namespace InstanceForge

namespace Json

def escapeChar (c : Char) : List Char :=
  if c = '"' then ['\\', '"']
  else if c = '\\' then ['\\', '\\']
  else if c.toNat = 8 then ['\\', 'b']
  else if c.toNat = 9 then ['\\', 't']
  else if c.toNat = 10 then ['\\', 'n']
  else if c.toNat = 12 then ['\\', 'f']
  else if c.toNat = 13 then ['\\', 'r']
  else if c.toNat < 32 then
    ['\\', 'u', '0', '0', Text.hexDigit (c.toNat / 16), Text.hexDigit (c.toNat % 16)]
  else [c]

def quote (s : String) : String :=
  String.ofList ('"' :: (s.toList.flatMap escapeChar ++ ['"']))

/-- What a character after a backslash stands for, other than `u`. -/
def simpleEscape? : Char -> Option Char
  | '"' => some '"'
  | '\\' => some '\\'
  | '/' => some '/'
  | 'b' => some (Char.ofNat 8)
  | 'f' => some (Char.ofNat 12)
  | 'n' => some '\n'
  | 'r' => some '\r'
  | 't' => some '\t'
  | _ => none

def hexWord? (a b c d : Char) : Option Nat := do
  let a <- Text.hexValue? a
  let b <- Text.hexValue? b
  let c <- Text.hexValue? c
  let d <- Text.hexValue? d
  pure (((a * 16 + b) * 16 + c) * 16 + d)

/-- The first half of a surrogate pair. -/
def isHighHalf (n : Nat) : Bool :=
  0xD800 <= n && n <= 0xDBFF

def isLowHalf (n : Nat) : Bool :=
  0xDC00 <= n && n <= 0xDFFF

def joinHalves (high low : Nat) : Char :=
  Char.ofNat (0x10000 + (high - 0xD800) * 0x400 + (low - 0xDC00))

/-- The second half that a second escape writes, and what follows it. -/
def lowHalf? : List Char -> Option (Nat × List Char)
  | '\\' :: 'u' :: a :: b :: c :: d :: rest =>
      match hexWord? a b c d with
      | some n => if isLowHalf n then some (n, rest) else none
      | none => none
  | _ => none

/-- The pieces of a string: characters, and halves of surrogate pairs that stand alone. -/
abbrev Piece := Option Char

def piecesWithin : Nat -> List Char -> Option (List Piece × List Char)
  | 0, _ => none
  | _ + 1, [] => none
  | n + 1, c :: rest =>
      if c = '"' then some ([], rest)
      else if c.toNat < 32 then none
      else if c = '\\' then
        match rest with
        | 'u' :: h1 :: h2 :: h3 :: h4 :: more =>
            match hexWord? h1 h2 h3 h4 with
            | none => none
            | some word =>
                if isHighHalf word then
                  match lowHalf? more with
                  | some (low, left) =>
                      (piecesWithin n left).map fun r => (some (joinHalves word low) :: r.1, r.2)
                  | none => (piecesWithin n more).map fun r => (none :: r.1, r.2)
                else if isLowHalf word then
                  (piecesWithin n more).map fun r => (none :: r.1, r.2)
                else (piecesWithin n more).map fun r => (some (Char.ofNat word) :: r.1, r.2)
        | e :: more =>
            match simpleEscape? e with
            | some d => (piecesWithin n more).map fun r => (some d :: r.1, r.2)
            | none => none
        | [] => none
      else (piecesWithin n rest).map fun r => (some c :: r.1, r.2)

def literalOfPieces (pieces : List Piece) : Literal :=
  match pieces.mapM id with
  | some cs => .text (String.ofList cs)
  | none => .unpaired

def literal? (cs : List Char) : Option (Literal × List Char) :=
  (piecesWithin (cs.length + 1) cs).map fun r => (literalOfPieces r.1, r.2)

end Json

end InstanceForge

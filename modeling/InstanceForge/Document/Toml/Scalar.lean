import InstanceForge.Document.Json.Bounds

/-!
# TOML numbers and dates

Recognizers for the scalars that no document of this library reads: integers, floats, dates
and times. Each gives what follows the scalar, or nothing if none stands at the front.
-/

namespace InstanceForge

namespace Toml

def isBinary (c : Char) : Bool :=
  c == '0' || c == '1'

def isOctal (c : Char) : Bool :=
  '0' <= c && c <= '7'

def isHex (c : Char) : Bool :=
  (Text.hexValue? c).isSome

/-- The digits after a first one; an underscore stands only between two digits. -/
def moreDigits (ok : Char -> Bool) : List Char -> List Char × List Char
  | [] => ([], [])
  | c :: rest =>
      if ok c then
        let (ds, left) := moreDigits ok rest
        (c :: ds, left)
      else
        match c, rest with
        | '_', d :: more =>
            if ok d then
              let (ds, left) := moreDigits ok more
              (d :: ds, left)
            else ([], c :: rest)
        | _, _ => ([], c :: rest)

def digitRun? (ok : Char -> Bool) : List Char -> Option (List Char × List Char)
  | [] => none
  | c :: rest =>
      if ok c then
        let (ds, left) := moreDigits ok rest
        some (c :: ds, left)
      else none

def sign : List Char -> Bool × List Char
  | '+' :: cs => (false, cs)
  | '-' :: cs => (true, cs)
  | cs => (false, cs)

/-- The digits of a decimal integer after its sign: zero alone, or no leading zero. -/
def decimalDigits? (cs : List Char) : Option (List Char × List Char) :=
  match cs with
  | '0' :: rest => some (['0'], rest)
  | _ => digitRun? Char.isDigit cs

def valueOf (base : Nat) (ds : List Char) : Nat :=
  ds.foldl (fun acc c => acc * base + (Text.hexValue? c).getD 0) 0

def maxInteger : Nat :=
  0x7fffffffffffffff

def basedInteger? (base : Nat) (ok : Char -> Bool) (cs : List Char) : Option (List Char) :=
  match digitRun? ok cs with
  | some (ds, rest) => if valueOf base ds <= maxInteger then some rest else none
  | none => none

def integer? (cs : List Char) : Option (List Char) :=
  match cs with
  | '0' :: 'x' :: rest => basedInteger? 16 isHex rest
  | '0' :: 'o' :: rest => basedInteger? 8 isOctal rest
  | '0' :: 'b' :: rest => basedInteger? 2 isBinary rest
  | _ =>
      let (negative, body) := sign cs
      match decimalDigits? body with
      | some (ds, rest) =>
          if valueOf 10 ds <= maxInteger + (if negative then 1 else 0) then some rest else none
      | none => none

def exponent? (cs : List Char) : Option (Bool × Nat × List Char) :=
  let (negative, body) := sign cs
  match digitRun? Char.isDigit body with
  | some (ds, rest) => some (negative, valueOf 10 ds, rest)
  | none => none

/-- Whether a decimal number is below what double precision rounds to infinity. -/
def isFiniteDecimal (ds : List Char) (power : Int) : Bool :=
  let value := valueOf 10 ds
  if value = 0 then true
  else if power > 400 then false
  else if power >= 0 then value * Nat.pow 10 power.toNat < Double.overflow
  else if ds.length <= 300 || (ds.length : Int) + power <= 300 then true
  else value < Double.overflow * Nat.pow 10 (-power).toNat

/-- A float with a fraction, an exponent or both; only minus infinity may be overrun. -/
def decimalFloat? (cs : List Char) : Option (List Char) :=
  let (negative, body) := sign cs
  match decimalDigits? body with
  | none => none
  | some (whole, afterWhole) =>
      let settle (ds : List Char) (power : Int) (rest : List Char) : Option (List Char) :=
        if negative || isFiniteDecimal ds power then some rest else none
      let scaled (ds : List Char) (places : Nat) (rest : List Char) : Option (List Char) :=
        match exponent? rest with
        | some (down, size, left) =>
            settle ds ((if down then -(size : Int) else size) - places) left
        | none => none
      match afterWhole with
      | '.' :: more =>
          match digitRun? Char.isDigit more with
          | none => none
          | some (part, left) =>
              match left with
              | 'e' :: rest => scaled (whole ++ part) part.length rest
              | 'E' :: rest => scaled (whole ++ part) part.length rest
              | _ => settle (whole ++ part) (-(part.length : Int)) left
      | 'e' :: rest => scaled whole 0 rest
      | 'E' :: rest => scaled whole 0 rest
      | _ => none

def specialFloat? (cs : List Char) : Option (List Char) :=
  match (sign cs).2 with
  | 'i' :: 'n' :: 'f' :: rest => some rest
  | 'n' :: 'a' :: 'n' :: rest => some rest
  | _ => none

def twoDigits? : List Char -> Option (Nat × List Char)
  | a :: b :: rest =>
      if a.isDigit && b.isDigit then some (valueOf 10 [a, b], rest) else none
  | _ => none

def twoDigitsIn? (low high : Nat) (cs : List Char) : Option (Nat × List Char) :=
  match twoDigits? cs with
  | some (n, rest) => if low <= n && n <= high then some (n, rest) else none
  | none => none

def char? (c : Char) : List Char -> Option (List Char)
  | [] => none
  | d :: rest => if d = c then some rest else none

def daysIn (year month : Nat) : Nat :=
  let leap := year % 4 = 0 && (year % 100 != 0 || year % 400 = 0)
  if month = 2 then (if leap then 29 else 28)
  else if month = 4 || month = 6 || month = 9 || month = 11 then 30
  else 31

def date? (cs : List Char) : Option (List Char) := do
  let (century, cs) <- twoDigits? cs
  let (ofCentury, cs) <- twoDigits? cs
  let cs <- char? '-' cs
  let (month, cs) <- twoDigitsIn? 1 12 cs
  let cs <- char? '-' cs
  let (_, cs) <- twoDigitsIn? 1 (daysIn (century * 100 + ofCentury) month) cs
  pure cs

def secondFraction? : List Char -> Option (List Char)
  | '.' :: c :: rest =>
      if c.isDigit then some (rest.dropWhile Char.isDigit) else none
  | '.' :: [] => none
  | cs => some cs

/-- A time of day; a minute may have a leap second. -/
def time? (cs : List Char) : Option (List Char) := do
  let (_, cs) <- twoDigitsIn? 0 23 cs
  let cs <- char? ':' cs
  let (_, cs) <- twoDigitsIn? 0 59 cs
  let cs <- char? ':' cs
  let (_, cs) <- twoDigitsIn? 0 60 cs
  secondFraction? cs

def zone? (cs : List Char) : Option (List Char) :=
  match cs with
  | 'Z' :: rest => some rest
  | 'z' :: rest => some rest
  | '+' :: rest => clock rest
  | '-' :: rest => clock rest
  | _ => some cs
where
  clock (cs : List Char) : Option (List Char) := do
    let (_, cs) <- twoDigitsIn? 0 23 cs
    let cs <- char? ':' cs
    let (_, cs) <- twoDigitsIn? 0 59 cs
    pure cs

def moment? (cs : List Char) : Option (List Char) :=
  match date? cs with
  | none => time? cs
  | some rest =>
      match rest with
      | c :: more =>
          if c = 'T' || c = 't' || c = ' ' then
            match time? more with
            | some left => zone? left
            | none => some rest
          else some rest
      | [] => some []

def scalar? (cs : List Char) : Option (Datum × List Char) :=
  match moment? cs with
  | some rest => some (.moment, rest)
  | none =>
      (decimalFloat? cs <|> specialFloat? cs <|> integer? cs).map fun rest => (.quantity, rest)

end Toml

end InstanceForge

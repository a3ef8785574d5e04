import InstanceForge.Document.Json.Reader

/-!
# Bounds on JSON values

A value that is kept whole nests at most 127 levels, has only strings that are text, and only
numbers whose double-precision reading is finite. That reading takes the leading digits that
fit 64 bits, rounds them to double precision, and multiplies by a power of ten that is rounded
as well; a number is out of range exactly if this product is.
-/

namespace InstanceForge

namespace Double

/-- A natural number rounded to its 53 leading bits, a tie going to the even neighbour. -/
def roundNat (n : Nat) : Nat :=
  let shift := Nat.log2 n + 1 - 53
  let unit := Nat.pow 2 shift
  let below := n / unit
  let twice := 2 * (n % unit)
  if twice < unit then below * unit
  else if twice = unit then (below + below % 2) * unit
  else (below + 1) * unit

/-- The least natural number that rounds to infinity. -/
def overflow : Nat :=
  Nat.pow 2 1024 - Nat.pow 2 970

end Double

namespace Json

def maxWord : Nat :=
  0xffffffffffffffff

/--
Digits taken in, as far as 64 bits hold them: the number they make, and how many of them were
left because one did not fit.
-/
def takeWhole : Nat -> List Nat -> Nat × Nat
  | acc, [] => (acc, 0)
  | acc, d :: rest =>
      if acc * 10 + d <= maxWord then takeWhole (acc * 10 + d) rest
      else (acc, rest.length + 1)

/-- Digits of a fraction taken in as far as 64 bits hold them, and how many were taken. -/
def takeFraction : Nat -> List Nat -> Nat × Nat
  | acc, [] => (acc, 0)
  | acc, d :: rest =>
      if acc * 10 + d <= maxWord then
        let (value, taken) := takeFraction (acc * 10 + d) rest
        (value, taken + 1)
      else (acc, 0)

/-- Whether a significand times a power of ten is finite in double precision. -/
def isFinite (significand : Nat) (power : Int) : Bool :=
  if significand = 0 || power < 0 then true
  else if power > 308 then false
  else Double.roundNat significand * Double.roundNat (Nat.pow 10 power.toNat) < Double.overflow

/-- The greatest exponent that is read as a number; beyond it only its sign counts. -/
def maxExponent : Nat :=
  0x7fffffff

def inRange (n : Numeral) : Bool :=
  let (whole, dropped) := takeWhole 0 n.whole
  let (significand, taken) := takeFraction whole n.fraction
  let scale : Int := (dropped : Int) - taken
  match n.exponent with
  | none => if n.fraction.isEmpty && dropped = 0 then true else isFinite significand scale
  | some e =>
      let size := Numeral.ofDigits e.digits
      if size > maxExponent then significand = 0 || e.negative
      else isFinite significand (if e.negative then scale - size else scale + size)

def isText : Literal -> Bool
  | .text _ => true
  | .unpaired => false

mutual

/-- Whether a value keeps the bounds, with so many levels left to nest. -/
def bounded (levels : Nat) : Datum -> Bool
  | .list items =>
      match levels with
      | 0 => false
      | n + 1 => boundedItems n items
  | .table entries =>
      match levels with
      | 0 => false
      | n + 1 => boundedEntries n entries
  | .number n => inRange n
  | .text s => isText s
  | .null => true
  | .boolean _ => true
  | .quantity => true

def boundedItems (levels : Nat) : List Datum -> Bool
  | [] => true
  | item :: rest => bounded levels item && boundedItems levels rest

def boundedEntries (levels : Nat) : List (Literal × Datum) -> Bool
  | [] => true
  | (key, value) :: rest => isText key && bounded levels value && boundedEntries levels rest

end

def maxLevels : Nat :=
  127

def readBounded (text : String) : Option Datum :=
  match read text with
  | some d => if bounded maxLevels d then some d else none
  | none => none

/-- The entry of an object that a key has; of several the last. -/
def lookup? (key : String) : List (Literal × Datum) -> Option Datum
  | [] => none
  | (k, value) :: rest =>
      match lookup? key rest with
      | some found => some found
      | none => if k = .text key then some value else none

end Json

end InstanceForge

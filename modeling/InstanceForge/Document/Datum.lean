/-!
# Document values

The values that JSON and TOML documents are made of. Objects keep their entries in written
order, repeated keys included, so that a reader of documents can decide what repetition means.
-/

namespace InstanceForge

/-- A string of a document. Escapes may leave half of a surrogate pair, which is no text. -/
inductive Literal where
  | text (s : String)
  | unpaired
  deriving DecidableEq

/-- The power of ten that a number is scaled by. -/
structure Exponent where
  negative : Bool
  digits : List Nat
  deriving DecidableEq

structure Numeral where
  negative : Bool
  whole : List Nat
  fraction : List Nat
  exponent : Option Exponent
  deriving DecidableEq

/--
A value of a JSON or TOML document. A quantity is a number that is known to be one, and whose
value no reader of documents asks for.
-/
inductive Datum where
  | null
  | boolean (b : Bool)
  | number (n : Numeral)
  | quantity
  | text (s : Literal)
  | list (items : List Datum)
  | table (entries : List (Literal × Datum))

namespace Numeral

def ofDigits (digits : List Nat) : Nat :=
  digits.foldl (fun acc d => 10 * acc + d) 0

def digitsOf (n : Nat) : List Nat :=
  (Nat.toDigits 10 n).map fun c => c.toNat - 48

def ofNat (n : Nat) : Numeral :=
  { negative := false, whole := digitsOf n, fraction := [], exponent := none }

/-- The natural number that is written, if neither sign, fraction nor exponent is. -/
def toNat? (n : Numeral) : Option Nat :=
  if n.negative || !n.fraction.isEmpty || n.exponent.isSome then none
  else some (ofDigits n.whole)

end Numeral

namespace Datum

def ofString (s : String) : Datum :=
  .text (.text s)

def ofStrings (items : List String) : Datum :=
  .list (items.map ofString)

def ofNat (n : Nat) : Datum :=
  .number (Numeral.ofNat n)

def ofEntries (entries : List (String × Datum)) : Datum :=
  .table (entries.map fun e => (.text e.1, e.2))

/-- A date or a time: an object with one reserved key, so that no member of a record is in it. -/
def moment : Datum :=
  .table [(.text "$moment", .null)]

def toText? : Datum -> Option String
  | .text (.text s) => some s
  | _ => none

end Datum

end InstanceForge

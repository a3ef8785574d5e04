import InstanceForge.Document.Json.Text

/-!
# Written JSON

Values written without blanks, and with one entry on a line and two blanks for each level.
-/

namespace InstanceForge

namespace Json

def digitChar (d : Nat) : Char :=
  Char.ofNat (48 + d % 10)

def writeNumeral (n : Numeral) : String :=
  let whole := (if n.negative then "-" else "") ++ String.ofList (n.whole.map digitChar)
  let fraction :=
    if n.fraction.isEmpty then "" else "." ++ String.ofList (n.fraction.map digitChar)
  let exponent :=
    match n.exponent with
    | none => ""
    | some e => "e" ++ (if e.negative then "-" else "") ++ String.ofList (e.digits.map digitChar)
  whole ++ fraction ++ exponent

def writeLiteral : Literal -> String
  | .text s => quote s
  | .unpaired => "\"\\ud800\""

def writeScalar : Datum -> String
  | .boolean true => "true"
  | .boolean false => "false"
  | .number n => writeNumeral n
  | .text s => writeLiteral s
  | _ => "null"

mutual

def compact : Datum -> String
  | .list items => "[" ++ compactItems items ++ "]"
  | .table entries => "\x7b" ++ compactEntries entries ++ "\x7d"
  | .null => "null"
  | .boolean b => writeScalar (.boolean b)
  | .number n => writeScalar (.number n)
  | .quantity => "null"
  | .text s => writeLiteral s

def compactItems : List Datum -> String
  | [] => ""
  | [item] => compact item
  | item :: next :: rest => compact item ++ "," ++ compactItems (next :: rest)

def compactEntries : List (Literal × Datum) -> String
  | [] => ""
  | [(key, value)] => writeLiteral key ++ ":" ++ compact value
  | (key, value) :: next :: rest =>
      writeLiteral key ++ ":" ++ compact value ++ "," ++ compactEntries (next :: rest)

end

def newLine (level : Nat) : String :=
  String.ofList ('\n' :: List.replicate (2 * level) ' ')

mutual

def prettyAt (level : Nat) : Datum -> String
  | .list [] => "[]"
  | .list (item :: rest) =>
      "[" ++ prettyItems (level + 1) (item :: rest) ++ newLine level ++ "]"
  | .table [] => "\x7b\x7d"
  | .table (entry :: rest) =>
      "\x7b" ++ prettyEntries (level + 1) (entry :: rest) ++ newLine level ++ "\x7d"
  | .null => "null"
  | .boolean b => writeScalar (.boolean b)
  | .number n => writeScalar (.number n)
  | .quantity => "null"
  | .text s => writeLiteral s

def prettyItems (level : Nat) : List Datum -> String
  | [] => ""
  | [item] => newLine level ++ prettyAt level item
  | item :: next :: rest =>
      newLine level ++ prettyAt level item ++ "," ++ prettyItems level (next :: rest)

def prettyEntries (level : Nat) : List (Literal × Datum) -> String
  | [] => ""
  | [(key, value)] => newLine level ++ writeLiteral key ++ ": " ++ prettyAt level value
  | (key, value) :: next :: rest =>
      newLine level ++ writeLiteral key ++ ": " ++ prettyAt level value ++ "," ++
        prettyEntries level (next :: rest)

end

def pretty (d : Datum) : String :=
  prettyAt 0 d

end Json

end InstanceForge

/-!
# White space, lines and digits

White space has the Unicode property `White_Space`. The lines of a text are told without their
ends: a line ends with a line feed, or a carriage return and a line feed, and an end at the end of
the text begins no further line. Bytes are written as two lower-case hexadecimal digits, and digits
of either case are read back.
-/

namespace InstanceForge

namespace Text

/-! ## White space -/

/-- The Unicode property `White_Space`. -/
def isSpace (c : Char) : Bool :=
  let n := c.toNat
  (9 <= n && n <= 13) || n == 0x20 || n == 0x85 || n == 0xA0 || n == 0x1680 ||
    (0x2000 <= n && n <= 0x200A) || n == 0x2028 || n == 0x2029 || n == 0x202F ||
    n == 0x205F || n == 0x3000

def dropSpaceRight (cs : List Char) : List Char :=
  (cs.reverse.dropWhile isSpace).reverse

def trimChars (cs : List Char) : List Char :=
  dropSpaceRight (cs.dropWhile isSpace)

def trim (s : String) : String :=
  String.ofList (trimChars s.toList)

def isBlank (s : String) : Bool :=
  s.toList.all isSpace

/-! ## Lines -/

/-- The characters before each line feed, and those after the last one. -/
def splitFeeds : List Char -> List (List Char)
  | [] => [[]]
  | c :: rest =>
      if c = '\n' then [] :: splitFeeds rest
      else
        match splitFeeds rest with
        | [] => [[c]]
        | line :: lines => (c :: line) :: lines

def dropReturn (line : List Char) : List Char :=
  if line.getLast? = some '\r' then line.dropLast else line

def lines (cs : List Char) : List (List Char) :=
  let parts := splitFeeds cs
  let ended := parts.dropLast.map dropReturn
  match parts.getLast? with
  | none => ended
  | some [] => ended
  | some last => ended ++ [last]

/-! ## Hexadecimal digits -/

def hexDigit (n : Nat) : Char :=
  if n < 10 then Char.ofNat (48 + n) else Char.ofNat (87 + n)

def hexValue? (c : Char) : Option Nat :=
  let n := c.toNat
  if 48 <= n && n <= 57 then some (n - 48)
  else if 97 <= n && n <= 102 then some (n - 87)
  else if 65 <= n && n <= 70 then some (n - 55)
  else none

/-- A byte as two digits. -/
def hexByte (b : UInt8) : List Char :=
  [hexDigit (b.toNat / 16), hexDigit (b.toNat % 16)]

end Text

end InstanceForge

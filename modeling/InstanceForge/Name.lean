import InstanceForge.Text.Case

/-!
# Names

Type names are written as segments joined by `::` or `.`; capability names are single
identifiers. This module reads the segments of a name and derives from it the spellings that
generated declarations use: a qualified path, a binding in camel case and a name in snake case.
-/

namespace InstanceForge

namespace Name

def isIdentStart (c : Char) : Bool :=
  c.isAlpha || c == '_'

def isIdentRest (c : Char) : Bool :=
  c.isAlphanum || c == '_'

def isIdentChars : List Char -> Bool
  | [] => false
  | c :: rest => isIdentStart c && rest.all isIdentRest

/-- Holds of an ASCII letter or underscore followed by ASCII letters, digits or underscores. -/
def isIdentifier (s : String) : Bool :=
  isIdentChars s.toList

def afterPair : List Char -> Option (List Char)
  | [] => none
  | c :: rest =>
      match afterPair rest with
      | some tail => some tail
      | none =>
          match rest with
          | ':' :: tail => if c = ':' then some tail else none
          | _ => none

/-- What follows the last `.`, or everything. -/
def afterDot : List Char -> List Char
  | [] => []
  | c :: rest => if rest.contains '.' then afterDot rest else if c = '.' then rest else c :: rest

/-- The last segment: what follows the last `::`, and of that what follows the last dot. -/
def simpleChars (cs : List Char) : List Char :=
  afterDot ((afterPair cs).getD cs)

def simple (name : String) : String :=
  String.ofList (simpleChars name.toList)

def consHead (c : Char) : List (List Char) -> List (List Char)
  | [] => [[c]]
  | segment :: rest => (c :: segment) :: rest

/-- The segments between occurrences of `::`, found from the left. -/
def splitPairs : List Char -> List (List Char)
  | [] => [[]]
  | ':' :: ':' :: rest => [] :: splitPairs rest
  | c :: rest => consHead c (splitPairs rest)

def splitDots : List Char -> List (List Char)
  | [] => [[]]
  | c :: rest => if c = '.' then [] :: splitDots rest else consHead c (splitDots rest)

/-- The segments of a type name, both separators counting alike. -/
def segments (cs : List Char) : List (List Char) :=
  (splitPairs cs).flatMap splitDots

def joinPairs (parts : List (List Char)) : List Char :=
  List.intercalate [':', ':'] parts

/-- The name with `::` between its segments, if each of these is an identifier. -/
def path? (name : String) : Option String :=
  let parts := segments name.toList
  if parts.all isIdentChars then some (String.ofList (joinPairs parts)) else none

/-- The last segment with its first character in lower case. -/
def lowerCamel (name : String) : String :=
  match simpleChars name.toList with
  | [] => ""
  | c :: rest => String.ofList (Text.lower c ++ rest)

/--
Whether a word begins at an upper-case character: the character before it is in lower case or
an ASCII digit, or it ends a run of capitals because the next character is in lower case.
-/
def startsWord (before : Char) (after : Option Char) : Bool :=
  Text.isLower before || before.isDigit ||
    (Text.isUpper before && after.any Text.isLower)

/--
Snake case of the characters that are left, given the character before them and whether the
text written so far ends with an underscore.
-/
def snakeFrom : Option Char -> Bool -> List Char -> List Char
  | _, _, [] => []
  | before, underscored, c :: rest =>
      if Text.isUpper c then
        let boundary := before.any (startsWord · rest.head?) && !underscored
        let written := Text.lower c
        let next := snakeFrom (some c) (written.getLast? == some '_') rest
        if boundary then '_' :: (written ++ next) else written ++ next
      else c :: snakeFrom (some c) (c == '_') rest

/-- The name in snake case; a run of capitals stays one word. -/
def snake (name : String) : String :=
  String.ofList (snakeFrom none false name.toList)

end Name

end InstanceForge

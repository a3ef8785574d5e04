import InstanceForge.Text.Basic

/-!
# TOML text

Blanks, comments, the four kinds of strings, and dotted keys.
-/

namespace InstanceForge

namespace Toml

def isBlank (c : Char) : Bool :=
  c == ' ' || c == '\t'

def skipBlanks (cs : List Char) : List Char :=
  cs.dropWhile isBlank

/-- A character that may stand in a comment: no control character but the tab. -/
def isCommentChar (c : Char) : Bool :=
  c == '\t' || (32 <= c.toNat && c.toNat != 127)

def isBasicChar (c : Char) : Bool :=
  isCommentChar c && c != '"' && c != '\\'

def isLiteralChar (c : Char) : Bool :=
  isCommentChar c && c != '\x27'

def newline? : List Char -> Option (List Char)
  | '\n' :: rest => some rest
  | '\r' :: '\n' :: rest => some rest
  | _ => none

def skipComment : List Char -> List Char
  | '#' :: rest => rest.dropWhile isCommentChar
  | cs => cs

def skipLines : List Char -> List Char
  | '\n' :: rest => skipLines rest
  | '\r' :: '\n' :: rest => skipLines rest
  | c :: rest => if isBlank c then skipLines rest else c :: rest
  | [] => []

def skipFillerWithin : Nat -> List Char -> List Char
  | 0, cs => cs
  | n + 1, cs =>
      match skipLines cs with
      | '#' :: rest => skipFillerWithin n (rest.dropWhile isCommentChar)
      | left => left

def skipFiller (cs : List Char) : List Char :=
  skipFillerWithin cs.length cs

/-- What remains after the rest of a line: blanks, a comment, and the end of the line or text. -/
def endLine? (cs : List Char) : Option (List Char) :=
  match skipComment (skipBlanks cs) with
  | [] => some []
  | left => newline? left

def hexChar? (ds : List Char) : Option Char := do
  let values <- ds.mapM Text.hexValue?
  let n := values.foldl (fun acc d => acc * 16 + d) 0
  if n.isValidChar then pure (Char.ofNat n) else none

/-- Reads what follows a backslash: the character that is meant, and what follows the escape. -/
def escape? : List Char -> Option (Char × List Char)
  | 'b' :: rest => some (Char.ofNat 8, rest)
  | 't' :: rest => some ('\t', rest)
  | 'n' :: rest => some ('\n', rest)
  | 'f' :: rest => some (Char.ofNat 12, rest)
  | 'r' :: rest => some ('\r', rest)
  | '"' :: rest => some ('"', rest)
  | '\\' :: rest => some ('\\', rest)
  | 'u' :: a :: b :: c :: d :: rest => (hexChar? [a, b, c, d]).map fun x => (x, rest)
  | 'U' :: a :: b :: c :: d :: e :: f :: g :: h :: rest =>
      (hexChar? [a, b, c, d, e, f, g, h]).map fun x => (x, rest)
  | _ => none

def basicWithin : Nat -> List Char -> Option (List Char × List Char)
  | 0, _ => none
  | _ + 1, [] => none
  | n + 1, c :: rest =>
      if c = '"' then some ([], rest)
      else if c = '\\' then
        match escape? rest with
        | some (x, more) => (basicWithin n more).map fun r => (x :: r.1, r.2)
        | none => none
      else if isBasicChar c then (basicWithin n rest).map fun r => (c :: r.1, r.2)
      else none

def literalString? : List Char -> Option (List Char × List Char)
  | [] => none
  | c :: rest =>
      if c = '\x27' then some ([], rest)
      else if isLiteralChar c then (literalString? rest).map fun r => (c :: r.1, r.2)
      else none

/--
The end of a string over several lines, after `close` quotes: of three to five quotes the
last three close the string, and the others belong to it.
-/
def closing? (q : Char) : List Char -> Option (List Char × List Char)
  | a :: b :: c :: rest =>
      if a = q && b = q && c = q then
        match rest with
        | d :: e :: more =>
            if d = q && e = q then some ([q, q], more)
            else if d = q then some ([q], e :: more)
            else some ([], rest)
        | [d] => if d = q then some ([q], []) else some ([], rest)
        | [] => some ([], [])
      else none
  | _ => none

/-- What remains after a line that ends in a backslash and the blank lines after it. -/
def continuation? (cs : List Char) : Option (List Char) :=
  (newline? (skipBlanks cs)).map skipLines

def multiBasicWithin : Nat -> List Char -> Option (List Char × List Char)
  | 0, _ => none
  | n + 1, cs =>
      match closing? '"' cs with
      | some found => some found
      | none =>
          match cs with
          | [] => none
          | '"' :: rest => (multiBasicWithin n rest).map fun r => ('"' :: r.1, r.2)
          | '\\' :: rest =>
              match continuation? rest with
              | some more => multiBasicWithin n more
              | none =>
                  match escape? rest with
                  | some (x, more) => (multiBasicWithin n more).map fun r => (x :: r.1, r.2)
                  | none => none
          | c :: rest =>
              match newline? (c :: rest) with
              | some more => (multiBasicWithin n more).map fun r => ('\n' :: r.1, r.2)
              | none =>
                  if isBasicChar c then (multiBasicWithin n rest).map fun r => (c :: r.1, r.2)
                  else none

def multiLiteralWithin : Nat -> List Char -> Option (List Char × List Char)
  | 0, _ => none
  | n + 1, cs =>
      match closing? '\x27' cs with
      | some found => some found
      | none =>
          match cs with
          | [] => none
          | c :: rest =>
              match newline? (c :: rest) with
              | some more => (multiLiteralWithin n more).map fun r => ('\n' :: r.1, r.2)
              | none =>
                  if isCommentChar c then
                    (multiLiteralWithin n rest).map fun r => (c :: r.1, r.2)
                  else none

/-- The characters after an end of line right behind the opening quotes. -/
def skipFirstNewline (cs : List Char) : List Char :=
  (newline? cs).getD cs

def string? (cs : List Char) : Option (String × List Char) :=
  let fuel := cs.length + 1
  let found :=
    match cs with
    | '"' :: '"' :: '"' :: rest => multiBasicWithin fuel (skipFirstNewline rest)
    | '"' :: rest => basicWithin fuel rest
    | '\x27' :: '\x27' :: '\x27' :: rest => multiLiteralWithin fuel (skipFirstNewline rest)
    | '\x27' :: rest => literalString? rest
    | _ => none
  found.map fun r => (String.ofList r.1, r.2)

def isBareChar (c : Char) : Bool :=
  c.isAlphanum || c == '_' || c == '-'

/-- Reads one segment of a key: a one-line string, or a word without quotes. -/
def simpleKey? (cs : List Char) : Option (String × List Char) :=
  match cs with
  | '"' :: rest => (basicWithin (rest.length + 1) rest).map fun r => (String.ofList r.1, r.2)
  | '\x27' :: rest => (literalString? rest).map fun r => (String.ofList r.1, r.2)
  | _ =>
      match cs.takeWhile isBareChar with
      | [] => none
      | word => some (String.ofList word, cs.dropWhile isBareChar)

def keyWithin : Nat -> List Char -> Option (List String × List Char)
  | 0, _ => none
  | n + 1, cs =>
      match simpleKey? (skipBlanks cs) with
      | none => none
      | some (name, rest) =>
          match skipBlanks rest with
          | '.' :: more => (keyWithin n more).map fun r => (name :: r.1, r.2)
          | left => some ([name], left)

/-- Keys of this many segments are refused, and so are values nested this deep. -/
def depthLimit : Nat :=
  80

def key? (cs : List Char) : Option (List String × List Char) :=
  match keyWithin (cs.length + 1) cs with
  | some (path, rest) => if path.length < depthLimit then some (path, rest) else none
  | none => none

end Toml

end InstanceForge

import InstanceForge.Name
import InstanceForge.Schema.FieldType
import InstanceForge.Text.Basic

/-!
# Type references

The text form of a field type:

* a type is a path, or a path with arguments `<type, ..., type>`;
* a path is one or more identifiers with `::` or `.` between them.

White space may stand around every token. A path takes arguments only if its last segment is
the name of a known wrapper, and then as many as the wrapper has. Faults carry the characters
that were left when they were met, and from these the byte offset is computed.
-/

namespace InstanceForge

namespace TypeRef

inductive FaultKind where
  | empty
  | expectedIdent
  | expected (c : Char)
  | trailingInput
  | unsupportedGeneric (name : String)
  | wrongArity (wrapper : String) (takes found : Nat)
  deriving DecidableEq

def FaultKind.message : FaultKind -> String
  | empty => "empty type reference"
  | expectedIdent => "expected identifier"
  | expected c => "expected `" ++ String.singleton c ++ "`"
  | trailingInput => "unexpected trailing input"
  | unsupportedGeneric name =>
      "`" ++ name ++ "` is not a supported wrapper; only optional, sequence and map " ++
        "containers take type arguments"
  | wrongArity wrapper takes found =>
      "`" ++ wrapper ++ "` takes " ++ toString takes ++ " type argument(s), found " ++
        toString found

/-- A fault, and the characters that were left where it was met. -/
structure Fault where
  left : List Char
  kind : FaultKind
  deriving DecidableEq

/-- A text that is no type reference, the byte offset of the fault, and its kind. -/
structure ParseError where
  input : String
  offset : Nat
  kind : FaultKind
  deriving DecidableEq

def ParseError.message (e : ParseError) : String :=
  "invalid type reference `" ++ e.input ++ "` at offset " ++ toString e.offset ++ ": " ++
    e.kind.message

def byteLength : List Char -> Nat
  | [] => 0
  | c :: rest => c.utf8Size + byteLength rest

def skipSpace (cs : List Char) : List Char :=
  cs.dropWhile Text.isSpace

def ident (cs : List Char) : Except Fault (List Char × List Char) :=
  match skipSpace cs with
  | [] => .error ⟨[], .expectedIdent⟩
  | c :: rest =>
      if Name.isIdentStart c then
        .ok (c :: rest.takeWhile Name.isIdentRest, rest.dropWhile Name.isIdentRest)
      else .error ⟨c :: rest, .expectedIdent⟩

def separator? : List Char -> Option (List Char × List Char)
  | ':' :: ':' :: rest => some ([':', ':'], rest)
  | '.' :: rest => some (['.'], rest)
  | _ => none

/-- Reads a path of at most so many identifiers, and the white space after it. -/
def pathWithin : Nat -> List Char -> Except Fault (List Char × List Char)
  | 0, cs => .error ⟨cs, .expectedIdent⟩
  | n + 1, cs => do
      let (name, rest) <- ident cs
      match separator? (skipSpace rest) with
      | some (mark, more) =>
          let (tail, left) <- pathWithin n more
          pure (name ++ mark ++ tail, left)
      | none => pure (name, skipSpace rest)

def path (cs : List Char) : Except Fault (List Char × List Char) :=
  pathWithin (cs.length + 1) cs

inductive Wrapper where
  | optional
  | sequence
  | map
  deriving DecidableEq

def Wrapper.arity : Wrapper -> Nat
  | optional => 1
  | sequence => 1
  | map => 2

def optionalNames : List String :=
  ["Option", "Optional"]

def sequenceNames : List String :=
  ["Vec", "VecDeque", "List", "Seq", "Set", "Array", "Vector", "HashSet", "BTreeSet", "IndexSet"]

def mapNames : List String :=
  ["Map", "HashMap", "BTreeMap", "IndexMap"]

/-- The wrapper that a path names by its last segment. -/
def wrapper? (name : String) : Option Wrapper :=
  let last := Name.simple name
  if last ∈ optionalNames then some .optional
  else if last ∈ sequenceNames then some .sequence
  else if last ∈ mapNames then some .map
  else none

/-- Applies the wrapper that a path names; faults are reported where the type began. -/
def wrap (start : List Char) (name : String) (args : List FieldType) : Except Fault FieldType :=
  match wrapper? name with
  | none => .error ⟨start, .unsupportedGeneric name⟩
  | some w =>
      match w, args with
      | .optional, [inner] => .ok (.optional inner)
      | .sequence, [inner] => .ok (.sequence inner)
      | .map, [key, value] => .ok (.map key value)
      | _, _ => .error ⟨start, .wrongArity name w.arity args.length⟩

mutual

/-- Reads a type; the number bounds the depth of the reading. -/
def typeWithin : Nat -> List Char -> Except Fault (FieldType × List Char)
  | 0, cs => .error ⟨cs, .expectedIdent⟩
  | n + 1, cs => do
      let (name, rest) <- path cs
      match rest with
      | '<' :: inner =>
          let (args, left) <- argumentsWithin n inner
          match left with
          | '>' :: more =>
              let type <- wrap cs (String.ofList name) args
              pure (type, more)
          | _ => .error ⟨left, .expected '>'⟩
      | _ => pure (.named (String.ofList name), rest)

def argumentsWithin : Nat -> List Char -> Except Fault (List FieldType × List Char)
  | 0, cs => .error ⟨cs, .expectedIdent⟩
  | n + 1, cs => do
      let (type, rest) <- typeWithin n cs
      match skipSpace rest with
      | ',' :: more =>
          let (types, left) <- argumentsWithin n more
          pure (type :: types, left)
      | left => pure ([type], left)

end

def parseChars (cs : List Char) : Except Fault FieldType :=
  match skipSpace cs with
  | [] => .error ⟨[], .empty⟩
  | start => do
      let (type, rest) <- typeWithin (2 * start.length + 2) start
      match skipSpace rest with
      | [] => pure type
      | left => .error ⟨left, .trailingInput⟩

/-- Reads a type reference; a fault is located by its byte offset. -/
def parse (input : String) : Except ParseError FieldType :=
  match parseChars input.toList with
  | .ok type => .ok type
  | .error fault =>
      .error
        { input := input
          offset := byteLength input.toList - byteLength fault.left
          kind := fault.kind }

end TypeRef

end InstanceForge

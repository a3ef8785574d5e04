import InstanceForge.Document.Toml.Scalar
import InstanceForge.Document.Toml.Table
import InstanceForge.Document.Toml.Text

/-!
# Read TOML

A document is read as sections, each a header with the keys below it, and the sections are
then assembled into one table.
-/

namespace InstanceForge

namespace Toml

mutual

/-- Reads a value inside so many lists and inline tables; the first number bounds the reading. -/
def valueWithin : Nat -> Nat -> List Char -> Option (Datum × List Char)
  | 0, _, _ => none
  | n + 1, depth, cs =>
      match cs with
      | '"' :: _ => (string? cs).map fun r => (Datum.ofString r.1, r.2)
      | '\x27' :: _ => (string? cs).map fun r => (Datum.ofString r.1, r.2)
      | '[' :: rest =>
          if depth + 1 < depthLimit then
            match skipFiller rest with
            | ']' :: more => some (.list [], more)
            | start => (itemsWithin n (depth + 1) start).map fun r => (.list r.1, r.2)
          else none
      | '{' :: rest =>
          if depth + 1 < depthLimit then
            match skipBlanks rest with
            | '}' :: more => some (.table [], more)
            | start =>
                match entriesWithin n (depth + 1) start with
                | none => none
                | some (entries, more) =>
                    (Items.addAll? entries []).map fun items => (.table (Item.entries items), more)
          else none
      | 't' :: 'r' :: 'u' :: 'e' :: rest => some (.boolean true, rest)
      | 'f' :: 'a' :: 'l' :: 's' :: 'e' :: rest => some (.boolean false, rest)
      | _ => scalar? cs

def itemsWithin : Nat -> Nat -> List Char -> Option (List Datum × List Char)
  | 0, _, _ => none
  | n + 1, depth, cs =>
      match valueWithin n depth cs with
      | none => none
      | some (item, rest) =>
          match skipFiller rest with
          | ']' :: more => some ([item], more)
          | ',' :: more =>
              match skipFiller more with
              | ']' :: left => some ([item], left)
              | start => (itemsWithin n depth start).map fun r => (item :: r.1, r.2)
          | _ => none

def entriesWithin : Nat -> Nat -> List Char -> Option (List (List String × Datum) × List Char)
  | 0, _, _ => none
  | n + 1, depth, cs =>
      match key? cs with
      | some (path, '=' :: body) =>
          match valueWithin n depth (skipBlanks body) with
          | none => none
          | some (value, rest) =>
              match skipBlanks rest with
              | '}' :: more => some ([(path, value)], more)
              | ',' :: more => (entriesWithin n depth more).map fun r => ((path, value) :: r.1, r.2)
              | _ => none
      | _ => none

end

def assignment? (cs : List Char) : Option ((List String × Datum) × List Char) :=
  match key? cs with
  | some (path, '=' :: body) =>
      match valueWithin (2 * body.length + 2) 0 (skipBlanks body) with
      | none => none
      | some (value, rest) => (endLine? rest).map fun left => ((path, value), left)
  | _ => none

def header? (cs : List Char) : Option (Header × List Char) :=
  match cs with
  | '[' :: rest =>
      match key? rest with
      | some (path, ']' :: ']' :: more) =>
          (endLine? more).map fun left => (⟨true, path⟩, left)
      | _ => none
  | _ =>
      match key? cs with
      | some (path, ']' :: more) => (endLine? more).map fun left => (⟨false, path⟩, left)
      | _ => none

abbrev Outline := List (List String × Datum) × List Section

def linesWithin : Nat -> List Char -> Option Outline
  | 0, _ => none
  | n + 1, cs =>
      match skipLines cs with
      | [] => some ([], [])
      | '#' :: rest =>
          match endLine? ('#' :: rest) with
          | some left => linesWithin n left
          | none => none
      | '[' :: rest =>
          match header? rest with
          | none => none
          | some (header, left) =>
              (linesWithin n left).map fun r => ([], ⟨header, r.1⟩ :: r.2)
      | start =>
          match assignment? start with
          | none => none
          | some (entry, left) => (linesWithin n left).map fun r => (entry :: r.1, r.2)

def skipMark : List Char -> List Char
  | '\uFEFF' :: rest => rest
  | cs => cs

def read (text : String) : Option Datum :=
  let cs := skipMark text.toList
  match linesWithin (cs.length + 1) cs with
  | some (entries, sections) => assemble? entries sections
  | none => none

end Toml

end InstanceForge

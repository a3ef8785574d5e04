import InstanceForge.Diagnostic.Basic
import InstanceForge.Document.Decoder
import InstanceForge.Document.Json.Printer

/-!
# Diagnostics as JSON

A diagnostic is written as an object; a missing subject and empty lists are left out. It is read
back from an object or a list of its members, where the members that may be left out may also be
written.
-/

namespace InstanceForge

namespace DiagnosticCode

def toDatum (c : DiagnosticCode) : Datum :=
  .ofEntries [("category", .ofString c.category.name), ("number", .ofNat c.number.val)]

def number? (d : Datum) : Option (Fin 65536) :=
  match Decoder.natUpTo 65535 d with
  | some n => if h : n < 65536 then some ⟨n, h⟩ else none
  | none => none

def ofDatum? (d : Datum) : Option DiagnosticCode :=
  match Decoder.members? .json ["category", "number"] d with
  | some [category, number] => do
      let category <- Decoder.required (Decoder.choice .json Category.byName) category
      let number <- Decoder.required number? number
      pure ⟨category, number⟩
  | _ => none

end DiagnosticCode

namespace Diagnostic

def subjectEntry (d : Diagnostic) : List (String × Datum) :=
  match d.subject with
  | some subject => [("subject", .ofString subject)]
  | none => []

/-- The entry for a list of texts, unless the list is empty. -/
def textsEntry (key : String) : List String -> List (String × Datum)
  | [] => []
  | texts => [(key, .ofStrings texts)]

def entries (d : Diagnostic) : List (String × Datum) :=
  [("severity", .ofString d.severity.name), ("code", d.code.toDatum),
      ("message", .ofString d.message)] ++
    d.subjectEntry ++ textsEntry "notes" d.notes ++ textsEntry "help" d.help

def toDatum (d : Diagnostic) : Datum :=
  .ofEntries d.entries

def toJson (d : Diagnostic) : String :=
  Json.compact d.toDatum

def ofDatum? (d : Datum) : Option Diagnostic :=
  match Decoder.members? .json ["severity", "code", "message", "subject", "notes", "help"] d with
  | some [severity, code, message, subject, notes, help] => do
      let severity <- Decoder.required (Decoder.choice .json Severity.byName) severity
      let code <- Decoder.required DiagnosticCode.ofDatum? code
      let message <- Decoder.required Decoder.text message
      let subject <- Decoder.optional Decoder.text subject
      let notes <- Decoder.withDefault [] (Decoder.listOf Decoder.text) notes
      let help <- Decoder.withDefault [] (Decoder.listOf Decoder.text) help
      pure ⟨severity, code, message, subject, notes, help⟩
  | _ => none

def ofJson? (text : String) : Option Diagnostic :=
  match DocumentFormat.json.read text with
  | some d => ofDatum? d
  | none => none

end Diagnostic

end InstanceForge

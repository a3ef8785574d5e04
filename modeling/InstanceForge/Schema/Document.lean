import InstanceForge.Document.Decoder

/-!
# Schema documents

A schema document declares types under the key `types`. Its declarations are taken in the
order of their names, compared byte by byte; of a name that is written more than once the last
declaration counts.
-/

namespace InstanceForge

inductive TypeKind where
  | record
  | enum
  | opaqueType
  deriving DecidableEq

namespace TypeKind

def name : TypeKind -> String
  | record => "record"
  | enum => "enum"
  | opaqueType => "opaque"

def byName : List (String × TypeKind) :=
  [record, enum, opaqueType].map fun k => (k.name, k)

end TypeKind

namespace Schema

/-- A field as a document writes it, its type not yet read. -/
structure WrittenField where
  name : String
  type : String

structure WrittenType where
  kind : TypeKind
  fields : List WrittenField

/-- The types of a document, in the order of their names. -/
abbrev Document := List (String × WrittenType)

namespace Document

def field? (format : DocumentFormat) (d : Datum) : Option WrittenField :=
  match Decoder.members? format ["name", "type"] d with
  | some [name, type] => do
      let name <- Decoder.required Decoder.text name
      let type <- Decoder.required Decoder.text type
      pure ⟨name, type⟩
  | _ => none

def type? (format : DocumentFormat) (d : Datum) : Option WrittenType :=
  match Decoder.members? format ["kind", "fields"] d with
  | some [kind, fields] => do
      let kind <- Decoder.withDefault .record (Decoder.choice format TypeKind.byName) kind
      let fields <- Decoder.withDefault [] (Decoder.listOf (field? format)) fields
      pure ⟨kind, fields⟩
  | _ => none

/-- Puts a type at its place among others, instead of one of the same name. -/
def put (name : String) (type : WrittenType) : Document -> Document
  | [] => [(name, type)]
  | (other, t) :: rest =>
      if name = other then (name, type) :: rest
      else if name < other then (name, type) :: (other, t) :: rest
      else (other, t) :: put name type rest

def types? (format : DocumentFormat) : List (Literal × Datum) -> Document -> Option Document
  | [], doc => some doc
  | (.text name, d) :: rest, doc =>
      match type? format d with
      | some type => types? format rest (put name type doc)
      | none => none
  | (.unpaired, _) :: _, _ => none

def typeTable? (format : DocumentFormat) : Datum -> Option Document
  | .table entries => types? format entries []
  | _ => none

def ofDatum? (format : DocumentFormat) (d : Datum) : Option Document :=
  match Decoder.members? format ["types"] d with
  | some [types] => Decoder.withDefault [] (typeTable? format) types
  | _ => none

def read? (format : DocumentFormat) (text : String) : Option Document :=
  match format.read text with
  | some d => ofDatum? format d
  | none => none

end Document

end Schema

end InstanceForge

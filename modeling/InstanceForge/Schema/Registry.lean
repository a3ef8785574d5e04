import InstanceForge.Schema.Document
import InstanceForge.Schema.TypeRef

/-!
# Type registries

A registry holds the declared types in the order in which they were declared. A name is
declared at most once. A document that fails leaves the types before the failing one declared.
-/

namespace InstanceForge

/-- A declared type; only a record has fields. -/
structure TypeDecl where
  name : String
  kind : TypeKind
  fields : List Field
  deriving DecidableEq

inductive SchemaError where
  | malformed
  | invalidTypeRef (owner field : String) (cause : TypeRef.ParseError)
  | duplicateType (name : String)
  | duplicateField (owner field : String)
  | fieldsOnNonRecord (name : String)
  deriving DecidableEq

def SchemaError.message : SchemaError -> String
  | malformed => "failed to parse schema: not a schema document"
  | invalidTypeRef owner field cause =>
      "field `" ++ owner ++ "." ++ field ++ "`: " ++ cause.message
  | duplicateType name => "type `" ++ name ++ "` is declared more than once"
  | duplicateField owner field =>
      "type `" ++ owner ++ "` declares field `" ++ field ++ "` more than once"
  | fieldsOnNonRecord name =>
      "type `" ++ name ++ "` is not a record and cannot declare fields"

/-- The declared types in the order of their declaration. -/
structure Registry where
  decls : List TypeDecl
  deriving DecidableEq

namespace Registry

/-- Names that stand for opaque types without a declaration. -/
def builtinNames : List String :=
  ["bool", "char", "str", "String", "u8", "u16", "u32", "u64", "u128", "usize", "i8", "i16",
    "i32", "i64", "i128", "isize", "f32", "f64", "Boolean", "Byte", "Short", "Int", "Integer",
    "Long", "Float", "Double", "Char", "BigInt", "BigDecimal", "Unit"]

def empty : Registry :=
  ⟨[]⟩

def size (r : Registry) : Nat :=
  r.decls.length

def names (r : Registry) : List String :=
  r.decls.map (·.name)

def get? (r : Registry) (name : String) : Option TypeDecl :=
  r.decls.find? fun d => d.name == name

/-- The kind of a declared or builtin name; a declaration goes before a builtin. -/
def kindOf? (r : Registry) (name : String) : Option TypeKind :=
  match r.get? name with
  | some d => some d.kind
  | none => if name ∈ builtinNames then some .opaqueType else none

def declare (r : Registry) (d : TypeDecl) : Except SchemaError Registry :=
  match r.get? d.name with
  | some _ => .error (.duplicateType d.name)
  | none => .ok ⟨r.decls ++ [d]⟩

/-- The first field name that occurred before, the names before it given. -/
def repeatedField? : List String -> List Field -> Option String
  | _, [] => none
  | seen, f :: rest => if f.name ∈ seen then some f.name else repeatedField? (f.name :: seen) rest

/-- Declares a record; its field names are checked before its own name. -/
def declareRecord (r : Registry) (name : String) (fields : List Field) :
    Except SchemaError Registry :=
  match repeatedField? [] fields with
  | some field => .error (.duplicateField name field)
  | none => r.declare ⟨name, .record, fields⟩

def declareEnum (r : Registry) (name : String) : Except SchemaError Registry :=
  r.declare ⟨name, .enum, []⟩

def declareOpaque (r : Registry) (name : String) : Except SchemaError Registry :=
  r.declare ⟨name, .opaqueType, []⟩

def readFields (owner : String) : List Schema.WrittenField -> Except SchemaError (List Field)
  | [] => .ok []
  | f :: rest =>
      match TypeRef.parse f.type with
      | .error cause => .error (.invalidTypeRef owner f.name cause)
      | .ok type =>
          match readFields owner rest with
          | .error e => .error e
          | .ok fields => .ok (⟨f.name, type⟩ :: fields)

def declareWritten (r : Registry) (name : String) (t : Schema.WrittenType) :
    Except SchemaError Registry :=
  match t.kind with
  | .record =>
      match readFields name t.fields with
      | .error e => .error e
      | .ok fields => r.declareRecord name fields
  | .enum => if t.fields.isEmpty then r.declareEnum name else .error (.fieldsOnNonRecord name)
  | .opaqueType =>
      if t.fields.isEmpty then r.declareOpaque name else .error (.fieldsOnNonRecord name)

/-- Declares the types of a document up to the first that is refused. -/
def addTypes (r : Registry) : Schema.Document -> Registry × Option SchemaError
  | [] => (r, none)
  | (name, t) :: rest =>
      match r.declareWritten name t with
      | .error e => (r, some e)
      | .ok next => next.addTypes rest

def addDocument (r : Registry) (format : DocumentFormat) (text : String) :
    Registry × Option SchemaError :=
  match Schema.Document.read? format text with
  | none => (r, some .malformed)
  | some doc => r.addTypes doc

/-- Merges a document that has to be accepted as a whole. -/
def extend (r : Registry) (format : DocumentFormat) (text : String) :
    Except SchemaError Registry :=
  match r.addDocument format text with
  | (next, none) => .ok next
  | (_, some e) => .error e

def ofDocument (format : DocumentFormat) (text : String) : Except SchemaError Registry :=
  empty.extend format text

end Registry

end InstanceForge

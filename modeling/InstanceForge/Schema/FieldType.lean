/-!
# Field types

The declared type of a field: a named type, or a wrapper around other field types.
-/

namespace InstanceForge

/-- A named type, an optional value, a sequence of values, or a map from keys to values. -/
inductive FieldType where
  | named (name : String)
  | optional (inner : FieldType)
  | sequence (inner : FieldType)
  | map (key value : FieldType)
  deriving DecidableEq

namespace FieldType

/-- The names that are left when all wrappers are peeled off, a map's key before its value. -/
def innermost : FieldType -> List String
  | named name => [name]
  | optional inner => inner.innermost
  | sequence inner => inner.innermost
  | map key value => key.innermost ++ value.innermost

/-- The written form, with one spelling for each wrapper. -/
def render : FieldType -> String
  | named name => name
  | optional inner => "Option<" ++ inner.render ++ ">"
  | sequence inner => "Vec<" ++ inner.render ++ ">"
  | map key value => "Map<" ++ key.render ++ ", " ++ value.render ++ ">"

end FieldType

structure Field where
  name : String
  type : FieldType
  deriving DecidableEq

end InstanceForge

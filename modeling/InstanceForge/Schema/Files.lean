import InstanceForge.Files.Workspace
import InstanceForge.Schema.Registry

/-!
# Schema files

Schema files are merged in order. The ending of a file's name tells its format; it is looked at
only after the file has been read.
-/

namespace InstanceForge

inductive SchemaFileError where
  | unreadable (path : String) (fault : FileFault)
  | unsupportedFormat (path : String)
  | refused (cause : SchemaError)
  deriving DecidableEq

def SchemaFileError.message : SchemaFileError -> String
  | unreadable path fault => "failed to read schema file " ++ path ++ ": " ++ fault.message
  | unsupportedFormat path =>
      "unsupported schema file format: " ++ path ++ " (expected .toml or .json)"
  | refused cause => cause.message

def DocumentFormat.ofPath? (path : String) : Option DocumentFormat :=
  match Path.extension? path with
  | some "toml" => some .toml
  | some "json" => some .json
  | _ => none

namespace Registry

/-- Merges the text of a schema file, or fails as the file failed to be read. -/
def extendFile (r : Registry) (path : String) :
    Except FileFault String -> Except SchemaFileError Registry
  | .error fault => .error (.unreadable path fault)
  | .ok text =>
      match DocumentFormat.ofPath? path with
      | none => .error (.unsupportedFormat path)
      | some format =>
          match r.extend format text with
          | .error cause => .error (.refused cause)
          | .ok next => .ok next

variable {m : Type -> Type} [Monad m] [FileReader m]

def extendFiles (r : Registry) : List String -> m (Except SchemaFileError Registry)
  | [] => pure (.ok r)
  | path :: rest => do
      match r.extendFile path (<- FileReader.readText path) with
      | .error e => pure (.error e)
      | .ok next => next.extendFiles rest

def ofFiles (paths : List String) : m (Except SchemaFileError Registry) :=
  empty.extendFiles paths

end Registry

end InstanceForge

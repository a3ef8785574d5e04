import InstanceForge.Command.Plan
import InstanceForge.Config.Basic

/-!
# The command that starts a project

Writes a configuration and a schema file to begin with, if neither is there.
-/

namespace InstanceForge

namespace Starter

def schemaFile : String :=
  "schema/models.toml"

def starterConfig : String :=
  "[generation]\nroot = \"Order\"\ncapabilities = [\"Encoder\", \"Decoder\"]\nmode = \"shared\"\n" ++
    "import_hints = [\"crate::models::*\"]\n\n[schema]\npaths = [\"schema/models.toml\"]\n\n" ++
    "[derive]\ntemplate = \"derive::\x7bcapability_snake\x7d::<\x7btype\x7d>()\"\n\n" ++
    "[output]\npath = \"src/cached_instances.rs\"\nformat = \"rust\"\n"

def fieldLine (name type : String) : String :=
  "  \x7b name = \"" ++ name ++ "\", type = \"" ++ type ++ "\" \x7d,\n"

def recordLines (name : String) (fields : List (String × String)) : String :=
  "[types." ++ name ++ "]\nfields = [\n" ++
    String.join (fields.map fun f => fieldLine f.1 f.2) ++ "]\n\n"

def starterSchema : String :=
  recordLines "Order"
      [("id", "u64"), ("customer", "Customer"), ("lines", "Vec<OrderLine>"),
        ("status", "Status")] ++
    recordLines "Customer" [("name", "String"), ("address", "Option<Address>")] ++
    recordLines "OrderLine" [("sku", "String"), ("quantity", "u32")] ++
    recordLines "Address" [("street", "String"), ("city", "String")] ++
    "[types.Status]\nkind = \"enum\"\n"

def files (directory : String) : List (String × String) :=
  [(Path.join directory Config.fileName, starterConfig),
    (Path.join directory schemaFile, starterSchema)]

/-- The plan to write files that are missing, after the directory of the schema file. -/
def scaffold (g : Globals) (directory : String) : Plan :=
  let above := (Path.parent? (Path.join directory schemaFile)).toList.map .makeDirectories
  { changes := above ++ (files directory).map fun f => .create f.1 f.2
    preface := ""
    done :=
      { exit := 0
        stdout := ""
        stderr := g.aside
          (String.join ((files directory).map fun f => "     Created " ++ f.1 ++ "\n")) } }

variable {m : Type -> Type} [Monad m] [FileReader m]

def firstPresent? : List String -> m (Option String)
  | [] => pure none
  | path :: rest => do
      if <- FileReader.isPresent path then pure (some path) else firstPresent? rest

def planIn (g : Globals) (directory : String) : m Plan := do
  match <- firstPresent? ((files directory).map (·.1)) with
  | some path => pure (.failure "" (path ++ " already exists"))
  | none => pure (scaffold g directory)

/-- The plan of the command, in a given directory or the current one. -/
def plan (g : Globals) : Option String -> m Plan
  | some directory => planIn g directory
  | none => do planIn g (<- FileReader.currentPath)

end Starter

end InstanceForge

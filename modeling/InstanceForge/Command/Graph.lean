import InstanceForge.Command.Plan
import InstanceForge.Config.Project
import InstanceForge.Config.Resolve
import InstanceForge.Schema.Files

/-!
# The command that prints a graph

Prints the composite types that the root reaches, one on a line with those that its fields refer
to, or as JSON.
-/

namespace InstanceForge

inductive ReportFormat where
  | text
  | json
  deriving DecidableEq

namespace ReportFormat

def name : ReportFormat -> String
  | text => "text"
  | json => "json"

def byName : List (String × ReportFormat) :=
  [text, json].map fun f => (f.name, f)

end ReportFormat

structure GraphOptions where
  root : Option String
  format : ReportFormat
  deriving DecidableEq

namespace Graph

/-- A number, with blanks in front to make it three characters wide. -/
def column (n : Nat) : String :=
  let digits := Nat.toDigits 10 n
  String.ofList (List.replicate (3 - digits.length) ' ' ++ digits)

def line (g : TypeGraph) (index : Nat) (node : TypeNode) : String :=
  match (g.children index).map (·.typeName) with
  | [] => column index ++ "  " ++ node.typeName ++ "\n"
  | children =>
      column index ++ "  " ++ node.typeName ++ " -> " ++ String.intercalate ", " children ++ "\n"

def linesFrom (g : TypeGraph) (index : Nat) : List TypeNode -> String
  | [] => ""
  | node :: rest => line g index node ++ linesFrom g (index + 1) rest

def render (format : ReportFormat) (g : TypeGraph) : String :=
  match format with
  | .text => linesFrom g 0 g.nodes
  | .json => Json.pretty g.toDatum ++ "\n"

def reportText (g : Globals) (format : ReportFormat) (ds : List Diagnostic) : String :=
  match format with
  | .text => g.textReport ds
  | .json => g.jsonReport ds

def outcome (g : Globals) (format : ReportFormat) (root : String) (types : Registry) : Outcome :=
  match TypeGraph.discover types.provider root (types.finitelyReaches root) with
  | .error e => { exit := 1, stdout := "", stderr := reportText g format [e.diagnostic] }
  | .ok graph => { exit := 0, stdout := render format graph, stderr := "" }

variable {m : Type -> Type} [Monad m] [FileReader m]

def plan (g : Globals) (options : GraphOptions) : m Plan := do
  match <- Project.load g.config with
  | .error e => pure (.failure "" e.message)
  | .ok project =>
      let root := options.root.getD project.config.root
      match <- Registry.ofFiles (project.config.schemaFiles project.directory) with
      | .error e => pure (.failure "" e.message)
      | .ok types => pure (.report (outcome g options.format root types))

end Graph

end InstanceForge

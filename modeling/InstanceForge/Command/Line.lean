import InstanceForge.Command.Generate
import InstanceForge.Command.Graph
import InstanceForge.Command.Options
import InstanceForge.Command.Starter

/-!
# Command lines

Options that all commands share stand before the name of the command or after it; after it they
go before those in front of it.
-/

namespace InstanceForge

/-! ## Commands -/

inductive Command where
  | init (directory : Option String)
  | generate (options : GenerateOptions)
  | graph (options : GraphOptions)
  deriving DecidableEq

namespace Command

variable {m : Type -> Type} [Monad m] [FileReader m]

def plan (g : Globals) : Command -> m Plan
  | init directory => Starter.plan g directory
  | generate options => Generate.plan g options
  | graph options => Graph.plan g options

end Command

def Workspace.run (w : Workspace) (g : Globals) (c : Command) : Outcome × Workspace :=
  w.carryOut ((c.plan g : ReaderM Workspace Plan).run w)

/-! ## Reading the arguments -/

structure Invocation where
  globals : Globals
  command : Command
  deriving DecidableEq

namespace CommandLine

/-- When output is coloured: always, never, or if it goes to a terminal. -/
inductive Colour where
  | auto
  | always
  | never
  deriving DecidableEq

namespace Colour

def byName : List (String × Colour) :=
  [("auto", auto), ("always", always), ("never", never)]

def isOn (terminal : Bool) : Colour -> Bool
  | auto => terminal
  | always => true
  | never => false

end Colour

def sharedRules : List OptionRule :=
  [⟨"quiet", some 'q', .flag⟩, ⟨"verbose", some 'v', .flag⟩,
    ⟨"color", none, .choice (Colour.byName.map (·.1))⟩, ⟨"config", none, .value⟩,
    ⟨"help", some 'h', .help⟩]

def leadingRules : List OptionRule :=
  sharedRules ++ [⟨"version", some 'V', .version⟩]

def generateRules : List OptionRule :=
  sharedRules ++
    [⟨"root", some 'r', .value⟩, ⟨"capability", some 'c', .values⟩,
      ⟨"mode", some 'm', .choice (Scope.byName.map (·.1))⟩,
      ⟨"format", some 'f', .choice (OutputFormat.byName.map (·.1))⟩,
      ⟨"output", some 'o', .value⟩, ⟨"check", none, .flag⟩]

def graphRules : List OptionRule :=
  sharedRules ++
    [⟨"root", some 'r', .value⟩, ⟨"format", some 'f', .choice (ReportFormat.byName.map (·.1))⟩]

/-- The shared settings of given options, those that go first in front. -/
def globals (terminal : Bool) (given : List GivenOption) : Globals :=
  let colour := (Options.chosen? Colour.byName given "color").getD .auto
  { quiet := Options.has given "quiet"
    verbose := Options.has given "verbose"
    coloured := colour.isOn terminal
    config := Options.value? given "config" }

def generateOptions (given : List GivenOption) : GenerateOptions :=
  { overrides :=
      { root := Options.value? given "root"
        capabilities := Options.values given "capability"
        scope := Options.chosen? Scope.byName given "mode"
        format := Options.chosen? OutputFormat.byName given "format"
        outputPath := Options.value? given "output" }
    check := Options.has given "check" }

def graphOptions (given : List GivenOption) : GraphOptions :=
  { root := Options.value? given "root"
    format := (Options.chosen? ReportFormat.byName given "format").getD .text }

/-- What asking for help stops with: help for no command or one that there is. -/
def helpFor : List String -> ArgumentStop
  | [] => .help
  | [name] => if name ∈ ["init", "generate", "graph", "help"] then .help else .usage
  | _ => .usage

def command (name : String) (args : List String) :
    Except ArgumentStop (List GivenOption × Command) :=
  match name with
  | "init" =>
      (Options.all sharedRules 1 none [] args).map fun r => (r.1, .init r.2.head?)
  | "generate" =>
      (Options.all generateRules 0 none [] args).map fun r => (r.1, .generate (generateOptions r.1))
  | "graph" =>
      (Options.all graphRules 0 none [] args).map fun r => (r.1, .graph (graphOptions r.1))
  | "help" => .error (helpFor args)
  | _ => .error .usage

def read (terminal : Bool) (args : List String) : Except ArgumentStop Invocation :=
  match Options.leading leadingRules none [] args with
  | .error stop => .error stop
  | .ok (_, []) => .error .usage
  | .ok (leading, name :: rest) =>
      match command name rest with
      | .error stop => .error stop
      | .ok (given, c) => .ok ⟨globals terminal (given ++ leading), c⟩

def usage : String :=
  "Memoized capability instance generator\n\nUsage: cachegen [OPTIONS] <COMMAND>\n\nCommands:\n" ++
    "  init [DIR]  Create a starter `cachegen.toml` and schema file\n" ++
    "  generate    Generate the memoized declarations\n" ++
    "  graph       Print the composite types reachable from the root\n\nOptions:\n" ++
    "  -q, --quiet            Suppress all output except errors\n" ++
    "  -v, --verbose          Enable verbose output\n" ++
    "      --color <COLOR>    Control colored output [auto, always, never]\n" ++
    "      --config <CONFIG>  Path to a configuration file or its directory\n" ++
    "  -h, --help             Print help\n  -V, --version          Print version\n"

def stopped : ArgumentStop -> Outcome
  | .help => { exit := 0, stdout := usage, stderr := "" }
  | .version => { exit := 0, stdout := "cachegen 0.1.0\n", stderr := "" }
  | .usage => { exit := 2, stdout := "", stderr := usage }

variable {m : Type -> Type} [Monad m] [FileReader m]

def plan (terminal : Bool) (args : List String) : m Plan :=
  match read terminal args with
  | .error stop => pure (.report (stopped stop))
  | .ok invocation => invocation.command.plan invocation.globals

end CommandLine

/-- Runs the program on a workspace, with its arguments; no output goes to a terminal. -/
def Workspace.runArguments (w : Workspace) (args : List String) : Outcome × Workspace :=
  w.carryOut ((CommandLine.plan false args : ReaderM Workspace Plan).run w)

end InstanceForge

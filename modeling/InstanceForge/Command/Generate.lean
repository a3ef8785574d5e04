import InstanceForge.Command.Plan
import InstanceForge.Config.Project
import InstanceForge.Config.Resolve
import InstanceForge.Schema.Files

/-!
# The command that generates

Loads the project and its schema files, runs the request, and writes the rendered text to the
output path or the standard output. With a check it compares the text with the output path
instead.
-/

namespace InstanceForge

structure GenerateOptions where
  overrides : Overrides
  check : Bool
  deriving DecidableEq

namespace Generate

def announcement (request : Request) : String :=
  "  Generating `" ++ request.root ++ "` (" ++ request.scope.name ++ ", " ++
    toString request.capabilities.length ++ " capability(ies))\n"

def summary (output : RunOutput) : String :=
  toString output.manifest.declarations.size ++ " declaration(s) for " ++
    toString output.graph.size ++ " type(s)"

/-- The fingerprint that a text is stamped with, as it is shown. -/
def shownStamp (text : String) : String :=
  match Stamp.read? text with
  | some f => f.toHex
  | none => "none"

/-- The outcome of comparing a rendered text with what a file holds, if it holds text. -/
def compare (g : Globals) (preface path text : String) (existing : Option String) : Outcome :=
  if existing = some text then
    { exit := 0, stdout := "", stderr := preface ++ g.aside ("     " ++ path ++ " is up to date\n") }
  else
    .failure preface
      (path ++ " is stale (fingerprint " ++ (existing.map shownStamp).getD "none" ++
        ", expected " ++ shownStamp text ++ "); rerun `cachegen generate`")

/-- The changes that write a text to a path, with the directory that it is in. -/
def writing (path text : String) : List FileChange :=
  match Path.parent? path with
  | some "" => [.write path text]
  | some directory => [.makeDirectories directory, .write path text]
  | none => [.write path text]

/-- What is done with a rendered text that is not checked. -/
def deliver (g : Globals) (preface : String) (output : RunOutput) : Option String -> Plan
  | some path =>
      { changes := writing path output.text
        preface := preface
        done :=
          { exit := 0
            stdout := ""
            stderr := preface ++
              g.aside ("     Wrote " ++ summary output ++ " to " ++ path ++ "\n") } }
  | none =>
      .report
        { exit := 0
          stdout := output.text
          stderr := preface ++ g.aside ("     Generated " ++ summary output ++ "\n") }

variable {m : Type -> Type} [Monad m] [FileReader m]

/-- What is done with a rendered text that is checked. -/
def inspect (g : Globals) (preface : String) (output : RunOutput) : Option String -> m Plan
  | some path => do
      let existing := (<- FileReader.readText path).toOption
      pure (.report (compare g preface path output.text existing))
  | none =>
      pure (.failure preface "--check needs an output path (`output.path` or `--output`)")

/-- The part of the command that follows the schema files. -/
def planRun (g : Globals) (check : Bool) (resolved : ResolvedConfig) (types : Registry) :
    m Plan :=
  let report :=
    Run.report resolved.request types resolved.engine resolved.format.emitter
      (DiagnosticSink.empty.emitAll resolved.diagnostics)
  let preface := g.aside (announcement resolved.request) ++ g.textReport report.sink.held
  match report.output with
  | none => pure (.report { exit := 1, stdout := "", stderr := preface })
  | some output =>
      if check then inspect g preface output resolved.outputPath
      else pure (deliver g preface output resolved.outputPath)

def plan (g : Globals) (options : GenerateOptions) : m Plan := do
  match <- Project.load g.config with
  | .error e => pure (.failure "" e.message)
  | .ok project =>
      match project.config.resolve options.overrides project.directory with
      | .error e => pure (.failure "" e.message)
      | .ok resolved =>
          match <- Registry.ofFiles resolved.schemaPaths with
          | .error e => pure (.failure "" e.message)
          | .ok types => planRun g options.check resolved types

end Generate

end InstanceForge

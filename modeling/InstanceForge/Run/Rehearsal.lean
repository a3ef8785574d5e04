import InstanceForge.Config.Document
import InstanceForge.Config.Resolve

/-!
# Rehearsals

Whole runs from texts: a schema in TOML, and either a configuration or a plain request. No file
is read or written.
-/

namespace InstanceForge

inductive RehearsalError where
  | config (cause : ConfigError)
  | schema (cause : SchemaError)
  deriving DecidableEq

namespace Rehearsal

/-- The schema that is rehearsed with if none is given. -/
def sampleSchema : String :=
  "\n[types.TestWrapperClass]\nfields = [\n" ++
    "  \x7b name = \"testClass1\", type = \"TestClass1\" \x7d,\n" ++
    "  \x7b name = \"testClass2\", type = \"Option<TestClass2>\" \x7d,\n]\n\n" ++
    "[types.TestClass1]\nfields = [\x7b name = \"list\", type = \"Vec<TestClass3>\" \x7d]\n\n" ++
    "[types.TestClass2]\nfields = [\x7b name = \"value\", type = \"String\" \x7d]\n\n" ++
    "[types.TestClass3]\nfields = [\x7b name = \"value\", type = \"Int\" \x7d]\n\n" ++
    "[types.TestClass]\nfields = [\x7b name = \"name\", type = \"String\" \x7d]\n"

/-- The run of a configuration, its schema files replaced by a text. -/
def ofConfig (config schema directory : String) : Except RehearsalError Run.Report :=
  match (Config.ofText config).bind fun c => c.resolve .none directory with
  | .error cause => .error (.config cause)
  | .ok resolved =>
      match Registry.ofDocument .toml schema with
      | .error cause => .error (.schema cause)
      | .ok types =>
          .ok (Run.report resolved.request types resolved.engine resolved.format.emitter
            (DiagnosticSink.empty.emitAll resolved.diagnostics))

/-- The run of a request, with the standard template and rendered as source text. -/
def ofRequest (schema : String) (request : Request) : Except RehearsalError Run.Report :=
  match Registry.ofDocument .toml schema with
  | .error cause => .error (.schema cause)
  | .ok types =>
      .ok (Run.report request types (Engine.ofTemplate Template.standard)
        OutputFormat.rust.emitter DiagnosticSink.empty)

end Rehearsal

end InstanceForge

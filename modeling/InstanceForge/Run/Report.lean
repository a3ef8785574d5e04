import InstanceForge.Diagnostic.Sink
import InstanceForge.Run.Basic

/-!
# Reports of runs

The diagnostic for each way in which a run fails. Its code tells the stage: `E001` the type
graph, `E002` and `E003` the planned declarations, `E004` the initializers, `E005` the
rendering. `W001` is for import hints that a run does not use.
-/

namespace InstanceForge

namespace DiagnosticCode

def unsupportedType : DiagnosticCode := ⟨.error, 1⟩

def noCapabilities : DiagnosticCode := ⟨.error, 2⟩

def duplicateIdentifier : DiagnosticCode := ⟨.error, 3⟩

def failedDerivation : DiagnosticCode := ⟨.error, 4⟩

def failedRendering : DiagnosticCode := ⟨.error, 5⟩

def ignoredImportHints : DiagnosticCode := ⟨.warning, 1⟩

end DiagnosticCode

namespace Refusal

def notes : Refusal -> List String
  | cyclic _ => ["memoized instances can only be generated for acyclic type graphs"]
  | _ => []

def help : Refusal -> List String
  | notComposite => ["choose a record type with declared fields as the root"]
  | unresolved _ => ["declare the type in one of the configured schema files"]
  | cyclic _ => ["break the cycle or generate the cyclic types by hand"]

end Refusal

def GraphError.diagnostic (e : GraphError) : Diagnostic :=
  { severity := .error
    code := .unsupportedType
    message := e.message
    subject := some e.typeName
    notes := e.reason.notes
    help := e.reason.help }

def PlanError.diagnostic (e : PlanError) : Diagnostic :=
  match e with
  | emptyCapabilitySet =>
      { Diagnostic.bare .error .noCapabilities e.message with
        help := ["list at least one capability in `generation.capabilities` or pass " ++
          "`--capability`"] }
  | duplicateIdentifier identifier existingType _ conflictingType _ =>
      let d := { Diagnostic.bare .error .duplicateIdentifier e.message with
        subject := some identifier }
      if existingType = conflictingType then
        { d with help := ["remove the repeated capability name"] }
      else
        { d with
          notes := ["identifiers are built from the simple type name"]
          help := ["rename `" ++ existingType ++ "` or `" ++ conflictingType ++
            "` so their simple names differ"] }

def DerivationError.help : DerivationError -> List String
  | unsupported _ => []
  | _ =>
      ["placeholders are \x7btype\x7d, \x7bsimple\x7d, \x7bbinding\x7d, \x7bcapability\x7d and " ++
        "\x7bcapability_snake\x7d; write \x7b\x7b and \x7d\x7d for literal braces"]

def DerivationError.diagnostic (e : DerivationError) (typeName capability : String) :
    Diagnostic :=
  { severity := .error
    code := .failedDerivation
    message := "cannot derive `" ++ capability ++ "` for `" ++ typeName ++ "`: " ++ e.message
    subject := some (typeName ++ " / " ++ capability)
    notes := []
    help := e.help }

def EmitError.diagnostic (e : EmitError) : Diagnostic :=
  let d := Diagnostic.bare .error .failedRendering ("cannot render output: " ++ e.message)
  match e with
  | invalidIdentifier _ => d
  | invalidTypePath _ =>
      { d with help := ["select the `json` output format for names that are not Rust paths"] }
  | duplicateName name _ _ =>
      { d with
        subject := some name
        help := ["rename one of the capabilities so the names differ by more than case"] }
  | broken _ => { d with notes := ["this is a bug in cachegen"] }

def RunError.diagnostic : RunError -> Diagnostic
  | graph cause => cause.diagnostic
  | plan cause => cause.diagnostic
  | derivation typeName capability cause => cause.diagnostic typeName capability
  | emit cause => cause.diagnostic

namespace Run

/-- The warning about import hints that a run beside a type does not use. -/
def ignoredHints (count : Nat) : Diagnostic :=
  { Diagnostic.bare .warning .ignoredImportHints
      (toString count ++ " import hint(s) ignored in local mode") with
    help := ["import hints only apply to shared mode; remove `generation.import_hints`"] }

/-- A finished run: its output unless it failed, and what is reported about it. -/
structure Report where
  output : Option RunOutput
  sink : DiagnosticSink

/-- Runs a request against a registry; a failure is reported after what is held already. -/
def report (request : Request) (types : Registry) (engine : Engine) (emitter : Emitter)
    (sink : DiagnosticSink) : Report :=
  match run request types.provider (fun _ => types.finitelyReaches request.root) engine emitter with
  | .ok output => ⟨some output, sink⟩
  | .error e => ⟨none, sink.emit e.diagnostic⟩

namespace Report

def identifiers (r : Report) : List String :=
  match r.output with
  | some output => output.manifest.declarations.declarations.map (·.declaration.identifier)
  | none => []

def text (r : Report) : String :=
  match r.output with
  | some output => output.text
  | none => ""

end Report

end Run

end InstanceForge

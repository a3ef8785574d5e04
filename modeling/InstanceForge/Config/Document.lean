import InstanceForge.Config.Basic
import InstanceForge.Document.Decoder

/-!
# Configuration documents

A configuration is read from a TOML document with the sections `generation`, `schema`, `derive`
and `output`. Only the first is required, and in it only the root.
-/

namespace InstanceForge

namespace Config

structure GenerationSection where
  root : String
  capabilities : List String
  scope : Scope
  importHints : List String

structure OutputSection where
  path : Option String
  format : OutputFormat

def generation? (d : Datum) : Option GenerationSection :=
  match Decoder.membersFrom? .toml 1 ["root", "capabilities", "mode", "import_hints"] d with
  | some [root, capabilities, scope, hints] => do
      let root <- Decoder.required Decoder.text root
      let capabilities <- Decoder.withDefault [] (Decoder.listOf Decoder.text) capabilities
      let scope <- Decoder.withDefault .shared (Decoder.choice .toml Scope.byName) scope
      let hints <- Decoder.withDefault [] Decoder.textOrTexts hints
      pure ⟨root, capabilities, scope, hints⟩
  | _ => none

def schemaPaths? (d : Datum) : Option (List String) :=
  match Decoder.members? .toml ["paths"] d with
  | some [paths] => Decoder.withDefault [] Decoder.textOrTexts paths
  | _ => none

def template? (d : Datum) : Option (Option String) :=
  match Decoder.membersFrom? .toml 1 ["template"] d with
  | some [template] => Decoder.optional Decoder.text template
  | _ => none

def output? (d : Datum) : Option OutputSection :=
  match Decoder.membersFrom? .toml 1 ["path", "format"] d with
  | some [path, format] => do
      let path <- Decoder.optional Decoder.text path
      let format <-
        Decoder.withDefault .rust (Decoder.choice .toml OutputFormat.byName) format
      pure ⟨path, format⟩
  | _ => none

def ofDatum? (d : Datum) : Option Config :=
  match Decoder.members? .toml ["generation", "schema", "derive", "output"] d with
  | some [generation, schema, derivation, output] => do
      let generation <- Decoder.required generation? generation
      let paths <- Decoder.withDefault [] schemaPaths? schema
      let template <- Decoder.withDefault none template? derivation
      let output <- Decoder.withDefault ⟨none, .rust⟩ output? output
      pure
        { root := generation.root
          capabilities := generation.capabilities
          scope := generation.scope
          importHints := generation.importHints
          schemaPaths := paths
          template := template
          outputPath := output.path
          format := output.format }
  | _ => none

/-- Reads a configuration from its text, and validates it. -/
def ofText (text : String) : Except ConfigError Config :=
  match (DocumentFormat.toml.read text).bind ofDatum? with
  | some c => c.validate
  | none => .error .malformed

end Config

end InstanceForge

import InstanceForge.Config.Basic
import InstanceForge.Files.Path
import InstanceForge.Run.Report

/-!
# Resolved configurations

A configuration and the settings that go before it give a request and the paths to work on. Paths
of the configuration are below the project's directory; an output path that goes before it stays
as it is.
-/

namespace InstanceForge

/-- Settings that go before those of a configuration; no capabilities say nothing. -/
structure Overrides where
  root : Option String
  capabilities : List String
  scope : Option Scope
  format : Option OutputFormat
  outputPath : Option String
  deriving DecidableEq

def Overrides.none : Overrides :=
  { root := .none, capabilities := [], scope := .none, format := .none, outputPath := .none }

/-- A request with the paths to work on, and how many import hints it left out. -/
structure ResolvedConfig where
  request : Request
  schemaPaths : List String
  template : Option String
  outputPath : Option String
  format : OutputFormat
  ignoredHints : Nat
  deriving DecidableEq

namespace ResolvedConfig

def warningMessage (count : Nat) : String :=
  toString count ++ " import hint(s) ignored: import hints only apply to shared mode"

def diagnostics (r : ResolvedConfig) : List Diagnostic :=
  if r.ignoredHints = 0 then [] else [Run.ignoredHints r.ignoredHints]

/-- The engine that fills in the configured template, or the standard one. -/
def engine (r : ResolvedConfig) : Engine :=
  Engine.ofTemplate (r.template.getD Template.standard)

end ResolvedConfig

namespace Config

def overridesError? (o : Overrides) : Option ConfigError :=
  match o.root.bind rootError? with
  | some e => some e
  | none => capabilitiesError? o.capabilities

/-- The configuration with the settings that go before it, the output path apart. -/
def override (c : Config) (o : Overrides) : Config :=
  { c with
    root := o.root.getD c.root
    capabilities := if o.capabilities.isEmpty then c.capabilities else o.capabilities
    scope := o.scope.getD c.scope
    format := o.format.getD c.format }

def request (c : Config) : Request :=
  { root := c.root
    capabilities := c.capabilities
    scope := c.scope
    importHints := Run.hintsFor c.scope c.importHints }

def schemaFiles (c : Config) (directory : String) : List String :=
  c.schemaPaths.map (Path.join directory)

def resolve (c : Config) (o : Overrides) (directory : String) :
    Except ConfigError ResolvedConfig :=
  match overridesError? o with
  | some e => .error e
  | none =>
      let chosen := c.override o
      .ok
        { request := chosen.request
          schemaPaths := chosen.schemaFiles directory
          template := chosen.template
          outputPath := o.outputPath <|> chosen.outputPath.map (Path.join directory)
          format := chosen.format
          ignoredHints := chosen.importHints.length - chosen.request.importHints.length }

end Config

end InstanceForge

import InstanceForge.Declaration.Basic
import InstanceForge.Emit.Manifest
import InstanceForge.Files.Tree
import InstanceForge.Name
import InstanceForge.Text.Basic

/-!
# Configurations

What a project configures: the root type and the capabilities to generate for, where its schema
files are, how initializers are derived, and where the output goes.
-/

namespace InstanceForge

structure Config where
  root : String
  capabilities : List String
  scope : Scope
  importHints : List String
  schemaPaths : List String
  template : Option String
  outputPath : Option String
  format : OutputFormat
  deriving DecidableEq

inductive ConfigError where
  | unreadable (fault : FileFault)
  | malformed
  | blankRoot
  | noSchemaPaths
  | invalidCapability (name : String)
  deriving DecidableEq

def ConfigError.message : ConfigError -> String
  | unreadable fault => "failed to read configuration: " ++ fault.message
  | malformed => "failed to parse configuration: not a configuration document"
  | blankRoot => "missing required field: generation.root"
  | noSchemaPaths => "missing required field: schema.paths"
  | invalidCapability name =>
      "validation error: capability name `" ++ name ++ "` is not a valid identifier"

namespace Config

def fileName : String :=
  "cachegen.toml"

/-- Why a root cannot be asked for, if it cannot. -/
def rootError? (root : String) : Option ConfigError :=
  if Text.isBlank root then some .blankRoot else none

/-- Why capabilities cannot be asked for, if they cannot: the first that is no identifier. -/
def capabilitiesError? (capabilities : List String) : Option ConfigError :=
  (capabilities.find? fun c => !Name.isIdentifier c).map .invalidCapability

def error? (c : Config) : Option ConfigError :=
  match rootError? c.root with
  | some e => some e
  | none =>
      if c.schemaPaths.isEmpty then some .noSchemaPaths else capabilitiesError? c.capabilities

def validate (c : Config) : Except ConfigError Config :=
  match c.error? with
  | some e => .error e
  | none => .ok c

end Config

end InstanceForge

import InstanceForge.Config.Document
import InstanceForge.Files.Workspace

/-!
# Projects

A project is a directory with a configuration. It is named by its configuration file or its
directory, or else it is the nearest one that the current directory is in.
-/

namespace InstanceForge

/-- A configuration, and the directory that its paths are below. -/
structure Project where
  directory : String
  config : Config

inductive ProjectError where
  | notFound (start : String)
  | unreadable (path : String) (fault : FileFault)
  | refused (path : String) (cause : ConfigError)
  deriving DecidableEq

def ProjectError.message : ProjectError -> String
  | notFound start =>
      "could not find " ++ Config.fileName ++ " in " ++ start ++ " or any parent directory"
  | unreadable path fault => "cannot read " ++ path ++ ": " ++ fault.message
  | refused path cause => path ++ ": " ++ cause.message

def Config.ofFile : Except FileFault String -> Except ConfigError Config
  | .error fault => .error (.unreadable fault)
  | .ok text => Config.ofText text

variable {m : Type -> Type} [Monad m] [FileReader m]

def Config.load (directory : String) : m (Except ConfigError Config) := do
  pure (Config.ofFile (<- FileReader.readText (Path.join directory Config.fileName)))

namespace Project

def configPath (directory : String) : String :=
  Path.join directory Config.fileName

def nearest? : List String -> m (Option String)
  | [] => pure none
  | directory :: rest => do
      if <- FileReader.isFile (configPath directory) then pure (some directory)
      else nearest? rest

def ofConfig (directory path : String) :
    Except ConfigError Config -> Except ProjectError Project
  | .error cause => .error (.refused path cause)
  | .ok config => .ok ⟨directory, config⟩

def ofDirectory (directory : String) : m (Except ProjectError Project) := do
  pure (ofConfig directory (configPath directory) (<- Config.load directory))

/-- The project of a configuration file, from its text or the failure to read it. -/
def ofFile (path : String) : Except FileFault String -> Except ProjectError Project
  | .error fault => .error (.unreadable path fault)
  | .ok text => ofConfig ((Path.parent? path).getD ".") path (Config.ofText text)

/-- The project that a path names, or the nearest one. -/
def load : Option String -> m (Except ProjectError Project)
  | some path => do
      if <- FileReader.isFile path then pure (ofFile path (<- FileReader.readText path))
      else ofDirectory path
  | none => do
      let start <- FileReader.currentPath
      match <- nearest? (Path.ancestors start) with
      | some directory => ofDirectory directory
      | none => pure (.error (.notFound start))

end Project

end InstanceForge

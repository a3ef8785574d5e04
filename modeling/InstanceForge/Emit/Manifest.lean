import InstanceForge.Declaration.Derived
import InstanceForge.Document.Json.Printer
import InstanceForge.Fingerprint.Basic

/-!
# Manifests

Everything that one run renders. The fingerprint of a manifest is that of its JSON form without
blanks, so that manifests with different contents have different texts to be digested. A listing is
the manifest as JSON over several lines, with its fingerprint in front.
-/

namespace InstanceForge

structure Manifest where
  root : String
  importHints : List String
  declarations : DeclarationSet
  deriving DecidableEq

namespace Manifest

def entries (m : Manifest) : List (String × Datum) :=
  [("root", .ofString m.root), ("import_hints", .ofStrings m.importHints)] ++
    m.declarations.entries

/-- The text that is digested. -/
def canonicalText (m : Manifest) : String :=
  Json.compact (.ofEntries m.entries)

def fingerprint (m : Manifest) : Fingerprint :=
  Fingerprint.ofText m.canonicalText

end Manifest

inductive OutputFormat where
  | rust
  | json
  deriving DecidableEq

namespace OutputFormat

def name : OutputFormat -> String
  | rust => "rust"
  | json => "json"

def byName : List (String × OutputFormat) :=
  [rust, json].map fun f => (f.name, f)

end OutputFormat

inductive EmitError where
  | invalidIdentifier (name : String)
  | invalidTypePath (name : String)
  | duplicateName (name first second : String)
  | broken (cause : BlockError)
  deriving DecidableEq

def EmitError.message : EmitError -> String
  | invalidIdentifier name => "`" ++ name ++ "` is not a valid Rust identifier"
  | invalidTypePath name => "`" ++ name ++ "` is not a valid Rust type path"
  | duplicateName name first second =>
      "`" ++ first ++ "` and `" ++ second ++ "` both render as `" ++ name ++ "`"
  | broken cause => cause.message

structure Emitter where
  name : String
  emit : Manifest -> Except EmitError String

/-! ## Listings -/

namespace Listing

def toDatum (m : Manifest) : Datum :=
  .ofEntries (("fingerprint", .ofString m.fingerprint.toHex) :: m.entries)

def render (m : Manifest) : String :=
  Json.pretty (toDatum m) ++ "\n"

def emitter : Emitter where
  name := OutputFormat.json.name
  emit m := .ok (render m)

end Listing

end InstanceForge

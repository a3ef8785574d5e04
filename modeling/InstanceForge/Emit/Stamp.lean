import InstanceForge.Document.Json.Bounds
import InstanceForge.Emit.Manifest
import InstanceForge.Emit.Source
import InstanceForge.Text.Basic

/-!
# Stamped fingerprints

Reads the fingerprint back from a rendered text of either form: from a marked line among the
first four, or else from the member `fingerprint` of a JSON object.
-/

namespace InstanceForge

namespace Stamp

def marked? (line : List Char) : Option (List Char) :=
  let mark := Source.fingerprintMark.toList
  if mark.isPrefixOf line then some (line.drop mark.length) else none

/-- What follows the mark on the first marked line among the first four. -/
def markedLine? (text : String) : Option (List Char) :=
  ((Text.lines text.toList).take 4).findSome? marked?

def member? (text : String) : Option Fingerprint :=
  match Json.readBounded text with
  | some (.table entries) =>
      match Json.lookup? "fingerprint" entries with
      | some d => d.toText?.bind Fingerprint.parse?
      | none => none
  | _ => none

def read? (text : String) : Option Fingerprint :=
  match markedLine? text with
  | some hex => Fingerprint.parse? (String.ofList (Text.trimChars hex))
  | none => member? text

end Stamp

def OutputFormat.emitter : OutputFormat -> Emitter
  | rust => Source.emitter
  | json => Listing.emitter

end InstanceForge

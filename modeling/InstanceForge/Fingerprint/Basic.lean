import InstanceForge.Fingerprint.Digest
import InstanceForge.Text.Basic

/-!
# Fingerprints

A fingerprint is the 128-bit digest of some bytes. Generated files carry the fingerprint of
the unit they were rendered from, written as 32 hexadecimal digits.
-/

namespace InstanceForge

structure Fingerprint where
  bytes : List UInt8
  length_eq : bytes.length = 16
  deriving DecidableEq

namespace Fingerprint

def ofBytes (data : ByteArray) : Fingerprint :=
  { bytes := (Digest.digest data).toBytes
    length_eq := Digest.Wide.toBytes_length _ }

/-- The fingerprint of a text, through its UTF-8 bytes. -/
def ofText (text : String) : Fingerprint :=
  ofBytes text.toUTF8

def toHex (f : Fingerprint) : String :=
  String.ofList (f.bytes.flatMap Text.hexByte)

/-- An abbreviated form that shows the first two bytes. -/
def summary (f : Fingerprint) : String :=
  "ContentHash(" ++ String.ofList ((f.bytes.take 2).flatMap Text.hexByte) ++ "..)"

structure ParseError where
  text : String

def ParseError.message (e : ParseError) : String :=
  "invalid fingerprint `" ++ e.text ++ "`: expected 32 hex digits"

/-- The value of a pair of characters: two digits, or a plus sign and one digit. -/
def pairValue? (a b : Char) : Option UInt8 := do
  let low <- Text.hexValue? b
  if a = '+' then pure low.toUInt8
  else
    let high <- Text.hexValue? a
    pure (16 * high + low).toUInt8

def pairBytes? : List Char -> Option (List UInt8)
  | [] => some []
  | [_] => none
  | a :: b :: rest => do
      let byte <- pairValue? a b
      let bytes <- pairBytes? rest
      pure (byte :: bytes)

/-- Reads a fingerprint from 32 characters, taken in pairs. -/
def parse? (text : String) : Option Fingerprint :=
  match pairBytes? text.toList with
  | none => none
  | some bytes => if h : bytes.length = 16 then some ⟨bytes, h⟩ else none

def parse (text : String) : Except ParseError Fingerprint :=
  match parse? text with
  | some f => .ok f
  | none => .error ⟨text⟩

end Fingerprint

end InstanceForge

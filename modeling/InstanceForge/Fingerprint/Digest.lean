/-!
# The 128-bit digest

The 128-bit variant of the XXH3 digest with seed zero. Short inputs, up to 240 bytes, are
mixed by a schedule that depends on their length; longer ones are folded, stripe by stripe,
into eight 64-bit lanes. All words are read in little-endian order.
-/

namespace InstanceForge

namespace Digest

/-- Two 64-bit halves of a 128-bit word. -/
structure Wide where
  low : UInt64
  high : UInt64

/-- The fixed key that is mixed with every input. -/
def secret : ByteArray :=
  ⟨#[
    0xB8, 0xFE, 0x6C, 0x39, 0x23, 0xA4, 0x4B, 0xBE, 0x7C, 0x01, 0x81, 0x2C,
    0xF7, 0x21, 0xAD, 0x1C, 0xDE, 0xD4, 0x6D, 0xE9, 0x83, 0x90, 0x97, 0xDB,
    0x72, 0x40, 0xA4, 0xA4, 0xB7, 0xB3, 0x67, 0x1F, 0xCB, 0x79, 0xE6, 0x4E,
    0xCC, 0xC0, 0xE5, 0x78, 0x82, 0x5A, 0xD0, 0x7D, 0xCC, 0xFF, 0x72, 0x21,
    0xB8, 0x08, 0x46, 0x74, 0xF7, 0x43, 0x24, 0x8E, 0xE0, 0x35, 0x90, 0xE6,
    0x81, 0x3A, 0x26, 0x4C, 0x3C, 0x28, 0x52, 0xBB, 0x91, 0xC3, 0x00, 0xCB,
    0x88, 0xD0, 0x65, 0x8B, 0x1B, 0x53, 0x2E, 0xA3, 0x71, 0x64, 0x48, 0x97,
    0xA2, 0x0D, 0xF9, 0x4E, 0x38, 0x19, 0xEF, 0x46, 0xA9, 0xDE, 0xAC, 0xD8,
    0xA8, 0xFA, 0x76, 0x3F, 0xE3, 0x9C, 0x34, 0x3F, 0xF9, 0xDC, 0xBB, 0xC7,
    0xC7, 0x0B, 0x4F, 0x1D, 0x8A, 0x51, 0xE0, 0x4B, 0xCD, 0xB4, 0x59, 0x31,
    0xC8, 0x9F, 0x7E, 0xC9, 0xD9, 0x78, 0x73, 0x64, 0xEA, 0xC5, 0xAC, 0x83,
    0x34, 0xD3, 0xEB, 0xC3, 0xC5, 0x81, 0xA0, 0xFF, 0xFA, 0x13, 0x63, 0xEB,
    0x17, 0x0D, 0xDD, 0x51, 0xB7, 0xF0, 0xDA, 0x49, 0xD3, 0x16, 0x55, 0x26,
    0x29, 0xD4, 0x68, 0x9E, 0x2B, 0x16, 0xBE, 0x58, 0x7D, 0x47, 0xA1, 0xFC,
    0x8F, 0xF8, 0xB8, 0xD1, 0x7A, 0xD0, 0x31, 0xCE, 0x45, 0xCB, 0x3A, 0x8F,
    0x95, 0x16, 0x04, 0x28, 0xAF, 0xD7, 0xFB, 0xCA, 0xBB, 0x4B, 0x40, 0x7E
  ]⟩

def prime32A : UInt64 := 0x9E3779B1

def prime32B : UInt64 := 0x85EBCA77

def prime32C : UInt64 := 0xC2B2AE3D

def prime64A : UInt64 := 0x9E3779B185EBCA87

def prime64B : UInt64 := 0xC2B2AE3D27D4EB4F

def prime64C : UInt64 := 0x165667B19E3779F9

def prime64D : UInt64 := 0x85EBCA77C2B2AE63

def prime64E : UInt64 := 0x27D4EB2F165667C5

def primeMixA : UInt64 := 0x165667919E3779F9

def primeMixB : UInt64 := 0x9FB21C651E98DF25

/-- The byte at a position, zero beyond the end. -/
def byteAt (data : ByteArray) (i : Nat) : UInt64 :=
  match data[i]? with
  | some b => b.toUInt64
  | none => 0

def word32 (data : ByteArray) (i : Nat) : UInt64 :=
  byteAt data i ||| (byteAt data (i + 1) <<< 8) ||| (byteAt data (i + 2) <<< 16) |||
    (byteAt data (i + 3) <<< 24)

def word64 (data : ByteArray) (i : Nat) : UInt64 :=
  word32 data i ||| (word32 data (i + 4) <<< 32)

def low32 (x : UInt64) : UInt64 :=
  x &&& 0xFFFFFFFF

def xorShift (x : UInt64) (n : UInt64) : UInt64 :=
  x ^^^ (x >>> n)

/-- The low 32 bits of a word with their bytes reversed. -/
def swap32 (x : UInt64) : UInt64 :=
  let byte (n : UInt64) : UInt64 := (x >>> n) &&& 0xFF
  (byte 0 <<< 24) ||| (byte 8 <<< 16) ||| (byte 16 <<< 8) ||| byte 24

def swap64 (x : UInt64) : UInt64 :=
  (swap32 (low32 x) <<< 32) ||| swap32 (x >>> 32)

def rotateLeft32 (x : UInt64) (n : UInt64) : UInt64 :=
  low32 (x <<< n) ||| (low32 x >>> (32 - n))

def product (a b : UInt64) : Wide :=
  let p := a.toNat * b.toNat
  { low := p.toUInt64, high := (p >>> 64).toUInt64 }

/-- The halves of the full product, combined. -/
def foldedProduct (a b : UInt64) : UInt64 :=
  let p := product a b
  p.low ^^^ p.high

/-- Spreads every bit of a word over the whole word. -/
def avalanche (x : UInt64) : UInt64 :=
  xorShift (xorShift x 37 * primeMixA) 32

/-- The stronger spreading that the shortest inputs get. -/
def longAvalanche (x : UInt64) : UInt64 :=
  xorShift (xorShift (xorShift x 33 * prime64B) 29 * prime64C) 32

def mix16 (data : ByteArray) (i key : Nat) : UInt64 :=
  foldedProduct (word64 data i ^^^ word64 secret key)
    (word64 data (i + 8) ^^^ word64 secret (key + 8))

def mix32 (data : ByteArray) (acc : Wide) (i j key : Nat) : Wide :=
  { low := (acc.low + mix16 data i key) ^^^ (word64 data j + word64 data (j + 8))
    high := (acc.high + mix16 data j (key + 16)) ^^^ (word64 data i + word64 data (i + 8)) }

def digest0 : Wide :=
  { low := longAvalanche (word64 secret 64 ^^^ word64 secret 72)
    high := longAvalanche (word64 secret 80 ^^^ word64 secret 88) }

/-- The digest of one to three bytes. -/
def digest3 (data : ByteArray) : Wide :=
  let n := data.size
  let joined := (byteAt data 0 <<< 16) ||| (byteAt data (n / 2) <<< 24) |||
    byteAt data (n - 1) ||| (n.toUInt64 <<< 8)
  { low := longAvalanche (joined ^^^ (word32 secret 0 ^^^ word32 secret 4))
    high := longAvalanche
      (rotateLeft32 (swap32 joined) 13 ^^^ (word32 secret 8 ^^^ word32 secret 12)) }

/-- The digest of four to eight bytes. -/
def digest8 (data : ByteArray) : Wide :=
  let n := data.size
  let input := word32 data 0 + (word32 data (n - 4) <<< 32)
  let keyed := input ^^^ (word64 secret 16 ^^^ word64 secret 24)
  let p := product keyed (prime64A + (n.toUInt64 <<< 2))
  let high := p.high + (p.low <<< 1)
  let low := xorShift (p.low ^^^ (high >>> 3)) 35 * primeMixB
  { low := xorShift low 28, high := avalanche high }

/-- The digest of nine to sixteen bytes. -/
def digest16 (data : ByteArray) : Wide :=
  let n := data.size
  let first := word64 data 0
  let last := word64 data (n - 8)
  let p := product (first ^^^ last ^^^ (word64 secret 32 ^^^ word64 secret 40)) prime64A
  let keyed := last ^^^ (word64 secret 48 ^^^ word64 secret 56)
  let high := p.high + (keyed + low32 keyed * (prime32B - 1))
  let low := (p.low + ((n - 1).toUInt64 <<< 54)) ^^^ swap64 high
  let q := product low prime64B
  { low := avalanche q.low, high := avalanche (q.high + high * prime64B) }

/-- The last step for inputs of 17 to 240 bytes. -/
def finish (size : Nat) (acc : Wide) : Wide :=
  { low := avalanche (acc.low + acc.high)
    high := 0 - avalanche
      (acc.low * prime64A + acc.high * prime64D + size.toUInt64 * prime64B) }

/-- The digest of 17 to 128 bytes: blocks are taken from both ends towards the middle. -/
def digest128 (data : ByteArray) : Wide :=
  let n := data.size
  let pairs := (n - 1) / 32
  let acc := (List.range (pairs + 1)).reverse.foldl
    (fun acc i => mix32 data acc (16 * i) (n - 16 * (i + 1)) (32 * i))
    { low := n.toUInt64 * prime64A, high := 0 }
  finish n acc

/-- The digest of 129 to 240 bytes: four blocks, a spreading step, the other blocks. -/
def digest240 (data : ByteArray) : Wide :=
  let n := data.size
  let first := (List.range 4).foldl
    (fun acc i => mix32 data acc (32 * i) (32 * i + 16) (32 * i))
    { low := n.toUInt64 * prime64A, high := 0 }
  let spread : Wide := { low := avalanche first.low, high := avalanche first.high }
  let rest := (List.range (n / 32 - 4)).foldl
    (fun acc i => mix32 data acc (32 * i + 128) (32 * i + 144) (32 * i + 3)) spread
  finish n (mix32 data rest (n - 16) (n - 32) 103)

abbrev Lanes := Vector UInt64 8

def startLanes : Lanes :=
  #v[prime32C, prime64A, prime64B, prime64C, prime64D, prime32B, prime64E, prime32A]

/-- A stripe of 64 bytes taken into the lanes: words add to the neighbour, products to the lane. -/
def absorb (data : ByteArray) (lanes : Lanes) (i key : Nat) : Lanes :=
  Vector.ofFn fun lane : Fin 8 =>
    let keyed := word64 data (i + 8 * lane) ^^^ word64 secret (key + 8 * lane)
    let neighbour := word64 data (i + 8 * (Nat.xor lane.val 1))
    lanes[lane] + neighbour + low32 keyed * (keyed >>> 32)

/-- The mixing of the lanes after each block of sixteen stripes. -/
def scramble (lanes : Lanes) : Lanes :=
  Vector.ofFn fun lane : Fin 8 =>
    (xorShift lanes[lane] 47 ^^^ word64 secret (128 + 8 * lane)) * prime32A

/-- Some stripes in a row, the key moving on by eight bytes each time. -/
def absorbStripes (data : ByteArray) (start count : Nat) (lanes : Lanes) : Lanes :=
  (List.range count).foldl (fun acc i => absorb data acc (start + 64 * i) (8 * i)) lanes

def joinLanes (lanes : Lanes) (key : Nat) (start : UInt64) : UInt64 :=
  avalanche (start +
    foldedProduct (lanes[0] ^^^ word64 secret key) (lanes[1] ^^^ word64 secret (key + 8)) +
    foldedProduct (lanes[2] ^^^ word64 secret (key + 16)) (lanes[3] ^^^ word64 secret (key + 24)) +
    foldedProduct (lanes[4] ^^^ word64 secret (key + 32)) (lanes[5] ^^^ word64 secret (key + 40)) +
    foldedProduct (lanes[6] ^^^ word64 secret (key + 48)) (lanes[7] ^^^ word64 secret (key + 56)))

/-- The digest of more than 240 bytes. -/
def digestLong (data : ByteArray) : Wide :=
  let n := data.size
  let blocks := (n - 1) / 1024
  let whole := (List.range blocks).foldl
    (fun acc i => scramble (absorbStripes data (1024 * i) 16 acc)) startLanes
  let stripes := (n - 1 - 1024 * blocks) / 64
  let lanes := absorb data (absorbStripes data (1024 * blocks) stripes whole) (n - 64) 121
  { low := joinLanes lanes 11 (n.toUInt64 * prime64A)
    high := joinLanes lanes 117 (~~~(n.toUInt64 * prime64B)) }

def digest (data : ByteArray) : Wide :=
  if data.size = 0 then digest0
  else if data.size <= 3 then digest3 data
  else if data.size <= 8 then digest8 data
  else if data.size <= 16 then digest16 data
  else if data.size <= 128 then digest128 data
  else if data.size <= 240 then digest240 data
  else digestLong data

/-- The eight bytes of a word, lowest first. -/
def wordBytes (x : UInt64) : List UInt8 :=
  (List.range 8).map fun i => (x >>> (8 * i.toUInt64)).toUInt8

def Wide.toBytes (w : Wide) : List UInt8 :=
  wordBytes w.low ++ wordBytes w.high

theorem Wide.toBytes_length (w : Wide) : w.toBytes.length = 16 := by
  simp [Wide.toBytes, wordBytes]

end Digest

end InstanceForge

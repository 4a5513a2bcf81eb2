namespace Layering

namespace Crc32

def shift (crc : UInt32) : UInt32 := if crc &&& 1 = 1 then (crc >>> 1) ^^^ 0xEDB88320 else crc >>> 1

def absorb (crc : UInt32) (byte : UInt8) : UInt32 :=
  (List.range 8).foldl (fun crc _ => shift crc) (crc ^^^ byte.toUInt32)

def checksum (bytes : ByteArray) : UInt32 := bytes.foldl absorb 0xFFFFFFFF ^^^ 0xFFFFFFFF

end Crc32

namespace Sha256

structure State where
  a : UInt32
  b : UInt32
  c : UInt32
  d : UInt32
  e : UInt32
  f : UInt32
  g : UInt32
  h : UInt32

/-- The first 32 bits of the fractional parts of the square roots of the first eight primes. -/
def initial : State :=
  ⟨0x6a09e667, 0xbb67ae85, 0x3c6ef372, 0xa54ff53a, 0x510e527f, 0x9b05688c, 0x1f83d9ab, 0x5be0cd19⟩

/-- The first 32 bits of the fractional parts of the cube roots of the first 64 primes. -/
def roundConstants : List UInt32 := [
  0x428a2f98, 0x71374491, 0xb5c0fbcf, 0xe9b5dba5, 0x3956c25b, 0x59f111f1, 0x923f82a4, 0xab1c5ed5,
  0xd807aa98, 0x12835b01, 0x243185be, 0x550c7dc3, 0x72be5d74, 0x80deb1fe, 0x9bdc06a7, 0xc19bf174,
  0xe49b69c1, 0xefbe4786, 0x0fc19dc6, 0x240ca1cc, 0x2de92c6f, 0x4a7484aa, 0x5cb0a9dc, 0x76f988da,
  0x983e5152, 0xa831c66d, 0xb00327c8, 0xbf597fc7, 0xc6e00bf3, 0xd5a79147, 0x06ca6351, 0x14292967,
  0x27b70a85, 0x2e1b2138, 0x4d2c6dfc, 0x53380d13, 0x650a7354, 0x766a0abb, 0x81c2c92e, 0x92722c85,
  0xa2bfe8a1, 0xa81a664b, 0xc24b8b70, 0xc76c51a3, 0xd192e819, 0xd6990624, 0xf40e3585, 0x106aa070,
  0x19a4c116, 0x1e376c08, 0x2748774c, 0x34b0bcb5, 0x391c0cb3, 0x4ed8aa4a, 0x5b9cca4f, 0x682e6ff3,
  0x748f82ee, 0x78a5636f, 0x84c87814, 0x8cc70208, 0x90befffa, 0xa4506ceb, 0xbef9a3f7, 0xc67178f2]

def rotr (x n : UInt32) : UInt32 := (x >>> n) ||| (x <<< (32 - n))

def bigEndian (bytes : ByteArray) (start : Nat) : UInt32 :=
  (List.range 4).foldl (fun w i => (w <<< 8) ||| (bytes[start + i]?.getD 0).toUInt32) 0

/-- The message, a one bit, zeros up to 56 modulo 64, and its length in bits. -/
def padded (message : ByteArray) : ByteArray :=
  let zeros := (119 - message.size % 64) % 64
  let length := (List.range 8).map fun i => ((message.size * 8) >>> (56 - 8 * i)).toUInt8
  message ++ ⟨(0x80 :: List.replicate zeros 0 ++ length).toArray⟩

def extend (w : Array UInt32) (i : Nat) : Array UInt32 :=
  let x := w.getD (i - 15) 0
  let y := w.getD (i - 2) 0
  w.push (w.getD (i - 16) 0 + (rotr x 7 ^^^ rotr x 18 ^^^ (x >>> 3)) + w.getD (i - 7) 0 +
    (rotr y 17 ^^^ rotr y 19 ^^^ (y >>> 10)))

def schedule (bytes : ByteArray) (block : Nat) : Array UInt32 :=
  (List.range' 16 48).foldl extend ((List.range 16).map fun i => bigEndian bytes (64 * block + 4 * i)).toArray

def round (s : State) (k w : UInt32) : State :=
  let t := s.h + (rotr s.e 6 ^^^ rotr s.e 11 ^^^ rotr s.e 25) + ((s.e &&& s.f) ^^^ (~~~s.e &&& s.g)) + k + w
  let u := (rotr s.a 2 ^^^ rotr s.a 13 ^^^ rotr s.a 22) + ((s.a &&& s.b) ^^^ (s.a &&& s.c) ^^^ (s.b &&& s.c))
  ⟨t + u, s.a, s.b, s.c, s.d + t, s.e, s.f, s.g⟩

def absorb (bytes : ByteArray) (s : State) (block : Nat) : State :=
  let r := (roundConstants.zip (schedule bytes block).toList).foldl (fun s kw => round s kw.1 kw.2) s
  ⟨s.a + r.a, s.b + r.b, s.c + r.c, s.d + r.d, s.e + r.e, s.f + r.f, s.g + r.g, s.h + r.h⟩

def digest (message : ByteArray) : List UInt32 :=
  let bytes := padded message
  let s := (List.range (bytes.size / 64)).foldl (absorb bytes) initial
  [s.a, s.b, s.c, s.d, s.e, s.f, s.g, s.h]

def hexWord (w : UInt32) : List Char :=
  (List.range 8).map fun i => Nat.digitChar ((w.toNat >>> (28 - 4 * i)) % 16)

def hex (message : ByteArray) : String := .ofList ((digest message).flatMap hexWord)

end Sha256

namespace Fingerprint

/-- What makes a finding the same finding from one run to the next. -/
def identity (checkId code package : String) (symbol : Option String) : String :=
  "|".intercalate ([checkId, code, package] ++ symbol.toList)

def ofFinding (checkId code package : String) (symbol : Option String) : String :=
  Sha256.hex (identity checkId code package symbol).toUTF8

end Fingerprint

end Layering

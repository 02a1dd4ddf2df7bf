import Strata.Json.Canonical

/-!
# Digests

SHA-256 over bytes, and the digest of a JSON value, which is that of its
canonical text. The message is padded to whole blocks of sixteen words; each
block is spread to sixty-four words and stirred into eight words of state.
-/

namespace Strata.Digest

/-- The first 32 bits of the fractional parts of the cube roots of the first 64 primes. -/
def roundConstants : List UInt32 := [
  0x428a2f98, 0x71374491, 0xb5c0fbcf, 0xe9b5dba5, 0x3956c25b, 0x59f111f1, 0x923f82a4, 0xab1c5ed5,
  0xd807aa98, 0x12835b01, 0x243185be, 0x550c7dc3, 0x72be5d74, 0x80deb1fe, 0x9bdc06a7, 0xc19bf174,
  0xe49b69c1, 0xefbe4786, 0x0fc19dc6, 0x240ca1cc, 0x2de92c6f, 0x4a7484aa, 0x5cb0a9dc, 0x76f988da,
  0x983e5152, 0xa831c66d, 0xb00327c8, 0xbf597fc7, 0xc6e00bf3, 0xd5a79147, 0x06ca6351, 0x14292967,
  0x27b70a85, 0x2e1b2138, 0x4d2c6dfc, 0x53380d13, 0x650a7354, 0x766a0abb, 0x81c2c92e, 0x92722c85,
  0xa2bfe8a1, 0xa81a664b, 0xc24b8b70, 0xc76c51a3, 0xd192e819, 0xd6990624, 0xf40e3585, 0x106aa070,
  0x19a4c116, 0x1e376c08, 0x2748774c, 0x34b0bcb5, 0x391c0cb3, 0x4ed8aa4a, 0x5b9cca4f, 0x682e6ff3,
  0x748f82ee, 0x78a5636f, 0x84c87814, 0x8cc70208, 0x90befffa, 0xa4506ceb, 0xbef9a3f7, 0xc67178f2]

/-- The eight words of state. -/
structure State where
  a : UInt32
  b : UInt32
  c : UInt32
  d : UInt32
  e : UInt32
  f : UInt32
  g : UInt32
  h : UInt32

/-- The first 32 bits of the fractional parts of the square roots of the first eight primes. -/
def State.start : State where
  a := 0x6a09e667
  b := 0xbb67ae85
  c := 0x3c6ef372
  d := 0xa54ff53a
  e := 0x510e527f
  f := 0x9b05688c
  g := 0x1f83d9ab
  h := 0x5be0cd19

/-- Bits moved right, those that fall off coming in on the left. -/
def rotateRight (x : UInt32) (n : UInt32) : UInt32 :=
  (x >>> n) ||| (x <<< (32 - n))

/-- The state after one round with a word of the spread block and its constant. -/
def State.round (s : State) (step : UInt32 × UInt32) : State :=
  let sum1 := rotateRight s.e 6 ^^^ rotateRight s.e 11 ^^^ rotateRight s.e 25
  let choice := (s.e &&& s.f) ^^^ ((~~~ s.e) &&& s.g)
  let first := s.h + sum1 + choice + step.2 + step.1
  let sum0 := rotateRight s.a 2 ^^^ rotateRight s.a 13 ^^^ rotateRight s.a 22
  let majority := (s.a &&& s.b) ^^^ (s.a &&& s.c) ^^^ (s.b &&& s.c)
  { a := first + sum0 + majority
    b := s.a, c := s.b, d := s.c, e := s.d + first, f := s.e, g := s.f, h := s.g }

/-- The states added word by word. -/
def State.add (s t : State) : State where
  a := s.a + t.a
  b := s.b + t.b
  c := s.c + t.c
  d := s.d + t.d
  e := s.e + t.e
  f := s.f + t.f
  g := s.g + t.g
  h := s.h + t.h

def State.words (s : State) : List UInt32 :=
  [s.a, s.b, s.c, s.d, s.e, s.f, s.g, s.h]

/-- The block with the next word of the spread, computed from four earlier ones. -/
def spreadStep (words : Array UInt32) (i : Nat) : Array UInt32 :=
  let w (k : Nat) : UInt32 := words.getD (i + k) 0
  let low := rotateRight (w 1) 7 ^^^ rotateRight (w 1) 18 ^^^ (w 1 >>> 3)
  let high := rotateRight (w 14) 17 ^^^ rotateRight (w 14) 19 ^^^ (w 14 >>> 10)
  words.push (w 0 + low + w 9 + high)

/-- A block of sixteen words spread to sixty-four. -/
def spread (block : List UInt32) : List UInt32 :=
  ((List.range 48).foldl spreadStep block.toArray).toList

/-- The state with one block stirred in. -/
def State.absorb (s : State) (block : List UInt32) : State :=
  s.add (((spread block).zip roundConstants).foldl State.round s)

/-- The bytes of a number, `count` of them, most significant first. -/
def bigEndian (count n : Nat) : List UInt8 :=
  (List.range count).map fun i => UInt8.ofNat (n / Nat.pow 256 (count - 1 - i))

/-- The message with a one bit, zeros and its length in bits, in whole blocks of 64 bytes. -/
def pad (bytes : List UInt8) : List UInt8 :=
  let size := bytes.length
  let zeros := (119 - size % 64) % 64
  bytes ++ 0x80 :: List.replicate zeros 0 ++ bigEndian 8 (8 * size)

/-- The words of bytes taken four by four. -/
def wordsOf : List UInt8 → List UInt32
  | a :: b :: c :: d :: rest =>
    ((a.toUInt32 <<< 24) ||| (b.toUInt32 <<< 16) ||| (c.toUInt32 <<< 8) ||| d.toUInt32)
      :: wordsOf rest
  | _ => []

/-- The state after all blocks of `count` sixteens of words. -/
def absorbAll (s : State) (count : Nat) (words : List UInt32) : State :=
  match count with
  | 0 => s
  | count + 1 => absorbAll (s.absorb (words.take 16)) count (words.drop 16)

/-- The SHA-256 digest of bytes, as 32 bytes. -/
def sha256 (bytes : List UInt8) : List UInt8 :=
  let words := wordsOf (pad bytes)
  (absorbAll .start (words.length / 16) words).words.flatMap fun word =>
    bigEndian 4 word.toNat

/-- Two hexadecimal digits for each byte. -/
def hex (bytes : List UInt8) : String :=
  let digit (n : Nat) : Char := "0123456789abcdef".toList.getD n '0'
  String.ofList (bytes.flatMap fun byte => [digit (byte.toNat / 16), digit (byte.toNat % 16)])

/-- The digest of bytes, in hexadecimal. -/
def ofBytes (bytes : ByteArray) : String :=
  hex (sha256 bytes.toList)

/-- The digest of a value's canonical text, in hexadecimal. -/
def ofJson (value : Json) : String :=
  ofBytes value.canonical.toUTF8

end Strata.Digest

import Mathlib.Data.List.Basic

/-!
# SHA-256

The hash of FIPS 180-4 over lists of bytes, as Go's `crypto/sha256`
computes it. It names no program. Nothing here depends on the hash being
hard to invert; the development uses that a sum has 32 bytes
(`length_sum`).
-/

namespace Nekiro

namespace Sha256

/-- The eight working words. -/
structure State where
  a : UInt32
  b : UInt32
  c : UInt32
  d : UInt32
  e : UInt32
  f : UInt32
  g : UInt32
  h : UInt32
deriving Repr, DecidableEq

def init : State :=
  ⟨0x6a09e667, 0xbb67ae85, 0x3c6ef372, 0xa54ff53a,
    0x510e527f, 0x9b05688c, 0x1f83d9ab, 0x5be0cd19⟩

/-- The round constants. -/
def roundConstants : List UInt32 :=
  [0x428a2f98, 0x71374491, 0xb5c0fbcf, 0xe9b5dba5, 0x3956c25b, 0x59f111f1,
    0x923f82a4, 0xab1c5ed5, 0xd807aa98, 0x12835b01, 0x243185be, 0x550c7dc3,
    0x72be5d74, 0x80deb1fe, 0x9bdc06a7, 0xc19bf174, 0xe49b69c1, 0xefbe4786,
    0x0fc19dc6, 0x240ca1cc, 0x2de92c6f, 0x4a7484aa, 0x5cb0a9dc, 0x76f988da,
    0x983e5152, 0xa831c66d, 0xb00327c8, 0xbf597fc7, 0xc6e00bf3, 0xd5a79147,
    0x06ca6351, 0x14292967, 0x27b70a85, 0x2e1b2138, 0x4d2c6dfc, 0x53380d13,
    0x650a7354, 0x766a0abb, 0x81c2c92e, 0x92722c85, 0xa2bfe8a1, 0xa81a664b,
    0xc24b8b70, 0xc76c51a3, 0xd192e819, 0xd6990624, 0xf40e3585, 0x106aa070,
    0x19a4c116, 0x1e376c08, 0x2748774c, 0x34b0bcb5, 0x391c0cb3, 0x4ed8aa4a,
    0x5b9cca4f, 0x682e6ff3, 0x748f82ee, 0x78a5636f, 0x84c87814, 0x8cc70208,
    0x90befffa, 0xa4506ceb, 0xbef9a3f7, 0xc67178f2]

def rotateRight (x n : UInt32) : UInt32 := (x >>> n) ||| (x <<< (32 - n))

/-- One word of the message schedule from the sixteen before it. -/
def nextWord (window : List UInt32) : UInt32 :=
  let w15 := window.getD 1 0
  let w2 := window.getD 14 0
  let s0 := rotateRight w15 7 ^^^ rotateRight w15 18 ^^^ (w15 >>> 3)
  let s1 := rotateRight w2 17 ^^^ rotateRight w2 19 ^^^ (w2 >>> 10)
  window.getD 0 0 + s0 + window.getD 9 0 + s1

/-- One round with constant `k` and schedule word `w`. -/
def round (st : State) (k w : UInt32) : State :=
  let s1 := rotateRight st.e 6 ^^^ rotateRight st.e 11 ^^^ rotateRight st.e 25
  let choice := (st.e &&& st.f) ^^^ (~~~st.e &&& st.g)
  let t1 := st.h + s1 + choice + k + w
  let s0 := rotateRight st.a 2 ^^^ rotateRight st.a 13 ^^^ rotateRight st.a 22
  let majority := (st.a &&& st.b) ^^^ (st.a &&& st.c) ^^^ (st.b &&& st.c)
  ⟨t1 + (s0 + majority), st.a, st.b, st.c, st.d + t1, st.e, st.f, st.g⟩

/-- The rounds, with the schedule's last sixteen words as a window. -/
def rounds : List UInt32 → List UInt32 → State → State
  | [], _, st => st
  | k :: ks, window, st =>
      rounds ks (window.drop 1 ++ [nextWord window]) (round st k (window.getD 0 0))

def compress (st : State) (block : List UInt32) : State :=
  let out := rounds roundConstants block st
  ⟨st.a + out.a, st.b + out.b, st.c + out.c, st.d + out.d,
    st.e + out.e, st.f + out.f, st.g + out.g, st.h + out.h⟩

/-- A word of four bytes, the first the most significant. -/
def word (bytes : List UInt8) : UInt32 :=
  bytes.foldl (fun w b => (w <<< 8) ||| b.toUInt32) 0

def wordBytes (w : UInt32) : List UInt8 :=
  [(w >>> 24).toUInt8, (w >>> 16).toUInt8, (w >>> 8).toUInt8, w.toUInt8]

/-- The message, a one bit, zeros and the bit length, in whole blocks. -/
def pad (message : List UInt8) : List UInt8 :=
  let zeros := (119 - message.length % 64) % 64
  let bits := 8 * message.length
  let length : List UInt8 := (List.range 8).map fun i => UInt8.ofNat (bits >>> (8 * (7 - i)))
  message ++ [0x80] ++ List.replicate zeros 0 ++ length

def blockWords (block : List UInt8) : List UInt32 :=
  (List.range 16).map fun i => word ((block.drop (4 * i)).take 4)

def sum (message : List UInt8) : List UInt8 :=
  let padded := pad message
  let st := (List.range (padded.length / 64)).foldl
    (fun st i => compress st (blockWords ((padded.drop (64 * i)).take 64))) init
  [st.a, st.b, st.c, st.d, st.e, st.f, st.g, st.h].flatMap wordBytes

theorem length_sum (message : List UInt8) : (sum message).length = 32 := by
  simp [sum, wordBytes]

-- the sum of "abc"
example : sum [0x61, 0x62, 0x63] =
    [0xba, 0x78, 0x16, 0xbf, 0x8f, 0x01, 0xcf, 0xea, 0x41, 0x41, 0x40, 0xde, 0x5d, 0xae, 0x22, 0x23,
      0xb0, 0x03, 0x61, 0xa3, 0x96, 0x17, 0x7a, 0x9c, 0xb4, 0x10, 0xff, 0x61, 0xf2, 0x00, 0x15,
      0xad] := by
  decide +kernel

end Sha256

end Nekiro

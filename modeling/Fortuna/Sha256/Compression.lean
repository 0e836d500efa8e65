import Fortuna.Word

/-!
# The SHA-256 compression function

The chaining value of SHA-256 is eight words.  `compress` mixes one block of 64
bytes into it: the block is stretched to 64 words by a linear recurrence, the
words drive 64 rounds, and the result is added to the value before.
-/

namespace Fortuna

namespace Sha256

open Word (rotateRight)

/-- The eight words that SHA-256 carries from block to block. -/
structure Chain where
  a : UInt32
  b : UInt32
  c : UInt32
  d : UInt32
  e : UInt32
  f : UInt32
  g : UInt32
  h : UInt32
  deriving DecidableEq

/-- The chaining value before the first block: the first 32 fractional bits of
the square roots of the first eight primes. -/
def Chain.initial : Chain where
  a := 0x6a09e667
  b := 0xbb67ae85
  c := 0x3c6ef372
  d := 0xa54ff53a
  e := 0x510e527f
  f := 0x9b05688c
  g := 0x1f83d9ab
  h := 0x5be0cd19

/-- One constant for each round: the first 32 fractional bits of the cube roots
of the first 64 primes. -/
def roundConstants : Array UInt32 := #[
  0x428a2f98, 0x71374491, 0xb5c0fbcf, 0xe9b5dba5, 0x3956c25b, 0x59f111f1, 0x923f82a4, 0xab1c5ed5,
  0xd807aa98, 0x12835b01, 0x243185be, 0x550c7dc3, 0x72be5d74, 0x80deb1fe, 0x9bdc06a7, 0xc19bf174,
  0xe49b69c1, 0xefbe4786, 0x0fc19dc6, 0x240ca1cc, 0x2de92c6f, 0x4a7484aa, 0x5cb0a9dc, 0x76f988da,
  0x983e5152, 0xa831c66d, 0xb00327c8, 0xbf597fc7, 0xc6e00bf3, 0xd5a79147, 0x06ca6351, 0x14292967,
  0x27b70a85, 0x2e1b2138, 0x4d2c6dfc, 0x53380d13, 0x650a7354, 0x766a0abb, 0x81c2c92e, 0x92722c85,
  0xa2bfe8a1, 0xa81a664b, 0xc24b8b70, 0xc76c51a3, 0xd192e819, 0xd6990624, 0xf40e3585, 0x106aa070,
  0x19a4c116, 0x1e376c08, 0x2748774c, 0x34b0bcb5, 0x391c0cb3, 0x4ed8aa4a, 0x5b9cca4f, 0x682e6ff3,
  0x748f82ee, 0x78a5636f, 0x84c87814, 0x8cc70208, 0x90befffa, 0xa4506ceb, 0xbef9a3f7, 0xc67178f2]

/-- The next word of the message schedule, from the words before it. -/
def nextWord (w : Array UInt32) (t : Nat) : UInt32 :=
  let x := w.getD (t - 15) 0
  let y := w.getD (t - 2) 0
  let s0 := rotateRight x 7 ^^^ rotateRight x 18 ^^^ (x >>> 3)
  let s1 := rotateRight y 17 ^^^ rotateRight y 19 ^^^ (y >>> 10)
  w.getD (t - 16) 0 + s0 + w.getD (t - 7) 0 + s1

/-- The 64 words of the message schedule: the block, then the recurrence. -/
def schedule (block : Bytes) : Array UInt32 :=
  (List.range' 16 48).foldl (fun w t => w.push (nextWord w t)) (Word.listOf block).toArray

/-- One round; `k` is the sum of the round's constant and its schedule word. -/
def Chain.round (s : Chain) (k : UInt32) : Chain :=
  let s1 := rotateRight s.e 6 ^^^ rotateRight s.e 11 ^^^ rotateRight s.e 25
  let choice := (s.e &&& s.f) ^^^ ((~~~ s.e) &&& s.g)
  let t1 := s.h + s1 + choice + k
  let s0 := rotateRight s.a 2 ^^^ rotateRight s.a 13 ^^^ rotateRight s.a 22
  let majority := (s.a &&& s.b) ^^^ (s.a &&& s.c) ^^^ (s.b &&& s.c)
  { a := t1 + (s0 + majority), b := s.a, c := s.b, d := s.c
    e := s.d + t1, f := s.e, g := s.f, h := s.g }

def Chain.add (s t : Chain) : Chain where
  a := s.a + t.a
  b := s.b + t.b
  c := s.c + t.c
  d := s.d + t.d
  e := s.e + t.e
  f := s.f + t.f
  g := s.g + t.g
  h := s.h + t.h

/-- The chaining value after one more block of 64 bytes. -/
def Chain.compress (s : Chain) (block : Bytes) : Chain :=
  let w := schedule block
  s.add <| (List.range 64).foldl
    (fun r t => r.round (roundConstants.getD t 0 + w.getD t 0)) s

def Chain.bytes (s : Chain) : Bytes :=
  [s.a, s.b, s.c, s.d, s.e, s.f, s.g, s.h].flatMap Word.bytes

@[simp] theorem Chain.length_bytes (s : Chain) : s.bytes.length = 32 := rfl

end Sha256

end Fortuna

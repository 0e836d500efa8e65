import Fortuna.Cipher.Basic
import Fortuna.Word

/-!
# AES

AES with keys of 16, 24 and 32 bytes.  The substitution box and the table that
joins it with the mixing of columns are computed from the arithmetic of the
field with 256 elements, modulo `x⁸ + x⁴ + x³ + x + 1`.  A block is held as four
columns, each a word with the first row in its most significant byte.

Key schedules are built once for a key; every key of the right length is
accepted (`Aes.build_eq_ok`).
-/

namespace Fortuna

namespace Aes

open Word (byteAt)

/-! ## Field arithmetic -/

/-- Multiplication by `x`. -/
def double (a : UInt8) : UInt8 :=
  if a < 0x80 then a <<< 1 else (a <<< 1) ^^^ 0x1b

/-- The product of `a` with the polynomial of the `bits` low bits of `b`. -/
def mulLow : Nat → UInt8 → UInt8 → UInt8
  | 0, _, _ => 0
  | bits + 1, a, b =>
    (if b &&& 1 = 1 then a else 0) ^^^ mulLow bits (double a) (b >>> 1)

def mul (a b : UInt8) : UInt8 :=
  mulLow 8 a b

/-- The product of the squares of `a` taken `steps` times over:
`a² · a⁴ ⋯ a ^ 2 ^ steps`. -/
def squares : Nat → UInt8 → UInt8
  | 0, _ => 1
  | steps + 1, a => mul (mul a a) (squares steps (mul a a))

/-- The inverse of a nonzero element, which is its power 254; 0 for 0. -/
def inverse (a : UInt8) : UInt8 :=
  squares 7 a

/-- Rotation to the left by `n` bits, for `0 < n < 8`. -/
def rotateByte (a n : UInt8) : UInt8 :=
  (a <<< n) ||| (a >>> (8 - n))

/-- The substitution of a byte: its inverse under an affine map. -/
def substitution (a : UInt8) : UInt8 :=
  let i := inverse a
  i ^^^ rotateByte i 1 ^^^ rotateByte i 2 ^^^ rotateByte i 3 ^^^ rotateByte i 4 ^^^ 0x63

/-! ## Tables -/

def tabulate (f : UInt8 → α) : Vector α 256 :=
  Vector.ofFn fun i => f (UInt8.ofNat i)

@[inline] def look (table : Vector α 256) (b : UInt8) : α :=
  table.get ⟨b.toNat, b.toNat_lt⟩

def box : Vector UInt8 256 :=
  tabulate substitution

/-- The column that a byte of the first row contributes after substitution and
mixing. -/
def mixed : Vector UInt32 256 :=
  tabulate fun a =>
    let s := substitution a
    Word.ofBytes (double s) s s (double s ^^^ s)

def substituteWord (w : UInt32) : UInt32 :=
  Word.ofBytes (look box (byteAt w 24)) (look box (byteAt w 16))
    (look box (byteAt w 8)) (look box (byteAt w 0))

/-! ## The cipher -/

/-- A block, or a round key: four columns. -/
structure Columns where
  c0 : UInt32
  c1 : UInt32
  c2 : UInt32
  c3 : UInt32
  deriving DecidableEq

def Columns.add (s k : Columns) : Columns :=
  ⟨s.c0 ^^^ k.c0, s.c1 ^^^ k.c1, s.c2 ^^^ k.c2, s.c3 ^^^ k.c3⟩

/-- The column that a full round makes of the four bytes that row shifting
brings together. -/
@[inline] def mixColumn (a b c d : UInt32) : UInt32 :=
  look mixed (byteAt a 24) ^^^ Word.rotateRight (look mixed (byteAt b 16)) 8 ^^^
    Word.rotateRight (look mixed (byteAt c 8)) 16 ^^^ Word.rotateRight (look mixed (byteAt d 0)) 24

/-- A full round: substitution, row shifting, column mixing and key addition. -/
def Columns.round (s k : Columns) : Columns where
  c0 := mixColumn s.c0 s.c1 s.c2 s.c3 ^^^ k.c0
  c1 := mixColumn s.c1 s.c2 s.c3 s.c0 ^^^ k.c1
  c2 := mixColumn s.c2 s.c3 s.c0 s.c1 ^^^ k.c2
  c3 := mixColumn s.c3 s.c0 s.c1 s.c2 ^^^ k.c3

/-- The column that the last round makes of the four bytes that row shifting
brings together. -/
@[inline] def plainColumn (a b c d : UInt32) : UInt32 :=
  Word.ofBytes (look box (byteAt a 24)) (look box (byteAt b 16))
    (look box (byteAt c 8)) (look box (byteAt d 0))

/-- The last round, which does not mix columns. -/
def Columns.lastRound (s k : Columns) : Columns where
  c0 := plainColumn s.c0 s.c1 s.c2 s.c3 ^^^ k.c0
  c1 := plainColumn s.c1 s.c2 s.c3 s.c0 ^^^ k.c1
  c2 := plainColumn s.c2 s.c3 s.c0 s.c1 ^^^ k.c2
  c3 := plainColumn s.c3 s.c0 s.c1 s.c2 ^^^ k.c3

/-- The rounds of a key schedule without its first key. -/
def Columns.rounds (s : Columns) : List Columns → Columns
  | [] => s
  | [k] => s.lastRound k
  | k :: ks => (s.round k).rounds ks

def Columns.encrypt (s : Columns) : List Columns → Columns
  | [] => s
  | k :: ks => (s.add k).rounds ks

def Columns.bytes (s : Columns) : Bytes :=
  Word.bytes s.c0 ++ Word.bytes s.c1 ++ Word.bytes s.c2 ++ Word.bytes s.c3

/-- Encryption of a block of 16 bytes; any other byte string is left as it is. -/
def encryptBlock (schedule : List Columns) : Bytes → Bytes
  | [a0, a1, a2, a3, b0, b1, b2, b3, c0, c1, c2, c3, d0, d1, d2, d3] =>
    let s : Columns := {
      c0 := Word.ofBytes a0 a1 a2 a3
      c1 := Word.ofBytes b0 b1 b2 b3
      c2 := Word.ofBytes c0 c1 c2 c3
      c3 := Word.ofBytes d0 d1 d2 d3 }
    (s.encrypt schedule).bytes
  | block => block

theorem length_encryptBlock (schedule : List Columns) (block : Bytes) :
    (encryptBlock schedule block).length = block.length := by
  unfold encryptBlock
  split <;> rfl

/-! ## Key schedules -/

/-- The round constant of number `n`, a power of `x`. -/
def roundConstant : Nat → UInt8
  | 0 => 1
  | n + 1 => double (roundConstant n)

/-- What word `i` of a schedule adds to the word one key length before it, where
`last` is word `i - 1` and the key has `size` words. -/
def scheduleMask (size i : Nat) (last : UInt32) : UInt32 :=
  if i % size = 0 then
    substituteWord (Word.rotateRight last 24) ^^^ Word.ofBytes (roundConstant (i / size - 1)) 0 0 0
  else if 6 < size ∧ i % size = 4 then substituteWord last
  else last

/-- The `4 * (rounds + 1)` words of the schedule of a key of `size` words. -/
def scheduleWords (size rounds : Nat) (key : Bytes) : Array UInt32 :=
  (List.range' size (4 * (rounds + 1) - size)).foldl
    (fun w i => w.push (w.getD (i - size) 0 ^^^ scheduleMask size i (w.getD (i - 1) 0)))
    (Word.listOf key).toArray

/-- The round keys of a key of `size` words. -/
def schedule (size rounds : Nat) (key : Bytes) : List Columns :=
  let w := scheduleWords size rounds key
  (List.range (rounds + 1)).map fun r =>
    ⟨w.getD (4 * r) 0, w.getD (4 * r + 1) 0, w.getD (4 * r + 2) 0, w.getD (4 * r + 3) 0⟩

inductive Variant where
  | aes128
  | aes192
  | aes256
  deriving DecidableEq

def Variant.keyWords : Variant → Nat
  | .aes128 => 4
  | .aes192 => 6
  | .aes256 => 8

def Variant.rounds (v : Variant) : Nat :=
  v.keyWords + 6

def blockSize : Nat := 16

def cipher (v : Variant) (key : Bytes) : Cipher :=
  let keys := schedule v.keyWords v.rounds key
  { blockSize := blockSize
    encrypt := encryptBlock keys
    length_encrypt := length_encryptBlock keys }

/-- The factory of a variant, which refuses keys of other lengths only. -/
def factory (v : Variant) : CipherFactory where
  build key :=
    if key.length = 4 * v.keyWords then .ok (cipher v key)
    else .error (.invalidLength key.length)

def describeFactory (type : String) : String :=
  "RustCryptoFactory \x7b cipher: \"" ++ type ++ "\" \x7d"

theorem build_eq_ok
    {v : Variant} {key : Bytes}
    (hlength : key.length = 4 * v.keyWords) :
    (factory v).build key = .ok (cipher v key) := by
  simp [factory, hlength]

end Aes

end Fortuna

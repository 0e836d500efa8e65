import Fortuna.Chunks
import Fortuna.Sha256.Compression

/-!
# SHA-256 and SHA-256d

`Sha256.hash` is the definition of SHA-256: pad the message, cut it into blocks
of 64 bytes and compress them in turn.  `Sha256.Hasher` computes the same digest
from a message that arrives in parts, keeping only the block being filled.
SHA-256d is SHA-256 of the SHA-256 digest, which closes off length extension; it
has the same two forms.

An update with a concatenation is two updates (`Hasher.update_append`), and
digests are 32 bytes long.
-/

namespace Fortuna

def digestSize : Nat := 32

namespace Sha256

/-- What is put behind a message of `length` bytes: a one bit, zero bits up to
eight bytes below a multiple of 64 bytes, and the length in bits. -/
def padding (length : Nat) : Bytes :=
  0x80 :: (List.replicate ((119 - length % 64) % 64) 0 ++ Bytes.ofNatBE 8 (8 * length))

def hash (message : Bytes) : Bytes :=
  ((chunksOf 64 (message ++ padding message.length)).foldl Chain.compress Chain.initial).bytes

@[simp] theorem length_hash (message : Bytes) : (hash message).length = digestSize := rfl

/-- SHA-256 over a message of which some bytes have arrived. -/
structure Hasher where
  chain : Chain
  /-- The bytes of the incomplete block, latest first. -/
  pending : Bytes
  length : Nat
  deriving DecidableEq

namespace Hasher

def empty : Hasher := ⟨Chain.initial, [], 0⟩

/-- One more byte; the 64th byte of a block completes it. -/
def absorb (h : Hasher) (b : UInt8) : Hasher :=
  if (h.length + 1) % 64 = 0 then
    ⟨h.chain.compress (b :: h.pending).reverse, [], h.length + 1⟩
  else
    ⟨h.chain, b :: h.pending, h.length + 1⟩

def update (h : Hasher) (data : Bytes) : Hasher :=
  data.foldl absorb h

def finish (h : Hasher) : Bytes :=
  (h.update (padding h.length)).chain.bytes

@[simp] theorem update_nil (h : Hasher) : h.update [] = h := rfl

theorem update_append (h : Hasher) (xs ys : Bytes) :
    h.update (xs ++ ys) = (h.update xs).update ys :=
  List.foldl_append

@[simp] theorem length_finish (h : Hasher) : h.finish.length = digestSize := rfl

end Hasher

end Sha256

namespace Sha256d

def hash (message : Bytes) : Bytes :=
  Sha256.hash (Sha256.hash message)

@[simp] theorem length_hash (message : Bytes) : (hash message).length = digestSize := rfl

/-- SHA-256d over a message of which some bytes have arrived. -/
structure Hasher where
  inner : Sha256.Hasher
  deriving DecidableEq

namespace Hasher

def empty : Hasher := ⟨.empty⟩

def update (h : Hasher) (data : Bytes) : Hasher :=
  ⟨h.inner.update data⟩

def finish (h : Hasher) : Bytes :=
  Sha256.hash h.inner.finish

/-- A description that gives nothing of the state away. -/
def describe (_ : Hasher) : String :=
  "Sha256d \x7b .. \x7d"

theorem update_append (h : Hasher) (xs ys : Bytes) :
    h.update (xs ++ ys) = (h.update xs).update ys := by
  simp [update, Sha256.Hasher.update_append]

@[simp] theorem length_finish (h : Hasher) : h.finish.length = digestSize := rfl

end Hasher

end Sha256d

end Fortuna

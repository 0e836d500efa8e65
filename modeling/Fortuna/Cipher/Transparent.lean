import Fortuna.Cipher.Basic

/-!
# Transparent ciphers

Ciphers through which the working of a generator can be read off: one leaves
blocks as they are, so that output shows the counter, and one adds the key to
them.  They take any block size, and a factory of them may treat some keys
differently: refuse them, or give them a cipher of another block size.
-/

namespace Fortuna

namespace Transparent

/-- What a transparent cipher does to a block. -/
inductive Kind where
  | identity
  /-- Byte `i` is added to byte `i mod 32` of the key, without carry. -/
  | mask
  deriving DecidableEq

/-- The key repeated over a block and added to it without carry. -/
def addKey (key block : Bytes) : Bytes :=
  block.mapIdx fun i b => b ^^^ key.getD (i % 32) 0

/-- The cipher of a kind with the given block size. -/
def cipher : Kind → Nat → Bytes → Cipher
  | .identity, blockSize, _ => ⟨blockSize, id, fun _ => rfl⟩
  | .mask, blockSize, key => ⟨blockSize, addKey key, fun _ => List.length_mapIdx⟩

inductive KeyClass where
  | every
  | zero
  | nonzero
  /-- The nonzero keys whose byte `index` is `value` in the bits of `mask`. -/
  | byte (index : Nat) (mask value : UInt8)
  deriving DecidableEq

def KeyClass.contains : KeyClass → Bytes → Bool
  | .every, _ => true
  | .zero, key => key.all (· == 0)
  | .nonzero, key => key.any (· != 0)
  | .byte index mask value, key =>
    key.any (· != 0) && (key.getD index 0 &&& mask) == value

/-- What a factory makes of the keys that it treats differently. -/
inductive Treatment where
  | reject (reason : String)
  | badLength
  | blockSize (size : Nat)
  deriving DecidableEq

structure Design where
  kind : Kind
  blockSize : Nat
  /-- The keys treated differently, and how. -/
  exception : Option (KeyClass × Treatment) := none
  deriving DecidableEq

def Design.treat (d : Design) (key : Bytes) : Treatment → Except KeyError Cipher
  | .reject reason => .error (.rejected reason)
  | .badLength => .error (.invalidLength key.length)
  | .blockSize size => .ok (cipher d.kind size key)

def factory (d : Design) : CipherFactory where
  build key :=
    match d.exception with
    | some (keys, treatment) =>
      if keys.contains key then d.treat key treatment
      else .ok (cipher d.kind d.blockSize key)
    | none => .ok (cipher d.kind d.blockSize key)

end Transparent

end Fortuna

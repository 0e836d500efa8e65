import Fortuna.Bytes
import Fortuna.Decimal

/-!
# Block ciphers and cipher factories

A cipher encrypts blocks of one size in place, so encryption keeps lengths.  A
factory derives a cipher from key bytes or says why it will not.  Factories are
functions: the same key bytes always give the same cipher.
-/

namespace Fortuna

/-- A keyed block cipher. -/
structure Cipher where
  blockSize : Nat
  encrypt : Bytes → Bytes
  /-- Encryption is in place. -/
  length_encrypt : ∀ block, (encrypt block).length = block.length

/-- The encryption of a byte string that is exactly one block long. -/
def Cipher.encrypt? (cipher : Cipher) (block : Bytes) : Option Bytes :=
  if block.length = cipher.blockSize then some (cipher.encrypt block) else none

inductive KeyError where
  | invalidLength (length : Nat)
  /-- The key is refused for a reason of the factory's own. -/
  | rejected (reason : String)
  deriving DecidableEq

def KeyError.message : KeyError → String
  | .invalidLength length => "invalid key length: " ++ Decimal.ofNat length ++ " bytes"
  | .rejected reason => "cipher rejected key: " ++ reason

/-- A way of deriving ciphers from keys. -/
structure CipherFactory where
  build : Bytes → Except KeyError Cipher

end Fortuna

import Fortuna.Bytes

/-!
# Words of 32 bits

Words as four bytes, most significant byte first, and their rotation.
-/

namespace Fortuna

namespace Word

/-- The word of four bytes, most significant byte first. -/
def ofBytes (a b c d : UInt8) : UInt32 :=
  (a.toUInt32 <<< 24) ||| (b.toUInt32 <<< 16) ||| (c.toUInt32 <<< 8) ||| d.toUInt32

/-- The byte that starts `shift` bits up. -/
@[inline] def byteAt (w shift : UInt32) : UInt8 :=
  (w >>> shift).toUInt8

/-- The four bytes of a word, most significant byte first. -/
def bytes (w : UInt32) : Bytes :=
  [byteAt w 24, byteAt w 16, byteAt w 8, byteAt w 0]

/-- The words of a byte string; up to three bytes at its end are left out. -/
def listOf : Bytes → List UInt32
  | a :: b :: c :: d :: rest => ofBytes a b c d :: listOf rest
  | _ => []

/-- Rotation to the right by `n` bits, for `0 < n < 32`. -/
@[inline] def rotateRight (w n : UInt32) : UInt32 :=
  (w >>> n) ||| (w <<< (32 - n))

end Word

end Fortuna

/-!
# Byte strings

A byte string is a list of bytes.  This module reads byte strings as numbers in
both byte orders, writes numbers in a given width, and spells bytes in
lower-case hexadecimal.  Decoding undoes the hexadecimal spelling (`ofHex?_hex`).
-/

namespace Fortuna

abbrev Bytes := List UInt8

namespace Bytes

/-! ## Numbers -/

/-- The number whose digits in base 256 are the given bytes, least significant
byte first. -/
def toNatLE : Bytes → Nat
  | [] => 0
  | b :: bs => b.toNat + 256 * toNatLE bs

/-- The number whose digits in base 256 are the given bytes, most significant
byte first. -/
def toNatBE (bs : Bytes) : Nat :=
  toNatLE bs.reverse

/-- The `width` low digits of `n` in base 256, least significant byte first. -/
def ofNatLE : Nat → Nat → Bytes
  | 0, _ => []
  | width + 1, n => UInt8.ofNat n :: ofNatLE width (n / 256)

/-- The `width` low digits of `n` in base 256, most significant byte first. -/
def ofNatBE (width n : Nat) : Bytes :=
  (ofNatLE width n).reverse

@[simp] theorem length_ofNatLE (width n : Nat) :
    (ofNatLE width n).length = width := by
  induction width generalizing n with
  | zero => rfl
  | succ width ih => simp [ofNatLE, ih]

@[simp] theorem length_ofNatBE (width n : Nat) :
    (ofNatBE width n).length = width := by
  simp [ofNatBE]

/-! ## Hexadecimal -/

/-- The two hexadecimal digits of a byte, lower case. -/
def hexPair (b : UInt8) : List Char :=
  [Nat.digitChar (b.toNat / 16), Nat.digitChar (b.toNat % 16)]

def hex (bs : Bytes) : List Char :=
  bs.flatMap hexPair

/-- The value of a hexadecimal digit of either case. -/
def hexDigit? (c : Char) : Option Nat :=
  if '0' ≤ c ∧ c ≤ '9' then some (c.toNat - '0'.toNat)
  else if 'a' ≤ c ∧ c ≤ 'f' then some (c.toNat - 'a'.toNat + 10)
  else if 'A' ≤ c ∧ c ≤ 'F' then some (c.toNat - 'A'.toNat + 10)
  else none

def ofHex? : List Char → Option Bytes
  | [] => some []
  | [_] => none
  | high :: low :: rest => do
    let h ← hexDigit? high
    let l ← hexDigit? low
    return UInt8.ofNat (16 * h + l) :: (← ofHex? rest)

theorem hexDigit?_digitChar : ∀ n < 16, hexDigit? (Nat.digitChar n) = some n := by
  decide

theorem ofHex?_hex (bs : Bytes) : ofHex? (hex bs) = some bs := by
  induction bs with
  | nil => rfl
  | cons b bs ih =>
    have hb : b.toNat < 256 := b.toNat_lt
    have hhigh := hexDigit?_digitChar (b.toNat / 16) (by omega)
    have hlow := hexDigit?_digitChar (b.toNat % 16) (by omega)
    have hvalue : UInt8.ofNat (16 * (b.toNat / 16) + b.toNat % 16) = b := by
      rw [Nat.div_add_mod, UInt8.ofNat_toNat]
    rw [hex, List.flatMap_cons, ← hex, hexPair, List.cons_append, List.cons_append,
      List.nil_append, ofHex?, hhigh, hlow, ih]
    simp only [Option.bind_eq_bind, Option.bind_some, hvalue, Option.pure_def]

end Bytes

end Fortuna

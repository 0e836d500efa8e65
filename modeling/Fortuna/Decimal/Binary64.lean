import Fortuna.Decimal

/-!
# Whole numbers as 64-bit floats

A float with 53 significant bits holds every whole number up to `2 ^ 53` and
rounds larger ones, to the even neighbour on a tie.  Its shortest numeral is the
one with the fewest significant digits that still reads back as the float, and
among those the nearest to it; of two equally near the larger one.

Everything is computed on natural numbers.  A float is kept as
`mantissa * 2 ^ exponent` with `mantissa < 2 ^ 53`; the exponent is 0 as long as
that suffices, and otherwise `2 ^ 52 ≤ mantissa`.
-/

namespace Fortuna

namespace Binary64

/-- A float that is a whole number. -/
structure Whole where
  mantissa : Nat
  exponent : Nat
  deriving DecidableEq

namespace Whole

def value (f : Whole) : Nat :=
  f.mantissa * Nat.pow 2 f.exponent

/-- The float nearest to `n`, of two equally near the one with the even
mantissa. -/
def nearest (n : Nat) : Whole :=
  let exponent := n.log2 - 52
  let unit := Nat.pow 2 exponent
  let down := n / unit
  let rest := 2 * (n % unit)
  let mantissa := if unit < rest ∨ (rest = unit ∧ down % 2 = 1) then down + 1 else down
  if mantissa = Nat.pow 2 53 then ⟨Nat.pow 2 52, exponent + 1⟩ else ⟨mantissa, exponent⟩

/-- Whether `x` reads back as the float: it lies no farther than half way to the
whole floats next to it, and half way only if the mantissa is even.  The gap below
a power of two is half the gap above. -/
def readsBack (f : Whole) (x : Nat) : Bool :=
  let above := Nat.pow 2 (f.exponent + 1)
  let below := if f.mantissa = Nat.pow 2 52 then Nat.pow 2 f.exponent else above
  let low := 4 * f.value - below
  let high := 4 * f.value + above
  if f.mantissa % 2 = 0 then low ≤ 4 * x ∧ 4 * x ≤ high else low < 4 * x ∧ 4 * x < high

/-- The multiple of `unit` nearest to the float among those that read back. -/
def onGrid (f : Whole) (unit : Nat) : Option Nat :=
  let low := f.value / unit * unit
  let high := low + unit
  match f.readsBack low, f.readsBack high with
  | true, true => some (if f.value - low < high - f.value then low else high)
  | true, false => some low
  | false, true => some high
  | false, false => none

/-- The number read back with the most trailing zeros, at most `zeros`. -/
def shortest (f : Whole) : Nat → Nat
  | 0 => f.value
  | zeros + 1 => (f.onGrid (Nat.pow 10 (zeros + 1))).getD (f.shortest zeros)

end Whole

/-- The shortest numeral of the float nearest to `n`. -/
def shortestText (n : Nat) : String :=
  let f := Whole.nearest n
  Decimal.ofNat (f.shortest (Decimal.digits f.value).length)

/-- The shortest numeral of the float nearest to an integer. -/
def integerText (n : Int) : String :=
  if n < 0 then "-" ++ shortestText n.natAbs else shortestText n.natAbs

/-! ## The largest float -/

/-- The least number that rounds to infinity: half a unit above the largest
finite float. -/
def overflowBound : Nat :=
  (Nat.pow 2 54 - 1) * Nat.pow 2 970

/-- Whether `digits * 10 ^ exponent` rounds to infinity.  Numbers far from the
bound are told by their length alone. -/
def overflows (digits : Nat) (exponent : Int) : Bool :=
  if digits = 0 then false
  else
    let magnitude := (Decimal.digits digits).length + exponent
    if magnitude < 300 then false
    else if 320 < magnitude then true
    else if 0 ≤ exponent then overflowBound ≤ digits * Nat.pow 10 exponent.toNat
    else overflowBound * Nat.pow 10 exponent.natAbs ≤ digits

end Binary64

end Fortuna

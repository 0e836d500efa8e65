import Fortuna.Bytes
import Fortuna.Decimal.Binary64

/-!
# Numbers of TOML

Integers are decimal with an optional sign, or hexadecimal, octal or binary with
a mark and without sign; they must fit a signed word of 64 bits.  Floats are
decimal with a fraction, an exponent or both, or one of the special ones.  A
single underscore may stand between two digits.
-/

namespace Fortuna

namespace Toml

/-- The values of the digits of a numeral, of which `digit?` says what they are
worth; a single underscore may stand between two digits. -/
def digits? (digit? : Char → Option Nat) : List Char → Option (List Nat)
  | [] => none
  | [c] => (digit? c).map fun d => [d]
  | c :: '_' :: rest => do
    let d ← digit? c
    return d :: (← digits? digit? rest)
  | c :: rest => do
    let d ← digit? c
    return d :: (← digits? digit? rest)

def digitBelow (base : Nat) (c : Char) : Option Nat :=
  (Bytes.hexDigit? c).filter (· < base)

/-- The number of decimal digits without needless leading zeros. -/
def decimal? (cs : List Char) : Option Nat :=
  match digits? (digitBelow 10) cs with
  | some (0 :: _ :: _) => none
  | ds => ds.map (Decimal.value 10)

/-- Whether an integer fits a signed word of 64 bits. -/
def fitsWord (n : Int) : Bool :=
  Int64.minValue.toInt ≤ n && n ≤ Int64.maxValue.toInt

/-- The sign in front of a numeral, whether it is negative, and the rest. -/
def splitSign : List Char → Bool × List Char
  | '+' :: cs => (false, cs)
  | '-' :: cs => (true, cs)
  | cs => (false, cs)

/-- The integer that a numeral spells, before its size is looked at. -/
def unboundedInteger? : List Char → Option Int
  | '0' :: 'x' :: cs => (digits? (digitBelow 16) cs).map fun ds => (Decimal.value 16 ds : Int)
  | '0' :: 'o' :: cs => (digits? (digitBelow 8) cs).map fun ds => (Decimal.value 8 ds : Int)
  | '0' :: 'b' :: cs => (digits? (digitBelow 2) cs).map fun ds => (Decimal.value 2 ds : Int)
  | cs =>
    let (negative, cs) := splitSign cs
    (decimal? cs).map fun n : Nat => if negative then -(n : Int) else n

def integer? (cs : List Char) : Option Int :=
  (unboundedInteger? cs).filter fitsWord

def exponent? (cs : List Char) : Option Int :=
  let (negative, cs) := splitSign cs
  (digits? (digitBelow 10) cs).map fun ds =>
    if negative then -(Decimal.value 10 ds : Int) else Decimal.value 10 ds

/-- The digits of a float, as one number, and the power of ten they count. -/
def floatParts? (cs : List Char) : Option (Nat × Int) := do
  let (mantissa, tail) := cs.span fun c => c != 'e' && c != 'E'
  let (whole, fraction) := mantissa.span (· != '.')
  guard (tail ≠ [] ∨ fraction ≠ [])
  let n ← decimal? whole
  let ds ← if fraction = [] then pure [] else digits? (digitBelow 10) fraction.tail
  let e ← if tail = [] then pure 0 else exponent? tail.tail
  return (ds.foldl (fun n d => 10 * n + d) n, e - ds.length)

/-- Whether a text is a float.  A numeral that rounds to positive infinity is
none. -/
def isFloat (cs : List Char) : Bool :=
  let (negative, cs) := splitSign cs
  if cs = ['i', 'n', 'f'] ∨ cs = ['n', 'a', 'n'] then true
  else
    match floatParts? cs with
    | some (n, e) => negative || !Binary64.overflows n e
    | none => false

end Toml

end Fortuna

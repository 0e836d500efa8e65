/-!
# Decimal numerals

Numbers in decimal, most significant digit first and without leading zeros, and
the reading of digit strings.  Reading undoes writing (`natural?_digits`).
-/

namespace Fortuna

namespace Decimal

def digits (n : Nat) : List Char :=
  Nat.toDigits 10 n

def ofNat (n : Nat) : String :=
  String.ofList (digits n)

/-- The numeral of an integer, with a minus sign where it is negative. -/
def ofInt (n : Int) : String :=
  if n < 0 then "-" ++ ofNat n.natAbs else ofNat n.natAbs

/-- The number that a string of digits in the given base spells. -/
def value (base : Nat) (ds : List Nat) : Nat :=
  ds.foldl (fun n d => base * n + d) 0

def digitValue (c : Char) : Nat :=
  c.toNat - '0'.toNat

/-- The number spelt by one or more decimal digits; leading zeros count for
nothing. -/
def natural? (cs : List Char) : Option Nat :=
  if cs ≠ [] ∧ cs.all Char.isDigit then some (value 10 (cs.map digitValue)) else none

/-- The number spelt by digits behind an optional plus sign. -/
def signedNatural? : List Char → Option Nat
  | '+' :: cs => natural? cs
  | cs => natural? cs

/-- The integer spelt by digits behind an optional sign. -/
def integer? : List Char → Option Int
  | '-' :: cs => (natural? cs).map fun n => -(n : Int)
  | cs => (signedNatural? cs).map fun n => (n : Int)

/-! ## Reading what was written -/

theorem digits_ne_nil (n : Nat) : digits n ≠ [] :=
  Nat.toDigits_ne_nil

theorem isDigit_of_mem_digits {n : Nat} {c : Char} (hc : c ∈ digits n) : c.isDigit = true :=
  Nat.isDigit_of_mem_toDigits (by decide) (by decide) hc

theorem value_digits (n : Nat) : value 10 ((digits n).map digitValue) = n := by
  rw [value, List.foldl_map]
  exact Nat.ofDigitChars_ten_toDigits

theorem natural?_digits (n : Nat) : natural? (digits n) = some n := by
  have hall : (digits n).all Char.isDigit = true :=
    List.all_eq_true.mpr fun _ => isDigit_of_mem_digits
  rw [natural?, if_pos ⟨digits_ne_nil n, hall⟩, value_digits]

/-- Only the numeral of zero begins with a zero. -/
theorem eq_nil_of_map_digits {n : Nat} {ds : List Nat}
    (h : (digits n).map digitValue = 0 :: ds) : ds = [] := by
  induction n using Nat.strongRecOn generalizing ds with
  | ind n ih =>
      by_cases hn : n < 10
      · rw [digits, Nat.toDigits_of_lt_base hn] at h
        exact (List.cons.inj h).2.symm
      · rw [digits, Nat.toDigits_of_base_le (by decide) (Nat.le_of_not_lt hn), List.map_append,
          List.append_eq_cons_iff] at h
        obtain ⟨hnil, -⟩ | ⟨front, hfront, -⟩ := h
        · exact absurd (List.map_eq_nil_iff.mp hnil) (digits_ne_nil _)
        · -- the numeral of the tenth would be a single zero
          have hzero := ih (n / 10) (by omega) hfront
          have htenth := value_digits (n / 10)
          rw [digits, hfront, hzero] at htenth
          change 0 = n / 10 at htenth
          omega

end Decimal

end Fortuna

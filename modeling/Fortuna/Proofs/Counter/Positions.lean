import Mathlib.Data.List.Nodup
import Mathlib.Data.Nat.ModEq
import Fortuna.Counter

/-!
# Positions of a counter

A counter is determined by its width and its value (`ofNat_value`), so a counter
of width `w` is a position on a circle of `256 ^ w` positions.  This module
reads every way of moving a counter as addition on that circle: `k` steps add
`k` (`advance_eq_ofNat`), and the next `k` counters are the positions
`v, v + 1, …, v + k - 1` (`upcoming_eq_map`).  Two positions coincide exactly
when they agree modulo `256 ^ w`, so `k` consecutive counters are distinct
exactly when they do not go round the circle (`nodup_upcoming_iff`).
-/

namespace Fortuna

namespace Bytes

/-! ## Bytes as numbers -/

/-- Writing in a fixed width and reading back reduces modulo `256 ^ width`. -/
theorem toNatLE_ofNatLE (width n : Nat) :
    toNatLE (ofNatLE width n) = n % 256 ^ width := by
  induction width generalizing n with
  | zero => simp [ofNatLE, toNatLE, Nat.mod_one]
  | succ width ih =>
      rw [ofNatLE, toNatLE, ih, Nat.pow_succ', Nat.mod_mul]
      simp

theorem toNatLE_lt (bs : Bytes) : toNatLE bs < 256 ^ bs.length := by
  induction bs with
  | nil => simp [toNatLE]
  | cons b bs ih =>
      have hb : b.toNat < 256 := b.toNat_lt
      rw [toNatLE, List.length_cons, Nat.pow_succ]
      omega

theorem toNatLE_increment (bs : Bytes) :
    bs.increment.toNatLE = (bs.toNatLE + 1) % 256 ^ bs.length := by
  induction bs with
  | nil => simp [increment, toNatLE]
  | cons b bs ih =>
      have hb : b.toNat < 256 := b.toNat_lt
      have hlt := toNatLE_lt bs
      rw [increment, List.length_cons, Nat.pow_succ']
      by_cases hwrap : b + 1 = 0
      · have hlast : b.toNat = 255 := by
          have hsum := congrArg UInt8.toNat hwrap
          simp [UInt8.toNat_add] at hsum
          omega
        have hcarry : 255 + 256 * toNatLE bs + 1 = 256 * (toNatLE bs + 1) := by omega
        rw [if_pos hwrap, toNatLE, toNatLE, ih, hlast, hcarry, Nat.mul_mod_mul_left]
        simp
      · have hne : b.toNat ≠ 255 := fun h => hwrap (UInt8.toNat_inj.mp (by simp [h]))
        have hsucc : (b + 1).toNat = b.toNat + 1 := by
          simp [UInt8.toNat_add]
          omega
        rw [if_neg hwrap, toNatLE, toNatLE, hsucc, Nat.mod_eq_of_lt (by omega)]
        omega

/-- Reading a byte string and writing it back in its own width changes nothing. -/
theorem ofNatLE_toNatLE (bs : Bytes) : ofNatLE bs.length (toNatLE bs) = bs := by
  induction bs with
  | nil => rfl
  | cons b bs ih =>
      have hb : b.toNat < 256 := b.toNat_lt
      have hhead : UInt8.ofNat (b.toNat + 256 * toNatLE bs) = b := by
        apply UInt8.toNat_inj.mp
        simp
      have htail : (b.toNat + 256 * toNatLE bs) / 256 = toNatLE bs := by omega
      rw [List.length_cons, toNatLE, ofNatLE, hhead, htail, ih]

theorem ofNatLE_eq_ofNatLE_iff (width m n : Nat) :
    ofNatLE width m = ofNatLE width n ↔ m % 256 ^ width = n % 256 ^ width := by
  constructor
  · intro h
    have hread := congrArg toNatLE h
    rwa [toNatLE_ofNatLE, toNatLE_ofNatLE] at hread
  · intro h
    have hm := ofNatLE_toNatLE (ofNatLE width m)
    have hn := ofNatLE_toNatLE (ofNatLE width n)
    rw [length_ofNatLE, toNatLE_ofNatLE] at hm hn
    rw [← hm, ← hn, h]

theorem toNatLE_eq_zero_iff (bs : Bytes) :
    toNatLE bs = 0 ↔ ∀ b ∈ bs, b = 0 := by
  induction bs with
  | nil => simp [toNatLE]
  | cons b bs ih =>
      have hb : b.toNat = 0 ↔ b = 0 := by
        rw [← UInt8.toNat_inj]
        rfl
      rw [List.forall_mem_cons, ← ih, ← hb, toNatLE]
      omega

end Bytes

namespace Counter

/-! ## Counters as numbers -/

@[simp] theorem width_ofNat (width n : Nat) : (ofNat width n).width = width :=
  Bytes.length_ofNatLE width n

@[simp] theorem value_ofNat (width n : Nat) :
    (ofNat width n).value = n % 256 ^ width :=
  Bytes.toNatLE_ofNatLE width n

@[simp] theorem ofNat_value (c : Counter) : ofNat c.width c.value = c := by
  cases c with
  | mk bytes => exact congrArg mk (Bytes.ofNatLE_toNatLE bytes)

theorem ofNat_eq_ofNat_iff (width m n : Nat) :
    ofNat width m = ofNat width n ↔ m ≡ n [MOD 256 ^ width] := by
  rw [Nat.ModEq, ← Bytes.ofNatLE_eq_ofNatLE_iff]
  exact mk.injEq _ _ ▸ Iff.rfl

/-- A counter stands at zero when all its bytes are zero. -/
theorem isZero_iff_value_eq_zero (c : Counter) :
    c.isZero = true ↔ c.value = 0 := by
  rw [isZero, value, Bytes.toNatLE_eq_zero_iff, List.all_eq_true]
  simp only [beq_iff_eq]

theorem isZero_ofNat_iff (width n : Nat) :
    (ofNat width n).isZero = true ↔ 256 ^ width ∣ n := by
  rw [isZero_iff_value_eq_zero, value_ofNat, Nat.dvd_iff_mod_eq_zero]

theorem zero_eq_ofNat (width : Nat) : zero width = ofNat width 0 := by
  have hzero : (zero width).value = 0 := by
    rw [← isZero_iff_value_eq_zero]
    simp [zero, isZero]
  rw [← ofNat_value (zero width), width_zero, hzero]

/-! ## Steps -/

/-- A step adds one, modulo the number of counters of the width. -/
theorem value_next (c : Counter) :
    c.next.value = (c.value + 1) % 256 ^ c.width :=
  Bytes.toNatLE_increment c.bytes

theorem next_ofNat (width n : Nat) : (ofNat width n).next = ofNat width (n + 1) := by
  rw [← ofNat_value (ofNat width n).next, width_next, width_ofNat, ofNat_eq_ofNat_iff,
    value_next, value_ofNat, width_ofNat]
  exact (Nat.mod_modEq _ _).trans ((Nat.mod_modEq n _).add_right 1)

theorem advance_ofNat (width n k : Nat) :
    (ofNat width n).advance k = ofNat width (n + k) := by
  induction k generalizing n with
  | zero => rfl
  | succ k ih => rw [advance, next_ofNat, ih, Nat.add_assoc, Nat.add_comm 1 k]

/-- `k` steps add `k`. -/
theorem advance_eq_ofNat (c : Counter) (k : Nat) :
    c.advance k = ofNat c.width (c.value + k) := by
  rw [← advance_ofNat, ofNat_value]

theorem advance_advance (c : Counter) (j k : Nat) :
    (c.advance j).advance k = c.advance (j + k) := by
  rw [advance_eq_ofNat c j, advance_ofNat, advance_eq_ofNat c, Nat.add_assoc]

/-- Full rounds end where they began. -/
theorem advance_of_dvd (c : Counter) {k : Nat} (hround : 256 ^ c.width ∣ k) :
    c.advance k = c := by
  obtain ⟨rounds, rfl⟩ := hround
  have hself : ofNat c.width c.value = c := ofNat_value c
  rw [advance_eq_ofNat, ← hself, width_ofNat, value_ofNat, ofNat_eq_ofNat_iff]
  simp [Nat.ModEq]

theorem upcoming_ofNat (width n k : Nat) :
    (ofNat width n).upcoming k = (List.range k).map fun i => ofNat width (n + i) := by
  induction k generalizing n with
  | zero => rfl
  | succ k ih =>
      rw [upcoming, next_ofNat, ih, List.range_succ_eq_map, List.map_cons, List.map_map]
      refine congrArg _ (List.map_congr_left fun i _ => ?_)
      simp only [Function.comp_apply, Nat.succ_eq_add_one]
      congr 1
      omega

/-- The next `k` counters are `k` consecutive positions. -/
theorem upcoming_eq_map (c : Counter) (k : Nat) :
    c.upcoming k = (List.range k).map fun i => ofNat c.width (c.value + i) := by
  rw [← upcoming_ofNat, ofNat_value]

theorem upcoming_add (c : Counter) (j k : Nat) :
    c.upcoming (j + k) = c.upcoming j ++ (c.advance j).upcoming k := by
  rw [upcoming_eq_map, upcoming_eq_map, advance_eq_ofNat, upcoming_ofNat, List.range_add,
    List.map_append, List.map_map]
  simp only [Function.comp_def, Nat.add_assoc]

/-- Consecutive counters are distinct until they have gone round once. -/
theorem nodup_upcoming_iff (c : Counter) (k : Nat) :
    (c.upcoming k).Nodup ↔ k ≤ 256 ^ c.width := by
  have hpos : 0 < 256 ^ c.width := Nat.pow_pos (by decide)
  rw [upcoming_eq_map, List.nodup_map_iff_inj_on List.nodup_range]
  simp only [List.mem_range, ofNat_eq_ofNat_iff]
  constructor
  · intro hinj
    by_contra hlt
    have hround : c.value + 0 ≡ c.value + 256 ^ c.width [MOD 256 ^ c.width] := by
      simp [Nat.ModEq]
    have heq := hinj 0 (by omega) (256 ^ c.width) (by omega) hround
    omega
  · intro hle i hi j hj hij
    have hmod : i ≡ j [MOD 256 ^ c.width] := Nat.ModEq.add_left_cancel' _ hij
    exact hmod.eq_of_lt_of_lt (by omega) (by omega)

/-- The `k` counters from `c` on and the `r` counters after them have none in
common until all of them go round. -/
theorem upcoming_ne_upcoming_iff (c : Counter) {k r : Nat} (hk : 0 < k) (hr : 0 < r) :
    (∀ x ∈ c.upcoming k, ∀ y ∈ (c.advance k).upcoming r, x ≠ y) ↔ k + r ≤ 256 ^ c.width := by
  constructor
  · intro hdisjoint
    by_contra hlt
    have hpos : 0 < 256 ^ c.width := Nat.pow_pos (by decide)
    -- `i` of the first `k` and `j` of the next `r`, one round apart
    obtain ⟨i, hi, j, hj, hround⟩ : ∃ i < k, ∃ j < r, k + j = i + 256 ^ c.width := by
      rcases Nat.le_total (256 ^ c.width) k with hle | hle
      · exact ⟨k - 256 ^ c.width, by omega, 0, hr, by omega⟩
      · exact ⟨0, hk, 256 ^ c.width - k, by omega, by omega⟩
    rw [upcoming_eq_map, advance_eq_ofNat, upcoming_ofNat] at hdisjoint
    refine hdisjoint _ (List.mem_map_of_mem (List.mem_range.mpr hi)) _
      (List.mem_map_of_mem (List.mem_range.mpr hj)) ?_
    rw [ofNat_eq_ofNat_iff, Nat.add_assoc, hround, ← Nat.add_assoc]
    simp [Nat.ModEq]
  · intro hle
    rw [← nodup_upcoming_iff, upcoming_add, List.nodup_append] at hle
    exact hle.2.2

theorem width_of_mem_upcoming {c d : Counter} {k : Nat} (hmem : d ∈ c.upcoming k) :
    d.width = c.width := by
  rw [upcoming_eq_map, List.mem_map] at hmem
  obtain ⟨i, -, rfl⟩ := hmem
  exact width_ofNat _ _

end Counter

end Fortuna

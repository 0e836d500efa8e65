import Mathlib.Logic.Function.Iterate
import Fortuna.Cipher.Transparent
import Fortuna.Proofs.Generator.Chunk

/-!
# The round of a counter

A counter steps through all counters of its width in one round of `256 ^ width` steps and
is then where it began.  So two numbers of steps end at one counter exactly when they
differ by whole rounds (`advance_eq_advance_iff`), and each counter of the width is met
once in a round (`existsUnique_advance_eq`).

Block `i` of a keystream is made at the counter `i` steps on (`keystream_eq_map_advance`),
which places the blocks of a keystream on this round.
-/

namespace Fortuna

namespace Counter

/-! ## Steps along the round -/

theorem advance_eq_iterate (c : Counter) (k : Nat) : c.advance k = next^[k] c := by
  induction k generalizing c with
  | zero => rfl
  | succ k ih => rw [advance, ih, Function.iterate_succ_apply]

theorem value_advance (c : Counter) (k : Nat) :
    (c.advance k).value = (c.value + k) % 256 ^ c.width := by
  rw [advance_eq_ofNat, value_ofNat]

/-- Two numbers of steps end at one counter when they differ by whole rounds. -/
theorem advance_eq_advance_iff (c : Counter) (i j : Nat) :
    c.advance i = c.advance j ↔ i ≡ j [MOD 256 ^ c.width] := by
  rw [advance_eq_ofNat, advance_eq_ofNat, ofNat_eq_ofNat_iff]
  exact ⟨Nat.ModEq.add_left_cancel' c.value, Nat.ModEq.add_left c.value⟩

theorem advance_eq_self_iff (c : Counter) (k : Nat) :
    c.advance k = c ↔ 256 ^ c.width ∣ k := by
  rw [← Nat.modEq_zero_iff_dvd]
  exact advance_eq_advance_iff c k 0

/-- A round meets each counter of the width once. -/
theorem existsUnique_advance_eq (c : Counter) {d : Counter} (hwidth : d.width = c.width) :
    ∃! k, k < 256 ^ c.width ∧ c.advance k = d := by
  have hpos : 0 < 256 ^ c.width := Nat.pow_pos (by decide)
  have hlt : c.value < 256 ^ c.width := Bytes.toNatLE_lt c.bytes
  -- from the value of `c` up to the top of the round, and then on to the value of `d`
  have hmeets : c.advance (256 ^ c.width - c.value + d.value) = d := by
    have hsum : c.value + (256 ^ c.width - c.value + d.value) = 256 ^ c.width + d.value := by
      omega
    rw [advance_eq_ofNat, hsum, ← hwidth, ← ofNat_value d, width_ofNat, value_ofNat,
      ofNat_eq_ofNat_iff]
    simp [Nat.ModEq]
  refine ⟨(256 ^ c.width - c.value + d.value) % 256 ^ c.width, ⟨Nat.mod_lt _ hpos, ?_⟩, ?_⟩
  · exact ((advance_eq_advance_iff c _ _).mpr (Nat.mod_modEq _ _)).trans hmeets
  · rintro k ⟨hk, hkd⟩
    have hround := (advance_eq_advance_iff c _ _).mp (hkd.trans hmeets.symm)
    exact (Nat.mod_eq_of_lt hk).symm.trans hround

theorem upcoming_eq_map_advance (c : Counter) (k : Nat) :
    c.upcoming k = (List.range k).map c.advance := by
  rw [upcoming_eq_map]
  exact List.map_congr_left fun i _ => (advance_eq_ofNat c i).symm

end Counter

namespace Generator

variable {F : CipherFactory}

/-- Block `i` of a keystream is made at the counter `i` steps on. -/
theorem keystream_eq_map_advance (purpose : Purpose) (n : Nat) {g : Generator F}
    (hseeded : g.isSeeded = true) :
    (keystream purpose n g).result =
        .ok ((List.range n).flatMap fun i => g.cipher.encrypt (g.counter.advance i).bytes) ∧
      (keystream purpose n g).actions =
        (List.range n).map fun i => .encrypted purpose (g.counter.advance i) := by
  rw [keystream_of_seeded purpose n hseeded, blocks, trail, Counter.upcoming_eq_map_advance,
    List.flatMap_map, List.map_map]
  exact ⟨rfl, rfl⟩

/-- A step keeps the width of a counter and adds one to its value, modulo the number of
counters of its width.  So `k` steps add `k`, they end where they began exactly if they
are whole rounds, and the steps of one round meet every counter of the width once.  Hence
two positions of a keystream use one counter block exactly if they are whole rounds
apart. -/
theorem counter_runs_full_cycle (c : Counter) :
    (c.next.width = c.width ∧ c.next.value = (c.value + 1) % 256 ^ c.width) ∧
      (∀ k, (Counter.next^[k] c).width = c.width ∧
        (Counter.next^[k] c).value = (c.value + k) % 256 ^ c.width ∧
        (Counter.next^[k] c = c ↔ 256 ^ c.width ∣ k)) ∧
      (∀ d, d.width = c.width → ∃! k, k < 256 ^ c.width ∧ Counter.next^[k] c = d) ∧
      ∀ {F : CipherFactory} (g : Generator F) (purpose : Purpose) (n : Nat),
        g.counter = c → g.isSeeded = true →
          let uses := (keystream purpose n g).actions
          (keystream purpose n g).result =
              .ok ((List.range n).flatMap fun i => g.cipher.encrypt (Counter.next^[i] c).bytes) ∧
            uses = (List.range n).map (fun i => .encrypted purpose (Counter.next^[i] c)) ∧
            ∀ i < n, ∀ j < n, uses[i]? = uses[j]? ↔ i ≡ j [MOD 256 ^ c.width] := by
  simp only [← Counter.advance_eq_iterate]
  refine ⟨⟨c.width_next, c.value_next⟩, fun k => ⟨c.width_advance k, c.value_advance k,
    c.advance_eq_self_iff k⟩, fun d hwidth => c.existsUnique_advance_eq hwidth, ?_⟩
  rintro F g purpose n rfl hseeded
  obtain ⟨hresult, hactions⟩ := keystream_eq_map_advance purpose n hseeded
  refine ⟨hresult, hactions, fun i hi j hj => ?_⟩
  have huse {k : Nat} (hk : k < n) :
      (keystream purpose n g).actions[k]? = some (.encrypted purpose (g.counter.advance k)) := by
    rw [hactions, List.getElem?_map, List.getElem?_range hk, Option.map_some]
  rw [huse hi, huse hj, Option.some.injEq, Action.encrypted.injEq,
    Counter.advance_eq_advance_iff]
  exact and_iff_right rfl

/-- A counter of two bytes, two steps below the top. -/
def highGenerator : Generator (Transparent.factory ⟨.identity, 2, none⟩) where
  key := zeroKey
  cipher := Transparent.cipher .identity 2 zeroKey
  counter := ⟨[254, 255]⟩

/-- It passes the top with a carry and through zero, and is back after 65536 steps and
no earlier. -/
theorem counter_runs_full_cycle_over_the_top :
    (keystream .output 3 highGenerator).result = .ok [254, 255, 255, 255, 0, 0] ∧
      Counter.next^[65536] highGenerator.counter = highGenerator.counter ∧
      Counter.next^[65535] highGenerator.counter ≠ highGenerator.counter ∧
      (∃! k, k < 65536 ∧ Counter.next^[k] highGenerator.counter = ⟨[7, 1]⟩) ∧
      (keystream .output 70000 highGenerator).actions[5]? =
        (keystream .output 70000 highGenerator).actions[65541]? := by
  obtain ⟨-, hsteps, hmeets, huses⟩ := counter_runs_full_cycle highGenerator.counter
  have hseeded : highGenerator.isSeeded = true := by decide
  obtain ⟨hthree, -, -⟩ := huses highGenerator .output 3 rfl hseeded
  obtain ⟨-, -, hsame⟩ := huses highGenerator .output 70000 rfl hseeded
  refine ⟨hthree.trans (by decide), (hsteps 65536).2.2.mpr (by decide), ?_,
    hmeets ⟨[7, 1]⟩ rfl, (hsame 5 (by decide) 65541 (by decide)).mpr (by decide)⟩
  rw [ne_eq, (hsteps 65535).2.2]
  decide

end Generator

end Fortuna

import Fortuna.Cipher.Transparent
import Fortuna.Proofs.Generator.Run

/-!
# Invariants of every run

Two things hold in every state that requests leave behind, whatever failed on the
way.  Key and cipher fit together and fit the counter: the stored key is the last
one installed, and keys are installed only with a cipher of the block size fixed
at creation (`stored_key_fits`).  And the books balance: the counter stands at the
number of seeds and blocks counted since it was last set to zero
(`counter_ledger`).  Totals are raised in bulk and apart from the counter, but no
error comes between the two.
-/

namespace Fortuna

/-! ## Installed keys -/

namespace Action

/-- The keys installed in a transcript, in order. -/
def installedKeys (actions : List Action) : List Bytes :=
  actions.filterMap fun
    | .installed key => some key
    | _ => none

theorem installedKeys_append (as bs : List Action) :
    installedKeys (as ++ bs) = installedKeys as ++ installedKeys bs :=
  List.filterMap_append

end Action

namespace Generator

variable {F : CipherFactory}

open Fortuna.Action (installedKeys installedKeys_append)

theorem installedKeys_trail (g : Generator F) (purpose : Purpose) (k : Nat) :
    installedKeys (g.trail purpose k) = [] := by
  rw [installedKeys, trail, List.filterMap_map, List.filterMap_eq_nil_iff]
  intro c _
  rfl

theorem installedKeys_chunkTrail (g : Generator F) (size : Nat) :
    installedKeys (g.chunkTrail size) = [] := by
  rw [chunkTrail, installedKeys_append, installedKeys_trail, installedKeys_trail]
  rfl

/-- A stage keeps the key, or installs one that has a fitting cipher. -/
theorem Stage.installedKeys_eq {g h : Generator F} {as : List Action} (hstage : Stage g as h) :
    (installedKeys as = [] ∧ h.key = g.key) ∨
      (installedKeys as = [h.key] ∧ ∃ cipher, F.cipherFor g.blockSize h.key = .ok cipher) := by
  cases hstage with
  | mixed seed cipher hcipher => exact .inr ⟨rfl, cipher, hcipher⟩
  | wiped cipher hcipher => exact .inr ⟨rfl, cipher, hcipher⟩
  | restarted seed => exact .inl ⟨rfl, rfl⟩
  | draw hdraw =>
      cases hdraw with
      | delivered n => exact .inl ⟨rfl, rfl⟩
      | chunk size hpos hmax o hend =>
          cases hend with
          | unseeded => exact .inl ⟨rfl, rfl⟩
          | stalled => exact .inl ⟨installedKeys_trail g _ _, rfl⟩
          | refused => exact .inl ⟨installedKeys_chunkTrail g size, rfl⟩
          | rekeyed cipher hseeded hdrawn hcipher =>
              right
              rw [installedKeys_append, installedKeys_chunkTrail]
              exact ⟨rfl, cipher, hcipher⟩

/-- The stored key is the last one installed, or the first key of the run. -/
theorem Run.getLast?_installedKeys {g h : Generator F} {as : List Action}
    (hrun : Run Stage g as h) :
    (g.key :: installedKeys as).getLast? = some h.key := by
  induction hrun with
  | refl => rfl
  | @head g k h as bs hstage hrun ih =>
      rw [installedKeys_append]
      rcases hstage.installedKeys_eq with ⟨hnone, hkey⟩ | ⟨hone, -⟩
      · rwa [hnone, List.nil_append, ← hkey]
      · rw [hone, List.singleton_append, List.getLast?_cons_cons]
        exact ih

/-- Every key installed in a run has a cipher of the block size of the run. -/
theorem Run.cipherFor_installedKeys {g h : Generator F} {as : List Action}
    (hrun : Run Stage g as h) :
    ∀ key ∈ installedKeys as, ∃ cipher, F.cipherFor g.blockSize key = .ok cipher := by
  induction hrun with
  | refl => simp [installedKeys]
  | @head g k h as bs hstage hrun ih =>
      rw [hstage.blockSize_eq] at ih
      rw [installedKeys_append, List.forall_mem_append]
      refine ⟨?_, ih⟩
      rcases hstage.installedKeys_eq with ⟨hnone, -⟩ | ⟨hone, hcipher⟩
      · simp [hnone]
      · rw [hone, List.forall_mem_singleton]
        exact hcipher

theorem installedKeys_history {c : Created F} (hcreate : create F = .ok c)
    (ops : List Operation) :
    installedKeys (c.history ops) =
      c.generator.key :: installedKeys (c.generator.transcript ops) := by
  obtain ⟨cipher, -, -, rfl⟩ := (create_eq_ok_iff c).mp hcreate
  rfl

/-- Whatever requests come and fail, the stored key is of the right length, its
cipher is the one installed, and that cipher has the block size fixed at creation,
as the counter does.  A key without a cipher of that block size is never stored:
the stored key is the last one installed, and no such key is ever installed. -/
theorem stored_key_fits {c : Created F} (hcreate : create F = .ok c) (ops : List Operation) :
    let g := c.generator.after ops
    let bs := c.generator.counter.width
    g.key.length = 32 ∧ F.build g.key = .ok g.cipher ∧ g.cipher.blockSize = g.counter.width ∧
      g.counter.width = bs ∧ 0 < bs ∧
      (∀ key, (∀ cipher, F.build key = .ok cipher → cipher.blockSize ≠ bs) → g.key ≠ key) ∧
      (installedKeys (c.history ops)).getLast? = some g.key ∧
      ∀ key ∈ installedKeys (c.history ops),
        ∃ cipher, F.build key = .ok cipher ∧ cipher.blockSize = bs := by
  intro g bs
  have hstart := consistent_of_create hcreate
  have hrun := run_after c.generator ops
  have hsize : g.counter.width = bs := hrun.blockSize_eq
  obtain ⟨hlength, hbuild, hcipher, -⟩ := hrun.consistent hstart
  refine ⟨hlength, hbuild, hcipher, hsize, hstart.blockSize_pos, ?_, ?_, ?_⟩
  · rintro key hunfit rfl
    exact hunfit _ hbuild (hcipher.trans hsize)
  · rw [installedKeys_history hcreate]
    exact hrun.getLast?_installedKeys
  · rw [installedKeys_history hcreate, List.forall_mem_cons]
    refine ⟨⟨_, hstart.build_key, hstart.blockSize_cipher⟩, ?_⟩
    intro key hmem
    obtain ⟨cipher, hfits⟩ := hrun.cipherFor_installedKeys key hmem
    exact ⟨cipher, (F.cipherFor_eq_ok_iff _ _ _).mp hfits⟩

/-- A generator whose factory gives blocks of sixteen bytes to the zero key and
blocks of eight bytes to all others. -/
def shrinkingGenerator :
    Generator (Transparent.factory ⟨.identity, 16, some (.nonzero, .blockSize 8)⟩) where
  key := zeroKey
  cipher := Transparent.cipher .identity 16 zeroKey
  counter := .zero 16

theorem stored_key_fits_of_shrinking :
    let g := shrinkingGenerator.after [.reseed [1, 2, 3], .restart 5, .read 7]
    g.key.length = 32 ∧ g.cipher.blockSize = 16 ∧ g.key ≠ List.replicate 32 1 := by
  have hcreate : create (Transparent.factory ⟨.identity, 16, some (.nonzero, .blockSize 8)⟩) =
      .ok ⟨shrinkingGenerator, [.installed zeroKey, .logged (.created 16)]⟩ := rfl
  obtain ⟨hlength, -, hcipher, hsize, -, hunfit, -⟩ :=
    stored_key_fits hcreate [.reseed [1, 2, 3], .restart 5, .read 7]
  refine ⟨hlength, hcipher.trans hsize, hunfit _ ?_⟩
  intro cipher hbuild
  obtain rfl : Transparent.cipher .identity 8 (List.replicate 32 1) = cipher :=
    Except.ok.inj hbuild
  decide

/-! ## The books -/

/-- The totals of a generator when its counter was last set to zero by one of the
requests, and `mark` if none of them does that. -/
def totalsAtReset (g : Generator F) (mark : Totals) : List Operation → Totals
  | [] => mark
  | .restart seed :: ops => ((Operation.restart seed).perform g).state.totalsAtReset g.totals ops
  | op :: ops => (op.perform g).state.totalsAtReset mark ops

/-- The counter stands at the number of seeds and blocks counted since the totals
were `mark`. -/
def Balanced (mark : Totals) (g : Generator F) : Prop :=
  ∃ R B, g.totals.reseeds = mark.reseeds + R ∧ g.totals.blocks = mark.blocks + B ∧
    g.counter = .ofNat g.blockSize (R + B)

theorem balanced_self {g : Generator F} (hzero : g.counter = .zero g.blockSize) :
    Balanced g.totals g :=
  ⟨0, 0, rfl, rfl, hzero.trans (Counter.zero_eq_ofNat _)⟩

/-- Keystream is counted block by block. -/
theorem Balanced.drawn {mark : Totals} {g : Generator F} (hg : Balanced mark g) (k : Nat) :
    Balanced mark (g.drawn k) := by
  obtain ⟨R, B, hreseeds, hblocks, hcounter⟩ := hg
  refine ⟨R, B + k, hreseeds, ?_, ?_⟩
  · rw [← Nat.add_assoc, ← hblocks]
    rfl
  · rw [blockSize_drawn, counter_drawn, hcounter, Counter.advance_ofNat, Nat.add_assoc]

theorem Balanced.draw {mark : Totals} {g h : Generator F} {as : List Action}
    (hg : Balanced mark g) (hdraw : Draw g as h) :
    Balanced mark h := by
  cases hdraw with
  | delivered n => exact hg
  | chunk size hpos hmax o hend =>
      cases hend with
      | unseeded => exact hg
      | stalled => exact hg.drawn size
      | refused => exact hg.drawn _
      | rekeyed => exact hg.drawn _

theorem Balanced.read {mark : Totals} {g : Generator F} (hg : Balanced mark g) (n : Nat) :
    Balanced mark (Generator.read n g).state := by
  have hrun := runs_read n g
  generalize (Generator.read n g).actions = as, (Generator.read n g).state = h at hrun ⊢
  induction hrun with
  | refl => exact hg
  | head hdraw hrun ih => exact ih (hg.draw hdraw)

/-- A seed is counted if it is mixed in, and leaves the counter alone if not. -/
theorem Balanced.reseed {mark : Totals} {g : Generator F} (hg : Balanced mark g) (seed : Bytes) :
    Balanced mark (Generator.reseed seed g).state := by
  cases hcipher : F.cipherFor g.blockSize (mixedKey g.key seed) with
  | error e =>
      rw [reseed_of_refused hcipher]
      exact hg
  | ok cipher =>
      obtain ⟨R, B, hreseeds, hblocks, hcounter⟩ := hg
      rw [reseed_of_cipher hcipher]
      refine ⟨R + 1, B, ?_, hblocks, ?_⟩
      · rw [← Nat.add_assoc, ← hreseeds]
        rfl
      · rw [blockSize_mixed, mixed, hcounter, Counter.next_ofNat, Nat.add_right_comm]

/-- A deterministic seed opens new books. -/
theorem balanced_restart {g : Generator F} {zero : Cipher}
    (hzero : F.cipherFor g.blockSize zeroKey = .ok zero) (seed : Int64) :
    Balanced g.totals (restart seed g).state := by
  have hwiped : (g.wiped zero).counter = .zero (g.wiped zero).blockSize := by
    rw [blockSize_wiped, wiped]
  rw [(restart_of_wiped hzero seed).2]
  exact (balanced_self hwiped).reseed (seedBytes seed)

/-- Requests that do not set the counter to zero keep the books balanced. -/
theorem Balanced.perform {mark : Totals} {g : Generator F} (hg : Balanced mark g)
    {op : Operation} (hop : ∀ seed, op ≠ .restart seed) :
    Balanced mark (op.perform g).state := by
  cases hrequested : op.requested with
  | some n =>
      rw [(perform_of_requested hrequested g).1]
      exact hg.read n
  | none =>
      cases op with
      | reseed seed =>
          rw [(perform_reseed seed g).1]
          exact hg.reseed seed
      | restart seed => exact absurd rfl (hop seed)
      | read | fill | int63 | fillOrAbort | nextUInt32 | nextUInt64 => cases hrequested

theorem Balanced.after {mark : Totals} {bs : Nat} {zero : Cipher} {g : Generator F}
    (hg : Balanced mark g) (hsize : g.blockSize = bs)
    (hzero : F.cipherFor bs zeroKey = .ok zero) (ops : List Operation) :
    Balanced (g.totalsAtReset mark ops) (g.after ops) := by
  -- a restart opens new books, so the mark varies along the induction
  induction ops generalizing g mark with
  | nil => exact hg
  | cons op ops ih =>
      have hnext : (op.perform g).state.blockSize = bs :=
        (runs_perform op g).blockSize_eq.trans hsize
      cases op with
      | restart seed =>
          have hreset : Balanced g.totals ((Operation.restart seed).perform g).state := by
            rw [(perform_restart seed g).1]
            exact balanced_restart (hsize ▸ hzero) seed
          exact ih hreset hnext
      | reseed | read | fill | int63 | fillOrAbort | nextUInt32 | nextUInt64 =>
          exact ih (hg.perform (by simp)) hnext

/-- In every state that requests leave behind, the counter stands at the seeds
and blocks counted since it was last set to zero, at creation or by the last
deterministic seed, whether that succeeded or not. -/
theorem counter_ledger {c : Created F} (hcreate : create F = .ok c) (ops : List Operation) :
    let g := c.generator.after ops
    let mark := c.generator.totalsAtReset c.generator.totals ops
    ∃ R B, g.totals.reseeds = mark.reseeds + R ∧ g.totals.blocks = mark.blocks + B ∧
      g.counter.value = (R + B) % 256 ^ g.blockSize ∧
      (g.isSeeded = true ↔ ¬ 256 ^ g.blockSize ∣ R + B) := by
  intro g mark
  have hstart : Balanced c.generator.totals c.generator := by
    obtain ⟨cipher, -, -, rfl⟩ := (create_eq_ok_iff c).mp hcreate
    exact balanced_self (congrArg Counter.zero (Counter.width_zero _).symm)
  obtain ⟨R, B, hreseeds, hblocks, hcounter⟩ :=
    hstart.after rfl (cipherFor_zeroKey_after hcreate []) ops
  refine ⟨R, B, hreseeds, hblocks, ?_, isSeeded_iff hcounter⟩
  rw [hcounter, Counter.value_ofNat]

/-- A generator with transparent blocks of sixteen bytes for every key. -/
def plainGenerator : Generator (Transparent.factory ⟨.identity, 16, none⟩) where
  key := zeroKey
  cipher := Transparent.cipher .identity 16 zeroKey
  counter := .zero 16

theorem counter_ledger_after_restart :
    let ops := [.reseed [], .read 3, .restart 7, .read 40]
    plainGenerator.totalsAtReset plainGenerator.totals ops =
        { reseeds := 1, rekeys := 1, blocks := 3, bytes := 3 } ∧
      (plainGenerator.after ops).totals = { reseeds := 2, rekeys := 2, blocks := 8, bytes := 43 } ∧
      (plainGenerator.after ops).counter.value = 6 := by
  have hcreate : create (Transparent.factory ⟨.identity, 16, none⟩) =
      .ok ⟨plainGenerator, [.installed zeroKey, .logged (.created 16)]⟩ := rfl
  have hmark : plainGenerator.totalsAtReset plainGenerator.totals
      [.reseed [], .read 3, .restart 7, .read 40] =
        { reseeds := 1, rekeys := 1, blocks := 3, bytes := 3 } := rfl
  have htotals : (plainGenerator.after [.reseed [], .read 3, .restart 7, .read 40]).totals =
      { reseeds := 2, rekeys := 2, blocks := 8, bytes := 43 } := rfl
  obtain ⟨R, B, hreseeds, hblocks, hvalue, -⟩ :=
    counter_ledger hcreate [.reseed [], .read 3, .restart 7, .read 40]
  refine ⟨hmark, htotals, ?_⟩
  rw [htotals, hmark] at hreseeds hblocks
  simp only at hreseeds hblocks
  obtain rfl : R = 1 := by omega
  obtain rfl : B = 5 := by omega
  exact hvalue

end Generator

end Fortuna

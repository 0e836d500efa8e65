import Fortuna.Cipher.Transparent
import Fortuna.Proofs.Generator.Request

/-!
# How a request fails

A request for output is served chunk by chunk, and a chunk can be stopped in
three places: where its output begins and where its key begins, if the counter
stands at zero there, and where the new key is installed, if the factory has no
fitting cipher for it.  `Generator.obstacle?` computes what stops a chunk from
the state before the request alone.  A request fails exactly when the counter
stands at zero at its start or one of its chunks meets an obstacle, and then with
the error of the first one; the chunks before it stay done, and the keystream
spent on the stopped chunk stays spent (`read_fails_at_first_obstacle`).  The
counter is looked at nowhere else, so it may pass through zero within a chunk or
within a key.
-/

namespace Fortuna

/-- What can stop a chunk. -/
inductive Obstacle where
  /-- The counter stands at zero where the output begins. -/
  | unseededOutput
  /-- The counter stands at zero where the key begins. -/
  | unseededKey
  /-- The factory derives no cipher from the new key. -/
  | rejected (cause : KeyError)
  /-- The cipher of the new key has another block size. -/
  | resized (expected got : Nat)
  deriving DecidableEq

namespace Obstacle

/-- The error with which a request ends that meets the obstacle. -/
def error : Obstacle → GeneratorError
  | unseededOutput => .unseeded
  | unseededKey => .unseeded
  | rejected cause => .cipherInitFailed cause
  | resized expected got => .blockSizeMismatch expected got

/-- The blocks encrypted for a chunk of `size` blocks and a key of `r` blocks
until the obstacle is met. -/
def spent (size r : Nat) : Obstacle → Nat
  | unseededOutput => 0
  | unseededKey => size
  | rejected _ => size + r
  | resized _ _ => size + r

end Obstacle

/-- What stops a chunk, given where its output and its key begin and what the new
key is. -/
def CipherFactory.obstacle? (F : CipherFactory) (output key : Counter) (newKey : Bytes) :
    Option Obstacle :=
  if output.isZero then some .unseededOutput
  else if key.isZero then some .unseededKey
  else match F.build newKey with
    | .error cause => some (.rejected cause)
    | .ok cipher =>
      if cipher.blockSize = output.width then none
      else some (.resized output.width cipher.blockSize)

namespace Generator

variable {F : CipherFactory}

/-- What stops chunk `e` of a request for `blocks` blocks, once the chunks before
it are done. -/
def obstacle? (g : Generator F) (blocks e : Nat) : Option Obstacle :=
  let start := g.counter.value + e * maxBlocks + e * g.keyBlocks
  let size := min maxBlocks (blocks - e * maxBlocks)
  F.obstacle? (.ofNat g.blockSize start) (.ofNat g.blockSize (start + size))
    (g.epochKey blocks (e + 1))

/-- Chunk `e` of a request for `blocks` blocks is the first to be stopped. -/
structure FirstObstacle (g : Generator F) (blocks e : Nat) (o : Obstacle) : Prop where
  lt : e * maxBlocks < blocks
  clear : ∀ e' < e, g.obstacle? blocks e' = none
  obstacle : g.obstacle? blocks e = some o

/-! ## One chunk -/

/-- A chunk passes or is stopped, as its obstacle says. -/
theorem chunk_obstacle (g : Generator F) (size : Nat) :
    let obstacle := F.obstacle? g.counter (g.counter.advance size) (g.nextKey size)
    (obstacle = none ∧ ∃ out, (chunk size g).result = .ok out) ∨
      ∃ o, obstacle = some o ∧ (chunk size g).result = .error o.error ∧
        (chunk size g).state = g.drawn (o.spent size g.keyBlocks) := by
  have hwidth : g.counter.width = g.blockSize := rfl
  have hend := chunk_end g size
  generalize chunk size g = outcome at hend ⊢
  rw [CipherFactory.obstacle?, hwidth]
  cases hend with
  | unseeded hseeded =>
      rw [isSeeded_eq_false_iff] at hseeded
      exact .inr ⟨.unseededOutput, by simp [hseeded], rfl, rfl⟩
  | stalled hseeded hdrawn =>
      rw [isSeeded_eq_true_iff] at hseeded
      rw [isSeeded_eq_false_iff, counter_drawn] at hdrawn
      exact .inr ⟨.unseededKey, by simp [hseeded, hdrawn], rfl, rfl⟩
  | refused e hseeded hdrawn hcipher =>
      rw [isSeeded_eq_true_iff] at hseeded
      rw [isSeeded_eq_true_iff, counter_drawn] at hdrawn
      right
      rcases (F.cipherFor_eq_error_iff _ _ _).mp hcipher with
        ⟨cause, hbuild, rfl⟩ | ⟨cipher, hbuild, hsize, rfl⟩
      · exact ⟨.rejected cause, by simp [hseeded, hdrawn, hbuild], rfl, rfl⟩
      · exact ⟨.resized _ _, by simp [hseeded, hdrawn, hbuild, hsize], rfl, rfl⟩
  | rekeyed cipher hseeded hdrawn hcipher =>
      rw [isSeeded_eq_true_iff] at hseeded
      rw [isSeeded_eq_true_iff, counter_drawn] at hdrawn
      obtain ⟨hbuild, hsize⟩ := (F.cipherFor_eq_ok_iff _ _ _).mp hcipher
      exact .inl ⟨by simp [hseeded, hdrawn, hbuild, hsize], _, rfl⟩

/-- Within a request the obstacle of a chunk is known beforehand. -/
theorem AfterChunks.obstacle?_eq {g h : Generator F} {blocks e : Nat}
    (hafter : AfterChunks g blocks e h) (hlt : e * maxBlocks < blocks) :
    let size := min maxBlocks (blocks - e * maxBlocks)
    F.obstacle? h.counter (h.counter.advance size) (h.nextKey size) = g.obstacle? blocks e := by
  intro size
  have hstart : h.counter =
      .ofNat g.blockSize (g.counter.value + e * maxBlocks + e * g.keyBlocks) :=
    hafter.counter_drawn hlt 0
  have hstop : h.counter.advance size =
      .ofNat g.blockSize (g.counter.value + e * maxBlocks + e * g.keyBlocks + size) :=
    hafter.counter_drawn hlt size
  rw [hstop, hafter.nextKey_eq hlt, hstart]
  rfl

/-- What `k` blocks of keystream leave behind that are drawn in chunk `e`. -/
theorem AfterChunks.drawn_eq {g h : Generator F} {blocks e : Nat}
    (hafter : AfterChunks g blocks e h) (hlt : e * maxBlocks < blocks) (k : Nat) :
    h.drawn k =
      { key := g.epochKey blocks e
        cipher := h.cipher
        counter := .ofNat g.blockSize (g.counter.value + (e * (maxBlocks + g.keyBlocks) + k))
        totals :=
          { reseeds := g.totals.reseeds
            rekeys := g.totals.rekeys + e
            blocks := g.totals.blocks + (e * (maxBlocks + g.keyBlocks) + k)
            bytes := g.totals.bytes } } := by
  have hspent : e * (maxBlocks + g.keyBlocks) + k = e * maxBlocks + (e * g.keyBlocks + k) := by
    rw [Nat.mul_add, Nat.add_assoc]
  have hcounter := hafter.counter_drawn hlt k
  have htotals := hafter.totals
  rw [Generator.counter_drawn, Nat.add_assoc, Nat.add_assoc] at hcounter
  rw [Nat.min_eq_left hlt.le] at htotals
  rw [hspent, ← hafter.key, ← hcounter, drawn, htotals]
  simp only [Nat.add_assoc]

/-! ## The chunks of a request -/

/-- The chunks before the first obstacle succeed. -/
theorem exists_result_take_of_clear {g : Generator F} (hg : g.Consistent) {blocks e : Nat}
    (he : e ≤ (chunkSizes blocks).length) (hclear : ∀ e' < e, g.obstacle? blocks e' = none) :
    ∃ out, (chunks ((chunkSizes blocks).take e) g).result = .ok out := by
  induction e with
  | zero => exact ⟨[], rfl⟩
  | succ e ih =>
      have hlt : e * maxBlocks < blocks := (lt_length_chunkSizes_iff blocks e).mp he
      obtain ⟨before, hbefore⟩ :=
        ih (Nat.le_of_succ_le he) fun e' he' => hclear e' (Nat.lt_succ_of_lt he')
      obtain ⟨hafter, -⟩ := afterChunks_take hg (Nat.le_of_succ_le he) hbefore
      have hnone := (hafter.obstacle?_eq hlt).trans (hclear e (Nat.lt_succ_self e))
      rw [chunks_take_succ hlt, Step.bind_apply, Outcome.andThen_of_ok hbefore]
      rcases chunk_obstacle (chunks ((chunkSizes blocks).take e) g).state
        (min maxBlocks (blocks - e * maxBlocks)) with ⟨-, out, hout⟩ | ⟨o, hsome, -⟩
      · rw [Step.bind_apply, Outcome.andThen_of_ok hout]
        exact ⟨before ++ out, rfl⟩
      · cases hnone.symm.trans hsome

/-- The first obstacle ends a request, after the chunks before it. -/
theorem FirstObstacle.chunks {g : Generator F} (hg : g.Consistent) {blocks e : Nat} {o : Obstacle}
    (hfirst : g.FirstObstacle blocks e o) :
    (Generator.chunks (chunkSizes blocks) g).result = .error o.error ∧
      ∃ h, AfterChunks g blocks e h ∧ (Generator.chunks (chunkSizes blocks) g).state =
        h.drawn (o.spent (min maxBlocks (blocks - e * maxBlocks)) g.keyBlocks) := by
  have hlt : e < (chunkSizes blocks).length := (lt_length_chunkSizes_iff blocks e).mpr hfirst.lt
  obtain ⟨before, hbefore⟩ := exists_result_take_of_clear hg hlt.le hfirst.clear
  obtain ⟨hafter, -⟩ := afterChunks_take hg hlt.le hbefore
  have hsome := (hafter.obstacle?_eq hfirst.lt).trans hfirst.obstacle
  rcases chunk_obstacle (Generator.chunks ((chunkSizes blocks).take e) g).state
    (min maxBlocks (blocks - e * maxBlocks)) with ⟨hnone, -⟩ | ⟨o', hsome', herror, hstate⟩
  · cases hnone.symm.trans hsome
  · obtain rfl : o' = o := Option.some.inj (hsome'.symm.trans hsome)
    rw [hafter.keyBlocks_eq] at hstate
    -- the chunks behind the stopped one are never reached
    rw [chunkSizes_eq_take_append hfirst.lt, chunks_append, Step.bind_apply,
      Outcome.andThen_of_ok hbefore, Step.bind_apply, chunks_cons, Step.bind_apply,
      Outcome.andThen_of_error herror, Outcome.andThen_error]
    exact ⟨rfl, _, hafter, hstate⟩

/-! ## Requests -/

theorem chunks_of_unseeded {g : Generator F} (hseeded : g.isSeeded = false) (size : Nat)
    (sizes : List Nat) :
    chunks (size :: sizes) g = ⟨.error .unseeded, g, []⟩ := by
  rw [chunks_cons, Step.bind_apply, chunk, Step.bind_apply, keystream_of_unseeded _ _ hseeded]
  rfl

/-- A request ends as its chunks do at the first obstacle. -/
theorem FirstObstacle.read {g : Generator F} (hg : g.Consistent) {n e : Nat} {o : Obstacle}
    (hfirst : g.FirstObstacle (g.blocksFor n) e o) :
    (Generator.read n g).result = .error o.error ∧
      (Generator.read n g).state = (Generator.chunks (chunkSizes (g.blocksFor n)) g).state := by
  obtain ⟨herror, -⟩ := hfirst.chunks hg
  cases hseeded : g.isSeeded with
  | false =>
      -- the request is refused before its first chunk, which would have failed alike
      cases hsizes : chunkSizes (g.blocksFor n) with
      | nil =>
          have hlt := (lt_length_chunkSizes_iff _ _).mpr hfirst.lt
          rw [hsizes] at hlt
          cases hlt
      | cons size sizes =>
          rw [hsizes, chunks_of_unseeded hseeded] at herror
          rw [read_of_unseeded n hseeded, chunks_of_unseeded hseeded]
          exact ⟨herror, rfl⟩
  | true =>
      rw [read_of_seeded n hseeded, Outcome.andThen_of_error herror]
      exact ⟨rfl, rfl⟩

/-- Where there is an obstacle there is a first one. -/
theorem exists_firstObstacle {g : Generator F} {blocks e : Nat} (hlt : e * maxBlocks < blocks)
    (hobstacle : g.obstacle? blocks e ≠ none) :
    ∃ e o, g.FirstObstacle blocks e o := by
  induction e using Nat.strong_induction_on with
  | h e ih =>
      by_cases hclear : ∀ e' < e, g.obstacle? blocks e' = none
      · obtain ⟨o, ho⟩ := Option.ne_none_iff_exists'.mp hobstacle
        exact ⟨e, o, hlt, hclear, ho⟩
      · push Not at hclear
        obtain ⟨e', hearlier, hobstacle'⟩ := hclear
        have hlt' : e' * maxBlocks < blocks :=
          lt_of_le_of_lt (Nat.mul_le_mul_right maxBlocks hearlier.le) hlt
        exact ih e' hearlier hlt' hobstacle'

/-- A seeded generator serves a request that meets no obstacle. -/
theorem exists_result_read_of_clear {g : Generator F} (hg : g.Consistent) {n : Nat}
    (hseeded : g.isSeeded = true) (hclear : ¬ ∃ e o, g.FirstObstacle (g.blocksFor n) e o) :
    ∃ out, (read n g).result = .ok out := by
  rw [exists_result_read_iff n hseeded]
  have hnone : ∀ e < (chunkSizes (g.blocksFor n)).length,
      g.obstacle? (g.blocksFor n) e = none := by
    intro e he
    by_contra hobstacle
    exact hclear (exists_firstObstacle ((lt_length_chunkSizes_iff _ _).mp he) hobstacle)
  obtain ⟨out, hout⟩ := exists_result_take_of_clear hg le_rfl hnone
  rw [List.take_length] at hout
  exact ⟨out, hout⟩

/-- A request fails exactly when the counter stands at zero at its start or one
of its chunks meets an obstacle, and then with the error of the first one.  The
chunks before it stay done: their keys and the last of their ciphers are
installed and counted.  The counter and the total of blocks have moved on by the
same number, that of the blocks encrypted until then, and no bytes are counted
as handed out.  This is meant of requests for which there is memory; of a seeded
generator, others panic before their first chunk (`Checked.read`). -/
theorem read_fails_at_first_obstacle {g : Generator F} (hg : g.Consistent) (n : Nat) :
    let bs := g.blockSize
    let c := g.counter.value
    let r := (keySize + bs - 1) / bs
    let B := (n + bs - 1) / bs
    ((∃ error, (read n g).result = .error error) ↔
        g.counter.isZero = true ∨ ∃ e o, g.FirstObstacle B e o) ∧
      (g.counter.isZero = true → (read n g).result = .error .unseeded ∧ (read n g).state = g) ∧
      ∀ e o, g.FirstObstacle B e o →
        let spent := e * (maxBlocks + r) + o.spent (min maxBlocks (B - e * maxBlocks)) r
        (read n g).result = .error o.error ∧
          ∃ cipher, F.build (g.epochKey B e) = .ok cipher ∧ cipher.blockSize = bs ∧
            (read n g).state =
              { key := g.epochKey B e
                cipher
                counter := .ofNat bs (c + spent)
                totals :=
                  { reseeds := g.totals.reseeds
                    rekeys := g.totals.rekeys + e
                    blocks := g.totals.blocks + spent
                    bytes := g.totals.bytes } } := by
  intro bs c r B
  refine ⟨⟨?_, ?_⟩, ?_, ?_⟩
  · rintro ⟨error, herror⟩
    by_contra hclear
    rw [not_or, Bool.not_eq_true, ← isSeeded_eq_true_iff] at hclear
    obtain ⟨out, hout⟩ := exists_result_read_of_clear hg hclear.1 hclear.2
    cases herror.symm.trans hout
  · rintro (hzero | ⟨e, o, hfirst⟩)
    · rw [read_of_unseeded n ((isSeeded_eq_false_iff g).mpr hzero)]
      exact ⟨.unseeded, rfl⟩
    · exact ⟨_, (hfirst.read hg).1⟩
  · intro hzero
    rw [read_of_unseeded n ((isSeeded_eq_false_iff g).mpr hzero)]
    exact ⟨rfl, rfl⟩
  · intro e o hfirst spent
    obtain ⟨herror, hread⟩ := hfirst.read hg
    obtain ⟨-, h, hafter, hstate⟩ := hfirst.chunks hg
    refine ⟨herror, h.cipher, hafter.key ▸ hafter.build_key, hafter.blockSize_cipher, ?_⟩
    exact hread.trans (hstate.trans (hafter.drawn_eq hfirst.lt _))

/-- A generator with transparent blocks of one byte, 32 steps after its start. -/
def steppedGenerator : Generator (Transparent.factory ⟨.identity, 1, none⟩) where
  key := zeroKey
  cipher := Transparent.cipher .identity 1 zeroKey
  counter := .ofNat 1 32

theorem consistent_steppedGenerator : steppedGenerator.Consistent :=
  ⟨rfl, rfl, rfl, by decide⟩

/-- Each chunk takes a counter of one byte through zero many times, but only the
eighth begins there. -/
theorem read_fails_at_eighth_chunk :
    (read 524288 steppedGenerator).result = .error .unseeded ∧
      ∃ cipher, (Transparent.factory ⟨.identity, 1, none⟩).build
          (steppedGenerator.epochKey 524288 7) = .ok cipher ∧ cipher.blockSize = 1 ∧
        (read 524288 steppedGenerator).state =
          { key := steppedGenerator.epochKey 524288 7
            cipher
            counter := .ofNat 1 (32 + 458976)
            totals := { rekeys := 7, blocks := 458976 } } := by
  have hclear : ∀ e < 7, steppedGenerator.obstacle? 524288 e = none := by decide
  have hfirst : steppedGenerator.FirstObstacle 524288 7 .unseededOutput :=
    ⟨by decide, hclear, rfl⟩
  obtain ⟨-, -, hfails⟩ := read_fails_at_first_obstacle consistent_steppedGenerator 524288
  exact hfails 7 .unseededOutput hfirst

end Generator

end Fortuna

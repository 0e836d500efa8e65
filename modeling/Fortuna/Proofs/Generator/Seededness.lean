import Fortuna.Cipher.Transparent
import Fortuna.Proofs.Generator.Run

/-!
# Seededness

Whether a generator counts as seeded is read off its counter: it does as long as
the counter is not zero.  The counter stands at the number of its steps since it
was last rewound (`Run.counter_eq`), on a circle, so that it is zero again after
each full round.  Under a factory that serves every key, this is the only thing
that can go wrong: seeds always succeed, and a request for output succeeds
exactly when the counter is not zero at any of the places where a chunk or a key
is begun.
-/

namespace Fortuna

/-! ## Steps of the counter -/

namespace Action

/-- The steps of the counter since it was last rewound, after one more action. -/
def tally (steps : Nat) : Action → Nat
  | .rewound => 0
  | .encrypted _ _ => steps + 1
  | .logged (.reseeded _ _) => steps + 1
  | .installed _ => steps
  | .logged _ => steps

/-- The steps of the counter since it was last rewound. -/
def steps (actions : List Action) : Nat :=
  actions.foldl tally 0

theorem foldl_tally_encrypted (purpose : Purpose) (counters : List Counter) (s : Nat) :
    (counters.map (.encrypted purpose)).foldl tally s = s + counters.length := by
  induction counters generalizing s with
  | nil => rfl
  | cons c counters ih =>
      rw [List.map_cons, List.foldl_cons, ih, tally, List.length_cons]
      omega

end Action

namespace Generator

variable {F : CipherFactory}

theorem blockSize_of_counter {g : Generator F} {width s : Nat}
    (hcounter : g.counter = .ofNat width s) :
    g.blockSize = width := by
  rw [blockSize, hcounter, Counter.width_ofNat]

@[simp] theorem foldl_tally_trail (g : Generator F) (purpose : Purpose) (k s : Nat) :
    (g.trail purpose k).foldl Action.tally s = s + k := by
  rw [trail, Action.foldl_tally_encrypted, Counter.length_upcoming]

@[simp] theorem foldl_tally_chunkTrail (g : Generator F) (size s : Nat) :
    (g.chunkTrail size).foldl Action.tally s = s + (size + g.keyBlocks) := by
  rw [chunkTrail, List.foldl_append, foldl_tally_trail, foldl_tally_trail, Nat.add_assoc]

theorem Draw.counter_eq {g h : Generator F} {as : List Action} {width s : Nat}
    (hdraw : Draw g as h) (hcounter : g.counter = .ofNat width s) :
    h.counter = .ofNat width (as.foldl Action.tally s) := by
  have hdrawn (k : Nat) : (g.drawn k).counter = .ofNat width (s + k) := by
    rw [counter_drawn, hcounter, Counter.advance_ofNat]
  cases hdraw with
  | delivered n => exact hcounter
  | chunk size hpos hmax o hend =>
      cases hend with
      | unseeded => exact hcounter
      | stalled =>
          rw [foldl_tally_trail]
          exact hdrawn size
      | refused =>
          rw [foldl_tally_chunkTrail]
          exact hdrawn _
      | rekeyed cipher =>
          rw [List.foldl_append, foldl_tally_chunkTrail]
          exact hdrawn _

theorem Stage.counter_eq {g h : Generator F} {as : List Action} {width s : Nat}
    (hstage : Stage g as h) (hcounter : g.counter = .ofNat width s) :
    h.counter = .ofNat width (as.foldl Action.tally s) := by
  cases hstage with
  | mixed seed cipher =>
      have hnext : g.counter.next = .ofNat width (s + 1) := by
        rw [hcounter, Counter.next_ofNat]
      exact hnext
  | wiped cipher =>
      have hzero : Counter.zero g.blockSize = .ofNat width 0 := by
        rw [blockSize_of_counter hcounter, Counter.zero_eq_ofNat]
      exact hzero
  | restarted seed => exact hcounter
  | draw hdraw => exact hdraw.counter_eq hcounter

/-- The counter stands at the number of its steps. -/
theorem Run.counter_eq {g h : Generator F} {as : List Action} {width s : Nat}
    (hrun : Run Stage g as h) (hcounter : g.counter = .ofNat width s) :
    h.counter = .ofNat width (as.foldl Action.tally s) := by
  induction hrun generalizing s with
  | refl => exact hcounter
  | head hstage hrun ih =>
      rw [List.foldl_append]
      exact ih (hstage.counter_eq hcounter)

/-- Output never takes steps back. -/
theorem Run.le_foldl_tally {g h : Generator F} {as : List Action}
    (hrun : Run Draw g as h) (s : Nat) :
    s ≤ as.foldl Action.tally s := by
  induction hrun generalizing s with
  | refl => exact le_refl s
  | @head g h k as bs hdraw hrun ih =>
      have hstep : s ≤ as.foldl Action.tally s := by
        cases hdraw with
        | delivered n => exact le_refl s
        | chunk size hpos hmax o hend =>
            cases hend with
            | unseeded => exact le_refl s
            | stalled => simp
            | refused => simp
            | rekeyed cipher =>
                rw [List.foldl_append, foldl_tally_chunkTrail]
                exact Nat.le_add_right s _
      rw [List.foldl_append]
      exact hstep.trans (ih _)

end Generator

/-! ## Factories that serve every key -/

/-- Every key has a cipher, and the ciphers have blocks of one size. -/
structure CipherFactory.Steady (F : CipherFactory) (blockSize : Nat) : Prop where
  pos : 0 < blockSize
  build : ∀ key : Bytes, key.length = keySize →
    ∃ cipher, F.build key = .ok cipher ∧ cipher.blockSize = blockSize

theorem Transparent.steady {blockSize : Nat} (kind : Kind) (hpos : 0 < blockSize) :
    (factory ⟨kind, blockSize, none⟩).Steady blockSize where
  pos := hpos
  build key _ := by
    refine ⟨cipher kind blockSize key, rfl, ?_⟩
    cases kind <;> rfl

namespace CipherFactory.Steady

open Generator

variable {F : CipherFactory} {bs : Nat}

theorem exists_cipherFor (hF : F.Steady bs) {key : Bytes} (hkey : key.length = keySize) :
    ∃ cipher, F.cipherFor bs key = .ok cipher := by
  obtain ⟨cipher, hbuild, hsize⟩ := hF.build key hkey
  exact ⟨cipher, (F.cipherFor_eq_ok_iff _ _ _).mpr ⟨hbuild, hsize⟩⟩

theorem counter_of_create (hF : F.Steady bs) {c : Created F} (hcreate : create F = .ok c) :
    c.generator.counter = .ofNat bs 0 := by
  obtain ⟨cipher, hbuild, -, rfl⟩ := (create_eq_ok_iff c).mp hcreate
  obtain ⟨zero, hzero, hsize⟩ := hF.build zeroKey List.length_replicate
  obtain rfl : cipher = zero := Except.ok.inj (hbuild.symm.trans hzero)
  rw [← hsize]
  exact Counter.zero_eq_ofNat _

/-- A seed is always taken, and steps the counter. -/
theorem perform_seed (hF : F.Steady bs) {g : Generator F} (hsize : g.blockSize = bs)
    {op : Operation} (hop : op.requested = none) (s : Nat) :
    (∃ answer, (op.perform g).result = .ok answer) ∧
      0 < (op.perform g).actions.foldl Action.tally s := by
  subst hsize
  cases op with
  | reseed seed =>
      obtain ⟨-, hactions, hok⟩ := perform_reseed seed g
      have hlength : (mixedKey g.key seed).length = keySize := rfl
      obtain ⟨cipher, hcipher⟩ := hF.exists_cipherFor hlength
      rw [hactions, hok, reseed_of_cipher hcipher]
      exact ⟨⟨(), rfl⟩, Nat.succ_pos s⟩
  | restart seed =>
      obtain ⟨-, hactions, hok⟩ := perform_restart seed g
      have hlength : zeroKey.length = keySize := rfl
      have hlength' : (mixedKey zeroKey (seedBytes seed)).length = keySize := rfl
      obtain ⟨zero, hzero⟩ := hF.exists_cipherFor hlength
      obtain ⟨cipher, hcipher⟩ := hF.exists_cipherFor hlength'
      rw [hactions, hok, restart_of_cipher hzero hcipher]
      exact ⟨⟨(), rfl⟩, Nat.succ_pos 0⟩
  | read | fill | int63 | fillOrAbort | nextUInt32 | nextUInt64 => cases hop

/-- The counter has left zero once a seed was taken, as far as steps go. -/
theorem zero_lt_tally_transcript_iff (hF : F.Steady bs) (ops : List Operation) {g : Generator F}
    {s : Nat} (hcounter : g.counter = .ofNat bs s) :
    0 < (g.transcript ops).foldl Action.tally s ↔
      0 < s ∨ ∃ op ∈ ops, op.requested = none := by
  induction ops generalizing g s with
  | nil => simp [transcript]
  | cons op ops ih =>
      have hnext := (runs_perform op g).counter_eq hcounter
      rw [transcript, List.foldl_append, ih hnext]
      have hfirst : 0 < (op.perform g).actions.foldl Action.tally s ↔
          0 < s ∨ op.requested = none := by
        cases hop : op.requested with
        | none =>
            have hpos := (hF.perform_seed (blockSize_of_counter hcounter) hop s).2
            simp only [hpos, or_true]
        | some n =>
            obtain ⟨-, hactions, -⟩ := perform_of_requested hop g
            rw [hactions]
            have hle := (runs_read n g).le_foldl_tally s
            rcases Nat.eq_zero_or_pos s with rfl | hs
            · have hseeded : g.isSeeded = false := by
                rw [← Bool.not_eq_true, isSeeded_iff hcounter]
                simp
              rw [read_of_unseeded n hseeded]
              simp
            · have hpos : 0 < (read n g).actions.foldl Action.tally s := Nat.lt_of_lt_of_le hs hle
              simp only [hpos, hs, true_or]
      rw [hfirst, List.exists_mem_cons_iff, or_assoc]

/-- A chunk and the key after it fail only for want of a seed. -/
theorem result_chunk_iff {g : Generator F} (hF : F.Steady g.blockSize) (size : Nat) :
    (∃ out, (chunk size g).result = .ok out) ↔
      g.isSeeded = true ∧ (g.drawn size).isSeeded = true := by
  have hend := chunk_end g size
  generalize chunk size g = o at hend ⊢
  cases hend with
  | unseeded hseeded => simp [hseeded]
  | stalled hseeded hdrawn => simp [hdrawn]
  | refused e hseeded hdrawn hcipher =>
      have hlength : (g.nextKey size).length = keySize :=
        length_freshKey (lt_of_lt_of_eq hF.pos (blockSize_drawn g size).symm)
      obtain ⟨cipher, hok⟩ := hF.exists_cipherFor hlength
      cases hcipher.symm.trans hok
  | rekeyed cipher hseeded hdrawn hcipher => simp [hseeded, hdrawn]

/-- Chunks succeed when the counter is not zero where a chunk or a key is begun. -/
theorem result_chunks_iff (hF : F.Steady bs) (sizes : List Nat) {g : Generator F} {s : Nat}
    (hcounter : g.counter = .ofNat bs s) :
    (∃ out, (chunks sizes g).result = .ok out) ↔
      ∀ e size, sizes[e]? = some size →
        ¬ 256 ^ bs ∣ s + (sizes.take e).sum + e * ((keySize + bs - 1) / bs) ∧
        ¬ 256 ^ bs ∣ s + (sizes.take e).sum + e * ((keySize + bs - 1) / bs) + size := by
  induction sizes generalizing g s with
  | nil => simp [chunks]
  | cons size sizes ih =>
      have hsize := blockSize_of_counter hcounter
      have hblocks : g.keyBlocks = (keySize + bs - 1) / bs := by
        rw [keyBlocks, blocksFor, hsize]
      have hdrawn : (g.drawn size).counter = .ofNat bs (s + size) := by
        rw [counter_drawn, hcounter, Counter.advance_ofNat]
      have hchunk := result_chunk_iff (hsize.symm ▸ hF) size
      rw [isSeeded_iff hcounter, isSeeded_iff hdrawn] at hchunk
      rw [result_chunks_cons_iff]
      generalize (keySize + bs - 1) / bs = r at hblocks ih ⊢
      have hnext {out : Bytes} (hout : (chunk size g).result = .ok out) :
          (chunk size g).state.counter = .ofNat bs (s + (size + r)) := by
        obtain ⟨cipher, -, -, hstate⟩ := chunk_of_ok hout
        have hcounters : (g.rekeyed size cipher).counter = g.counter.advance (size + g.keyBlocks) :=
          rfl
        rw [hstate, hcounters, hcounter, Counter.advance_ofNat, hblocks]
      have hsum (e : Nat) : s + ((size :: sizes).take (e + 1)).sum + (e + 1) * r =
          s + (size + r) + (sizes.take e).sum + e * r := by
        rw [List.take_succ_cons, List.sum_cons, Nat.succ_mul]
        omega
      constructor
      · rintro ⟨⟨out, hout⟩, hrest⟩ e size' he
        cases e with
        | zero =>
            obtain rfl : size = size' := Option.some.inj he
            simpa using hchunk.mp ⟨out, hout⟩
        | succ e =>
            rw [hsum]
            exact (ih (hnext hout)).mp hrest e size' he
      · intro hall
        obtain ⟨out, hout⟩ := hchunk.mpr (by simpa using hall 0 size rfl)
        refine ⟨⟨out, hout⟩, (ih (hnext hout)).mpr ?_⟩
        intro e size' he
        rw [← hsum]
        exact hall (e + 1) size' he

/-- A request succeeds when the counter is not zero at its start and where a
chunk or a key is begun. -/
theorem result_read_iff (hF : F.Steady bs) {g : Generator F} {s : Nat}
    (hcounter : g.counter = .ofNat bs s) (n : Nat) :
    (∃ out, (read n g).result = .ok out) ↔
      ¬ 256 ^ bs ∣ s ∧ ∀ e, e * maxBlocks < (n + bs - 1) / bs →
        ¬ 256 ^ bs ∣ s + e * maxBlocks + e * ((keySize + bs - 1) / bs) ∧
        ¬ 256 ^ bs ∣ s + min ((e + 1) * maxBlocks) ((n + bs - 1) / bs) +
          e * ((keySize + bs - 1) / bs) := by
  have hblocks : g.blocksFor n = (n + bs - 1) / bs := by
    rw [blocksFor, blockSize_of_counter hcounter]
  rw [← hblocks, ← isSeeded_iff hcounter]
  generalize hB : g.blocksFor n = B
  cases hseeded : g.isSeeded with
  | false =>
      rw [read_of_unseeded n hseeded]
      simp
  | true =>
      rw [exists_result_read_iff n hseeded, hB, hF.result_chunks_iff _ hcounter]
      simp only [getElem?_chunkSizes, sum_take_chunkSizes, true_and]
      apply forall_congr'
      intro e
      by_cases hlt : e * maxBlocks < B
      · have hstart : min (e * maxBlocks) B = e * maxBlocks := Nat.min_eq_left hlt.le
        have hstop (r : Nat) :
            s + e * maxBlocks + e * r + min maxBlocks (B - e * maxBlocks) =
              s + min ((e + 1) * maxBlocks) B + e * r := by
          rw [Nat.succ_mul]
          omega
        simp only [hlt, ↓reduceIte, Option.some.injEq, forall_eq', hstart, hstop, true_imp_iff]
      · simp [hlt]

/-- The same for requests of at most one chunk. -/
theorem result_read_iff_of_le (hF : F.Steady bs) {g : Generator F} {s : Nat}
    (hcounter : g.counter = .ofNat bs s) {n : Nat} (hn : (n + bs - 1) / bs ≤ maxBlocks) :
    (∃ out, (read n g).result = .ok out) ↔
      ¬ 256 ^ bs ∣ s ∧ ¬ 256 ^ bs ∣ s + (n + bs - 1) / bs := by
  rw [hF.result_read_iff hcounter]
  generalize (n + bs - 1) / bs = B at hn ⊢
  apply and_congr_right
  intro hstart
  constructor
  · intro hplaces
    rcases Nat.eq_zero_or_pos B with rfl | hpos
    · exact hstart
    · simpa [Nat.min_eq_right hn] using (hplaces 0 (by rwa [Nat.zero_mul])).2
  · intro hstop e he
    have hzero : e = 0 := by
      by_contra hne
      have hle := Nat.mul_le_mul_right maxBlocks (Nat.one_le_iff_ne_zero.mpr hne)
      omega
    subst hzero
    simpa [Nat.min_eq_right hn] using ⟨hstart, hstop⟩

end CipherFactory.Steady

namespace Generator

variable {F : CipherFactory}

/-- Under a factory that serves every key, seeds always succeed, and what is left
to go wrong after `s` steps of the counter is that it stands at zero: at once, or
where the request begins a chunk or a key. -/
theorem seeded_and_read_ok_iff_steps {bs : Nat} (hF : F.Steady bs)
    {c : Created F} (hcreate : create F = .ok c) (ops : List Operation) :
    let g := c.generator.after ops
    let s := Action.steps (c.history ops)
    let r := (keySize + bs - 1) / bs
    (∀ op : Operation, op.requested = none → ∃ answer, (op.perform g).result = .ok answer) ∧
      (0 < s ↔ ∃ op ∈ ops, op.requested = none) ∧
      (g.isSeeded = true ↔ ¬ 256 ^ bs ∣ s) ∧
      ∀ n,
        let B := (n + bs - 1) / bs
        (∃ out, (read n g).result = .ok out) ↔
          ¬ 256 ^ bs ∣ s ∧ ∀ e, e * maxBlocks < B →
            ¬ 256 ^ bs ∣ s + e * maxBlocks + e * r ∧
            ¬ 256 ^ bs ∣ s + min ((e + 1) * maxBlocks) B + e * r := by
  intro g s r
  have hstart : c.generator.counter = .ofNat bs 0 := hF.counter_of_create hcreate
  have hsteps : s = (c.generator.transcript ops).foldl Action.tally 0 := by
    obtain ⟨cipher, -, -, rfl⟩ := (create_eq_ok_iff c).mp hcreate
    rfl
  have hcounter : g.counter = .ofNat bs s := by
    rw [hsteps]
    exact (run_after c.generator ops).counter_eq hstart
  refine ⟨?_, ?_, isSeeded_iff hcounter, hF.result_read_iff hcounter⟩
  · intro op hop
    exact (hF.perform_seed (blockSize_of_counter hcounter) hop 0).1
  · rw [hsteps, hF.zero_lt_tally_transcript_iff ops hstart]
    simp

/-- A generator with transparent blocks of one byte. -/
def oneByteGenerator : Generator (Transparent.factory ⟨.identity, 1, none⟩) where
  key := zeroKey
  cipher := Transparent.cipher .identity 1 zeroKey
  counter := .zero 1

theorem create_oneByte :
    create (Transparent.factory ⟨.identity, 1, none⟩) =
      .ok ⟨oneByteGenerator, [.installed zeroKey, .logged (.created 1)]⟩ :=
  rfl

theorem read_ok_iff_after_one_seed :
    (oneByteGenerator.after [.reseed []]).isSeeded = true ∧
      ¬ ∃ out, (read 255 (oneByteGenerator.after [.reseed []])).result = .ok out := by
  have hsteps : Action.steps (Created.history ⟨oneByteGenerator, [.installed zeroKey,
      .logged (.created 1)]⟩ [.reseed []]) = 1 := rfl
  obtain ⟨-, -, hseeded, hread⟩ := seeded_and_read_ok_iff_steps
    (Transparent.steady .identity Nat.one_pos) create_oneByte [.reseed []]
  rw [hsteps] at hseeded hread
  constructor
  · exact hseeded.mpr (by decide)
  · intro hok
    obtain ⟨-, hplaces⟩ := (hread 255).mp hok
    exact (hplaces 0 (by decide)).2 (by decide)

/-- Seeds step the counter once each. -/
theorem after_reseeds {bs : Nat} (hF : F.Steady bs) (seeds : List Bytes) {g : Generator F}
    {s : Nat} (hcounter : g.counter = .ofNat bs s) :
    (g.after (seeds.map .reseed)).counter = .ofNat bs (s + seeds.length) ∧
      (g.after (seeds.map .reseed)).totals.reseeds = g.totals.reseeds + seeds.length := by
  induction seeds generalizing g s with
  | nil => exact ⟨hcounter, rfl⟩
  | cons seed seeds ih =>
      have hlength : (mixedKey g.key seed).length = keySize := rfl
      obtain ⟨cipher, hcipher⟩ := hF.exists_cipherFor hlength
      rw [← blockSize_of_counter hcounter] at hcipher
      obtain ⟨hstate, -, -⟩ := perform_reseed seed g
      rw [reseed_of_cipher hcipher] at hstate
      have hnext : (g.mixed seed cipher).counter = .ofNat bs (s + 1) := by
        rw [mixed, hcounter, Counter.next_ofNat]
      obtain ⟨hlast, htotals⟩ := ih hnext
      rw [List.map_cons, after, hstate, hlast, htotals, List.length_cons]
      constructor
      · rw [Nat.add_assoc, Nat.add_comm 1]
      · change g.totals.reseeds + 1 + seeds.length = _
        omega

/-- After 256 seeds a counter of one byte stands at zero, and the generator
counts as unseeded. -/
theorem unseeded_after_round :
    create (Transparent.factory ⟨.identity, 1, none⟩) =
        .ok ⟨oneByteGenerator, [.installed zeroKey, .logged (.created 1)]⟩ ∧
      (oneByteGenerator.after (List.replicate 256 (.reseed []))).totals.reseeds = 256 ∧
      (oneByteGenerator.after (List.replicate 256 (.reseed []))).isSeeded = false ∧
      ∀ n, (read n (oneByteGenerator.after (List.replicate 256 (.reseed [])))).result =
        .error .unseeded := by
  have hstart : oneByteGenerator.counter = .ofNat 1 0 := rfl
  have hfresh : oneByteGenerator.totals.reseeds = 0 := rfl
  obtain ⟨hcounter, htotals⟩ := after_reseeds (Transparent.steady .identity Nat.one_pos)
    (List.replicate 256 []) hstart
  rw [List.map_replicate, List.length_replicate, Nat.zero_add] at hcounter
  rw [List.map_replicate, List.length_replicate, hfresh, Nat.zero_add] at htotals
  have hseeded : (oneByteGenerator.after (List.replicate 256 (.reseed []))).isSeeded = false := by
    have hround : 256 ^ 1 ∣ 256 := by decide
    exact Bool.eq_false_iff.mpr fun h => (isSeeded_iff hcounter).mp h hround
  refine ⟨create_oneByte, htotals, hseeded, ?_⟩
  intro n
  rw [read_of_unseeded n hseeded]

end Generator

end Fortuna

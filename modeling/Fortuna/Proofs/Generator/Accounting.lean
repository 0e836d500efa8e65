import Fortuna.Cipher.Transparent
import Fortuna.Proofs.Generator.Forgetting

/-!
# What totals account for

A request that is served adds to the totals what its length alone decides: the
bytes asked for, the blocks that hold them, a key for every chunk and the blocks
of those keys (`totals_read_of_ok`).  A request that fails half way has counted
blocks and keys but hands out no bytes, and seeds count themselves only.  So the
bytes handed out and the keys made always fit into the blocks counted, whatever
failed on the way (`Covered`), and where no request for output failed the totals
are sums over the requests (`totals_after_of_servesAll`).
-/

namespace Fortuna

/-- What a request for `n` bytes adds to the totals of a generator with blocks of
`bs` bytes that serves it. -/
def Totals.ofRequest (bs n : Nat) : Totals :=
  let B := (n + bs - 1) / bs
  let m := (B + maxBlocks - 1) / maxBlocks
  { rekeys := m, blocks := B + m * ((keySize + bs - 1) / bs), bytes := n }

@[simp] theorem Totals.reseeds_ofRequest (bs n : Nat) : (ofRequest bs n).reseeds = 0 :=
  rfl

@[simp] theorem Totals.bytes_ofRequest (bs n : Nat) : (ofRequest bs n).bytes = n :=
  rfl

namespace Generator

variable {F : CipherFactory}

/-! ## Requests that are served -/

/-- Chunks that are made count their blocks and a key each. -/
theorem totals_chunks_of_ok {sizes : List Nat} {g : Generator F} {out : Bytes}
    (hout : (chunks sizes g).result = .ok out) :
    (chunks sizes g).state.totals =
      g.totals + { rekeys := sizes.length, blocks := sizes.sum + sizes.length * g.keyBlocks } := by
  induction sizes generalizing g out with
  | nil =>
      rw [List.length_nil, List.sum_nil, Nat.zero_mul]
      rfl
  | cons size sizes ih =>
      rw [chunks_cons, Step.bind_apply, Outcome.result_andThen_eq_ok_iff] at hout
      obtain ⟨first, hfirst, hout⟩ := hout
      rw [Step.bind_apply, Outcome.result_andThen_eq_ok_iff] at hout
      obtain ⟨rest, hrest, -⟩ := hout
      obtain ⟨cipher, -, -, hstate⟩ := chunk_of_ok hfirst
      have hkey : (g.rekeyed size cipher).keyBlocks = g.keyBlocks := keyBlocks_drawn g _
      have htotals : (g.rekeyed size cipher).totals =
          g.totals + { rekeys := 1, blocks := size + g.keyBlocks } := rfl
      have hjoin (r : Nat) :
          ({ rekeys := 1, blocks := size + r } : Totals) +
              { rekeys := sizes.length, blocks := sizes.sum + sizes.length * r } =
            { rekeys := sizes.length + 1,
              blocks := size + sizes.sum + (sizes.length + 1) * r } := by
        change Totals.mk 0 (1 + sizes.length) (size + r + (sizes.sum + sizes.length * r)) 0 = _
        rw [Nat.succ_mul, Totals.mk.injEq]
        omega
      rw [chunks_cons, Step.bind_apply, Outcome.andThen_of_ok hfirst, Step.bind_apply,
        Outcome.andThen_of_ok hrest, Step.pure_apply, ih hrest, hstate, hkey, htotals,
        Totals.add_assoc, List.length_cons, List.sum_cons, hjoin]

theorem totals_read_of_ok {n : Nat} {g : Generator F} {out : Bytes}
    (hout : (read n g).result = .ok out) :
    (read n g).state.totals = g.totals + .ofRequest g.blockSize n := by
  by_cases hseeded : g.isSeeded = true
  · obtain ⟨whole, hwhole⟩ := (exists_result_read_iff n hseeded).mp ⟨out, hout⟩
    have hchunks := totals_chunks_of_ok hwhole
    have hdelivered (h : Generator F) : (h.delivered n).totals = h.totals + { bytes := n } := rfl
    have hsum (m k : Nat) : ({ rekeys := m, blocks := k } : Totals) + { bytes := n } =
        { rekeys := m, blocks := k, bytes := n } := by
      change Totals.mk 0 m k (0 + n) = _
      rw [Nat.zero_add]
    rw [sum_chunkSizes, length_chunkSizes, keyBlocks, blocksFor, blocksFor] at hchunks
    rw [read_of_seeded n hseeded, Outcome.andThen_of_ok hwhole, deliver_apply, hdelivered,
      blocksFor, hchunks, Totals.add_assoc, hsum, Totals.ofRequest]
  · rw [read_of_unseeded n (Bool.eq_false_iff.mpr hseeded)] at hout
    cases hout

/-! ## Seeds -/

theorem totals_reseed (seed : Bytes) (g : Generator F) :
    ∃ k, (reseed seed g).state.totals = g.totals + { reseeds := k } := by
  cases hcipher : F.cipherFor g.blockSize (mixedKey g.key seed) with
  | error e =>
      rw [reseed_of_refused hcipher]
      exact ⟨0, rfl⟩
  | ok cipher =>
      rw [reseed_of_cipher hcipher]
      exact ⟨1, rfl⟩

theorem totals_restart (seed : Int64) (g : Generator F) :
    ∃ k, (restart seed g).state.totals = g.totals + { reseeds := k } := by
  cases hzero : F.cipherFor g.blockSize zeroKey with
  | error e =>
      rw [restart_eq, Step.bind_apply, wipe_of_refused hzero]
      exact ⟨0, rfl⟩
  | ok zero =>
      rw [(restart_of_wiped hzero seed).2]
      exact totals_reseed (seedBytes seed) (g.wiped zero)

/-- A seed counts itself, if anything. -/
theorem totals_perform_seed {op : Operation} (hop : op.requested = none) (g : Generator F) :
    ∃ k, (op.perform g).state.totals = g.totals + { reseeds := k } := by
  cases op with
  | reseed seed =>
      rw [(perform_reseed seed g).1]
      exact totals_reseed seed g
  | restart seed =>
      rw [(perform_restart seed g).1]
      exact totals_restart seed g
  | read | fill | int63 | fillOrAbort | nextUInt32 | nextUInt64 => cases hop

/-! ## Blocks cover bytes and keys -/

/-- The blocks counted hold the bytes handed out and the keys made of output. -/
def Covered (g : Generator F) : Prop :=
  g.totals.bytes + keySize * g.totals.rekeys ≤ g.blockSize * g.totals.blocks

theorem Covered.drawn {g : Generator F} (hg : g.Covered) (k : Nat) : (g.drawn k).Covered := by
  have hblocks : (g.drawn k).totals.blocks = g.totals.blocks + k := rfl
  have hmore := Nat.mul_le_mul_left g.blockSize (Nat.le_add_right g.totals.blocks k)
  rw [Covered, blockSize_drawn, hblocks]
  exact hg.trans hmore

/-- However a chunk ends, it has made the blocks of a key before it counts the key. -/
theorem Covered.chunk {g : Generator F} (hg : g.Covered) (hpos : 0 < g.blockSize) (size : Nat) :
    (Generator.chunk size g).state.Covered := by
  have hend := chunk_end g size
  generalize Generator.chunk size g = o at hend ⊢
  cases hend with
  | unseeded => exact hg
  | stalled => exact hg.drawn size
  | refused => exact hg.drawn _
  | rekeyed cipher =>
      have hkey : keySize ≤ g.keyBlocks * g.blockSize := le_blocksFor_mul hpos keySize
      have hsize : (g.rekeyed size cipher).blockSize = g.blockSize := blockSize_drawn g _
      have hblocks : (g.rekeyed size cipher).totals.blocks =
          g.totals.blocks + (size + g.keyBlocks) := rfl
      have hrekeys : (g.rekeyed size cipher).totals.rekeys = g.totals.rekeys + 1 := rfl
      have hbytes : (g.rekeyed size cipher).totals.bytes = g.totals.bytes := rfl
      have hg' : g.totals.bytes + keySize * g.totals.rekeys ≤ g.blockSize * g.totals.blocks := hg
      change Covered (g.rekeyed size cipher)
      rw [Covered, hsize, hblocks, hrekeys, hbytes, Nat.mul_succ, Nat.mul_add, Nat.mul_add,
        Nat.mul_comm g.blockSize g.keyBlocks]
      omega

theorem Covered.chunks {g : Generator F} (hg : g.Covered) (hpos : 0 < g.blockSize)
    (sizes : List Nat) :
    (Generator.chunks sizes g).state.Covered := by
  induction sizes generalizing g with
  | nil => exact hg
  | cons size sizes ih =>
      have hfirst := hg.chunk hpos size
      rw [chunks_cons, Step.bind_apply]
      cases hresult : (Generator.chunk size g).result with
      | error e =>
          rw [Outcome.andThen_of_error hresult]
          exact hfirst
      | ok first =>
          obtain ⟨cipher, -, -, hstate⟩ := chunk_of_ok hresult
          have hsize : (Generator.chunk size g).state.blockSize = g.blockSize := by
            rw [hstate]
            exact blockSize_drawn g _
          have hrest :=
            ((Step.Like.refl (Generator.chunks sizes : Step F GeneratorError Bytes)).answer
              (first ++ ·) (Generator.chunk size g).state).1
          rw [Outcome.andThen_of_ok hresult, hrest]
          exact ih hfirst (hsize ▸ hpos)

/-- A request that succeeds has made the blocks of its bytes before it counts
them; one that fails counts no bytes. -/
theorem Covered.read {g : Generator F} (hg : g.Covered) (hpos : 0 < g.blockSize) (n : Nat) :
    (Generator.read n g).state.Covered := by
  cases hresult : (Generator.read n g).result with
  | ok out =>
      have hsize : (Generator.read n g).state.blockSize = g.blockSize :=
        ((runs_read n g).mono .draw).blockSize_eq
      have hbytes : n ≤ (n + g.blockSize - 1) / g.blockSize * g.blockSize :=
        le_blocksFor_mul hpos n
      have hkey : keySize ≤ (keySize + g.blockSize - 1) / g.blockSize * g.blockSize :=
        le_blocksFor_mul hpos keySize
      have hg' : g.totals.bytes + keySize * g.totals.rekeys ≤ g.blockSize * g.totals.blocks := hg
      rw [Covered, totals_read_of_ok hresult, hsize]
      simp only [Totals.bytes_add, Totals.rekeys_add, Totals.blocks_add, Totals.ofRequest]
      generalize (n + g.blockSize - 1) / g.blockSize = B at hbytes ⊢
      generalize (keySize + g.blockSize - 1) / g.blockSize = r at hkey ⊢
      generalize (B + maxBlocks - 1) / maxBlocks = m
      have hkeys : keySize * m ≤ g.blockSize * (m * r) := by
        calc keySize * m
          _ ≤ r * g.blockSize * m := Nat.mul_le_mul_right m hkey
          _ = g.blockSize * (m * r) := by
              rw [Nat.mul_comm r, Nat.mul_assoc, Nat.mul_comm r]
      rw [Nat.mul_add, Nat.mul_add, Nat.mul_add, Nat.mul_comm g.blockSize B]
      omega
  | error e =>
      by_cases hseeded : g.isSeeded = true
      · rw [read_of_seeded n hseeded] at hresult ⊢
        cases hchunks : (Generator.chunks (chunkSizes (g.blocksFor n)) g).result with
        | ok whole =>
            rw [Outcome.andThen_of_ok hchunks] at hresult
            cases hresult
        | error e' =>
            rw [Outcome.andThen_of_error hchunks]
            exact hg.chunks hpos _
      · rw [read_of_unseeded n (Bool.eq_false_iff.mpr hseeded)]
        exact hg

theorem Covered.perform {g : Generator F} (hg : g.Covered) (hpos : 0 < g.blockSize)
    (op : Operation) :
    (op.perform g).state.Covered := by
  cases hop : op.requested with
  | some n =>
      rw [(perform_of_requested hop g).1]
      exact hg.read hpos n
  | none =>
      obtain ⟨k, htotals⟩ := totals_perform_seed hop g
      rw [Covered, htotals, (runs_perform op g).blockSize_eq]
      exact hg

theorem Covered.after {g : Generator F} (hg : g.Covered) (hpos : 0 < g.blockSize)
    (ops : List Operation) :
    (g.after ops).Covered := by
  induction ops generalizing g with
  | nil => exact hg
  | cons op ops ih =>
      have hsize := (runs_perform op g).blockSize_eq
      exact ih (hg.perform hpos op) (hsize ▸ hpos)

/-! ## Runs in which no request for output fails -/

/-- Every request for output is served, each in the state that the requests before
it leave. -/
def ServesAll (g : Generator F) : List Operation → Prop
  | [] => True
  | op :: ops =>
    (op.requested ≠ none → ∃ answer, (op.perform g).result = .ok answer) ∧
      (op.perform g).state.ServesAll ops

/-- What the requests add to the totals, apart from seeds. -/
theorem totals_after_of_servesAll {bs : Nat} (ops : List Operation) {g : Generator F}
    (hsize : g.blockSize = bs) (hserves : g.ServesAll ops) :
    let added := (ops.filterMap Operation.requested).map (Totals.ofRequest bs)
    (g.after ops).totals.rekeys = g.totals.rekeys + (added.map Totals.rekeys).sum ∧
      (g.after ops).totals.blocks = g.totals.blocks + (added.map Totals.blocks).sum := by
  induction ops generalizing g with
  | nil => exact ⟨rfl, rfl⟩
  | cons op ops ih =>
      obtain ⟨hfirst, hlater⟩ := hserves
      have hnext := (runs_perform op g).blockSize_eq
      obtain ⟨hrekeys, hblocks⟩ := ih (hnext.trans hsize) hlater
      have hafter : g.after (op :: ops) = (op.perform g).state.after ops := rfl
      dsimp only
      rw [hafter, hrekeys, hblocks]
      cases hop : op.requested with
      | none =>
          obtain ⟨k, htotals⟩ := totals_perform_seed hop g
          rw [List.filterMap_cons_none hop, htotals]
          exact ⟨rfl, rfl⟩
      | some n =>
          obtain ⟨hstate, -, hok⟩ := perform_of_requested hop g
          obtain ⟨out, hout⟩ := hok.mp (hfirst (hop ▸ Option.some_ne_none n))
          rw [List.filterMap_cons_some hop, hstate, totals_read_of_ok hout, hsize]
          simp only [List.map_cons, List.sum_cons, Totals.rekeys_add, Totals.blocks_add,
            Nat.add_assoc, and_self]

/-! ## The books of a run -/

/-- Whatever requests come and fail, the bytes handed out and the keys made fit
into the blocks counted, and no total ever falls.  If no request for output
fails, every block counted is a block of some request or of one of its keys, and
every key follows a chunk of some request. -/
theorem totals_account_for_blocks {c : Created F} (hcreate : create F = .ok c)
    (ops : List Operation) :
    let g := c.generator.after ops
    let bs := g.blockSize
    g.totals.bytes + 32 * g.totals.rekeys ≤ bs * g.totals.blocks ∧
      (∀ earlier, earlier <+: ops →
        let before := (c.generator.after earlier).totals
        before.reseeds ≤ g.totals.reseeds ∧ before.rekeys ≤ g.totals.rekeys ∧
          before.blocks ≤ g.totals.blocks ∧ before.bytes ≤ g.totals.bytes) ∧
      (c.generator.ServesAll ops →
        let requests := ops.filterMap Operation.requested
        g.totals.rekeys =
            (requests.map fun n => ((n + bs - 1) / bs + maxBlocks - 1) / maxBlocks).sum ∧
          g.totals.blocks =
            (requests.map fun n => (n + bs - 1) / bs).sum +
              g.totals.rekeys * ((32 + bs - 1) / bs)) := by
  intro g bs
  have hsize : bs = c.generator.blockSize := (run_after c.generator ops).blockSize_eq
  have hpos := (consistent_of_create hcreate).blockSize_pos
  have hfresh : c.generator.totals = {} := by
    obtain ⟨cipher, -, -, rfl⟩ := (create_eq_ok_iff c).mp hcreate
    rfl
  refine ⟨?_, ?_, ?_⟩
  · have hstart : c.generator.Covered := by
      rw [Covered, hfresh]
      exact Nat.zero_le _
    exact hstart.after hpos ops
  · rintro earlier ⟨later, rfl⟩
    intro before
    have hg : g = (c.generator.after earlier).after later := after_append _ _ _
    obtain ⟨growth, hgrowth⟩ := (run_after (c.generator.after earlier) later).exists_growth
    rw [hg, hgrowth]
    exact ⟨Nat.le_add_right _ _, Nat.le_add_right _ _, Nat.le_add_right _ _,
      Nat.le_add_right _ _⟩
  · intro hserves requests
    obtain ⟨hrekeys, hblocks⟩ := totals_after_of_servesAll ops hsize.symm hserves
    have hsums (l : List Nat) :
        ((l.map (Totals.ofRequest bs)).map Totals.blocks).sum =
          (l.map fun n => (n + bs - 1) / bs).sum +
            ((l.map (Totals.ofRequest bs)).map Totals.rekeys).sum * ((32 + bs - 1) / bs) := by
      have hkey : keySize = 32 := rfl
      induction l with
      | nil => simp
      | cons n l ih =>
          simp only [List.map_cons, List.sum_cons, ih, Totals.ofRequest, Nat.add_mul, hkey]
          omega
    rw [hfresh] at hrekeys hblocks
    simp only [Nat.zero_add] at hrekeys hblocks
    refine ⟨?_, ?_⟩
    · rw [hrekeys, List.map_map]
      rfl
    · rw [hblocks, hsums, hrekeys]

/-- Blocks of five bytes, for a run that begins with a refused request and for one
in which every request is served: 12 bytes take three blocks and 4 bytes one, and
each of the two keys takes seven. -/
theorem totals_account_for_blocks_of_five_bytes :
    ∃ c, create (Transparent.factory ⟨.identity, 5, none⟩) = .ok c ∧
      let g := c.generator.after [.nextUInt64, .reseed [1, 2], .read 12]
      let h := c.generator.after [.reseed [1, 2], .read 12, .restart 7, .nextUInt32]
      g.totals.bytes + 32 * g.totals.rekeys ≤ 5 * g.totals.blocks ∧
        h.totals.rekeys = 2 ∧ h.totals.blocks = 18 := by
  obtain ⟨c, hcreate⟩ :
      ∃ c, create (Transparent.factory ⟨.identity, 5, none⟩) = .ok c := ⟨_, rfl⟩
  obtain ⟨zero, hbuild, -, rfl⟩ := (create_eq_ok_iff c).mp hcreate
  obtain rfl : Transparent.cipher .identity 5 zeroKey = zero := Except.ok.inj hbuild
  refine ⟨_, hcreate, ?_, ?_⟩
  · exact (totals_account_for_blocks hcreate [.nextUInt64, .reseed [1, 2], .read 12]).1
  · obtain ⟨-, -, hsums⟩ :=
      totals_account_for_blocks hcreate [.reseed [1, 2], .read 12, .restart 7, .nextUInt32]
    obtain ⟨hrekeys, hblocks⟩ :=
      hsums ⟨fun _ => ⟨_, rfl⟩, fun _ => ⟨_, rfl⟩, fun _ => ⟨_, rfl⟩, fun _ => ⟨_, rfl⟩, trivial⟩
    refine ⟨hrekeys, hblocks.trans ?_⟩
    rw [hrekeys]
    rfl

end Generator

end Fortuna

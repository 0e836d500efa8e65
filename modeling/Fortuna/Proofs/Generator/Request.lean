import Fortuna.Proofs.Generator.Chunk

/-!
# A request chunk by chunk

A request for `B` blocks is served in chunks, the `e`-th of which holds the
blocks from `e * maxBlocks` on.  Between two chunks the generator spends
keystream on a key, so that after `e` chunks the counter is ahead of the output
by `e` times the blocks of a key.  `AfterChunks` is that loop state: what key,
cipher, counter and totals are after `e` chunks, in terms of the state before the
request alone.  `afterChunks_take` shows that every prefix of the chunks of a
successful request ends in it, and what that prefix put out.
-/

namespace Fortuna

/-! ## Chunk sizes -/

theorem getElem?_chunkSizes (blocks e : Nat) :
    (chunkSizes blocks)[e]? =
      if e * maxBlocks < blocks then some (min maxBlocks (blocks - e * maxBlocks)) else none := by
  rw [chunkSizes, List.getElem?_append, List.length_replicate]
  -- as a numeral the limit is linear for `omega`
  generalize hmax : maxBlocks = limit
  obtain rfl : limit = 65536 := hmax.symm
  rcases lt_trichotomy e (blocks / 65536) with hlt | heq | hgt
  · rw [if_pos hlt, List.getElem?_replicate_of_lt hlt, if_pos (by omega)]
    congr 1
    omega
  · rw [if_neg (by omega), heq, Nat.sub_self]
    by_cases hzero : blocks % 65536 = 0
    · rw [if_pos hzero, if_neg (by omega)]
      rfl
    · rw [if_neg hzero, if_pos (by omega), List.getElem?_cons_zero]
      congr 1
      omega
  · have hrest : (if blocks % 65536 = 0 then [] else [blocks % 65536])[e - blocks / 65536]? =
        none := by
      rw [List.getElem?_eq_none_iff]
      split
      · exact Nat.zero_le _
      · rw [List.length_singleton]
        omega
    rw [if_neg (by omega), hrest, if_neg (by omega)]

theorem bounds_of_mem_chunkSizes {blocks size : Nat} (hmem : size ∈ chunkSizes blocks) :
    0 < size ∧ size ≤ maxBlocks := by
  obtain ⟨e, he⟩ := List.mem_iff_getElem?.mp hmem
  rw [getElem?_chunkSizes] at he
  have hmax : 0 < maxBlocks := by decide
  split at he
  · obtain rfl := Option.some.inj he
    exact ⟨by omega, Nat.min_le_left _ _⟩
  · cases he

/-- The number of chunks. -/
theorem length_chunkSizes (blocks : Nat) :
    (chunkSizes blocks).length = (blocks + maxBlocks - 1) / maxBlocks := by
  rw [chunkSizes, List.length_append, List.length_replicate]
  generalize hmax : maxBlocks = limit
  obtain rfl : limit = 65536 := hmax.symm
  split
  · rw [List.length_nil]
    omega
  · rw [List.length_singleton]
    omega

theorem lt_length_chunkSizes_iff (blocks e : Nat) :
    e < (chunkSizes blocks).length ↔ e * maxBlocks < blocks := by
  constructor
  · intro hlt
    have hsome := getElem?_chunkSizes blocks e
    rw [List.getElem?_eq_getElem hlt] at hsome
    by_contra hge
    rw [if_neg hge] at hsome
    exact Option.some_ne_none _ hsome
  · intro hlt
    have hsome := getElem?_chunkSizes blocks e
    rw [if_pos hlt] at hsome
    exact (List.getElem?_eq_some_iff.mp hsome).1

/-- A request is cut at its chunk `e`. -/
theorem chunkSizes_eq_take_append {blocks e : Nat} (hlt : e * maxBlocks < blocks) :
    chunkSizes blocks = (chunkSizes blocks).take e ++
      min maxBlocks (blocks - e * maxBlocks) :: (chunkSizes blocks).drop (e + 1) := by
  have hsize := getElem?_chunkSizes blocks e
  rw [if_pos hlt] at hsize
  obtain ⟨hlength, hget⟩ := List.getElem?_eq_some_iff.mp hsize
  rw [← hget, ← List.drop_eq_getElem_cons hlength, List.take_append_drop]

theorem le_length_chunkSizes_mul (blocks : Nat) :
    blocks ≤ (chunkSizes blocks).length * maxBlocks := by
  have hlast := (lt_length_chunkSizes_iff blocks (chunkSizes blocks).length).not
  exact Nat.le_of_not_lt (hlast.mp (Nat.lt_irrefl _))

/-- The chunk in which a block lies. -/
theorem add_div_maxBlocks (e : Nat) {i : Nat} (hi : i < maxBlocks) :
    (e * maxBlocks + i) / maxBlocks = e := by
  rw [Nat.mul_comm, Nat.mul_add_div (by decide), Nat.div_eq_of_lt hi, Nat.add_zero]

theorem min_succ_mul_maxBlocks {blocks e : Nat} (hlt : e * maxBlocks < blocks) :
    min ((e + 1) * maxBlocks) blocks = e * maxBlocks + min maxBlocks (blocks - e * maxBlocks) := by
  rw [Nat.succ_mul]
  omega

/-- The blocks of the first `e` chunks. -/
theorem sum_take_chunkSizes (blocks e : Nat) :
    ((chunkSizes blocks).take e).sum = min (e * maxBlocks) blocks := by
  induction e with
  | zero => simp
  | succ e ih =>
      rw [List.take_add_one, List.sum_append, ih, getElem?_chunkSizes, Nat.succ_mul]
      split
      · simp only [Option.toList_some, List.sum_singleton]
        omega
      · simp only [Option.toList_none, List.sum_nil]
        omega

/-- A request is served in as many blocks as it takes. -/
theorem sum_chunkSizes (blocks : Nat) : (chunkSizes blocks).sum = blocks := by
  have htake := sum_take_chunkSizes blocks (chunkSizes blocks).length
  rw [List.take_length, Nat.min_eq_right (le_length_chunkSizes_mul blocks)] at htake
  exact htake

/-! ## Requests -/

namespace Generator

variable {F : CipherFactory}

/-- The state after `n` bytes have been handed out. -/
def delivered (g : Generator F) (n : Nat) : Generator F :=
  { g with totals.bytes := g.totals.bytes + n }

/-- Hands out the first `n` bytes. -/
def deliver (n : Nat) (out : Bytes) : Step F GeneratorError Bytes := do
  Step.update fun g => g.delivered n
  Step.report (.delivered n)
  return out.take n

theorem deliver_apply (n : Nat) (out : Bytes) (g : Generator F) :
    deliver n out g = ⟨.ok (out.take n), g.delivered n, [.logged (.delivered n)]⟩ :=
  rfl

theorem read_of_unseeded (n : Nat) {g : Generator F} (hseeded : g.isSeeded = false) :
    read n g = ⟨.error .unseeded, g, []⟩ := by
  simp [read, hseeded]

theorem read_of_seeded (n : Nat) {g : Generator F} (hseeded : g.isSeeded = true) :
    read n g = (chunks (chunkSizes (g.blocksFor n)) g).andThen (deliver n) := by
  simp only [read, Step.bind_apply, Step.state_apply, Outcome.andThen_ok, hseeded, ↓reduceIte,
    List.nil_append]
  rfl

theorem exists_result_read_iff (n : Nat) {g : Generator F} (hseeded : g.isSeeded = true) :
    (∃ out, (read n g).result = .ok out) ↔
      ∃ out, (chunks (chunkSizes (g.blocksFor n)) g).result = .ok out := by
  rw [read_of_seeded n hseeded]
  constructor
  · rintro ⟨out, hout⟩
    obtain ⟨whole, hwhole, -⟩ := (Outcome.result_andThen_eq_ok_iff _ _ _).mp hout
    exact ⟨whole, hwhole⟩
  · rintro ⟨whole, hwhole⟩
    exact ⟨whole.take n, (Outcome.result_andThen_eq_ok_iff _ _ _).mpr ⟨whole, hwhole, rfl⟩⟩

/-- Chunks that are made have the length asked for. -/
theorem length_of_chunks_ok {sizes : List Nat} {g : Generator F} {out : Bytes}
    (hout : (chunks sizes g).result = .ok out) :
    out.length = sizes.sum * g.blockSize := by
  induction sizes generalizing g out with
  | nil =>
      obtain rfl : [] = out := Except.ok.inj hout
      rw [List.sum_nil, Nat.zero_mul]
      rfl
  | cons size sizes ih =>
      rw [chunks_cons, Step.bind_apply, Outcome.result_andThen_eq_ok_iff] at hout
      obtain ⟨first, hfirst, hout⟩ := hout
      rw [Step.bind_apply, Outcome.result_andThen_eq_ok_iff] at hout
      obtain ⟨rest, hrest, hout⟩ := hout
      obtain ⟨cipher, -, rfl, hstate⟩ := chunk_of_ok hfirst
      obtain rfl : g.blocks size ++ rest = out := Except.ok.inj hout
      have hsize : (g.rekeyed size cipher).blockSize = g.blockSize := blockSize_drawn g _
      rw [hstate] at hrest
      rw [List.length_append, length_blocks, ih hrest, hsize, List.sum_cons, Nat.add_mul]

/-- The blocks of a request hold the bytes asked for. -/
theorem le_length_of_chunks_ok {g : Generator F} (hpos : 0 < g.blockSize) {n : Nat} {out : Bytes}
    (hout : (chunks (chunkSizes (g.blocksFor n)) g).result = .ok out) :
    n ≤ out.length := by
  rw [length_of_chunks_ok hout, sum_chunkSizes]
  exact le_blocksFor_mul hpos n

theorem length_of_read_ok {g : Generator F} (hpos : 0 < g.blockSize) {n : Nat} {out : Bytes}
    (hout : (read n g).result = .ok out) :
    out.length = n := by
  cases hseeded : g.isSeeded with
  | false =>
      rw [read_of_unseeded n hseeded] at hout
      cases hout
  | true =>
      rw [read_of_seeded n hseeded, Outcome.result_andThen_eq_ok_iff] at hout
      obtain ⟨whole, hwhole, hout⟩ := hout
      obtain rfl : whole.take n = out := Except.ok.inj hout
      exact List.length_take_of_le (le_length_of_chunks_ok hpos hwhole)

/-- What fits together in a generator: its key is of the right length, its
cipher is the cipher of its key, and its counter fills a block of that cipher. -/
structure Consistent (g : Generator F) : Prop where
  length_key : g.key.length = keySize
  build_key : F.build g.key = .ok g.cipher
  blockSize_cipher : g.cipher.blockSize = g.blockSize
  blockSize_pos : 0 < g.blockSize

end Generator

/-- A block under the cipher of a key, and nothing if the key has no cipher. -/
def CipherFactory.encryption (F : CipherFactory) (key block : Bytes) : Bytes :=
  match F.build key with
  | .ok cipher => cipher.encrypt block
  | .error _ => []

theorem CipherFactory.encryption_of_build {F : CipherFactory} {key : Bytes} {cipher : Cipher}
    (hbuild : F.build key = .ok cipher) (block : Bytes) :
    F.encryption key block = cipher.encrypt block := by
  simp only [CipherFactory.encryption, hbuild]

namespace Generator

variable {F : CipherFactory}

/-- Keystream as encryptions of consecutive positions. -/
theorem blocks_eq_flatMap {g : Generator F} {width v : Nat}
    (hbuild : F.build g.key = .ok g.cipher) (hcounter : g.counter = .ofNat width v) (k : Nat) :
    g.blocks k =
      (List.range k).flatMap fun i => F.encryption g.key (Bytes.ofNatLE width (v + i)) := by
  rw [blocks, hcounter, Counter.upcoming_ofNat, List.flatMap_map]
  simp only [CipherFactory.encryption_of_build hbuild]
  rfl

/-- The key of chunk `e` of a request for `blocks` blocks: the key in place for
the first chunk, then what the chunk before makes of the keystream behind it. -/
def epochKey (g : Generator F) (blocks : Nat) : Nat → Bytes
  | 0 => g.key
  | e + 1 =>
    ((List.range g.keyBlocks).flatMap fun i =>
      F.encryption (g.epochKey blocks e) (Bytes.ofNatLE g.blockSize
        (g.counter.value + min ((e + 1) * maxBlocks) blocks + e * g.keyBlocks + i))).take keySize

/-- Block `b` of the output of a request for `blocks` blocks. -/
def outputBlock (g : Generator F) (blocks b : Nat) : Bytes :=
  F.encryption (g.epochKey blocks (b / maxBlocks))
    (Bytes.ofNatLE g.blockSize (g.counter.value + b + b / maxBlocks * g.keyBlocks))

/-- `h` is where the first `e` chunks of a request for `blocks` blocks take `g`. -/
structure AfterChunks (g : Generator F) (blocks e : Nat) (h : Generator F) : Prop where
  key : h.key = g.epochKey blocks e
  build_key : F.build h.key = .ok h.cipher
  blockSize_cipher : h.cipher.blockSize = g.blockSize
  counter : h.counter = .ofNat g.blockSize
    (g.counter.value + min (e * maxBlocks) blocks + e * g.keyBlocks)
  totals : h.totals = { g.totals with
    rekeys := g.totals.rekeys + e
    blocks := g.totals.blocks + (min (e * maxBlocks) blocks + e * g.keyBlocks) }

theorem afterChunks_zero {g : Generator F} (hg : g.Consistent) (blocks : Nat) :
    AfterChunks g blocks 0 g where
  key := rfl
  build_key := hg.build_key
  blockSize_cipher := hg.blockSize_cipher
  counter := by
    rw [Nat.zero_mul, Nat.zero_mul, Nat.zero_min]
    exact (Counter.ofNat_value g.counter).symm
  totals := by simp

theorem AfterChunks.blockSize_eq {g h : Generator F} {blocks e : Nat}
    (hafter : AfterChunks g blocks e h) : h.blockSize = g.blockSize := by
  rw [blockSize, hafter.counter, Counter.width_ofNat]

theorem AfterChunks.keyBlocks_eq {g h : Generator F} {blocks e : Nat}
    (hafter : AfterChunks g blocks e h) : h.keyBlocks = g.keyBlocks := by
  rw [keyBlocks, keyBlocks, blocksFor, blocksFor, hafter.blockSize_eq]

/-- Where the counter stands `k` blocks into chunk `e`. -/
theorem AfterChunks.counter_drawn {g h : Generator F} {blocks e : Nat}
    (hafter : AfterChunks g blocks e h) (hlt : e * maxBlocks < blocks) (k : Nat) :
    (h.drawn k).counter =
      .ofNat g.blockSize (g.counter.value + e * maxBlocks + e * g.keyBlocks + k) := by
  rw [Generator.counter_drawn, hafter.counter, Nat.min_eq_left hlt.le, Counter.advance_ofNat]

/-- The key that follows chunk `e` is the key of the chunk after it. -/
theorem AfterChunks.nextKey_eq {g h : Generator F} {blocks e : Nat}
    (hafter : AfterChunks g blocks e h) (hlt : e * maxBlocks < blocks) :
    h.nextKey (min maxBlocks (blocks - e * maxBlocks)) = g.epochKey blocks (e + 1) := by
  have hbuild : F.build (h.drawn (min maxBlocks (blocks - e * maxBlocks))).key =
      .ok (h.drawn (min maxBlocks (blocks - e * maxBlocks))).cipher := by
    rw [key_drawn, cipher_drawn, hafter.build_key]
  have hdraw := hafter.counter_drawn hlt (min maxBlocks (blocks - e * maxBlocks))
  rw [nextKey, freshKey, keyBlocks_drawn, hafter.keyBlocks_eq, blocks_eq_flatMap hbuild hdraw,
    key_drawn, hafter.key, epochKey, min_succ_mul_maxBlocks hlt]
  simp only [Nat.add_assoc, Nat.add_comm (min maxBlocks (blocks - e * maxBlocks))]

theorem AfterChunks.chunk {g h : Generator F} {blocks e size : Nat} {out : Bytes}
    (hafter : AfterChunks g blocks e h) (hlt : e * maxBlocks < blocks)
    (hchunk : min maxBlocks (blocks - e * maxBlocks) = size)
    (hout : (chunk size h).result = .ok out) :
    AfterChunks g blocks (e + 1) (chunk size h).state ∧
      out = (List.range size).flatMap fun i => g.outputBlock blocks (e * maxBlocks + i) := by
  have hwidth := hafter.blockSize_eq
  have hblocks := hafter.keyBlocks_eq
  have hdraw := hafter.counter_drawn hlt
  have hnext := hafter.nextKey_eq hlt
  obtain ⟨hkey, hbuild, -, hcounter, htotals⟩ := hafter
  have hstart : min (e * maxBlocks) blocks = e * maxBlocks := Nat.min_eq_left (Nat.le_of_lt hlt)
  have hstop := min_succ_mul_maxBlocks hlt
  have hlimit : size ≤ maxBlocks := hchunk ▸ Nat.min_le_left _ _
  rw [hchunk] at hnext hstop
  rw [hstart] at hcounter htotals
  obtain ⟨cipher, hcipher, rfl, hstate⟩ := chunk_of_ok hout
  rw [hstate]
  obtain ⟨hnew, hsize⟩ := (F.cipherFor_eq_ok_iff _ _ _).mp hcipher
  refine ⟨⟨hnext, hnew, hsize.trans hwidth, ?_, ?_⟩, ?_⟩
  · change (h.drawn (size + h.keyBlocks)).counter = _
    rw [hdraw, hstop, hblocks, Nat.succ_mul]
    congr 1
    omega
  · change { (h.drawn (size + h.keyBlocks)).totals with
      rekeys := h.totals.rekeys + 1 } = _
    rw [hstop]
    simp only [drawn, htotals, hblocks, Nat.succ_mul, Totals.mk.injEq, true_and, and_true]
    omega
  · rw [blocks_eq_flatMap hbuild hcounter, hkey]
    refine List.flatMap_congr fun i hi => ?_
    have hi' := List.mem_range.mp hi
    rw [outputBlock, add_div_maxBlocks e (lt_of_lt_of_le hi' hlimit)]
    congr 2
    omega

theorem chunks_take_succ {blocks e : Nat} (hlt : e * maxBlocks < blocks) :
    (chunks ((chunkSizes blocks).take (e + 1)) : Step F GeneratorError Bytes) = do
      let before ← chunks ((chunkSizes blocks).take e)
      let last ← chunk (min maxBlocks (blocks - e * maxBlocks))
      return before ++ last := by
  rw [List.take_add_one, getElem?_chunkSizes, if_pos hlt, Option.toList_some, chunks_append,
    chunks_singleton]

/-- Chunks succeed when those before the last do and the last does. -/
theorem chunks_take_succ_of_ok {g : Generator F} {blocks e : Nat} {out : Bytes}
    (hlt : e * maxBlocks < blocks)
    (hout : (chunks ((chunkSizes blocks).take (e + 1)) g).result = .ok out) :
    let first := chunks ((chunkSizes blocks).take e) g
    let second := chunk (min maxBlocks (blocks - e * maxBlocks)) first.state
    ∃ before last, first.result = .ok before ∧ second.result = .ok last ∧
      chunks ((chunkSizes blocks).take (e + 1)) g =
        ⟨.ok (before ++ last), second.state, first.actions ++ second.actions⟩ ∧
      before ++ last = out := by
  intro first second
  rw [chunks_take_succ hlt, Step.bind_apply, Outcome.result_andThen_eq_ok_iff] at hout
  obtain ⟨before, hbefore, hrest⟩ := hout
  rw [Step.bind_apply, Outcome.result_andThen_eq_ok_iff] at hrest
  obtain ⟨last, hlast, hjoin⟩ := hrest
  refine ⟨before, last, hbefore, hlast, ?_, Except.ok.inj hjoin⟩
  rw [chunks_take_succ hlt, Step.bind_apply, Outcome.andThen_of_ok hbefore, Step.bind_apply,
    Outcome.andThen_of_ok hlast, Step.pure_apply, List.append_nil]

/-- What the chunks before chunk `e` of a request do, if they succeed. -/
theorem afterChunks_take {g : Generator F} (hg : g.Consistent)
    {blocks e : Nat} {out : Bytes}
    (he : e ≤ (chunkSizes blocks).length)
    (hout : (chunks ((chunkSizes blocks).take e) g).result = .ok out) :
    AfterChunks g blocks e (chunks ((chunkSizes blocks).take e) g).state ∧
      out = (List.range (min (e * maxBlocks) blocks)).flatMap (g.outputBlock blocks) := by
  induction e generalizing out with
  | zero =>
      rw [List.take_zero] at hout ⊢
      obtain rfl : [] = out := Except.ok.inj hout
      refine ⟨afterChunks_zero hg blocks, ?_⟩
      rw [Nat.zero_mul, Nat.zero_min]
      rfl
  | succ e ih =>
      have hlt : e * maxBlocks < blocks := (lt_length_chunkSizes_iff blocks e).mp he
      obtain ⟨before, last, hbefore, hlast, heq, rfl⟩ := chunks_take_succ_of_ok hlt hout
      obtain ⟨hafter, hbytes⟩ := ih (Nat.le_of_succ_le he) hbefore
      obtain ⟨hnext, hchunk⟩ := hafter.chunk hlt rfl hlast
      rw [heq]
      refine ⟨hnext, ?_⟩
      rw [hbytes, hchunk, min_succ_mul_maxBlocks hlt, Nat.min_eq_left (Nat.le_of_lt hlt),
        List.range_add, List.flatMap_append, List.flatMap_map]

/-- A prefix of successful chunks is successful. -/
theorem exists_result_take {g : Generator F} {sizes : List Nat} {out : Bytes}
    (hout : (chunks sizes g).result = .ok out) (e : Nat) :
    ∃ before, (chunks (sizes.take e) g).result = .ok before := by
  rw [← List.take_append_drop e sizes, chunks_append, Step.bind_apply,
    Outcome.result_andThen_eq_ok_iff] at hout
  obtain ⟨before, hbefore, -⟩ := hout
  exact ⟨before, hbefore⟩

end Generator

end Fortuna

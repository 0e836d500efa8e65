import Mathlib.Data.List.Perm.Subperm
import Fortuna.Proofs.Generator.Invariants
import Fortuna.Proofs.Generator.RandomAccess

/-!
# What callers receive

A transcript shows under which installation of a key each block of output was
made (`Action.madeBlocks`).  Callers receive the blocks of requests that succeed,
and nothing of those that fail.  In a successful request a key is installed behind
every chunk, so that block `b` is made `b / maxBlocks` installations after the
first one (`madeBlocks_read`) and no installation outlives the request that
handed out its blocks.  Hence what callers received under one installation is a
single chunk of a single request (`received_blocks_lie_in_one_chunk`).  A failed
request may leave an installation in place under which it made blocks, and the
next request goes on with it; but the blocks of the failed one were never seen.
-/

namespace Fortuna

/-! ## Blocks and their installations -/

/-- A block made for output. -/
structure MadeBlock where
  /-- The number of keys installed until then. -/
  installation : Nat
  /-- The key installed last. -/
  key : Bytes
  counter : Counter
  deriving DecidableEq

def MadeBlock.bytes (F : CipherFactory) (x : MadeBlock) : Bytes :=
  F.encryption x.key x.counter.bytes

namespace Action

/-- The blocks of output made in a transcript before which `installation` keys
were installed, `key` being the last of them. -/
def madeBlocks (installation : Nat) (key : Bytes) : List Action → List MadeBlock
  | [] => []
  | .installed key' :: actions => madeBlocks (installation + 1) key' actions
  | .encrypted .output counter :: actions =>
    ⟨installation, key, counter⟩ :: madeBlocks installation key actions
  | _ :: actions => madeBlocks installation key actions

theorem madeBlocks_append (installation : Nat) (key : Bytes) (as bs : List Action) :
    madeBlocks installation key (as ++ bs) =
      madeBlocks installation key as ++
        madeBlocks (installation + (installedKeys as).length)
          ((installedKeys as).getLast?.getD key) bs := by
  induction as generalizing installation key with
  | nil => rfl
  | cons a as ih =>
      cases a with
      | installed key' =>
          have hkeys : installedKeys (.installed key' :: as) = key' :: installedKeys as := rfl
          rw [List.cons_append, madeBlocks, madeBlocks, ih, hkeys, List.length_cons,
            List.getLast?_cons, Option.getD_some, Nat.add_right_comm, Nat.add_assoc]
      | encrypted purpose counter =>
          cases purpose with
          | output => exact congrArg (List.cons _) (ih installation key)
          | key => exact ih installation key
      | rewound => exact ih installation key
      | logged event => exact ih installation key

theorem madeBlocks_output (installation : Nat) (key : Bytes) (counters : List Counter) :
    madeBlocks installation key (counters.map (.encrypted .output)) =
      counters.map fun c => ⟨installation, key, c⟩ := by
  induction counters with
  | nil => rfl
  | cons c counters ih => exact congrArg (List.cons _) ih

theorem madeBlocks_key (installation : Nat) (key : Bytes) (counters : List Counter) :
    madeBlocks installation key (counters.map (.encrypted .key)) = [] := by
  induction counters with
  | nil => rfl
  | cons c counters ih => exact ih

/-- The key of a block is that of its installation. -/
theorem exists_of_mem_madeBlocks {installation : Nat} {key : Bytes} {actions : List Action}
    {x : MadeBlock} (hmem : x ∈ madeBlocks installation key actions) :
    ∃ d, x.installation = installation + d ∧ (key :: installedKeys actions)[d]? = some x.key := by
  induction actions generalizing installation key with
  | nil => cases hmem
  | cons a actions ih =>
      cases a with
      | installed key' =>
          obtain ⟨d, hinstallation, hkey⟩ := ih hmem
          exact ⟨d + 1, by rw [hinstallation]; omega, hkey⟩
      | encrypted purpose counter =>
          cases purpose with
          | output =>
              rcases List.mem_cons.mp hmem with rfl | hlater
              · exact ⟨0, rfl, rfl⟩
              · exact ih hlater
          | key => exact ih hmem
      | rewound => exact ih hmem
      | logged event => exact ih hmem

end Action

namespace Generator

variable {F : CipherFactory}

open Fortuna.Action (installedKeys installedKeys_append madeBlocks madeBlocks_append)

/-! ## The blocks of a successful request -/

theorem madeBlocks_chunkTrail (g : Generator F) (size installation : Nat) (key : Bytes) :
    madeBlocks installation key (g.chunkTrail size) =
      (g.counter.upcoming size).map fun c => ⟨installation, key, c⟩ := by
  rw [chunkTrail, madeBlocks_append, trail, Action.madeBlocks_output, trail,
    Action.madeBlocks_key, List.append_nil]

/-- Block `b` of a request for `blocks` blocks, begun under the given
installation. -/
def madeBlock (g : Generator F) (blocks installation b : Nat) : MadeBlock where
  installation := installation + b / maxBlocks
  key := g.epochKey blocks (b / maxBlocks)
  counter := .ofNat g.blockSize (g.counter.value + b + b / maxBlocks * g.keyBlocks)

/-- The blocks made in chunk `e` of a request. -/
theorem AfterChunks.madeBlocks_chunk {g h : Generator F} {blocks e size : Nat} {out : Bytes}
    (hafter : AfterChunks g blocks e h) (hlt : e * maxBlocks < blocks)
    (hchunk : min maxBlocks (blocks - e * maxBlocks) = size)
    (hout : (Generator.chunk size h).result = .ok out) (installation : Nat) :
    madeBlocks (installation + e) h.key (Generator.chunk size h).actions =
        (List.range size).map (fun i => g.madeBlock blocks installation (e * maxBlocks + i)) ∧
      (installedKeys (Generator.chunk size h).actions).length = 1 := by
  have hcounter := hafter.counter_drawn hlt 0
  have hlimit : size ≤ maxBlocks := hchunk ▸ Nat.min_le_left _ _
  rw [actions_chunk_of_ok hout]
  constructor
  · rw [madeBlocks_append, madeBlocks_chunkTrail]
    have hstart : h.counter =
        .ofNat g.blockSize (g.counter.value + e * maxBlocks + e * g.keyBlocks) := hcounter
    rw [hstart, Counter.upcoming_ofNat, List.map_map]
    refine (List.append_nil _).trans (List.map_congr_left fun i hi => ?_)
    have hindex := add_div_maxBlocks e (lt_of_lt_of_le (List.mem_range.mp hi) hlimit)
    rw [madeBlock, hindex, Function.comp_apply, hafter.key, MadeBlock.mk.injEq]
    refine ⟨rfl, rfl, ?_⟩
    congr 1
    omega
  · rw [installedKeys_append, installedKeys_chunkTrail]
    rfl

/-- The key after some chunks of a request is the last one that they install. -/
theorem getLast?_installedKeys_chunks_take (g : Generator F) (blocks e : Nat) :
    (installedKeys (chunks ((chunkSizes blocks).take e) g).actions).getLast?.getD g.key =
      (chunks ((chunkSizes blocks).take e) g).state.key := by
  have hruns : (chunks ((chunkSizes blocks).take e) : Step F GeneratorError Bytes).Runs Draw := by
    apply runs_chunks
    intro size hmem
    exact bounds_of_mem_chunkSizes (List.mem_of_mem_take hmem)
  have hlast := ((hruns g).mono .draw).getLast?_installedKeys
  rwa [List.getLast?_cons, Option.some.injEq] at hlast

/-- The blocks made in the chunks before chunk `e` of a request, if they succeed. -/
theorem madeBlocks_chunks_take {g : Generator F} (hg : g.Consistent) {blocks e : Nat}
    {out : Bytes} (he : e ≤ (chunkSizes blocks).length)
    (hout : (chunks ((chunkSizes blocks).take e) g).result = .ok out) (installation : Nat) :
    madeBlocks installation g.key (chunks ((chunkSizes blocks).take e) g).actions =
        (List.range (min (e * maxBlocks) blocks)).map (g.madeBlock blocks installation) ∧
      (installedKeys (chunks ((chunkSizes blocks).take e) g).actions).length = e := by
  induction e generalizing out with
  | zero =>
      rw [List.take_zero, Nat.zero_mul, Nat.zero_min]
      exact ⟨rfl, rfl⟩
  | succ e ih =>
      have hlt : e * maxBlocks < blocks := (lt_length_chunkSizes_iff blocks e).mp he
      obtain ⟨before, last, hbefore, hlast, heq, -⟩ := chunks_take_succ_of_ok hlt hout
      obtain ⟨hblocks, hcount⟩ := ih (Nat.le_of_succ_le he) hbefore
      obtain ⟨hafter, -⟩ := afterChunks_take hg (Nat.le_of_succ_le he) hbefore
      obtain ⟨hchunk, hone⟩ := hafter.madeBlocks_chunk hlt rfl hlast installation
      -- the chunk goes on under the key that those before it leave behind
      have hkey := getLast?_installedKeys_chunks_take g blocks e
      rw [heq]
      constructor
      · rw [madeBlocks_append, hcount, hkey, hblocks, hchunk, min_succ_mul_maxBlocks hlt,
          Nat.min_eq_left (Nat.le_of_lt hlt), List.range_add, List.map_append, List.map_map]
        rfl
      · rw [installedKeys_append, List.length_append, hcount, hone]

/-- In a successful request block `b` is made `b / maxBlocks` installations after
the one in force, and each chunk is followed by an installation; and the result is
what those blocks hold. -/
theorem madeBlocks_read {g : Generator F} (hg : g.Consistent) {n : Nat} {out : Bytes}
    (hout : (read n g).result = .ok out) (installation : Nat) :
    madeBlocks installation g.key (read n g).actions =
        (List.range (g.blocksFor n)).map (g.madeBlock (g.blocksFor n) installation) ∧
      (installedKeys (read n g).actions).length = (chunkSizes (g.blocksFor n)).length ∧
      out = ((List.range (g.blocksFor n)).flatMap (g.outputBlock (g.blocksFor n))).take n := by
  cases hseeded : g.isSeeded with
  | false =>
      rw [read_of_unseeded n hseeded] at hout
      cases hout
  | true =>
      rw [read_of_seeded n hseeded] at hout ⊢
      obtain ⟨whole, hwhole, htake⟩ := (Outcome.result_andThen_eq_ok_iff _ _ _).mp hout
      obtain rfl : whole.take n = out := Except.ok.inj htake
      rw [Outcome.andThen_of_ok hwhole, deliver_apply]
      obtain ⟨-, hbytes⟩ := chunks_chunkSizes hg hwhole
      generalize g.blocksFor n = blocks at hwhole hbytes ⊢
      rw [← List.take_length (l := chunkSizes blocks)] at hwhole
      obtain ⟨hmade, hcount⟩ := madeBlocks_chunks_take hg le_rfl hwhole installation
      rw [Nat.min_eq_right (le_length_chunkSizes_mul blocks), List.take_length] at hmade
      rw [List.take_length] at hcount
      refine ⟨?_, ?_, by rw [hbytes]⟩
      · rw [madeBlocks_append, hmade]
        exact List.append_nil _
      · rw [installedKeys_append, List.length_append, hcount]
        rfl

/-- Seeds make no output. -/
theorem madeBlocks_seed {op : Operation} (hop : op.requested = none) (g : Generator F)
    (installation : Nat) (key : Bytes) :
    madeBlocks installation key (op.perform g).actions = [] := by
  cases op with
  | reseed seed =>
      rw [(perform_reseed seed g).2.1]
      cases hcipher : F.cipherFor g.blockSize (mixedKey g.key seed) with
      | error e => rw [reseed_of_refused hcipher]; rfl
      | ok cipher => rw [reseed_of_cipher hcipher]; rfl
  | restart seed =>
      rw [(perform_restart seed g).2.1, restart_eq, Step.bind_apply]
      cases hzero : F.cipherFor g.blockSize zeroKey with
      | error e => rw [wipe_of_refused hzero]; rfl
      | ok zero =>
          rw [wipe_of_cipher hzero, Outcome.andThen_ok, Step.bind_apply]
          cases hcipher : F.cipherFor (g.wiped zero).blockSize
              (mixedKey (g.wiped zero).key (seedBytes seed)) with
          | error e => rw [reseed_of_refused hcipher]; rfl
          | ok cipher => rw [reseed_of_cipher hcipher]; rfl
  | read | fill | int63 | fillOrAbort | nextUInt32 | nextUInt64 => cases hop

end Generator

/-! ## Receipts -/

/-- A block of output that a caller received, in whole or in part. -/
structure Receipt extends MadeBlock where
  /-- The request with which it came, counted from zero. -/
  request : Nat
  /-- Its place among the blocks of that request. -/
  index : Nat
  deriving DecidableEq

namespace Generator.Created

variable {F : CipherFactory}

open Fortuna.Action (installedKeys installedKeys_append madeBlocks)

/-- The number of keys installed from the creation of a generator on. -/
def installations (c : Created F) (ops : List Operation) : Nat :=
  (installedKeys (c.history ops)).length

/-- What the caller of request `i` receives: every block made for it if it
succeeds, and nothing if it fails. -/
def receiptsOf (c : Created F) (ops : List Operation) (i : Nat) : List Receipt :=
  match ops[i]? with
  | none => []
  | some op =>
    let g := c.generator.after (ops.take i)
    match (op.perform g).result with
    | .error _ => []
    | .ok _ =>
      (madeBlocks (c.installations (ops.take i)) g.key (op.perform g).actions).mapIdx
        fun index block => { block with request := i, index }

/-- All blocks of output that callers ever receive. -/
def receipts (c : Created F) (ops : List Operation) : List Receipt :=
  (List.range ops.length).flatMap (c.receiptsOf ops)

theorem installations_take_le (c : Created F) (ops : List Operation) {i j : Nat} (hij : i ≤ j) :
    c.installations (ops.take i) ≤ c.installations (ops.take j) :=
  ((c.history_take_prefix ops hij).filterMap _).length_le

theorem installations_take_succ (c : Created F) {ops : List Operation} {i : Nat} {op : Operation}
    (hop : ops[i]? = some op) :
    c.installations (ops.take (i + 1)) =
      c.installations (ops.take i) +
        (installedKeys (op.perform (c.generator.after (ops.take i))).actions).length := by
  rw [installations, history_take_succ c hop, installedKeys_append, List.length_append,
    installations]

theorem receiptsOf_of_error (c : Created F) {ops : List Operation} {i : Nat} {op : Operation}
    (hop : ops[i]? = some op) {failure : Failure}
    (herror : (op.perform (c.generator.after (ops.take i))).result = .error failure) :
    c.receiptsOf ops i = [] := by
  simp only [receiptsOf, hop, herror]

theorem receiptsOf_seed (c : Created F) {ops : List Operation} {i : Nat} {op : Operation}
    (hop : ops[i]? = some op) (hseed : op.requested = none) :
    c.receiptsOf ops i = [] := by
  simp only [receiptsOf, hop, madeBlocks_seed hseed, List.mapIdx_nil]
  split <;> rfl

theorem madeBlock_mem_of_mem_receiptsOf {c : Created F} {ops : List Operation} {i : Nat}
    {op : Operation} (hop : ops[i]? = some op) {x : Receipt} (hmem : x ∈ c.receiptsOf ops i) :
    x.toMadeBlock ∈ madeBlocks (c.installations (ops.take i))
      (c.generator.after (ops.take i)).key
      (op.perform (c.generator.after (ops.take i))).actions := by
  simp only [receiptsOf, hop] at hmem
  split at hmem
  · cases hmem
  · obtain ⟨b, hb, rfl⟩ := List.mem_mapIdx.mp hmem
    exact List.getElem_mem hb

/-- Block `b` as the caller of request `i` receives it, who asked for `n` bytes. -/
def receipt (c : Created F) (ops : List Operation) (i n b : Nat) : Receipt :=
  let g := c.generator.after (ops.take i)
  { g.madeBlock (g.blocksFor n) (c.installations (ops.take i)) b with request := i, index := b }

/-- A successful request hands out all of its blocks, and no others. -/
theorem receiptsOf_of_ok {c : Created F} (hcreate : create F = .ok c) {ops : List Operation}
    {i n : Nat} {op : Operation} {out : Bytes} (hop : ops[i]? = some op)
    (hrequested : op.requested = some n)
    (hout : (read n (c.generator.after (ops.take i))).result = .ok out) :
    c.receiptsOf ops i =
      (List.range ((c.generator.after (ops.take i)).blocksFor n)).map (c.receipt ops i n) := by
  have hg := (run_after c.generator (ops.take i)).consistent (consistent_of_create hcreate)
  have hanswer : (op.perform (c.generator.after (ops.take i))).result = .ok (op.answer out) := by
    rw [Operation.result_perform hrequested, hout]
    rfl
  obtain ⟨-, hactions, -⟩ := perform_of_requested hrequested (c.generator.after (ops.take i))
  obtain ⟨hmade, -, -⟩ := madeBlocks_read hg hout (c.installations (ops.take i))
  simp only [receiptsOf, hop, hanswer, hactions, hmade]
  apply List.ext_getElem
  · simp only [List.length_mapIdx, List.length_map]
  · intro b _ _
    simp only [List.getElem_mapIdx, List.getElem_map, List.getElem_range, receipt]

/-- Nothing comes with a request unless it is a successful one for output. -/
theorem receiptsOf_eq_nil_or {c : Created F} (hcreate : create F = .ok c) (ops : List Operation)
    (i : Nat) :
    c.receiptsOf ops i = [] ∨
      ∃ op n out, ops[i]? = some op ∧ op.requested = some n ∧
        (read n (c.generator.after (ops.take i))).result = .ok out ∧
        c.receiptsOf ops i =
          (List.range ((c.generator.after (ops.take i)).blocksFor n)).map (c.receipt ops i n) := by
  cases hop : ops[i]? with
  | none => exact .inl (by simp only [receiptsOf, hop])
  | some op =>
      cases hrequested : op.requested with
      | none => exact .inl (receiptsOf_seed c hop hrequested)
      | some n =>
          have hresult := Operation.result_perform hrequested (c.generator.after (ops.take i))
          cases hout : (read n (c.generator.after (ops.take i))).result with
          | error e =>
              rw [hout] at hresult
              exact .inl (receiptsOf_of_error c hop hresult)
          | ok out =>
              exact .inr ⟨op, n, out, rfl, hrequested, hout,
                receiptsOf_of_ok hcreate hop hrequested hout⟩

theorem exists_of_mem_receiptsOf {c : Created F} (hcreate : create F = .ok c)
    {ops : List Operation} {i : Nat} {x : Receipt} (hmem : x ∈ c.receiptsOf ops i) :
    ∃ op n out, ops[i]? = some op ∧ op.requested = some n ∧
      (read n (c.generator.after (ops.take i))).result = .ok out ∧
      ∃ b < (c.generator.after (ops.take i)).blocksFor n, c.receipt ops i n b = x := by
  rcases receiptsOf_eq_nil_or hcreate ops i with
    hnone | ⟨op, n, out, hop, hrequested, hout, hreceipts⟩
  · rw [hnone] at hmem
    cases hmem
  · rw [hreceipts, List.mem_map] at hmem
    obtain ⟨b, hb, hx⟩ := hmem
    exact ⟨op, n, out, hop, hrequested, hout, b, List.mem_range.mp hb, hx⟩

theorem request_of_mem_receiptsOf {c : Created F} (hcreate : create F = .ok c)
    {ops : List Operation} {i : Nat} {x : Receipt} (hmem : x ∈ c.receiptsOf ops i) :
    x.request = i := by
  obtain ⟨op, n, out, -, -, -, b, -, rfl⟩ := exists_of_mem_receiptsOf hcreate hmem
  rfl

/-- The installation of a received block: that of its chunk. -/
theorem installation_of_mem_receiptsOf {c : Created F} (hcreate : create F = .ok c)
    {ops : List Operation} {i : Nat} {x : Receipt} (hmem : x ∈ c.receiptsOf ops i) :
    x.installation = c.installations (ops.take i) + x.index / maxBlocks := by
  obtain ⟨op, n, out, -, -, -, b, -, rfl⟩ := exists_of_mem_receiptsOf hcreate hmem
  rfl

/-- Once a request has returned, a later key is installed than those of the blocks
that it handed out. -/
theorem installation_lt_of_mem_receiptsOf {c : Created F} (hcreate : create F = .ok c)
    {ops : List Operation} {i : Nat} {x : Receipt} (hmem : x ∈ c.receiptsOf ops i) :
    x.installation < c.installations (ops.take (i + 1)) := by
  obtain ⟨op, n, out, hop, hrequested, hout, b, hb, rfl⟩ := exists_of_mem_receiptsOf hcreate hmem
  have hg := (run_after c.generator (ops.take i)).consistent (consistent_of_create hcreate)
  obtain ⟨-, hactions, -⟩ := perform_of_requested hrequested (c.generator.after (ops.take i))
  obtain ⟨-, hcount, -⟩ := madeBlocks_read hg hout (c.installations (ops.take i))
  have hchunk : b / maxBlocks <
      (chunkSizes ((c.generator.after (ops.take i)).blocksFor n)).length :=
    (lt_length_chunkSizes_iff _ _).mpr (lt_of_le_of_lt (Nat.div_mul_le_self b maxBlocks) hb)
  rw [installations_take_succ c hop, hactions, hcount]
  exact Nat.add_lt_add_left hchunk _

/-- The key of a received block is that of its installation. -/
theorem key_of_mem_receiptsOf {c : Created F} (hcreate : create F = .ok c)
    {ops : List Operation} {i : Nat} {x : Receipt} (hmem : x ∈ c.receiptsOf ops i) :
    ∃ d, x.installation = d + 1 ∧ (installedKeys (c.history ops))[d]? = some x.key := by
  obtain ⟨op, n, out, hop, -, -, -⟩ := exists_of_mem_receiptsOf hcreate hmem
  obtain ⟨d, hinstallation, hkey⟩ :=
    Action.exists_of_mem_madeBlocks (madeBlock_mem_of_mem_receiptsOf hop hmem)
  -- the key in force when the request begins is the last one installed before
  obtain ⟨before, hbefore⟩ : ∃ before, installedKeys (c.history (ops.take i)) =
      before ++ [(c.generator.after (ops.take i)).key] := by
    rw [← List.getLast?_eq_some_iff, installedKeys_history hcreate]
    exact (run_after c.generator (ops.take i)).getLast?_installedKeys
  have hprefix : c.history (ops.take (i + 1)) <+: c.history ops := by
    have hlt : i < ops.length := (List.getElem?_eq_some_iff.mp hop).1
    have hwhole := c.history_take_prefix ops (Nat.succ_le_of_lt hlt)
    rwa [List.take_length] at hwhole
  obtain ⟨later, hlater⟩ := hprefix
  refine ⟨before.length + d, ?_, ?_⟩
  · rw [hinstallation, installations, hbefore, List.length_append, List.length_singleton]
    omega
  · rw [← hlater, history_take_succ c hop, installedKeys_append, installedKeys_append, hbefore,
      List.append_assoc, List.append_assoc, List.getElem?_append_right (Nat.le_add_right _ _),
      Nat.add_sub_cancel_left, List.singleton_append, ← List.cons_append,
      List.getElem?_append_left, hkey]
    exact (List.getElem?_eq_some_iff.mp hkey).1

/-! ## What callers hold -/

theorem mem_receipts_iff {c : Created F} (hcreate : create F = .ok c) {ops : List Operation}
    {x : Receipt} :
    x ∈ c.receipts ops ↔ x ∈ c.receiptsOf ops x.request := by
  rw [receipts, List.mem_flatMap]
  constructor
  · rintro ⟨i, -, hmem⟩
    rwa [request_of_mem_receiptsOf hcreate hmem]
  · intro hmem
    obtain ⟨op, -, -, hop, -⟩ := exists_of_mem_receiptsOf hcreate hmem
    obtain ⟨hlt, -⟩ := List.getElem?_eq_some_iff.mp hop
    exact ⟨x.request, List.mem_range.mpr hlt, hmem⟩

theorem filter_receiptsOf {c : Created F} (hcreate : create F = .ok c) (ops : List Operation)
    (i k : Nat) :
    (c.receiptsOf ops k).filter (·.request = i) = if k = i then c.receiptsOf ops i else [] := by
  by_cases hsame : k = i
  · rw [if_pos hsame, hsame, List.filter_eq_self]
    intro x hx
    exact decide_eq_true (request_of_mem_receiptsOf hcreate hx)
  · rw [if_neg hsame, List.filter_eq_nil_iff]
    intro x hx
    rw [request_of_mem_receiptsOf hcreate hx, decide_eq_true_eq]
    exact hsame

/-- The receipts with one request number are those of that request. -/
theorem filter_receipts {c : Created F} (hcreate : create F = .ok c) {ops : List Operation}
    {i : Nat} (hi : i < ops.length) :
    (c.receipts ops).filter (·.request = i) = c.receiptsOf ops i := by
  -- over the requests before `n`, so that the induction can pass `i`
  have hupto (n : Nat) : ((List.range n).flatMap (c.receiptsOf ops)).filter (·.request = i) =
      if i < n then c.receiptsOf ops i else [] := by
    induction n with
    | zero => rfl
    | succ n ih =>
        rw [List.range_succ, List.flatMap_append, List.flatMap_singleton, List.filter_append, ih,
          filter_receiptsOf hcreate]
        rcases lt_trichotomy i n with hlt | rfl | hgt
        · rw [if_pos hlt, if_neg hlt.ne', if_pos (Nat.lt_succ_of_lt hlt), List.append_nil]
        · rw [if_neg (Nat.lt_irrefl _), if_pos rfl, if_pos (Nat.lt_succ_self _), List.nil_append]
        · rw [if_neg hgt.not_gt, if_neg hgt.ne, if_neg (Nat.not_lt_of_le hgt), List.append_nil]
  rw [receipts, hupto, if_pos hi]

/-- No block is received twice. -/
theorem pairwise_receipts {c : Created F} (hcreate : create F = .ok c) (ops : List Operation) :
    (c.receipts ops).Pairwise fun x y => x.request = y.request → x.index ≠ y.index := by
  rw [receipts, List.pairwise_flatMap]
  constructor
  · intro i _
    rcases receiptsOf_eq_nil_or hcreate ops i with hnone | ⟨op, n, out, -, -, -, hreceipts⟩
    · rw [hnone]
      exact .nil
    · rw [hreceipts, List.pairwise_map]
      apply List.nodup_range.imp
      intro a b hne _
      exact hne
  · apply List.nodup_range.imp
    intro i j hne x hx y hy hsame
    rw [request_of_mem_receiptsOf hcreate hx, request_of_mem_receiptsOf hcreate hy] at hsame
    exact absurd hsame hne

/-- Later requests hand out blocks of later installations. -/
theorem installation_lt_of_request_lt {c : Created F} (hcreate : create F = .ok c)
    {ops : List Operation} {x y : Receipt} (hx : x ∈ c.receipts ops) (hy : y ∈ c.receipts ops)
    (hlt : x.request < y.request) :
    x.installation < y.installation := by
  rw [mem_receipts_iff hcreate] at hx hy
  calc x.installation
      < c.installations (ops.take (x.request + 1)) := installation_lt_of_mem_receiptsOf hcreate hx
    _ ≤ c.installations (ops.take y.request) := c.installations_take_le ops hlt
    _ ≤ c.installations (ops.take y.request) + y.index / maxBlocks := Nat.le_add_right _ _
    _ = y.installation := (installation_of_mem_receiptsOf hcreate hy).symm

/-- Installations tell requests and their chunks apart. -/
theorem chunk_eq_of_installation_eq {c : Created F} (hcreate : create F = .ok c)
    {ops : List Operation} {x y : Receipt} (hx : x ∈ c.receipts ops) (hy : y ∈ c.receipts ops)
    (hsame : x.installation = y.installation) :
    x.request = y.request ∧ x.index / maxBlocks = y.index / maxBlocks := by
  rcases lt_trichotomy x.request y.request with hlt | heq | hgt
  · exact absurd hsame (installation_lt_of_request_lt hcreate hx hy hlt).ne
  · rw [mem_receipts_iff hcreate] at hx hy
    have hchunks := (installation_of_mem_receiptsOf hcreate hx).symm.trans
      (hsame.trans (installation_of_mem_receiptsOf hcreate hy))
    rw [heq] at hchunks
    exact ⟨heq, Nat.add_left_cancel hchunks⟩
  · exact absurd hsame (installation_lt_of_request_lt hcreate hy hx hgt).ne'

/-- What callers hold under one installation is at most one chunk. -/
theorem length_filter_receipts_le {c : Created F} (hcreate : create F = .ok c)
    (ops : List Operation) (j : Nat) :
    ((c.receipts ops).filter (·.installation = j)).length ≤ maxBlocks := by
  generalize hheld : (c.receipts ops).filter (·.installation = j) = held
  have hmem : ∀ x ∈ held, x ∈ c.receipts ops ∧ x.installation = j := by
    intro x hx
    rw [← hheld, List.mem_filter, decide_eq_true_eq] at hx
    exact hx
  have hsame : ∀ x ∈ held, ∀ y ∈ held,
      x.request = y.request ∧ x.index / maxBlocks = y.index / maxBlocks := by
    intro x hx y hy
    obtain ⟨hxmem, hxj⟩ := hmem x hx
    obtain ⟨hymem, hyj⟩ := hmem y hy
    exact chunk_eq_of_installation_eq hcreate hxmem hymem (hxj.trans hyj.symm)
  -- all are of one request, so their places in it tell them apart
  have hdistinct : (held.map (·.index)).Nodup := by
    rw [List.Nodup, List.pairwise_map, ← hheld]
    apply ((pairwise_receipts hcreate ops).filter _).imp_of_mem
    rw [hheld]
    intro x y hx hy hindex
    exact hindex (hsame x hx y hy).1
  cases held with
  | nil => exact Nat.zero_le _
  | cons x rest =>
      -- and all are of the chunk of the first, which has `maxBlocks` places
      have hchunk : (x :: rest).map (·.index) ⊆
          List.range' (x.index / maxBlocks * maxBlocks) maxBlocks := by
        intro index hindex
        obtain ⟨y, hy, rfl⟩ := List.mem_map.mp hindex
        have hdiv := (hsame x List.mem_cons_self y hy).2
        have hmod := Nat.div_add_mod y.index maxBlocks
        have hlt := Nat.mod_lt y.index (show 0 < maxBlocks by decide)
        rw [List.mem_range'_1, hdiv, Nat.mul_comm]
        omega
      have hlength := (List.subperm_of_subset hdistinct hchunk).length_le
      rwa [List.length_map, List.length_range'] at hlength

/-- A failed request hands out nothing, and a successful one hands out its blocks. -/
theorem result_perform_receipts {c : Created F} (hcreate : create F = .ok c)
    {ops : List Operation} {i n : Nat} {op : Operation} (hop : ops[i]? = some op)
    (hrequested : op.requested = some n) :
    let g := c.generator.after (ops.take i)
    let received := (c.receipts ops).filter (·.request = i)
    (∃ out, (op.perform g).result = .ok (op.answer out) ∧
        out = (received.flatMap fun x => x.bytes F).take n) ∨
      ∃ e, (op.perform g).result = .error (op.failure e) ∧ received = [] ∧
        ∀ before, (read n g).buffer before = before := by
  intro g received
  have hg : g.Consistent := (run_after c.generator _).consistent (consistent_of_create hcreate)
  have hreceived : received = c.receiptsOf ops i :=
    filter_receipts hcreate (List.getElem?_eq_some_iff.mp hop).1
  have hresult := Operation.result_perform hrequested g
  cases hout : (read n g).result with
  | ok out =>
      rw [hout] at hresult
      obtain ⟨-, -, hbytes⟩ := madeBlocks_read hg hout (c.installations (ops.take i))
      refine .inl ⟨out, hresult, ?_⟩
      rw [hreceived, receiptsOf_of_ok hcreate hop hrequested hout, List.flatMap_map, hbytes]
      rfl
  | error e =>
      rw [hout] at hresult
      refine .inr ⟨e, hresult, hreceived.trans (receiptsOf_of_error c hop hresult), ?_⟩
      intro before
      rw [Outcome.buffer, hout]

/-- Whatever is asked for and fails, the blocks that callers ever receive from one
installation of a key belong to one chunk of one successful request, and are
`maxBlocks` at most; before that request returns, another key is installed.  What
a successful request answers is made of the blocks received with it, and nothing
is received with a failed one, whatever was encrypted for it. -/
theorem received_blocks_lie_in_one_chunk {c : Created F} (hcreate : create F = .ok c)
    (ops : List Operation) :
    let receipts := c.receipts ops
    (∀ x ∈ receipts, ∀ y ∈ receipts, x.installation = y.installation →
        x.request = y.request ∧ x.index / maxBlocks = y.index / maxBlocks) ∧
      (∀ j, (receipts.filter (·.installation = j)).length ≤ maxBlocks) ∧
      (∀ x ∈ receipts,
        (∃ d, x.installation = d + 1 ∧ (installedKeys (c.history ops))[d]? = some x.key) ∧
          x.installation < c.installations (ops.take (x.request + 1)) ∧
          ∃ op n, ops[x.request]? = some op ∧ op.requested = some n ∧
            ∃ out, (op.perform (c.generator.after (ops.take x.request))).result =
              .ok (op.answer out)) ∧
      ∀ i op n, ops[i]? = some op → op.requested = some n →
        let g := c.generator.after (ops.take i)
        let received := receipts.filter (·.request = i)
        (∃ out, (op.perform g).result = .ok (op.answer out) ∧
            out = (received.flatMap fun x => x.bytes F).take n) ∨
          ∃ e, (op.perform g).result = .error (op.failure e) ∧ received = [] ∧
            ∀ before, (read n g).buffer before = before := by
  refine ⟨?_, length_filter_receipts_le hcreate ops, ?_, ?_⟩
  · intro x hx y hy
    exact chunk_eq_of_installation_eq hcreate hx hy
  · intro x hx
    rw [mem_receipts_iff hcreate] at hx
    refine ⟨key_of_mem_receiptsOf hcreate hx, installation_lt_of_mem_receiptsOf hcreate hx, ?_⟩
    obtain ⟨op, n, out, hop, hrequested, hout, -⟩ := exists_of_mem_receiptsOf hcreate hx
    have hresult := Operation.result_perform hrequested (c.generator.after (ops.take x.request))
    rw [hout] at hresult
    exact ⟨op, n, hop, hrequested, out, hresult⟩
  · intro i op n hop hrequested
    exact result_perform_receipts hcreate hop hrequested

/-- A generator with transparent blocks of sixteen bytes, whose factory refuses
the keys that begin with the byte 3. -/
def pickyGenerator :
    Generator (Transparent.factory ⟨.identity, 16, some (.byte 0 255 3, .reject "weak")⟩) where
  key := zeroKey
  cipher := Transparent.cipher .identity 16 zeroKey
  counter := .zero 16

/-- The first request for output fails when its two blocks are made; the second
goes on under the same installation, and only its blocks are received. -/
theorem received_blocks_after_refused_key :
    let c : Created _ := ⟨pickyGenerator, [.installed zeroKey, .logged (.created 16)]⟩
    let ops := [.reseed [], .read 20, .read 20, .int63]
    let receipts := c.receipts ops
    receipts.map (fun x => (x.request, x.index, x.installation, x.counter.value)) =
        [(2, 0, 2, 5), (2, 1, 2, 6), (3, 0, 3, 9)] ∧
      madeBlocks 1 zeroKey (c.generator.transcript (ops.take 2)) ≠ [] ∧
      receipts.filter (·.request = 1) = [] ∧
      (receipts.filter (·.installation = 2)).length ≤ maxBlocks ∧
      ∀ x ∈ receipts, x.installation < c.installations (ops.take (x.request + 1)) := by
  intro c ops receipts
  have hcreate :
      create (Transparent.factory ⟨.identity, 16, some (.byte 0 255 3, .reject "weak")⟩) = .ok c :=
    rfl
  have hrun : receipts.map (fun x => (x.request, x.index, x.installation, x.counter.value)) =
        [(2, 0, 2, 5), (2, 1, 2, 6), (3, 0, 3, 9)] ∧
      madeBlocks 1 zeroKey (c.generator.transcript (ops.take 2)) ≠ [] ∧
      ((Operation.read 20).perform (c.generator.after (ops.take 1))).result =
        .error (.refused (.cipherInitFailed (.rejected "weak"))) := by
    decide +kernel
  obtain ⟨hreceived, hmade, hfailed⟩ := hrun
  obtain ⟨-, hbound, hreceipts, hanswers⟩ := received_blocks_lie_in_one_chunk hcreate ops
  refine ⟨hreceived, hmade, ?_, hbound 2, ?_⟩
  · rcases hanswers 1 (.read 20) 20 rfl rfl with ⟨out, hout, -⟩ | ⟨e, -, hnone, -⟩
    · cases hout.symm.trans hfailed
    · exact hnone
  · intro x hx
    exact (hreceipts x hx).2.1

end Generator.Created

end Fortuna

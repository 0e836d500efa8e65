import Fortuna.Proofs.Generator.Failure
import Fortuna.Proofs.Generator.Series

/-!
# Requests of different lengths

A request is cut into full chunks from its start on, and what remains is its last
chunk.  So of two requests from one state the shorter one stops on the way of the longer
one, behind one of its chunks or within one (`cutShort_chunkSizes`), and until then both
make the same blocks under the same keys.  The key that the shorter one makes where it
stops is another one, but no output follows it: the shorter output is the beginning of
the longer one (`output_eq_take_of_le`).

A request of full chunks stops where a longer one makes a key as well.  A second request
from there finds the state in which the longer one goes on, apart from the bytes that
have been counted, on which nothing depends.  So the two requests in a row and the long
one succeed together, with the same output and in the same state, and fail together
(`read_splits_behind_full_chunks`).
-/

namespace Fortuna

/-! ## Sizes cut short -/

/-- Chunks of the first sizes are chunks of the second sizes that stop early. -/
inductive CutShort : List Nat → List Nat → Prop
  | before (ys : List Nat) : CutShort [] ys
  | within {x y : Nat} (hle : x ≤ y) (ys : List Nat) : CutShort [x] (y :: ys)
  | behind (x : Nat) {xs ys : List Nat} (hcut : CutShort xs ys) : CutShort (x :: xs) (x :: ys)

theorem chunkSizes_maxBlocks_add (blocks : Nat) :
    chunkSizes (maxBlocks + blocks) = maxBlocks :: chunkSizes blocks := by
  have hadd := chunkSizes_mul_add 1 blocks
  rwa [Nat.one_mul] at hadd

theorem chunkSizes_eq_cons {blocks : Nat} (hpos : 0 < blocks) :
    ∃ rest, chunkSizes blocks = min maxBlocks blocks :: rest := by
  have hfirst : 0 * maxBlocks < blocks := by rwa [Nat.zero_mul]
  have hcut := chunkSizes_eq_take_append hfirst
  rw [List.take_zero, List.nil_append, Nat.zero_mul, Nat.sub_zero] at hcut
  exact ⟨_, hcut⟩

theorem chunkSizes_of_le {blocks : Nat} (hpos : 0 < blocks) (hle : blocks ≤ maxBlocks) :
    chunkSizes blocks = [blocks] := by
  obtain ⟨rest, hcut⟩ := chunkSizes_eq_cons hpos
  have hsum := sum_chunkSizes blocks
  rw [hcut, Nat.min_eq_right hle] at hsum ⊢
  -- what is left over has no blocks, and no chunk is empty
  cases rest with
  | nil => rfl
  | cons size rest =>
      have hmem : size ∈ chunkSizes blocks := by simp [hcut]
      have hsize := (bounds_of_mem_chunkSizes hmem).1
      rw [List.sum_cons, List.sum_cons] at hsum
      omega

/-- A request for fewer blocks is one for more blocks that stops early. -/
theorem cutShort_chunkSizes {few many : Nat} (hle : few ≤ many) :
    CutShort (chunkSizes few) (chunkSizes many) := by
  induction few using Nat.strong_induction_on generalizing many with
  | h few ih =>
      have hlimit : 0 < maxBlocks := by decide
      rcases Nat.eq_zero_or_pos few with rfl | hpos
      · exact .before _
      · by_cases hlast : few ≤ maxBlocks
        · obtain ⟨rest, hmany⟩ := chunkSizes_eq_cons (hpos.trans_le hle)
          rw [chunkSizes_of_le hpos hlast, hmany]
          exact .within (Nat.le_min.mpr ⟨hlast, hle⟩) rest
        · obtain ⟨few', rfl⟩ := Nat.exists_eq_add_of_le (Nat.le_of_not_le hlast)
          obtain ⟨many', rfl⟩ := Nat.exists_eq_add_of_le ((Nat.le_add_right _ few').trans hle)
          rw [chunkSizes_maxBlocks_add, chunkSizes_maxBlocks_add]
          exact .behind _ (ih few' (by omega) (Nat.le_of_add_le_add_left hle))

namespace Generator

variable {F : CipherFactory}

/-! ## Shorter and longer outputs -/

theorem blocks_prefix_of_le (g : Generator F) {j k : Nat} (hjk : j ≤ k) :
    g.blocks j <+: g.blocks k := by
  obtain ⟨rest, rfl⟩ := Nat.exists_eq_add_of_le hjk
  rw [blocks, blocks, Counter.upcoming_add, List.flatMap_append]
  exact List.prefix_append _ _

/-- Chunks that are made begin with the blocks of the first. -/
theorem chunks_cons_of_ok {size : Nat} {sizes : List Nat} {g : Generator F} {out : Bytes}
    (hout : (chunks (size :: sizes) g).result = .ok out) :
    ∃ rest, (chunks sizes (chunk size g).state).result = .ok rest ∧
      g.blocks size ++ rest = out := by
  rw [chunks_cons, Step.bind_apply, Outcome.result_andThen_eq_ok_iff] at hout
  obtain ⟨first, hfirst, hout⟩ := hout
  rw [Step.bind_apply, Outcome.result_andThen_eq_ok_iff] at hout
  obtain ⟨rest, hrest, hjoin⟩ := hout
  obtain ⟨-, -, rfl, -⟩ := chunk_of_ok hfirst
  exact ⟨rest, hrest, Except.ok.inj hjoin⟩

/-- Chunks that stop early put out the beginning of what they would have put out. -/
theorem prefix_of_cutShort {xs ys : List Nat} (hcut : CutShort xs ys) {g : Generator F}
    {short long : Bytes} (hshort : (chunks xs g).result = .ok short)
    (hlong : (chunks ys g).result = .ok long) :
    short <+: long := by
  induction hcut generalizing g short long with
  | before ys =>
      obtain rfl : [] = short := Except.ok.inj hshort
      exact List.nil_prefix
  | within hle ys =>
      obtain ⟨rest, hrest, rfl⟩ := chunks_cons_of_ok hshort
      obtain ⟨rest', -, rfl⟩ := chunks_cons_of_ok hlong
      obtain rfl : [] = rest := Except.ok.inj hrest
      rw [List.append_nil]
      exact (g.blocks_prefix_of_le hle).trans (List.prefix_append _ _)
  | behind x hcut ih =>
      obtain ⟨rest, hrest, rfl⟩ := chunks_cons_of_ok hshort
      obtain ⟨rest', hrest', rfl⟩ := chunks_cons_of_ok hlong
      exact (List.prefix_append_right_inj _).mpr (ih hrest hrest')

theorem blocksFor_mono (g : Generator F) {n m : Nat} (hnm : n ≤ m) :
    g.blocksFor n ≤ g.blocksFor m := by
  rw [blocksFor, blocksFor]
  exact Nat.div_le_div_right (by omega)

theorem take_read_of_le {n m : Nat} (hnm : n ≤ m) {g : Generator F} {short long : Bytes}
    (hshort : (read n g).result = .ok short) (hlong : (read m g).result = .ok long) :
    long.take n = short := by
  obtain ⟨hseeded, whole, hwhole, rfl, -⟩ := read_of_result_ok hshort
  obtain ⟨-, whole', hwhole', rfl, -⟩ := read_of_result_ok hlong
  have hlength : n ≤ whole.length :=
    le_length_of_chunks_ok (blockSize_pos_of_isSeeded hseeded) hwhole
  have hcut := cutShort_chunkSizes (g.blocksFor_mono hnm)
  obtain ⟨rest, rfl⟩ := prefix_of_cutShort hcut hwhole hwhole'
  rw [List.take_take, Nat.min_eq_left hnm, List.take_append_of_le_length hlength]

/-- From one state, a request that is served returns the first bytes of what any longer
one returns that is served, wherever the two end within their chunks and blocks. -/
theorem output_eq_take_of_le {n m : Nat} (hnm : n ≤ m) {g : Generator F} {short long : Bytes}
    (hshort : (read n g).result = .ok short) (hlong : (read m g).result = .ok long) :
    short.length = n ∧ long.length = m ∧ short = long.take n :=
  ⟨length_of_result_ok hshort, length_of_result_ok hlong,
    (take_read_of_le hnm hshort hlong).symm⟩

/-- A generator with transparent blocks of sixteen bytes, after one seed. -/
def seededGenerator : Generator (Transparent.factory ⟨.identity, 16, none⟩) where
  key := zeroKey
  cipher := Transparent.cipher .identity 16 zeroKey
  counter := .ofNat 16 1
  totals := { reseeds := 1 }

theorem ready_seededGenerator : seededGenerator.Ready 16 :=
  ⟨rfl, ⟨1, 0, rfl, rfl, rfl⟩, by decide⟩

/-- Of two requests that end within a block, the shorter one ends in the second chunk of
sixteen-byte blocks and the longer one in the third. -/
theorem output_eq_take_of_two_chunks :
    ∃ short long, (read 1048580 seededGenerator).result = .ok short ∧
      (read 2097160 seededGenerator).result = .ok long ∧ short = long.take 1048580 := by
  have hsteady : (Transparent.factory ⟨.identity, 16, none⟩).Steady 16 :=
    Transparent.steady .identity (by decide)
  have hready := ready_seededGenerator
  obtain ⟨short, hshort, -⟩ := hsteady.read_of_ready hready (n := 1048580) (by decide)
  obtain ⟨long, hlong, -⟩ := hsteady.read_of_ready hready (n := 2097160) (by decide)
  exact ⟨short, long, hshort, hlong, (output_eq_take_of_le (by decide) hshort hlong).2.2⟩

/-! ## A request in two parts -/

/-- A request that fails, by its chunks. -/
theorem read_of_result_error {n : Nat} {g : Generator F} (hseeded : g.isSeeded = true)
    {e : GeneratorError} (herror : (read n g).result = .error e) :
    (chunks (chunkSizes (g.blocksFor n)) g).result = .error e ∧
      (read n g).state = (chunks (chunkSizes (g.blocksFor n)) g).state := by
  rw [read_of_seeded n hseeded] at herror ⊢
  cases hchunks : (chunks (chunkSizes (g.blocksFor n)) g).result with
  | ok whole =>
      rw [Outcome.andThen_of_ok hchunks] at herror
      cases herror
  | error e' =>
      rw [Outcome.andThen_of_error hchunks] at herror ⊢
      exact ⟨herror, rfl⟩

/-- A request that asks for anything fails without a seed as its first chunk does. -/
theorem read_of_pos {g : Generator F} (hpos : 0 < g.blockSize) {n : Nat} (hn : 0 < n) :
    read n g = (chunks (chunkSizes (g.blocksFor n)) g).andThen (deliver n) := by
  cases hseeded : g.isSeeded with
  | true => exact read_of_seeded n hseeded
  | false =>
      have hblocks : 0 < g.blocksFor n := Nat.div_pos (by omega) hpos
      obtain ⟨rest, hsizes⟩ := chunkSizes_eq_cons hblocks
      rw [hsizes, chunks_of_unseeded hseeded, read_of_unseeded n hseeded]
      rfl

theorem chunkSizes_blocksFor_add {g : Generator F} (hpos : 0 < g.blockSize) {a q : Nat}
    (hq : q = a * maxBlocks * g.blockSize) (n : Nat) :
    chunkSizes (g.blocksFor (q + n)) =
      chunkSizes (g.blocksFor q) ++ chunkSizes (g.blocksFor n) := by
  rw [hq, blocksFor_mul_add hpos, blocksFor_mul hpos, chunkSizes_mul_add, chunkSizes_mul]

/-- A request fails where the full chunks fail with which it begins. -/
theorem read_add_of_error {g : Generator F} {a q : Nat} (hq : q = a * maxBlocks * g.blockSize)
    (n : Nat) {e : GeneratorError} (hfirst : (read q g).result = .error e) :
    (read (q + n) g).result = .error e ∧ (read (q + n) g).state = (read q g).state := by
  cases hseeded : g.isSeeded with
  | false =>
      rw [read_of_unseeded q hseeded] at hfirst ⊢
      rw [read_of_unseeded (q + n) hseeded]
      exact ⟨hfirst, rfl⟩
  | true =>
      have hpos := blockSize_pos_of_isSeeded hseeded
      obtain ⟨hchunks, hstate⟩ := read_of_result_error hseeded hfirst
      rw [hstate, read_of_seeded _ hseeded, chunkSizes_blocksFor_add hpos hq, chunks_append,
        Step.bind_apply, Outcome.andThen_of_error hchunks, Outcome.andThen_error]
      exact ⟨rfl, rfl⟩

/-- Behind full chunks that succeed, a request fails where a request for the rest fails,
which finds more bytes counted. -/
theorem read_add_of_later_error {g : Generator F} {a q : Nat}
    (hq : q = a * maxBlocks * g.blockSize) {n : Nat} (hn : 0 < n) {front : Bytes}
    {e : GeneratorError} (hfirst : (read q g).result = .ok front)
    (hsecond : (read n (read q g).state).result = .error e) :
    (read (q + n) g).result = .error e ∧
      (read n (read q g).state).state = (read (q + n) g).state.delivered q := by
  obtain ⟨hseeded, whole, hchunks, -, hmiddle⟩ := read_of_result_ok hfirst
  have hpos := blockSize_pos_of_isSeeded hseeded
  have hsize : (read q g).state.blockSize = g.blockSize :=
    ((runs_read q g).mono .draw).blockSize_eq
  have hlater : (read q g).state.blocksFor n = g.blocksFor n := by
    rw [blocksFor, blocksFor, hsize]
  rw [read_of_pos (hsize ▸ hpos) hn, hlater, hmiddle] at hsecond ⊢
  rw [read_of_seeded _ hseeded, chunkSizes_blocksFor_add hpos hq, chunks_append, Step.bind_apply,
    Outcome.andThen_of_ok hchunks]
  generalize (chunks (chunkSizes (g.blocksFor q)) g).state = h at hsecond ⊢
  -- the bytes counted between the two requests change nothing in the second
  obtain ⟨hresult, hstate⟩ := chunks_delivered (chunkSizes (g.blocksFor n)) h q
  cases hrest : (chunks (chunkSizes (g.blocksFor n)) h).result with
  | ok back =>
      rw [Outcome.andThen_of_ok (hresult.trans hrest)] at hsecond
      cases hsecond
  | error e' =>
      rw [Outcome.andThen_of_error (hresult.trans hrest)] at hsecond ⊢
      rw [Step.bind_apply, Outcome.andThen_of_error hrest, Outcome.andThen_error]
      exact ⟨hsecond, hstate⟩

/-- A request for at least one byte more than `a` full chunks is a request for the full
chunks and one for the rest.  It succeeds when both do, and then with their outputs in a
row and in the state that they leave.  It fails with the error of the one that fails,
and leaves what that one leaves, except that the bytes of full chunks that were handed
out are not counted.  That holds also where the counter stands at zero between the two,
or where a key between the two is refused.  There must be memory for the long request,
and then there is for the two (`Checked.read`). -/
theorem read_splits_behind_full_chunks (g : Generator F) (a : Nat) {n : Nat} (hn : 0 < n) :
    let q := a * maxBlocks * g.blockSize
    let whole := read (q + n) g
    let first := read q g
    let second := read n first.state
    ((∃ out, whole.result = .ok out) ↔
        (∃ front, first.result = .ok front) ∧ ∃ back, second.result = .ok back) ∧
      (∀ out, whole.result = .ok out →
        ∃ front back, first.result = .ok front ∧ second.result = .ok back ∧
          out = front ++ back ∧ whole.state = second.state) ∧
      ∀ e, whole.result = .error e →
        (first.result = .error e ∧ first.state = whole.state) ∨
          ((∃ front, first.result = .ok front) ∧ second.result = .error e ∧
            second.state = { whole.state with totals.bytes := whole.state.totals.bytes + q }) := by
  intro q whole first second
  cases hfirst : first.result with
  | error e =>
      obtain ⟨hwhole, hstate⟩ := read_add_of_error rfl n hfirst
      have hresult : whole.result = .error e := hwhole
      rw [hresult]
      refine ⟨by simp, nofun, ?_⟩
      rintro e' he'
      exact .inl ⟨he', hstate.symm⟩
  | ok front =>
      have hpos := blockSize_pos_of_isSeeded (read_of_result_ok hfirst).1
      cases hsecond : second.result with
      | error e =>
          obtain ⟨hwhole, hstate⟩ := read_add_of_later_error rfl hn hfirst hsecond
          have hresult : whole.result = .error e := hwhole
          rw [hresult]
          refine ⟨by simp, nofun, ?_⟩
          intro e' he'
          exact .inr ⟨⟨front, rfl⟩, he', hstate⟩
      | ok back =>
          obtain ⟨hwhole, hstate⟩ := read_add_of_ok hpos rfl hfirst hsecond
          have hresult : whole.result = .ok (front ++ back) := hwhole
          rw [hresult]
          refine ⟨by simp, ?_, nofun⟩
          intro out hout
          exact ⟨front, back, rfl, rfl, (Except.ok.inj hout).symm, hstate⟩

/-- Seven full chunks of one-byte blocks, and the keys behind them, take the counter from
32 to zero, where the long request stops and the second of the two requests is refused. -/
theorem read_splits_at_zero :
    ∃ e, (read 458757 steppedGenerator).result = .error e ∧
      (∃ front, (read 458752 steppedGenerator).result = .ok front) ∧
      (read 5 (read 458752 steppedGenerator).state).result = .error e ∧
      (read 5 (read 458752 steppedGenerator).state).state =
        (read 458757 steppedGenerator).state.delivered 458752 := by
  have hsteady : (Transparent.factory ⟨.identity, 1, none⟩).Steady 1 :=
    Transparent.steady .identity (by decide)
  have hcounter : steppedGenerator.counter = .ofNat 1 32 := rfl
  have hfirst : ∃ front, (read 458752 steppedGenerator).result = .ok front := by
    rw [hsteady.result_read_iff hcounter]
    refine ⟨by decide, ?_⟩
    have hplaces : ∀ e < 7, ¬ 256 ^ 1 ∣ 32 + e * maxBlocks + e * ((keySize + 1 - 1) / 1) ∧
        ¬ 256 ^ 1 ∣ 32 + min ((e + 1) * maxBlocks) ((458752 + 1 - 1) / 1) +
          e * ((keySize + 1 - 1) / 1) := by
      decide
    have hlimit : maxBlocks = 65536 := rfl
    intro e he
    rw [hlimit] at he
    exact hplaces e (by omega)
  have hwhole : ¬ ∃ out, (read 458757 steppedGenerator).result = .ok out := by
    rw [hsteady.result_read_iff hcounter]
    rintro ⟨-, hplaces⟩
    exact (hplaces 7 (by decide)).1 (by decide)
  have hsplit := read_splits_behind_full_chunks steppedGenerator 7 (n := 5) (by decide)
  have hq : 7 * maxBlocks * steppedGenerator.blockSize = 458752 := rfl
  have hsum : 458752 + 5 = 458757 := rfl
  dsimp only at hsplit
  rw [hq, hsum] at hsplit
  obtain ⟨-, -, herror⟩ := hsplit
  -- from here on the outcomes need not be looked into
  generalize read 458757 steppedGenerator = whole at hwhole herror ⊢
  generalize read 458752 steppedGenerator = first at hfirst herror ⊢
  generalize read 5 first.state = second at herror ⊢
  cases hresult : whole.result with
  | ok out => exact absurd ⟨out, hresult⟩ hwhole
  | error e =>
      refine ⟨e, rfl, hfirst, ?_⟩
      rcases herror e hresult with ⟨hrefused, -⟩ | ⟨-, hsecond, hstate⟩
      · obtain ⟨front, hfront⟩ := hfirst
        cases hrefused.symm.trans hfront
      · exact ⟨hsecond, hstate⟩

end Generator

end Fortuna

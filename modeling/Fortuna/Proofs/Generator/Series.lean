import Fortuna.Proofs.Generator.Accounting
import Fortuna.Proofs.Generator.Invariants
import Fortuna.Proofs.Generator.Seededness

/-!
# Requests in a row

The same operation can be carried out again and again, each time in the state that
the last time left; `Step.series` holds the results, up to the first failure.
Fewer times give a prefix of the results (`take_series`).

Requests of whole chunks in a row draw the same blocks and make the same keys as
one long request, because a request is cut into chunks from its start on
(`read_add_of_ok`).  So the results in a row are the result of the long request
(`read_mul_of_series`).

Under a factory that serves every key, requests in a row succeed as long as the
counter has room for their blocks (`CipherFactory.Steady.series_of_ready`).
-/

namespace Fortuna

/-! ## Series -/

namespace Step

variable {F : CipherFactory} {ε α β : Type}

/-- The results of an operation that is carried out `k` times in a row, up to its
first failure. -/
def series (x : Step F ε α) : Nat → Generator F → List α
  | 0, _ => []
  | k + 1, g =>
    match (x g).result with
    | .ok a => a :: x.series k (x g).state
    | .error _ => []

/-- The state that an operation leaves which is carried out `k` times in a row, up
to its first failure. -/
def repeated (x : Step F ε α) : Nat → Generator F → Generator F
  | 0, g => g
  | k + 1, g =>
    match (x g).result with
    | .ok _ => x.repeated k (x g).state
    | .error _ => (x g).state

theorem series_succ_of_ok {x : Step F ε α} {g : Generator F} {a : α}
    (hok : (x g).result = .ok a) (k : Nat) :
    x.series (k + 1) g = a :: x.series k (x g).state := by
  rw [series, hok]

theorem series_succ_of_error {x : Step F ε α} {g : Generator F} {e : ε}
    (herror : (x g).result = .error e) (k : Nat) :
    x.series (k + 1) g = [] := by
  rw [series, herror]

/-- Fewer times give the first of the results. -/
theorem take_series (x : Step F ε α) {j k : Nat} (hjk : j ≤ k) (g : Generator F) :
    (x.series k g).take j = x.series j g := by
  induction j generalizing k g with
  | zero => rfl
  | succ j ih =>
      obtain ⟨k, rfl⟩ := Nat.exists_eq_add_of_le' (Nat.lt_of_lt_of_le j.succ_pos hjk)
      cases hresult : (x g).result with
      | error e => rw [series_succ_of_error hresult, series_succ_of_error hresult, List.take_nil]
      | ok a =>
          rw [series_succ_of_ok hresult, series_succ_of_ok hresult, List.take_succ_cons,
            ih (Nat.le_of_succ_le_succ hjk)]

/-- A series that has failed does not go on. -/
theorem series_of_length_lt {x : Step F ε α} {j k : Nat} (hjk : j ≤ k) {g : Generator F}
    (hlt : (x.series j g).length < j) :
    x.series k g = x.series j g := by
  have htake := x.take_series hjk g
  have hshort : (x.series k g).length ≤ j := by
    by_contra hlong
    rw [← htake, List.length_take] at hlt
    omega
  rw [← htake, List.take_of_length_le hshort]

theorem map_apply (f : α → β) (x : Step F ε α) (g : Generator F) :
    ((f <$> x) g).result = (x g).result.map f ∧ ((f <$> x) g).state = (x g).state := by
  have hmap : (f <$> x) g = (x g).andThen fun a => pure (f a) := by
    rw [map_eq_pure_bind]
    rfl
  rw [hmap]
  cases hresult : (x g).result with
  | error e =>
      rw [Outcome.andThen_of_error hresult]
      exact ⟨rfl, rfl⟩
  | ok a =>
      rw [Outcome.andThen_of_ok hresult]
      exact ⟨rfl, rfl⟩

theorem series_map (f : α → β) (x : Step F ε α) (k : Nat) (g : Generator F) :
    (f <$> x).series k g = (x.series k g).map f := by
  induction k generalizing g with
  | zero => rfl
  | succ k ih =>
      obtain ⟨hmap, hstate⟩ := map_apply f x g
      cases hresult : (x g).result with
      | error e =>
          rw [hresult] at hmap
          rw [series_succ_of_error hmap, series_succ_of_error hresult, List.map_nil]
      | ok a =>
          rw [hresult] at hmap
          rw [series_succ_of_ok hmap, series_succ_of_ok hresult, List.map_cons, hstate, ih]

theorem repeated_map (f : α → β) (x : Step F ε α) (k : Nat) (g : Generator F) :
    (f <$> x).repeated k g = x.repeated k g := by
  induction k generalizing g with
  | zero => rfl
  | succ k ih =>
      obtain ⟨hmap, hstate⟩ := map_apply f x g
      rw [repeated, repeated, hmap, hstate]
      cases (x g).result with
      | error e => rfl
      | ok a => exact ih _

theorem exists_series_append (x : Step F ε α) {j k : Nat} (hjk : j ≤ k) (g : Generator F) :
    ∃ later, x.series k g = x.series j g ++ later := by
  have hsplit := List.take_append_drop j (x.series k g)
  rw [x.take_series hjk] at hsplit
  exact ⟨_, hsplit.symm⟩

theorem length_flatten_series_le (x : Step F ε (List β)) {j k : Nat} (hjk : j ≤ k)
    (g : Generator F) :
    (x.series j g).flatten.length ≤ (x.series k g).flatten.length := by
  obtain ⟨later, hseries⟩ := x.exists_series_append hjk g
  rw [hseries, List.flatten_append, List.length_append]
  exact Nat.le_add_right _ _

/-- The first `w` items of the joined results are known once the results hold as
many, or once the series has failed. -/
theorem take_flatten_series {x : Step F ε (List β)} {j k w : Nat} (hjk : j ≤ k) {g : Generator F}
    (henough : w ≤ (x.series j g).flatten.length ∨ (x.series j g).length < j) :
    (x.series k g).flatten.take w = (x.series j g).flatten.take w := by
  rcases henough with henough | hfailed
  · obtain ⟨later, hseries⟩ := x.exists_series_append hjk g
    rw [hseries, List.flatten_append, List.take_append_of_le_length henough]
  · rw [series_of_length_lt hjk hfailed]

/-- If no result is empty, the first `w` items come from the first `w` results. -/
theorem take_flatten_series_of_ne_nil {x : Step F ε (List β)}
    (hx : ∀ g out, (x g).result = .ok out → out ≠ []) {w k : Nat} (hwk : w ≤ k)
    (g : Generator F) :
    (x.series k g).flatten.take w = (x.series w g).flatten.take w := by
  have hlength : (x.series w g).length ≤ (x.series w g).flatten.length := by
    clear hwk
    induction w generalizing g with
    | zero => exact Nat.zero_le _
    | succ w ih =>
        cases hresult : (x g).result with
        | error e =>
            rw [series_succ_of_error hresult]
            exact Nat.zero_le _
        | ok out =>
            have hpos := List.length_pos_iff.mpr (hx g out hresult)
            have hrest := ih (x g).state
            rw [series_succ_of_ok hresult, List.length_cons, List.flatten_cons, List.length_append]
            omega
  apply take_flatten_series hwk
  by_cases hshort : (x.series w g).length < w
  · exact .inr hshort
  · exact .inl ((Nat.le_of_not_lt hshort).trans hlength)

end Step

/-! ## Cutting a request at a chunk -/

theorem chunkSizes_mul_add (a blocks : Nat) :
    chunkSizes (a * maxBlocks + blocks) = List.replicate a maxBlocks ++ chunkSizes blocks := by
  have hpos : 0 < maxBlocks := by decide
  rw [chunkSizes, chunkSizes, Nat.mul_add_mod_self_right, Nat.mul_comm a,
    Nat.mul_add_div hpos, ← List.replicate_append_replicate, List.append_assoc]

theorem chunkSizes_mul (a : Nat) : chunkSizes (a * maxBlocks) = List.replicate a maxBlocks := by
  have hzero : chunkSizes 0 = [] := rfl
  rw [← Nat.add_zero (a * maxBlocks), chunkSizes_mul_add, hzero, List.append_nil]

namespace Generator

variable {F : CipherFactory}

/-- A request that is served, by its chunks. -/
theorem read_of_result_ok {n : Nat} {g : Generator F} {out : Bytes}
    (hout : (read n g).result = .ok out) :
    g.isSeeded = true ∧ ∃ whole,
      (chunks (chunkSizes (g.blocksFor n)) g).result = .ok whole ∧ whole.take n = out ∧
        (read n g).state = (chunks (chunkSizes (g.blocksFor n)) g).state.delivered n := by
  by_cases hseeded : g.isSeeded = true
  · obtain ⟨whole, hwhole⟩ := (exists_result_read_iff n hseeded).mp ⟨out, hout⟩
    rw [read_of_seeded n hseeded, Outcome.andThen_of_ok hwhole, deliver_apply] at hout ⊢
    exact ⟨hseeded, whole, hwhole, Except.ok.inj hout, rfl⟩
  · rw [read_of_unseeded n (Bool.eq_false_iff.mpr hseeded)] at hout
    cases hout

theorem blockSize_pos_of_isSeeded {g : Generator F} (hseeded : g.isSeeded = true) :
    0 < g.blockSize := by
  by_contra hzero
  have hempty : g.counter.bytes = [] := List.length_eq_zero_iff.mp (Nat.eq_zero_of_not_pos hzero)
  rw [isSeeded, Counter.isZero, hempty] at hseeded
  cases hseeded

theorem length_of_result_ok {n : Nat} {g : Generator F} {out : Bytes}
    (hout : (read n g).result = .ok out) :
    out.length = n :=
  length_of_read_ok (blockSize_pos_of_isSeeded (read_of_result_ok hout).1) hout

/-- Requests in a row that are not empty deliver the first `w` bytes in `w` requests. -/
theorem take_flatten_series_read {n : Nat} (hpos : 0 < n) {w k : Nat} (hwk : w ≤ k)
    (g : Generator F) :
    ((read n).series k g).flatten.take w = ((read n).series w g).flatten.take w := by
  apply Step.take_flatten_series_of_ne_nil _ hwk
  intro h out hout
  rw [← List.length_pos_iff, length_of_result_ok hout]
  exact hpos

theorem blocksFor_mul_add {g : Generator F} (hpos : 0 < g.blockSize) (k n : Nat) :
    g.blocksFor (k * g.blockSize + n) = k + g.blocksFor n := by
  have hsum : k * g.blockSize + n + g.blockSize - 1 = g.blockSize * k + (n + g.blockSize - 1) := by
    rw [Nat.mul_comm]
    omega
  rw [blocksFor, blocksFor, hsum, Nat.mul_add_div hpos]

theorem blocksFor_mul {g : Generator F} (hpos : 0 < g.blockSize) (k : Nat) :
    g.blocksFor (k * g.blockSize) = k := by
  have hnone : g.blocksFor 0 = 0 := Nat.div_eq_of_lt (by omega)
  rw [← Nat.add_zero (k * g.blockSize), blocksFor_mul_add hpos, hnone, Nat.add_zero]

theorem delivered_delivered (g : Generator F) (m n : Nat) :
    (g.delivered m).delivered n = g.delivered (m + n) := by
  simp only [delivered, Nat.add_assoc]

/-- Chunks do not depend on the bytes counted before them. -/
theorem chunks_delivered (sizes : List Nat) (g : Generator F) (n : Nat) :
    (chunks sizes (g.delivered n)).result = (chunks sizes g).result ∧
      (chunks sizes (g.delivered n)).state = (chunks sizes g).state.delivered n := by
  have hshift (h : Generator F) : h.delivered n = h.shift { bytes := n } := by
    change Generator.mk _ _ _ _ = Generator.mk _ _ _ (Totals.mk _ _ _ _)
    rw [Nat.add_comm n]
    simp
  rw [hshift, hshift]
  exact ignoresTotals_chunks sizes g { bytes := n }

/-- A request of whole chunks and the request after it amount to one request. -/
theorem read_add_of_ok {g : Generator F} (hpos : 0 < g.blockSize) {a q n : Nat}
    (hq : q = a * maxBlocks * g.blockSize) {first second : Bytes}
    (hfirst : (read q g).result = .ok first)
    (hsecond : (read n (read q g).state).result = .ok second) :
    (read (q + n) g).result = .ok (first ++ second) ∧
      (read (q + n) g).state = (read n (read q g).state).state := by
  have hwhole : g.blocksFor q = a * maxBlocks := by
    rw [hq, blocksFor_mul hpos]
  have hall : g.blocksFor (q + n) = a * maxBlocks + g.blocksFor n := by
    rw [hq, blocksFor_mul_add hpos]
  have hsize : (read q g).state.blockSize = g.blockSize :=
    ((runs_read q g).mono .draw).blockSize_eq
  have hlater : (read q g).state.blocksFor n = g.blocksFor n := by
    rw [blocksFor, blocksFor, hsize]
  obtain ⟨hseeded, front, hfront, hcut, hmiddle⟩ := read_of_result_ok hfirst
  obtain ⟨-, back, hback, rfl, hend⟩ := read_of_result_ok hsecond
  have hlength : front.length = q := by
    rw [length_of_chunks_ok hfront, sum_chunkSizes, hwhole, hq]
  obtain rfl : front = first := by
    rw [← hcut, List.take_of_length_le hlength.le]
  rw [hwhole, chunkSizes_mul] at hfront hmiddle
  generalize hchunks : chunks (List.replicate a maxBlocks) g = o at hfront hmiddle
  -- the bytes counted between the two requests change nothing in the second
  obtain ⟨hresult, hstate⟩ := chunks_delivered (chunkSizes (g.blocksFor n)) o.state q
  rw [hlater, hmiddle] at hback hend
  rw [hresult] at hback
  rw [hstate, delivered_delivered] at hend
  rw [hmiddle, hend, read_of_seeded _ hseeded, hall, chunkSizes_mul_add, chunks_append,
    Step.bind_apply, hchunks, Outcome.andThen_of_ok hfront, Step.bind_apply,
    Outcome.andThen_of_ok hback, Step.pure_apply, Outcome.andThen_ok, deliver_apply]
  refine ⟨?_, rfl⟩
  rw [← hlength, List.take_length_add_append]

/-- Requests of whole chunks in a row give the output of one long request. -/
theorem read_mul_of_series {a c : Nat} (j : Nat) {g : Generator F} (hpos : 0 < g.blockSize)
    (hc : c = a * maxBlocks * g.blockSize) (hseeded : g.isSeeded = true)
    (hall : ((read c).series j g).length = j) :
    (read (j * c) g).result = .ok ((read c).series j g).flatten := by
  induction j generalizing g with
  | zero =>
      have hnone : g.blocksFor 0 = 0 := Nat.div_eq_of_lt (by omega)
      rw [Nat.zero_mul, read_of_seeded 0 hseeded, hnone]
      rfl
  | succ j ih =>
      cases hfirst : (read c g).result with
      | error e =>
          rw [Step.series_succ_of_error hfirst] at hall
          cases hall
      | ok first =>
          rw [Step.series_succ_of_ok hfirst, List.length_cons, Nat.succ_inj] at hall
          rw [Step.series_succ_of_ok hfirst, List.flatten_cons, Nat.succ_mul, Nat.add_comm]
          have hsize : (read c g).state.blockSize = g.blockSize :=
            ((runs_read c g).mono .draw).blockSize_eq
          by_cases hlast : j = 0
          · subst hlast
            rw [Nat.zero_mul, Nat.add_zero, hfirst]
            exact congrArg Except.ok (List.append_nil first).symm
          · have hseeded' : (read c g).state.isSeeded = true := by
              -- the next request is served
              obtain ⟨k, rfl⟩ := Nat.exists_eq_succ_of_ne_zero hlast
              cases hnext : (read c (read c g).state).result with
              | ok next => exact (read_of_result_ok hnext).1
              | error e =>
                  rw [Step.series_succ_of_error hnext] at hall
                  cases hall
            have hrest := ih (hsize ▸ hpos) (hsize ▸ hc) hseeded' hall
            exact (read_add_of_ok hpos hc hfirst hrest).1

/-! ## Requests in a row are served -/

end Generator

namespace Totals

/-- What `k` requests for `n` bytes each add to the totals. -/
def ofRequests (bs n k : Nat) : Totals where
  rekeys := k * (ofRequest bs n).rekeys
  blocks := k * (ofRequest bs n).blocks
  bytes := k * n

theorem add_ofRequests_zero (t : Totals) (bs n : Nat) : t + ofRequests bs n 0 = t := by
  change Totals.mk _ _ _ _ = t
  rw [ofRequests, Nat.zero_mul, Nat.zero_mul, Nat.zero_mul]
  rfl

theorem ofRequests_succ (bs n k : Nat) :
    ofRequests bs n (k + 1) = ofRequest bs n + ofRequests bs n k := by
  change _ = Totals.mk 0 _ _ _
  rw [bytes_ofRequest, ofRequests, Nat.succ_mul, Nat.succ_mul, Nat.succ_mul]
  simp only [ofRequests, Nat.add_comm]

end Totals

namespace Generator

variable {F : CipherFactory}

/-- Books that were opened with a deterministic seed: the counter stands at the
seeds and blocks counted. -/
structure Ready (bs : Nat) (g : Generator F) : Prop where
  blockSize_eq : g.blockSize = bs
  balanced : Balanced {} g
  reseeds_pos : 0 < g.totals.reseeds

theorem Ready.counter_eq {bs : Nat} {g : Generator F} (hg : g.Ready bs) :
    g.counter = .ofNat bs (g.totals.reseeds + g.totals.blocks) := by
  obtain ⟨R, B, hreseeds, hblocks, hcounter⟩ := hg.balanced
  have hR : g.totals.reseeds = R := hreseeds.trans (Nat.zero_add R)
  have hB : g.totals.blocks = B := hblocks.trans (Nat.zero_add B)
  rw [hR, hB, ← hg.blockSize_eq]
  exact hcounter

theorem Ready.read {bs : Nat} {g : Generator F} (hg : g.Ready bs) {n : Nat} {out : Bytes}
    (hout : (Generator.read n g).result = .ok out) :
    (Generator.read n g).state.Ready bs where
  blockSize_eq := ((runs_read n g).mono .draw).blockSize_eq.trans hg.blockSize_eq
  balanced := hg.balanced.read n
  reseeds_pos := by
    rw [totals_read_of_ok hout, Totals.reseeds_add]
    exact Nat.add_pos_left hg.reseeds_pos _

end Generator

namespace CipherFactory.Steady

open Generator

variable {F : CipherFactory} {bs : Nat}

/-- A request is served if the counter has room for its blocks. -/
theorem read_of_ready (hF : F.Steady bs) {g : Generator F} (hg : g.Ready bs) {n : Nat}
    (hroom : g.totals.reseeds + g.totals.blocks + (Totals.ofRequest bs n).blocks < 256 ^ bs) :
    ∃ out, (read n g).result = .ok out ∧ out.length = n := by
  have hserved : ∃ out, (read n g).result = .ok out := by
    rw [hF.result_read_iff hg.counter_eq]
    have hblocks : (Totals.ofRequest bs n).blocks =
        (n + bs - 1) / bs + ((n + bs - 1) / bs + maxBlocks - 1) / maxBlocks *
          ((keySize + bs - 1) / bs) := rfl
    have hpos : 0 < g.totals.reseeds + g.totals.blocks := Nat.add_pos_left hg.reseeds_pos _
    have hlimit : 0 < maxBlocks := by decide
    rw [hblocks] at hroom
    generalize g.totals.reseeds + g.totals.blocks = s, (n + bs - 1) / bs = B,
      (keySize + bs - 1) / bs = r, maxBlocks = limit at hroom hpos hlimit ⊢
    refine ⟨Nat.not_dvd_of_pos_of_lt hpos (by omega), ?_⟩
    intro e he
    -- the keys before chunk `e` are among those counted
    have hchunks : e ≤ (B + limit - 1) / limit := by
      rw [Nat.le_div_iff_mul_le hlimit]
      omega
    have hkeys := Nat.mul_le_mul_right r hchunks
    exact ⟨Nat.not_dvd_of_pos_of_lt (by omega) (by omega),
      Nat.not_dvd_of_pos_of_lt (by omega) (by omega)⟩
  obtain ⟨out, hout⟩ := hserved
  exact ⟨out, hout, length_of_result_ok hout⟩

/-- Requests in a row are served if the counter has room for the blocks of all. -/
theorem series_of_ready (hF : F.Steady bs) (k : Nat) {n : Nat} {g : Generator F} (hg : g.Ready bs)
    (hroom : g.totals.reseeds + g.totals.blocks + (Totals.ofRequests bs n k).blocks < 256 ^ bs) :
    ((read n).series k g).length = k ∧ (∀ out ∈ (read n).series k g, out.length = n) ∧
      ((read n).repeated k g).totals = g.totals + .ofRequests bs n k := by
  induction k generalizing g with
  | zero => exact ⟨rfl, by simp [Step.series], (Totals.add_ofRequests_zero _ _ _).symm⟩
  | succ k ih =>
      rw [Totals.ofRequests_succ, Totals.blocks_add] at hroom
      obtain ⟨out, hout, hlength⟩ := hF.read_of_ready hg (n := n) (by omega)
      have htotals := totals_read_of_ok hout
      rw [hg.blockSize_eq] at htotals
      have hreseeds : (read n g).state.totals.reseeds = g.totals.reseeds := by
        rw [htotals, Totals.reseeds_add, Totals.reseeds_ofRequest, Nat.add_zero]
      have hblocks : (read n g).state.totals.blocks =
          g.totals.blocks + (Totals.ofRequest bs n).blocks := by
        rw [htotals, Totals.blocks_add]
      obtain ⟨hlength', hall, hrest⟩ := ih (hg.read hout) (by omega)
      have hrepeated : (read n).repeated (k + 1) g = (read n).repeated k (read n g).state := by
        rw [Step.repeated, hout]
      rw [Step.series_succ_of_ok hout, hrepeated, hrest, htotals, Totals.add_assoc,
        Totals.ofRequests_succ]
      exact ⟨congrArg Nat.succ hlength', List.forall_mem_cons.mpr ⟨hlength, hall⟩, rfl⟩

end CipherFactory.Steady

end Fortuna

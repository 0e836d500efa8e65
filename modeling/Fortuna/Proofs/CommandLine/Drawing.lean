import Fortuna.Proofs.CommandLine.Demand

/-!
# Drawing for a reader

Without a limit a run draws its pieces in a row (`exists_draw_none`).  A reader who
takes a limited number of bytes makes it stop early, but what it has drawn until then
is what a run without limit draws first (`exists_draw_eq`).  So a reader takes the
first bytes of what all pieces in a row hold (`Plan.output_report`), and one who takes
less takes a prefix of it (`Demand.output_report_of_le`).

Requests after a deterministic seed are served for more bytes than any program can
write (`series_start`).
-/

namespace Fortuna

namespace CommandLine

open Generator

/-! ## Pieces -/

section

variable {piece : Step cipher GeneratorError Bytes} {g : Generator cipher} {bytes : Bytes}

theorem draw_of_error {e : GeneratorError} (hresult : (piece g).result = .error e)
    (drawn : List Bytes) (wanted : Option Nat) (k : Nat) :
    draw piece drawn wanted g (k + 1) = ⟨drawn, (piece g).state, some e⟩ := by
  rw [draw, hresult]

/-- The reader closes the output during a piece. -/
theorem draw_of_closed (hresult : (piece g).result = .ok bytes) {wanted : Option Nat}
    (hlast : wanted.any (· < bytes.length) = true) (drawn : List Bytes) (k : Nat) :
    draw piece drawn wanted g (k + 1) = ⟨bytes :: drawn, (piece g).state, none⟩ := by
  rw [draw, hresult]
  exact if_pos hlast

/-- The reader takes a piece. -/
theorem draw_of_taken (hresult : (piece g).result = .ok bytes) {wanted : Option Nat}
    (hmore : ¬ wanted.any (· < bytes.length) = true) (drawn : List Bytes) (k : Nat) :
    draw piece drawn wanted g (k + 1) =
      draw piece (bytes :: drawn) (wanted.map (· - bytes.length)) (piece g).state k := by
  rw [draw, hresult]
  exact if_neg hmore

theorem draw_none_of_ok (hresult : (piece g).result = .ok bytes) (drawn : List Bytes) (k : Nat) :
    draw piece drawn none g (k + 1) = draw piece (bytes :: drawn) none (piece g).state k := by
  have hmore : ¬ (none : Option Nat).any (· < bytes.length) = true := Bool.false_ne_true
  exact draw_of_taken hresult hmore drawn k

end

section

variable (piece : Step cipher GeneratorError Bytes)

/-- Without a limit the pieces are the results in a row, and fewer than asked for
only after an error. -/
theorem exists_draw_none (drawn : List Bytes) (g : Generator cipher) (k : Nat) :
    ∃ error, draw piece drawn none g k =
        ⟨(piece.series k g).reverse ++ drawn, piece.repeated k g, error⟩ ∧
      ((piece.series k g).length = k → error = none) := by
  induction k generalizing drawn g with
  | zero => exact ⟨none, rfl, fun _ => rfl⟩
  | succ k ih =>
      cases hresult : (piece g).result with
      | error e =>
          rw [draw_of_error hresult, Step.series_succ_of_error hresult, Step.repeated, hresult]
          exact ⟨some e, rfl, fun h => absurd h.symm (Nat.succ_ne_zero k)⟩
      | ok bytes =>
          obtain ⟨error, hdraw, herror⟩ := ih (bytes :: drawn) (piece g).state
          rw [draw_none_of_ok hresult, hdraw, Step.series_succ_of_ok hresult, Step.repeated,
            hresult, List.reverse_cons, List.append_assoc, List.length_cons, Nat.succ_inj]
          exact ⟨error, rfl, herror⟩

/-- A reader with a limit ends the run after the first pieces that hold more than the
limit. -/
theorem exists_draw_eq (drawn : List Bytes) (wanted : Option Nat) (g : Generator cipher)
    (k : Nat) :
    ∃ j ≤ k, draw piece drawn wanted g k = draw piece drawn none g j ∧
      (∀ w ∈ wanted, ∀ i < j, (piece.series i g).flatten.length ≤ w) ∧
      (j < k → ∃ w ∈ wanted, w < (piece.series j g).flatten.length) := by
  induction k generalizing drawn wanted g with
  | zero =>
      exact ⟨0, Nat.le_refl 0, rfl, fun _ _ _ h => absurd h (Nat.not_lt_zero _),
        fun h => absurd h (Nat.lt_irrefl 0)⟩
  | succ k ih =>
      cases hresult : (piece g).result with
      | error e =>
          refine ⟨k + 1, Nat.le_refl _, ?_, ?_, fun h => absurd h (Nat.lt_irrefl _)⟩
          · rw [draw_of_error hresult, draw_of_error hresult]
          · intro w _ i _
            cases i with
            | zero => exact Nat.zero_le w
            | succ i =>
                rw [Step.series_succ_of_error hresult]
                exact Nat.zero_le w
      | ok bytes =>
          have hseries (i : Nat) : (piece.series (i + 1) g).flatten.length =
              bytes.length + (piece.series i (piece g).state).flatten.length := by
            rw [Step.series_succ_of_ok hresult, List.flatten_cons, List.length_append]
          by_cases hlast : wanted.any (· < bytes.length) = true
          · obtain ⟨w, hw, hlt⟩ := (Option.any_eq_true _ _).mp hlast
            refine ⟨1, Nat.succ_pos k, ?_, ?_, fun _ => ⟨w, hw, ?_⟩⟩
            · rw [draw_of_closed hresult hlast, draw_none_of_ok hresult, draw]
            · intro w _ i hi
              obtain rfl : i = 0 := Nat.lt_one_iff.mp hi
              exact Nat.zero_le w
            · rw [hseries]
              exact Nat.lt_add_right _ (of_decide_eq_true hlt)
          · obtain ⟨j, hjk, hdraw, hearlier, hlater⟩ :=
              ih (bytes :: drawn) (wanted.map (· - bytes.length)) (piece g).state
            refine ⟨j + 1, Nat.succ_le_succ hjk, ?_, ?_, ?_⟩
            · rw [draw_of_taken hresult hlast, draw_none_of_ok hresult, hdraw]
            · intro w hw i hi
              cases i with
              | zero => exact Nat.zero_le w
              | succ i =>
                  have hrest :=
                    hearlier _ (Option.mem_map_of_mem _ hw) i (Nat.lt_of_succ_lt_succ hi)
                  have htaken : ¬ w < bytes.length := fun hlt =>
                    hlast ((Option.any_eq_true _ _).mpr ⟨w, hw, decide_eq_true hlt⟩)
                  rw [hseries]
                  omega
            · intro hj
              obtain ⟨w', hw', hlt⟩ := hlater (Nat.lt_of_succ_lt_succ hj)
              obtain ⟨w, hw, rfl⟩ := Option.mem_map.mp hw'
              refine ⟨w, hw, ?_⟩
              rw [hseries]
              omega

end

/-! ## What the reader takes -/

/-- The pieces that a prepared run draws, at most `k` of them. -/
def Plan.pieces (p : Plan) (k : Nat) : List Bytes :=
  p.source.piece.series k p.generator

namespace Plan

theorem exists_drawn (p : Plan) (wanted : Option Nat) :
    ∃ j ≤ p.source.times wanted, ∃ error,
      p.drawn wanted = ⟨(p.pieces j).reverse, p.source.piece.repeated j p.generator, error⟩ ∧
        ((p.pieces j).length = j → error = none) ∧
        (∀ w ∈ wanted, ∀ i < j, (p.pieces i).flatten.length ≤ w) ∧
        (j < p.source.times wanted → ∃ w ∈ wanted, w < (p.pieces j).flatten.length) := by
  obtain ⟨j, hj, hdraw, hearlier, hlater⟩ :=
    exists_draw_eq p.source.piece [] wanted p.generator (p.source.times wanted)
  obtain ⟨error, hnone, herror⟩ := exists_draw_none p.source.piece [] p.generator j
  rw [List.append_nil] at hnone
  exact ⟨j, hj, error, hdraw.trans hnone, herror, hearlier, hlater⟩

/-- A reader takes the first bytes of all pieces. -/
theorem output_report (p : Plan) (wanted : Option Nat) :
    (p.report wanted).output =
      let whole := (p.pieces (p.source.times wanted)).flatten
      wanted.elim whole whole.take := by
  obtain ⟨j, hj, error, hdrawn, -, -, hlater⟩ := p.exists_drawn wanted
  have houtput : (p.report wanted).output = (p.drawn wanted).taken wanted := by
    rw [report]
    cases (p.drawn wanted).error <;> rfl
  rw [houtput, hdrawn, Drawn.taken, List.reverse_reverse]
  cases wanted with
  | none =>
      by_cases hshort : j < p.source.times none
      · obtain ⟨w, hw, -⟩ := hlater hshort
        cases hw
      · rw [Nat.le_antisymm hj (Nat.le_of_not_lt hshort)]
  | some w =>
      by_cases hshort : j < p.source.times (some w)
      · obtain ⟨w', hw, hlt⟩ := hlater hshort
        obtain rfl : w = w' := Option.some.inj hw
        exact (Step.take_flatten_series hj (.inl hlt.le)).symm
      · rw [Nat.le_antisymm hj (Nat.le_of_not_lt hshort)]

end Plan

/-! ## Demands -/

namespace Demand

variable (d : Demand) (x : Int64) (printMetrics : Bool)

theorem pieces_plan (k : Nat) :
    (d.plan x printMetrics).pieces k =
      ((Generator.read d.size).series k (start x)).map d.write :=
  Step.series_map d.write (Generator.read d.size) k (start x)

theorem pieces_stream {chunk : Nat} (hpos : 0 < chunk) (k : Nat) :
    ((stream chunk hpos).plan x printMetrics).pieces k =
      (Generator.read chunk).series k (start x) :=
  (pieces_plan _ x printMetrics k).trans (List.map_id _)

theorem take_pieces {w w' : Nat} (hle : w ≤ w') :
    ((d.plan x printMetrics).pieces (d.source.times (some w'))).flatten.take w =
      ((d.plan x printMetrics).pieces (d.source.times (some w))).flatten.take w := by
  cases d with
  | bytes count encoding => rfl
  | int63 count => rfl
  | stream chunk hpos =>
      have htimes (v : Nat) : (stream chunk hpos).source.times (some v) = v + 1 := rfl
      rw [htimes, htimes, pieces_stream, pieces_stream,
        take_flatten_series_read hpos (Nat.le_succ_of_le hle),
        take_flatten_series_read hpos (Nat.le_succ w)]

/-- A reader who takes less takes a prefix. -/
theorem output_report_of_le {w w' : Nat} (hle : w ≤ w') :
    ((d.plan x printMetrics).report (some w)).output =
      ((d.plan x printMetrics).report (some w')).output.take w := by
  have hmin : min w w' = w := Nat.min_eq_left hle
  rw [Plan.output_report, Plan.output_report]
  change _ = (List.take w' _).take w
  rw [List.take_take, hmin]
  exact (take_pieces d x printMetrics hle).symm

end Demand

/-! ## Requests after a deterministic seed -/

theorem blocks_ofRequest_le (n : Nat) : (Totals.ofRequest Aes.blockSize n).blocks ≤ 3 * n := by
  have hkey : (keySize + Aes.blockSize - 1) / Aes.blockSize = 2 := by decide
  have hsize : Aes.blockSize = 16 := rfl
  rw [Totals.ofRequest, hkey, hsize]
  generalize hmax : maxBlocks = limit
  obtain rfl : limit = 65536 := hmax.symm
  dsimp only
  omega

/-- Requests are served for more bytes than can be written. -/
theorem series_start (x : Int64) {n k : Nat} (hroom : k * n < 2 ^ 126) :
    ((Generator.read n).series k (start x)).length = k ∧
      (∀ out ∈ (Generator.read n).series k (start x), out.length = n) ∧
      ((Generator.read n).repeated k (start x)).totals =
        (start x).totals + .ofRequests Aes.blockSize n k := by
  apply Aes.steady.series_of_ready k (ready_start x)
  have hcost := Nat.mul_le_mul_left k (blocks_ofRequest_le n)
  have hround : (256 : Nat) ^ Aes.blockSize = 2 ^ 128 := by decide
  have hblocks : (Totals.ofRequests Aes.blockSize n k).blocks =
      k * (Totals.ofRequest Aes.blockSize n).blocks := rfl
  rw [Nat.mul_left_comm] at hcost
  rw [hblocks, hround]
  change 1 + _ < _
  omega

/-- Requests for a chunk each, as many as it takes to deliver more than `L` bytes. -/
theorem exists_requests {chunk : Nat} (hpos : 0 < chunk) (L : Nat) :
    ∃ j, L < j * chunk ∧ j * chunk ≤ L + chunk := by
  have hwhole := Nat.div_mul_le_self L chunk
  have hover : L < L / chunk * chunk + chunk := Nat.lt_div_mul_add hpos
  refine ⟨L / chunk + 1, ?_⟩
  rw [Nat.succ_mul]
  omega

/-- What requests in a row deliver is as long as they are in total. -/
theorem length_flatten_start (x : Int64) {n k : Nat} (hroom : k * n < 2 ^ 126) :
    ((Generator.read n).series k (start x)).flatten.length = k * n := by
  obtain ⟨hlength, hall, -⟩ := series_start x hroom
  rw [List.length_flatten, List.map_congr_left hall, List.map_const', List.sum_replicate_nat,
    hlength]


end CommandLine

end Fortuna

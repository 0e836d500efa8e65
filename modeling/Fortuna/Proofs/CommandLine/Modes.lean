import Fortuna.Proofs.CommandLine.Drawing

/-!
# The commands draw on one stream

After a deterministic seed each command makes requests of its own size, and every
request ends with a new key, so that the commands agree only where their requests
line up.  A stream is what requests of its chunk size deliver in a row
(`output_stream`); integers are read from a stream in chunks of eight bytes
(`output_int63`); and bytes in raw form are one request (`output_bytes`), which is
cut at the same places as requests of whole chunks in a row.
-/

namespace Fortuna

namespace CommandLine

open Generator

/-! ## Slices -/

/-- Of lists of one length, each is a slice of all joined together. -/
theorem flatten_map_eq_flatMap_slices {α β : Type} {size : Nat} {outs : List (List α)}
    (hsize : ∀ out ∈ outs, out.length = size) (f : List α → List β) :
    (outs.map f).flatten =
      (List.range outs.length).flatMap fun i => f ((outs.flatten.drop (size * i)).take size) := by
  induction outs with
  | nil => rfl
  | cons out outs ih =>
      rw [List.forall_mem_cons] at hsize
      obtain ⟨hout, hrest⟩ := hsize
      rw [List.map_cons, List.flatten_cons, ih hrest, List.length_cons, List.range_succ_eq_map,
        List.flatMap_cons, List.flatMap_map, List.flatten_cons, Nat.mul_zero, List.drop_zero,
        List.take_left' hout]
      have hskip (i : Nat) : (out ++ outs.flatten).drop (size * (i + 1)) =
          outs.flatten.drop (size * i) := by
        rw [Nat.mul_succ, Nat.add_comm, ← List.drop_drop, List.drop_left' hout]
      simp only [Nat.succ_eq_add_one, hskip]

/-! ## The output of each command -/

section

variable (x : Int64) (printMetrics : Bool)

/-- A stream is what requests of its chunk size deliver in a row. -/
theorem output_stream {chunk L k : Nat} (hpos : 0 < chunk) (hL : L ≤ k) :
    (((Demand.stream chunk hpos).plan x printMetrics).report (some L)).output =
      ((read chunk).series k (start x)).flatten.take L := by
  rw [Plan.output_report, take_flatten_series_read hpos hL,
    ← take_flatten_series_read hpos (Nat.le_succ L)]
  exact congrArg (fun pieces => pieces.flatten.take L)
    (Demand.pieces_stream x printMetrics hpos (L + 1))

/-- It is enough that they deliver what is taken. -/
theorem output_stream_of_le_mul {chunk L j : Nat} (hpos : 0 < chunk) (hL : L ≤ j * chunk)
    (hroom : j * chunk < 2 ^ 126) :
    (((Demand.stream chunk hpos).plan x printMetrics).report (some L)).output =
        ((read chunk).series j (start x)).flatten.take L ∧
      (((Demand.stream chunk hpos).plan x printMetrics).report (some L)).output.length = L := by
  have hlength := length_flatten_start x hroom
  rw [output_stream x printMetrics hpos (Nat.le_max_left L j),
    Step.take_flatten_series (Nat.le_max_right L j) (.inl (hL.trans_eq hlength.symm)),
    List.length_take, hlength]
  exact ⟨rfl, Nat.min_eq_left hL⟩

/-- Raw bytes are one request. -/
theorem result_read_start {count : Nat} (hroom : count < 2 ^ 126) :
    (read count (start x)).result =
      .ok (((Demand.bytes count .raw).plan x printMetrics).report none).output := by
  have hone : 1 * count < 2 ^ 126 := by rwa [Nat.one_mul]
  obtain ⟨hlength, -, -⟩ := series_start x hone
  cases hresult : (read count (start x)).result with
  | error e =>
      rw [Step.series_succ_of_error hresult] at hlength
      cases hlength
  | ok out =>
      have hpieces : ((Demand.bytes count .raw).plan x printMetrics).pieces 1 = [out] := by
        rw [Demand.pieces_plan]
        change List.map _ ((read count).series 1 (start x)) = _
        rw [Step.series_succ_of_ok hresult]
        rfl
      rw [Plan.output_report]
      change _ = Except.ok (((Demand.bytes count .raw).plan x printMetrics).pieces 1).flatten
      rw [hpieces, List.flatten_singleton]

/-- They are a stream whose chunk they are. -/
theorem output_bytes {n : Nat} (hpos : 0 < n) (hroom : n < 2 ^ 126) :
    (((Demand.bytes n .raw).plan x printMetrics).report none).output =
      (((Demand.stream n hpos).plan x printMetrics).report (some n)).output := by
  have hone : 1 * n < 2 ^ 126 := by rwa [Nat.one_mul]
  have hread := result_read_start x printMetrics hroom
  rw [(output_stream_of_le_mul x printMetrics hpos (Nat.one_mul n).ge hone).1,
    Step.series_succ_of_ok hread, Step.series, List.flatten_singleton,
    List.take_of_length_le (length_of_result_ok hread).le]

/-- They are a stream whose chunks hold whole mebibytes, because a mebibyte is what the
generator makes under one key. -/
theorem output_bytes_mul {j chunk : Nat} (hpos : 0 < chunk) (hdvd : 1048576 ∣ chunk)
    (hroom : j * chunk < 2 ^ 126) :
    (((Demand.bytes (j * chunk) .raw).plan x printMetrics).report none).output =
      (((Demand.stream chunk hpos).plan x printMetrics).report (some (j * chunk))).output := by
  have hmebibyte : maxBlocks * (start x).blockSize = 1048576 := by
    rw [(ready_start x).blockSize_eq]
    decide
  have hwhole : chunk = chunk / 1048576 * maxBlocks * (start x).blockSize := by
    rw [Nat.mul_assoc, hmebibyte, Nat.div_mul_cancel hdvd]
  have hseeded : (start x).isSeeded = true := isSeeded_of_lt rfl Nat.one_pos (by decide)
  have hlong := read_mul_of_series j (blockSize_pos_of_isSeeded hseeded) hwhole hseeded
    (series_start x hroom).1
  rw [result_read_start x printMetrics hroom, Except.ok.injEq] at hlong
  rw [hlong, (output_stream_of_le_mul x printMetrics hpos (Nat.le_refl _) hroom).1,
    List.take_of_length_le (length_flatten_start x hroom).le]

/-- Integers are read from a stream in chunks of eight bytes. -/
theorem output_int63 {k : Nat} (hroom : k * 8 < 2 ^ 126) :
    (((Demand.int63 k).plan x printMetrics).report none).output =
      (List.range k).flatMap fun i =>
        int63Line
          (((((Demand.stream 8 (Nat.succ_pos 7)).plan x printMetrics).report
            (some (8 * k))).output.drop (8 * i)).take 8) := by
  obtain ⟨hlength, hall, -⟩ := series_start x hroom
  have hslices := flatten_map_eq_flatMap_slices hall int63Line
  rw [hlength] at hslices
  rw [Nat.mul_comm 8 k, (output_stream_of_le_mul x printMetrics _ (Nat.le_refl _) hroom).1,
    List.take_of_length_le (length_flatten_start x hroom).le, Plan.output_report, ← hslices]
  exact congrArg List.flatten (Demand.pieces_plan (.int63 k) x printMetrics k)

end

/-! ## Agreement -/

theorem Task.demand_stream (c : Config) {chunk : Nat} (hpos : 0 < chunk) :
    (Task.stream (some chunk)).demand c = .stream chunk hpos := by
  have hmax : max 1 ((some chunk).getD c.streamChunk) = chunk := Nat.max_eq_right hpos
  rw [demand, Demand.stream.injEq, hmax]

/-- Let options and file set a deterministic seed.  A stream then is what requests of
its chunk size deliver in a row after that seed, where a chunk of no bytes counts as
one of a single byte.  Integers are the numbers that eight bytes of a stream in chunks
of eight bytes spell, without their top bit.  Raw bytes are the first of a stream with
one chunk of all of them, and also the first of a stream with chunks of whole
mebibytes if their number is a multiple of the chunk size.  A size is a word. -/
theorem commands_share_one_stream {i : Invocation} {host : Host} {c : Config} {x : Int64}
    (hfile : i.fileConfig host = .ok c) (hseed : i.seed.or c.seed = some x) :
    let written (task : Task) (wanted : Option Nat) :=
      (Invocation.report { i with task } host wanted).output
    ∃ fresh, create cipher = .ok fresh ∧ (restart x fresh.generator).result = .ok () ∧
      let g := (restart x fresh.generator).state
      (∀ chunk L k, L ≤ k →
        written (.stream (some chunk)) (some L) =
          ((read (max 1 chunk)).series k g).flatten.take L) ∧
      (∀ chunk < 2 ^ 64, ∀ L < 2 ^ 124,
        (written (.stream (some chunk)) (some L)).length = L) ∧
      (∀ k < 2 ^ 64,
        written (.int63 (some k)) none =
          (List.range k).flatMap fun i =>
            let eight := ((written (.stream (some 8)) (some (8 * k))).drop (8 * i)).take 8
            ascii (Decimal.digits (Bytes.toNatBE eight % 2 ^ 63) ++ ['\n'])) ∧
      (∀ n < 2 ^ 64,
        written (.bytes (some n) (some .raw)) none = written (.stream (some n)) (some n)) ∧
      ∀ j chunk, 1048576 ∣ chunk → j * chunk < 2 ^ 64 →
        written (.bytes (some (j * chunk)) (some .raw)) none =
          written (.stream (some chunk)) (some (j * chunk)) := by
  intro written
  have hwritten (task : Task) (wanted : Option Nat) : written task wanted =
      (((task.demand c).plan x (c.printMetrics || i.metrics)).report wanted).output := by
    have hfile' : Invocation.fileConfig { i with task } host = .ok c := hfile
    exact congrArg Report.output (Invocation.report_of_seed hfile' hseed wanted)
  obtain ⟨fresh, hcreate, hresult, hstate⟩ := exists_restart x
  refine ⟨fresh, hcreate, hresult, ?_⟩
  rw [hstate]
  intro g
  have hstream (chunk L k : Nat) (hL : L ≤ k) : written (.stream (some chunk)) (some L) =
      ((read (max 1 chunk)).series k g).flatten.take L := by
    rw [hwritten]
    exact output_stream x _ (Nat.le_max_left 1 chunk) hL
  have hempty : written (.bytes (some 0) (some .raw)) none =
      written (.stream (some 0)) (some 0) := by
    have hread := result_read_start x (c.printMetrics || i.metrics) (Nat.two_pow_pos 126)
    rw [hwritten, hstream 0 0 0 (Nat.le_refl 0), List.take_zero]
    exact List.eq_nil_of_length_eq_zero (length_of_result_ok hread)
  refine ⟨hstream, ?_, ?_, ?_, ?_⟩
  · intro chunk hchunk L hL
    obtain ⟨j, hover, hroom⟩ := exists_requests (Nat.le_max_left 1 chunk) L
    rw [hwritten]
    exact (output_stream_of_le_mul x _ (Nat.le_max_left 1 chunk) hover.le (by omega)).2
  · intro k hk
    have hroom : k * 8 < 2 ^ 126 := by omega
    rw [hwritten, hwritten]
    exact output_int63 x _ hroom
  · intro n hn
    rcases Nat.eq_zero_or_pos n with rfl | hpos
    · exact hempty
    · rw [hwritten, hwritten, Task.demand_stream c hpos]
      exact output_bytes x _ hpos (by omega)
  · intro j chunk hdvd hn
    rcases Nat.eq_zero_or_pos chunk with rfl | hpos
    · exact hempty
    · rw [hwritten, hwritten, Task.demand_stream c hpos]
      exact output_bytes_mul x _ hpos hdvd (by omega)

/-- Two integers, 33 bytes and two mebibytes of the stream of seed 42, without a file,
and five bytes of its stream in empty chunks. -/
theorem commands_share_one_stream_of_42 :
    let written (task : Task) (wanted : Option Nat) :=
      (Invocation.report { seed := some 42, task }
        ⟨fun _ => .error .notFound, fun _ => []⟩ wanted).output
    let stream := written (.stream (some 8)) (some 16)
    (written (.stream (some 0)) (some 5)).length = 5 ∧
      written (.int63 (some 2)) none =
        ascii (Decimal.digits (Bytes.toNatBE (stream.take 8) % 2 ^ 63) ++ ['\n']) ++
          ascii (Decimal.digits (Bytes.toNatBE ((stream.drop 8).take 8) % 2 ^ 63) ++ ['\n']) ∧
      written (.bytes (some 33) (some .raw)) none = written (.stream (some 33)) (some 33) ∧
      written (.bytes (some 2097152) (some .raw)) none =
        written (.stream (some 1048576)) (some 2097152) := by
  intro written stream
  have hfile : Invocation.fileConfig { seed := some 42, task := .int63 none }
      ⟨fun _ => .error .notFound, fun _ => []⟩ = .ok {} := rfl
  obtain ⟨-, -, -, -, hlength, hint63, hbytes, hmebibytes⟩ :=
    commands_share_one_stream (x := 42) hfile rfl
  refine ⟨hlength 0 (by decide) 5 (by decide), ?_, hbytes 33 (by decide),
    hmebibytes 2 1048576 (Nat.dvd_refl _) (by decide)⟩
  refine (hint63 2 (by decide)).trans ?_
  rw [List.range_succ_eq_map, List.range_one]
  simp only [List.map_cons, List.map_nil, List.flatMap_cons, List.flatMap_nil, List.append_nil]
  rfl

end CommandLine

end Fortuna

import Fortuna.Proofs.CommandLine.Drawing
import Fortuna.Proofs.CommandLine.Sizes
import Fortuna.Proofs.Metrics.Mirror

/-!
# How a run ends

A run is refused for its configuration (`ConfigFault`), or it goes on to draw output.
With a deterministic seed nothing can go wrong from then on: AES takes every key, and
the counter of the generator has room for all that words can ask for
(`Demand.exists_served`).  So the totals at the end are known from the demand alone,
and the last line of the log and the metrics tell them (`Report.ClosesWith`).
-/

namespace Fortuna

namespace CommandLine

open Generator

/-! ## Faults of a configuration -/

/-- What is wrong with the file of a configuration: it cannot be read, it is not
text, its text is no configuration, or a setting is out of range. -/
inductive ConfigFault : Except ReadFailure Bytes → Prop
  | unreadable (cause : ReadFailure) : ConfigFault (.error cause)
  | notUtf8 (content : Bytes) (htext : String.fromUTF8? content.toByteArray = none) :
      ConfigFault (.ok content)
  | unparsable (content : Bytes) (text : String)
      (htext : String.fromUTF8? content.toByteArray = some text)
      (hparse : (Toml.parse? text.toList).bind Config.ofTable? = none) :
      ConfigFault (.ok content)
  | invalid (content : Bytes) (text : String) (c : Config)
      (htext : String.fromUTF8? content.toByteArray = some text)
      (hparse : (Toml.parse? text.toList).bind Config.ofTable? = some c)
      (hrange : c.osSeedBytes = 0 ∨ c.streamChunk = 0 ∨ c.lineWidth % 2 ≠ 0) :
      ConfigFault (.ok content)

theorem exists_validate_error_iff (c : Config) :
    (∃ e, c.validate = .error e) ↔
      c.osSeedBytes = 0 ∨ c.streamChunk = 0 ∨ c.lineWidth % 2 ≠ 0 := by
  unfold Config.validate
  split
  · simp [*]
  · split
    · simp [*]
    · split <;> simp [*]

/-- A file is refused for these faults and for no others. -/
theorem exists_ofFile_error_iff (content : Except ReadFailure Bytes) :
    (∃ e, Config.ofFile content = .error e) ↔ ConfigFault content := by
  rcases content with cause | content
  · exact ⟨fun _ => .unreadable cause, fun _ => ⟨.unreadable cause, rfl⟩⟩
  · cases htext : String.fromUTF8? content.toByteArray with
    | none =>
        have hread : Config.ofFile (.ok content) = .error (.unreadable .notUtf8) := by
          rw [Config.ofFile, Except.bind, Config.decode, htext]
        exact ⟨fun _ => .notUtf8 content htext, fun _ => ⟨_, hread⟩⟩
    | some text =>
        have hread : Config.ofFile (.ok content) = Config.ofToml text := by
          rw [Config.ofFile, Except.bind, Config.decode, htext]
        rw [hread, Config.ofToml]
        cases hparse : (Toml.parse? text.toList).bind Config.ofTable? with
        | none => exact ⟨fun _ => .unparsable content text htext hparse, fun _ => ⟨_, rfl⟩⟩
        | some c =>
            dsimp only
            rw [exists_validate_error_iff]
            constructor
            · exact .invalid content text c htext hparse
            · intro hfault
              cases hfault with
              | notUtf8 _ hnone => cases htext.symm.trans hnone
              | unparsable _ text' htext' hnone =>
                  obtain rfl : text = text' := Option.some.inj (htext.symm.trans htext')
                  cases hparse.symm.trans hnone
              | invalid _ text' c' htext' hparse' hrange =>
                  obtain rfl : text = text' := Option.some.inj (htext.symm.trans htext')
                  obtain rfl : c = c' := Option.some.inj (hparse.symm.trans hparse')
                  exact hrange

theorem Invocation.exists_fileConfig_error_iff (i : Invocation) (host : Host) :
    (∃ e, i.fileConfig host = .error e) ↔ ∃ path ∈ i.config, ConfigFault (host.file path) := by
  unfold fileConfig
  cases i.config with
  | none => simp
  | some path =>
      simp only [exists_ofFile_error_iff, Option.mem_def, Option.some.injEq, exists_eq_left']

/-! ## Runs that are served -/

namespace Demand

variable (x : Int64) (printMetrics : Bool) (wanted : Option Nat)

/-- The run draws `j` pieces without an error: all of them, or those up to the first that
a reader with a limit does not take whole. -/
structure Served (d : Demand) (x : Int64) (printMetrics : Bool) (wanted : Option Nat) (j : Nat) :
    Prop where
  le_times : j ≤ d.source.times wanted
  error_eq : ((d.plan x printMetrics).drawn wanted).error = none
  totals_eq : ((d.plan x printMetrics).drawn wanted).generator.totals =
    (start x).totals + .ofRequests Aes.blockSize d.size j
  taken : ∀ w ∈ wanted, ∀ k < j, ((d.plan x printMetrics).pieces k).flatten.length ≤ w
  closed : j < d.source.times wanted →
    ∃ w ∈ wanted, w < ((d.plan x printMetrics).pieces j).flatten.length

theorem exists_served_of_room (d : Demand) {wanted : Option Nat} {k : Nat}
    (hroom : k * d.size < 2 ^ 126)
    (hk : d.source.times wanted ≤ k ∨
      ∃ w ∈ wanted, w < ((d.plan x printMetrics).pieces k).flatten.length) :
    ∃ j, d.Served x printMetrics wanted j := by
  obtain ⟨j, hj, error, hdrawn, herror, hearlier, hlater⟩ :=
    (d.plan x printMetrics).exists_drawn wanted
  have hjk : j ≤ k := by
    rcases hk with hk | ⟨w, hw, hlt⟩
    · exact hj.trans hk
    · by_contra hkj
      exact absurd (hearlier w hw k (Nat.lt_of_not_le hkj)) (Nat.not_le.mpr hlt)
  have hroom' : j * d.size < 2 ^ 126 := lt_of_le_of_lt (Nat.mul_le_mul_right d.size hjk) hroom
  obtain ⟨hlength, -, htotals⟩ := series_start x hroom'
  have hpieces : ((d.plan x printMetrics).pieces j).length = j := by
    rw [pieces_plan, List.length_map, hlength]
  have hrepeated : (d.plan x printMetrics).source.piece.repeated j (start x) =
      (read d.size).repeated j (start x) :=
    Step.repeated_map d.write (read d.size) j (start x)
  refine ⟨j, {
    le_times := hj, error_eq := ?_, totals_eq := ?_, taken := hearlier, closed := hlater }⟩
  · rw [hdrawn]
    exact herror hpieces
  · rw [hdrawn, ← htotals, ← hrepeated]
    rfl

/-- There is room for what a word can ask for, and for a stream up to `2 ^ 124` bytes. -/
theorem exists_room {d : Demand} (hamount : d.amount < 2 ^ 64)
    (hwanted : d.requests = none → ∀ w ∈ wanted, w < 2 ^ 124) :
    ∃ k, k * d.size < 2 ^ 126 ∧
      (d.source.times wanted ≤ k ∨
        ∃ w ∈ wanted, w < ((d.plan x printMetrics).pieces k).flatten.length) := by
  cases d with
  | bytes n encoding =>
      have hn : n < 2 ^ 64 := hamount
      have hroom : 1 * n < 2 ^ 126 := by omega
      exact ⟨1, hroom, .inl (Nat.le_refl 1)⟩
  | int63 k =>
      have hk : k < 2 ^ 64 := hamount
      have hroom : k * 8 < 2 ^ 126 := by omega
      exact ⟨k, hroom, .inl (Nat.le_refl k)⟩
  | stream chunk hpos =>
      cases wanted with
      | none => exact ⟨0, by simp, .inl (Nat.le_refl 0)⟩
      | some w =>
          obtain ⟨j, hover, hle⟩ := exists_requests hpos w
          have hw := hwanted rfl w rfl
          have hchunk : chunk < 2 ^ 64 := hamount
          have hroom : j * chunk < 2 ^ 126 := by omega
          refine ⟨j, hroom, .inr ⟨w, rfl, ?_⟩⟩
          rw [pieces_stream, length_flatten_start x hroom]
          exact hover

/-- A run within these bounds is served. -/
theorem exists_served {d : Demand} (hamount : d.amount < 2 ^ 64)
    (hwanted : d.requests = none → ∀ w ∈ wanted, w < 2 ^ 124) :
    ∃ j, d.Served x printMetrics wanted j := by
  obtain ⟨k, hroom, hk⟩ := exists_room x printMetrics wanted hamount hwanted
  exact exists_served_of_room x printMetrics d hroom hk

end Demand

/-! ## Closing words -/

/-- The run ends well, and its last line tells the totals.  If metrics are asked for,
they tell the totals as well, as numbers that 64-bit floats can hold; if not, nothing
is told beside the log. -/
structure Report.ClosesWith (r : Report) (asked : Bool) (t : Totals) : Prop where
  status_eq : r.status = 0
  done : r.log.getLast? =
    some ("INFO fortuna_gen: Done reseeds=" ++ Decimal.ofNat t.reseeds ++
      " rekeys=" ++ Decimal.ofNat t.rekeys ++ " bytes=" ++ Decimal.ofNat t.bytes)
  silent : asked = false → r.notes = ""
  samples_eq : asked = true → ∀ q, t.count q < 2 ^ 64 →
    samples r.notes q.metric = [q.metric ++ " " ++ Binary64.integerText (t.count q)]
  samples_eq_of_le : asked = true → ∀ q, t.count q ≤ 2 ^ 53 →
    samples r.notes q.metric = [q.metric ++ " " ++ Decimal.ofNat (t.count q)]

theorem samples_closingNotes (g : Generator cipher) {q : Quantity}
    (hfit : g.totals.count q < 2 ^ 64) :
    samples (closingNotes true g) q.metric =
      [q.metric ++ " " ++ Binary64.integerText (g.totals.count q)] := by
  have hfresh : (({} : Registry).counter q).toNat = 0 := by
    cases q <;> rfl
  have hcounter : ((({} : Registry).update (.ofGenerator g)).counter q).toNat =
      g.totals.count q := by
    rw [Registry.counter_update, toNat_advance, hfresh, Nat.zero_max]
    exact UInt64.toNat_ofNat_of_lt' hfit
  have hnotes : closingNotes true g = (({} : Registry).update (.ofGenerator g)).text := rfl
  rw [hnotes, Registry.samples_text, hcounter]

/-- A run that has no error closes with the totals of its generator. -/
theorem Plan.closesWith {p : Plan} {wanted : Option Nat} (herror : (p.drawn wanted).error = none) :
    (p.report wanted).ClosesWith p.printMetrics (p.drawn wanted).generator.totals := by
  have hreport : p.report wanted = {
      status := 0
      output := (p.drawn wanted).taken wanted
      log := p.opening ++ p.source.notice ++ [closingLog (p.drawn wanted).generator]
      notes := closingNotes p.printMetrics (p.drawn wanted).generator } := by
    rw [report, herror]
  rw [hreport]
  refine ⟨rfl, List.getLast?_concat, ?_, ?_, ?_⟩
  · intro hasked
    rw [hasked]
    rfl
  · intro hasked q hfit
    rw [hasked]
    exact samples_closingNotes _ hfit
  · intro hasked q hexact
    have hfit : (p.drawn wanted).generator.totals.count q < 2 ^ 64 := by omega
    rw [hasked]
    refine (samples_closingNotes _ hfit).trans ?_
    rw [Binary64.integerText_natCast, Binary64.shortestText_of_le hexact]

theorem Demand.Served.closesWith {d : Demand} {x : Int64} {printMetrics : Bool}
    {wanted : Option Nat} {j : Nat} (hserved : d.Served x printMetrics wanted j) :
    ((d.plan x printMetrics).report wanted).ClosesWith printMetrics
      ((start x).totals + .ofRequests Aes.blockSize d.size j) :=
  hserved.totals_eq ▸ Plan.closesWith hserved.error_eq

/-! ## Runs with a deterministic seed -/

/-- The totals after bytes were written. -/
def bytesTotals (n : Nat) : Totals :=
  let blocks := (n + 15) / 16
  let rekeys := (blocks + 65535) / 65536
  { reseeds := 1, rekeys, blocks := blocks + 2 * rekeys, bytes := n }

/-- The totals after integers were written. -/
def int63Totals (k : Nat) : Totals :=
  { reseeds := 1, rekeys := k, blocks := 3 * k, bytes := 8 * k }

theorem totals_bytes (x : Int64) (n : Nat) :
    (start x).totals + .ofRequests Aes.blockSize n 1 = bytesTotals n := by
  have hkey : (keySize + Aes.blockSize - 1) / Aes.blockSize = 2 := by decide
  have hsize : Aes.blockSize = 16 := rfl
  have hstart : (start x).totals = { reseeds := 1 } := rfl
  change Totals.mk _ _ _ _ = _
  rw [Totals.ofRequests, Totals.ofRequest, hkey, hsize, bytesTotals, hstart, Totals.mk.injEq]
  generalize hmax : maxBlocks = limit
  obtain rfl : limit = 65536 := hmax.symm
  dsimp only
  omega

theorem totals_int63 (x : Int64) (k : Nat) :
    (start x).totals + .ofRequests Aes.blockSize 8 k = int63Totals k := by
  have hrequest : Totals.ofRequest Aes.blockSize 8 = { rekeys := 1, blocks := 3, bytes := 8 } := by
    decide
  have hstart : (start x).totals = { reseeds := 1 } := rfl
  change Totals.mk _ _ _ _ = _
  rw [Totals.ofRequests, hrequest, hstart, int63Totals, Totals.mk.injEq]
  dsimp only
  omega

section

variable (x : Int64) (printMetrics : Bool) (wanted : Option Nat)

theorem bytes_closesWith {n : Nat} (hn : n < 2 ^ 64) (encoding : Encoding) :
    (((Demand.bytes n encoding).plan x printMetrics).report wanted).ClosesWith printMetrics
      (bytesTotals n) := by
  obtain ⟨j, hserved⟩ :=
    Demand.exists_served x printMetrics wanted (d := .bytes n encoding) hn nofun
  obtain rfl : j = 1 := by
    -- no reader closes the output before the first piece
    by_contra hne
    have hlt : j < 1 := Nat.lt_of_le_of_ne hserved.le_times hne
    obtain rfl : j = 0 := Nat.lt_one_iff.mp hlt
    obtain ⟨w, -, hlt⟩ := hserved.closed hlt
    exact absurd hlt (Nat.not_lt_zero w)
  exact totals_bytes x n ▸ hserved.closesWith

/-- What a command for `k` integers prints in its first `j` pieces is what a command for
`j` integers prints. -/
theorem flatten_pieces_int63 (k j : Nat) :
    (((Demand.int63 k).plan x printMetrics).pieces j).flatten =
      (((Demand.int63 j).plan x printMetrics).report none).output := by
  rw [Plan.output_report]
  rfl

/-- Integers are drawn until all are, or until the output does not take a line whole. -/
theorem int63_closesWith {k : Nat} (hk : k < 2 ^ 64) :
    let printed := fun j => (((Demand.int63 j).plan x printMetrics).report none).output.length
    ∃ drawn ≤ k,
      (((Demand.int63 k).plan x printMetrics).report wanted).ClosesWith printMetrics
        (int63Totals drawn) ∧
      ((∀ w ∈ wanted, printed k ≤ w) → drawn = k) ∧
      (∀ w ∈ wanted, ∀ j < drawn, printed j ≤ w) ∧
      (drawn < k → ∃ w ∈ wanted, w < printed drawn) := by
  intro printed
  obtain ⟨drawn, hserved⟩ := Demand.exists_served x printMetrics wanted (d := .int63 k) hk nofun
  have hprinted (j : Nat) :
      (((Demand.int63 k).plan x printMetrics).pieces j).flatten.length = printed j :=
    congrArg List.length (flatten_pieces_int63 x printMetrics k j)
  have hclosed (hearly : drawn < k) : ∃ w ∈ wanted, w < printed drawn :=
    hprinted drawn ▸ hserved.closed hearly
  refine ⟨drawn, hserved.le_times, totals_int63 x drawn ▸ hserved.closesWith, ?_, ?_, hclosed⟩
  · intro hroom
    by_contra hne
    obtain ⟨w, hw, hlt⟩ := hclosed (Nat.lt_of_le_of_ne hserved.le_times hne)
    have hwhole := ((Demand.int63 k).plan x printMetrics).source.piece.length_flatten_series_le
      hserved.le_times (start x)
    have hle : printed drawn ≤ printed k := hprinted drawn ▸ hprinted k ▸ hwhole
    exact absurd hlt (Nat.not_lt.mpr (hle.trans (hroom w hw)))
  · intro w hw j hj
    exact hprinted j ▸ hserved.taken w hw j hj

/-- The line of an integer has a digit and a newline. -/
theorem two_le_length_int63Line (data : Bytes) : 2 ≤ (int63Line data).length := by
  have hdigits := List.length_pos_iff.mpr
    (Decimal.digits_ne_nil (Bytes.toNatBE data % Nat.pow 2 63))
  rw [int63Line, ascii, List.length_map, List.length_append, List.length_singleton]
  omega

/-- A reader of one byte does not take the first line whole, so that the run draws one
integer, however many it is asked for. -/
theorem int63_closesWith_one {k : Nat} (hpos : 0 < k) (hk : k < 2 ^ 64) :
    (((Demand.int63 k).plan x printMetrics).report (some 1)).ClosesWith printMetrics
      (int63Totals 1) := by
  obtain ⟨drawn, -, hcloses, -, htaken, hclosed⟩ := int63_closesWith x printMetrics (some 1) hk
  have hnone : (((Demand.int63 0).plan x printMetrics).report none).output.length = 0 := by
    rw [← flatten_pieces_int63 x printMetrics 0]
    rfl
  have hline : 2 ≤ (((Demand.int63 1).plan x printMetrics).report none).output.length := by
    have hlength := (series_start x (n := 8) (k := 1) (by decide)).1
    obtain ⟨out, hout⟩ := List.length_eq_one_iff.mp hlength
    have hpieces : ((Demand.int63 1).plan x printMetrics).pieces 1 = [int63Line out] := by
      rw [Demand.pieces_plan]
      exact congrArg (List.map int63Line) hout
    rw [← flatten_pieces_int63 x printMetrics 1, hpieces, List.flatten_singleton]
    exact two_le_length_int63Line out
  have hdrawn : drawn = 1 := by
    rcases Nat.lt_trichotomy drawn 1 with hlt | heq | hgt
    · obtain rfl : drawn = 0 := Nat.lt_one_iff.mp hlt
      obtain ⟨w, -, hw⟩ := hclosed hpos
      exact absurd (hw.trans_eq hnone) (Nat.not_lt_zero w)
    · exact heq
    · exact absurd (htaken 1 rfl 1 hgt) (Nat.not_le.mpr hline)
  exact hdrawn ▸ hcloses

end

theorem fitWords_bytesTotals {n : Nat} (hn : n < 2 ^ 64) : (bytesTotals n).FitWords := by
  have hblocks : (n + 15) / 16 ≤ 2 ^ 60 := by omega
  have hrekeys : ((n + 15) / 16 + 65535) / 65536 ≤ (n + 15) / 16 + 65535 := Nat.div_le_self _ _
  have hfit {blocks rekeys : Nat} (hblocks : blocks ≤ 2 ^ 60) (hrekeys : rekeys ≤ blocks + 65535) :
      ({ reseeds := 1, rekeys, blocks := blocks + 2 * rekeys, bytes := n } : Totals).FitWords := by
    intro q
    cases q with
    | reseeds | rekeys | blocks | bytes =>
        simp only [Totals.count]
        omega
  exact hfit hblocks hrekeys

theorem fitWords_int63Totals {k : Nat} (hk : k < 2 ^ 61) : (int63Totals k).FitWords := by
  intro q
  cases q with
  | reseeds | rekeys | blocks | bytes =>
      simp only [Totals.count, int63Totals]
      omega

/-- Let the arguments of a run be accepted.  If its file is at fault, it ends with
status 1 and writes nothing.  Otherwise, and with a deterministic seed from options or
file, no error of the generator can arise, whatever its output takes, and of a stream
up to `2 ^ 124` bytes.  Bytes close with a key for every 65536 blocks of sixteen bytes
and two more blocks for every key, integers with a key, eight bytes and three blocks
each.  All integers are drawn if the output takes all that they print; otherwise the
last one drawn is the first that the output, closed by its reader, does not take.
Metrics are told if options or file ask for them.

The totals of bytes fit words of 64 bits, and so do those of less than `2 ^ 61`
integers; beyond that a program would tell them modulo `2 ^ 64`. -/
theorem seeded_runs_end_well {args : List String} {i : Invocation} (hparse : parse args = .ok i)
    (host : Host) (wanted : Option Nat) :
    let r := i.report host wanted
    let atFault := ∃ path ∈ i.config, ConfigFault (host.file path)
    (atFault → r.status = 1 ∧ r.output = []) ∧
      (¬ atFault → ∃ c, i.fileConfig host = .ok c ∧
        ∀ x, i.seed.or c.seed = some x →
          (∃ p, i.plan host = .ok p ∧
            ((∀ chunk, i.task = .stream chunk → ∀ w ∈ wanted, w < 2 ^ 124) →
              (p.drawn wanted).error = none)) ∧
          let asked := c.printMetrics || i.metrics
          (∀ count format, i.task = .bytes count format →
            let n := count.getD c.count
            (bytesTotals n).FitWords ∧ r.ClosesWith asked (bytesTotals n)) ∧
          ∀ count, i.task = .int63 count →
            let k := count.getD c.count
            let printed := fun j =>
              (Invocation.report { i with task := .int63 (some j) } host none).output.length
            ∃ drawn ≤ k,
              (drawn < 2 ^ 61 → (int63Totals drawn).FitWords) ∧
              r.ClosesWith asked (int63Totals drawn) ∧
              ((∀ w ∈ wanted, printed k ≤ w) → drawn = k) ∧
              (∀ w ∈ wanted, ∀ j < drawn, printed j ≤ w) ∧
              (drawn < k → ∃ w ∈ wanted, w < printed drawn)) := by
  intro r atFault
  have hfault := i.exists_fileConfig_error_iff host
  refine ⟨?_, ?_⟩
  · intro hat
    obtain ⟨e, hfile⟩ := hfault.mpr hat
    have hr : r = _ := Invocation.report_of_fault hfile wanted
    rw [hr]
    exact ⟨rfl, rfl⟩
  · intro hat
    cases hfile : i.fileConfig host with
    | error e => exact absurd (hfault.mp ⟨e, hfile⟩) hat
    | ok c =>
        refine ⟨c, rfl, ?_⟩
        intro x hseed
        have hamount := Invocation.amount_lt hparse hfile
        have hr : r = _ := Invocation.report_of_seed hfile hseed wanted
        refine ⟨⟨_, Invocation.plan_of_seed hfile hseed, ?_⟩, ?_, ?_⟩
        · intro hstream
          have hwanted (hendless : (i.task.demand c).requests = none) :
              ∀ w ∈ wanted, w < 2 ^ 124 := by
            obtain ⟨chunk, htask⟩ := Task.exists_stream_of_requests hendless
            exact hstream chunk htask
          obtain ⟨j, hserved⟩ :=
            Demand.exists_served x (c.printMetrics || i.metrics) wanted hamount hwanted
          exact hserved.error_eq
        · intro count format htask n
          rw [htask] at hr hamount
          rw [hr]
          exact ⟨fitWords_bytesTotals hamount, bytes_closesWith x _ wanted hamount _⟩
        · intro count htask k printed
          rw [htask] at hr hamount
          have hprinted (j : Nat) : printed j =
              (((Demand.int63 j).plan x (c.printMetrics || i.metrics)).report
                none).output.length := by
            have hfile' : Invocation.fileConfig { i with task := .int63 (some j) } host = .ok c :=
              hfile
            exact congrArg (·.output.length) (Invocation.report_of_seed hfile' hseed none)
          obtain ⟨drawn, hdrawn, hcloses, hall, htaken, hclosed⟩ :=
            int63_closesWith x (c.printMetrics || i.metrics) wanted hamount
          simp only [← hprinted] at hall htaken hclosed
          exact ⟨drawn, hdrawn, fitWords_int63Totals, hr ▸ hcloses, hall, htaken, hclosed⟩

/-- Twenty bytes with metrics, three integers whose output stays open, and a run whose
file is missing. -/
theorem seeded_runs_end_well_for_20_bytes :
    let host : Host := ⟨fun _ => .error .notFound, fun _ => []⟩
    let twenty : Invocation := { seed := some 42, metrics := true, task := .bytes (some 20) none }
    let three : Invocation := { seed := some 42, task := .int63 (some 3) }
    let missing : Invocation :=
      { config := some "none.toml", seed := some 42, task := .int63 (some 3) }
    let r := twenty.report host none
    (parse ["--seed", "42", "--metrics", "bytes", "-n", "20"] = .ok twenty ∧ r.status = 0 ∧
      r.log.getLast? = some "INFO fortuna_gen: Done reseeds=1 rekeys=1 bytes=20" ∧
      samples r.notes "fortuna_generator_blocks_total" = ["fortuna_generator_blocks_total 4"]) ∧
      (parse ["--seed", "42", "int63", "-n", "3"] = .ok three ∧
        (three.report host none).log.getLast? =
          some "INFO fortuna_gen: Done reseeds=1 rekeys=3 bytes=24") ∧
      parse ["int63", "-n", "3", "--seed=42", "--config", "none.toml"] = .ok missing ∧
        (missing.report host none).status = 1 ∧ (missing.report host none).output = [] := by
  intro host twenty three missing r
  have htwenty : parse ["--seed", "42", "--metrics", "bytes", "-n", "20"] = .ok twenty := rfl
  have hthree : parse ["--seed", "42", "int63", "-n", "3"] = .ok three := rfl
  have hmissing : parse ["int63", "-n", "3", "--seed=42", "--config", "none.toml"] = .ok missing :=
    rfl
  obtain ⟨c, hfile, hends⟩ := (seeded_runs_end_well htwenty host none).2 (by simp [twenty])
  obtain rfl : {} = c := Except.ok.inj hfile
  obtain ⟨-, hbytes, -⟩ := hends 42 rfl
  obtain ⟨-, hcloses⟩ := hbytes (some 20) none rfl
  obtain ⟨c, hfile, hends⟩ := (seeded_runs_end_well hthree host none).2 (by simp [three])
  obtain rfl : {} = c := Except.ok.inj hfile
  obtain ⟨-, -, hint63⟩ := hends 42 rfl
  obtain ⟨drawn, -, -, hcloses', hall, -⟩ := hint63 (some 3) rfl
  obtain rfl : drawn = 3 := hall nofun
  refine ⟨⟨htwenty, hcloses.status_eq, hcloses.done, ?_⟩, ⟨hthree, hcloses'.done⟩, hmissing, ?_⟩
  · exact hcloses.samples_eq_of_le rfl .blocks (by decide)
  · exact (seeded_runs_end_well hmissing host none).1 ⟨_, rfl, .unreadable .notFound⟩

/-- More integers than a pipe holds, whose reader closes the output within the first
line: the run ends well, but its last line does not tell of so many. -/
theorem int63_stops_where_output_closes :
    let host : Host := ⟨fun _ => .error .notFound, fun _ => []⟩
    let many : Invocation := { seed := some 42, task := .int63 (some 100000) }
    let r := many.report host (some 1)
    parse ["--seed", "42", "int63", "-n", "100000"] = .ok many ∧ r.status = 0 ∧
      r.log.getLast? = some "INFO fortuna_gen: Done reseeds=1 rekeys=1 bytes=8" ∧
      ¬ r.ClosesWith false (int63Totals 100000) := by
  intro host many r
  have hfile : many.fileConfig host = .ok {} := rfl
  have hr : r = _ := Invocation.report_of_seed hfile rfl (some 1)
  have hcloses : r.ClosesWith false (int63Totals 1) :=
    hr ▸ int63_closesWith_one 42 false (k := 100000) (by decide) (by decide)
  refine ⟨rfl, hcloses.status_eq, hcloses.done, fun hmany => ?_⟩
  have hsame := hcloses.done.symm.trans hmany.done
  exact absurd hsame (by decide)

end CommandLine

end Fortuna

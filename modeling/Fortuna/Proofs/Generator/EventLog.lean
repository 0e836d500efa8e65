import Fortuna.Proofs.Generator.Invariants

/-!
# The event log

Totals are counted in the state and reported in events, at different places of
nested operations that may return early between the two.  Still the log of a
generator replays to its totals: seeds and new keys are reported with consecutive
numbers, from 1 to the total, and the bytes reported add up to the bytes counted.
`Replays` says this of the log of one stage, and then of a run.

What a single request logs is read off its chunks.  Each chunk that is completed
reports its new key, and a request that succeeds reports its bytes at the end;
nothing else is reported, so a request that fails reports the keys of the chunks
that it completed (`events_read_of_error`).
-/

namespace Fortuna

/-! ## Reading a log -/

namespace Event

/-- The numbers with which seeds are reported. -/
def reseedNumbers (log : List Event) : List Nat :=
  log.filterMap fun
    | .reseeded _ reseeds => some reseeds
    | _ => none

/-- The numbers with which new keys are reported. -/
def rekeyNumbers (log : List Event) : List Nat :=
  log.filterMap fun
    | .rekeyed rekeys => some rekeys
    | _ => none

/-- The sizes of the outputs reported. -/
def deliveries (log : List Event) : List Nat :=
  log.filterMap fun
    | .delivered bytes => some bytes
    | _ => none

theorem reseedNumbers_append (log later : List Event) :
    reseedNumbers (log ++ later) = reseedNumbers log ++ reseedNumbers later :=
  List.filterMap_append

theorem rekeyNumbers_append (log later : List Event) :
    rekeyNumbers (log ++ later) = rekeyNumbers log ++ rekeyNumbers later :=
  List.filterMap_append

theorem deliveries_append (log later : List Event) :
    deliveries (log ++ later) = deliveries log ++ deliveries later :=
  List.filterMap_append

end Event

open Event (reseedNumbers rekeyNumbers deliveries)

/-- The log leads from the totals `t` to the totals `u`: the numbers reported
continue those up to `t` and end at `u`, and the bytes reported are those added. -/
structure Replays (t : Totals) (log : List Event) (u : Totals) : Prop where
  reseeds : List.range' 1 u.reseeds = List.range' 1 t.reseeds ++ reseedNumbers log
  rekeys : List.range' 1 u.rekeys = List.range' 1 t.rekeys ++ rekeyNumbers log
  bytes : u.bytes = t.bytes + (deliveries log).sum

theorem Replays.refl (t : Totals) : Replays t [] t :=
  ⟨(List.append_nil _).symm, (List.append_nil _).symm, rfl⟩

theorem Replays.trans {t u v : Totals} {log later : List Event}
    (hfirst : Replays t log u) (hsecond : Replays u later v) :
    Replays t (log ++ later) v where
  reseeds := by
    rw [hsecond.reseeds, hfirst.reseeds, Event.reseedNumbers_append, List.append_assoc]
  rekeys := by
    rw [hsecond.rekeys, hfirst.rekeys, Event.rekeyNumbers_append, List.append_assoc]
  bytes := by
    rw [hsecond.bytes, hfirst.bytes, Event.deliveries_append, List.sum_append, Nat.add_assoc]

/-- Numbers from 1 on are continued by the next one. -/
theorem range'_one_succ (n : Nat) : List.range' 1 (n + 1) = List.range' 1 n ++ [n + 1] := by
  rw [List.range'_1_concat, Nat.add_comm 1 n]

namespace Generator

variable {F : CipherFactory}

theorem Stage.replays {g h : Generator F} {as : List Action} (hstage : Stage g as h) :
    Replays g.totals (Action.events as) h.totals := by
  have hstill := Replays.refl g.totals
  cases hstage with
  | mixed seed cipher hcipher => exact ⟨range'_one_succ _, hstill.rekeys, rfl⟩
  | wiped cipher hcipher => exact hstill
  | restarted seed => exact ⟨hstill.reseeds, hstill.rekeys, rfl⟩
  | draw hdraw =>
      cases hdraw with
      | delivered n => exact ⟨hstill.reseeds, hstill.rekeys, rfl⟩
      | chunk size hpos hmax o hend =>
          cases hend with
          | unseeded => exact hstill
          | stalled =>
              rw [events_trail]
              exact ⟨hstill.reseeds, hstill.rekeys, rfl⟩
          | refused =>
              rw [events_chunkTrail]
              exact ⟨hstill.reseeds, hstill.rekeys, rfl⟩
          | rekeyed cipher =>
              rw [Action.events_append, events_chunkTrail]
              exact ⟨hstill.reseeds, range'_one_succ _, rfl⟩

theorem Run.replays {g h : Generator F} {as : List Action} (hrun : Run Stage g as h) :
    Replays g.totals (Action.events as) h.totals := by
  induction hrun with
  | refl g => exact .refl g.totals
  | head hstage hrun ih =>
      rw [Action.events_append]
      exact hstage.replays.trans ih

/-- The log since the creation of a generator leads to its totals. -/
theorem replays_history {c : Created F} (hcreate : create F = .ok c) (ops : List Operation) :
    Replays {} (Action.events (c.history ops)) (c.generator.after ops).totals := by
  have hrun := (run_after c.generator ops).replays
  obtain ⟨cipher, -, -, rfl⟩ := (create_eq_ok_iff c).mp hcreate
  rw [Created.history, Action.events_append]
  have hcreated : Replays {} [Event.created cipher.blockSize] {} := ⟨rfl, rfl, rfl⟩
  exact hcreated.trans hrun

/-! ## The log of a request -/

/-- How many of the chunks of the given sizes are completed before one fails. -/
def completed (g : Generator F) : List Nat → Nat
  | [] => 0
  | size :: sizes =>
    match (chunk size g).result with
    | .ok _ => (chunk size g).state.completed sizes + 1
    | .error _ => 0

/-- The reports of the next `k` new keys. -/
def rekeyReports (g : Generator F) (k : Nat) : List Event :=
  (List.range' (g.totals.rekeys + 1) k).map .rekeyed

/-- A chunk reports its new key if it is completed, and nothing if not. -/
theorem events_chunk (g : Generator F) (size : Nat) :
    (∃ out, (chunk size g).result = .ok out ∧
        (chunk size g).state.totals.rekeys = g.totals.rekeys + 1 ∧
        (chunk size g).events = [.rekeyed (g.totals.rekeys + 1)]) ∨
      ∃ e, (chunk size g).result = .error e ∧ (chunk size g).events = [] := by
  have hend := chunk_end g size
  generalize chunk size g = o at hend ⊢
  cases hend with
  | unseeded => exact .inr ⟨.unseeded, rfl, rfl⟩
  | stalled => exact .inr ⟨.unseeded, rfl, events_trail g _ _⟩
  | refused e => exact .inr ⟨e, rfl, events_chunkTrail g size⟩
  | rekeyed cipher =>
      refine .inl ⟨_, rfl, rfl, ?_⟩
      rw [Outcome.events, Action.events_append, events_chunkTrail]
      rfl

/-- Chunks report the new keys of those of them that are completed; they succeed
when all are. -/
theorem events_chunks (sizes : List Nat) (g : Generator F) :
    (chunks sizes g).events = g.rekeyReports (g.completed sizes) ∧
      ((∃ out, (chunks sizes g).result = .ok out) → g.completed sizes = sizes.length) := by
  induction sizes generalizing g with
  | nil => exact ⟨rfl, fun _ => rfl⟩
  | cons size sizes ih =>
      rw [completed, result_chunks_cons_iff, chunks_cons, Step.bind_apply]
      rcases events_chunk g size with ⟨out, hout, hrekeys, hevents⟩ | ⟨e, herror, hevents⟩
      · obtain ⟨hlater, hall⟩ := ih (chunk size g).state
        rw [Outcome.andThen_of_ok hout, hout]
        constructor
        · change Action.events (_ ++ ((chunks sizes >>= fun rest => pure (out ++ rest))
            (chunk size g).state).actions) = _
          have hrest := ((Step.Like.refl (chunks sizes : Step F GeneratorError Bytes)).answer
            (out ++ ·) (chunk size g).state).2.1
          rw [hrest, Action.events_append]
          change (chunk size g).events ++ (chunks sizes (chunk size g).state).events = _
          rw [hevents, hlater, rekeyReports, rekeyReports, hrekeys, List.range'_succ]
          rfl
        · rintro ⟨-, hrest⟩
          rw [List.length_cons, ← hall hrest]
      · rw [Outcome.andThen_of_error herror, herror]
        constructor
        · exact hevents
        · rintro ⟨⟨first, hfirst⟩, -⟩
          cases hfirst

theorem events_read_of_ok {g : Generator F} {n : Nat} {out : Bytes}
    (hout : (read n g).result = .ok out) :
    (read n g).events =
      g.rekeyReports (chunkSizes (g.blocksFor n)).length ++ [.delivered n] := by
  have hseeded : g.isSeeded = true := by
    by_contra hunseeded
    rw [Bool.not_eq_true] at hunseeded
    rw [read_of_unseeded n hunseeded] at hout
    cases hout
  obtain ⟨whole, hwhole⟩ := (exists_result_read_iff n hseeded).mp ⟨out, hout⟩
  obtain ⟨hevents, hall⟩ := events_chunks (chunkSizes (g.blocksFor n)) g
  rw [read_of_seeded n hseeded, Outcome.andThen_of_ok hwhole, deliver_apply, ← hall ⟨whole, hwhole⟩,
    ← hevents]
  exact Action.events_append _ _

/-- A failed request reports the chunks that it completed. -/
theorem events_read_of_error {g : Generator F} {n : Nat} {e : GeneratorError}
    (herror : (read n g).result = .error e) :
    (read n g).events = g.rekeyReports (g.completed (chunkSizes (g.blocksFor n))) := by
  obtain ⟨hevents, -⟩ := events_chunks (chunkSizes (g.blocksFor n)) g
  cases hseeded : g.isSeeded with
  | false =>
      have hnone : g.completed (chunkSizes (g.blocksFor n)) = 0 := by
        cases chunkSizes (g.blocksFor n) with
        | nil => rfl
        | cons size sizes =>
            rw [completed, chunk, Step.bind_apply, keystream_of_unseeded _ _ hseeded]
            rfl
      rw [read_of_unseeded n hseeded, hnone]
      rfl
  | true =>
      cases hchunks : (chunks (chunkSizes (g.blocksFor n)) g).result with
      | ok whole =>
          obtain ⟨out, hout⟩ := (exists_result_read_iff n hseeded).mpr ⟨whole, hchunks⟩
          cases herror.symm.trans hout
      | error e' =>
          rw [read_of_seeded n hseeded, Outcome.andThen_of_error hchunks, ← hevents]
          rfl

/-! ## The log of a seed -/

theorem events_reseed (seed : Bytes) (g : Generator F) :
    ((reseed seed g).result = .ok () ∧
        (reseed seed g).events = [.reseeded seed.length (g.totals.reseeds + 1)]) ∨
      ∃ e, (reseed seed g).result = .error e ∧ (reseed seed g).events = [] := by
  cases hcipher : F.cipherFor g.blockSize (mixedKey g.key seed) with
  | error e =>
      rw [reseed_of_refused hcipher]
      exact .inr ⟨e, rfl, rfl⟩
  | ok cipher =>
      rw [reseed_of_cipher hcipher]
      exact .inl ⟨rfl, rfl⟩

/-- A deterministic seed is reported as a seed and as a reset, or not at all. -/
theorem events_restart (seed : Int64) (g : Generator F) :
    ((restart seed g).result = .ok () ∧
        (restart seed g).events =
          [.reseeded 8 (g.totals.reseeds + 1), .restarted seed]) ∨
      ∃ e, (restart seed g).result = .error e ∧ (restart seed g).events = [] := by
  rw [restart_eq, Step.bind_apply]
  cases hzero : F.cipherFor g.blockSize zeroKey with
  | error e =>
      rw [wipe_of_refused hzero, Outcome.andThen_error]
      exact .inr ⟨e, rfl, rfl⟩
  | ok zero =>
      rw [wipe_of_cipher hzero, Outcome.andThen_ok, Step.bind_apply]
      obtain ⟨hok, hevents⟩ | ⟨e, herror, hevents⟩ :=
        events_reseed (seedBytes seed) (g.wiped zero)
      · rw [Outcome.andThen_of_ok hok]
        refine .inl ⟨rfl, ?_⟩
        change Action.events ((reseed (seedBytes seed) (g.wiped zero)).actions ++ [_]) = _
        rw [Action.events_append]
        exact congrArg (· ++ [Event.restarted seed]) hevents
      · rw [Outcome.andThen_of_error herror]
        exact .inr ⟨e, rfl, hevents⟩

/-! ## Outputs -/

/-- The output that a request is answered with, if it succeeds and asks for any. -/
def output? (g : Generator F) (op : Operation) : Option Bytes :=
  op.requested.bind fun n => (read n g).result.toOption

/-- The outputs that callers receive in a run. -/
def outputs (g : Generator F) : List Operation → List Bytes
  | [] => []
  | op :: ops => (g.output? op).toList ++ (op.perform g).state.outputs ops

theorem deliveries_rekeyReports (g : Generator F) (k : Nat) :
    deliveries (g.rekeyReports k) = [] := by
  rw [deliveries, rekeyReports, List.filterMap_map, List.filterMap_eq_nil_iff]
  intro number _
  rfl

theorem deliveries_reseed (seed : Bytes) (g : Generator F) :
    deliveries (reseed seed g).events = [] := by
  obtain ⟨-, hevents⟩ | ⟨-, -, hevents⟩ := events_reseed seed g <;> rw [hevents] <;> rfl

theorem deliveries_restart (seed : Int64) (g : Generator F) :
    deliveries (restart seed g).events = [] := by
  obtain ⟨-, hevents⟩ | ⟨-, -, hevents⟩ := events_restart seed g <;> rw [hevents] <;> rfl

/-- The bytes that a request reports are those of its output. -/
theorem sum_deliveries_perform {g : Generator F} (hg : g.Consistent) (op : Operation) :
    (deliveries (op.perform g).events).sum = ((g.output? op).toList.map List.length).sum := by
  cases hop : op.requested with
  | some n =>
      have hactions : (op.perform g).events = (read n g).events :=
        congrArg Action.events (perform_of_requested hop g).2.1
      rw [output?, hop, Option.bind_some, hactions]
      cases hout : (read n g).result with
      | ok out =>
          rw [events_read_of_ok hout, Event.deliveries_append, deliveries_rekeyReports]
          change n + 0 = out.length + 0
          rw [length_of_read_ok hg.blockSize_pos hout]
      | error e =>
          rw [events_read_of_error hout, deliveries_rekeyReports]
          rfl
  | none =>
      rw [output?, hop]
      cases op with
      | reseed seed =>
          have hevents : ((Operation.reseed seed).perform g).events = (reseed seed g).events :=
            congrArg Action.events (perform_reseed seed g).2.1
          rw [hevents, deliveries_reseed]
          rfl
      | restart seed =>
          have hevents : ((Operation.restart seed).perform g).events = (restart seed g).events :=
            congrArg Action.events (perform_restart seed g).2.1
          rw [hevents, deliveries_restart]
          rfl
      | read | fill | int63 | fillOrAbort | nextUInt32 | nextUInt64 => cases hop

theorem sum_deliveries_transcript {g : Generator F} (hg : g.Consistent) (ops : List Operation) :
    (deliveries (Action.events (g.transcript ops))).sum =
      ((g.outputs ops).map List.length).sum := by
  induction ops generalizing g with
  | nil => rfl
  | cons op ops ih =>
      have hnext := (runs_perform op g).consistent hg
      rw [transcript, outputs, Action.events_append, Event.deliveries_append, List.sum_append,
        List.map_append, List.sum_append, ih hnext]
      exact congrArg (· + _) (sum_deliveries_perform hg op)

/-! ## The log of a run -/

theorem events_perform_of_requested {op : Operation} {n : Nat} (hop : op.requested = some n)
    (g : Generator F) :
    (∀ a, (op.perform g).result = .ok a →
        (∃ out, g.output? op = some out ∧ a = op.answer out) ∧
          (op.perform g).events =
            g.rekeyReports (chunkSizes (g.blocksFor n)).length ++ [.delivered n]) ∧
      ∀ e, (op.perform g).result = .error e →
        g.output? op = none ∧
          (op.perform g).events = g.rekeyReports (g.completed (chunkSizes (g.blocksFor n))) := by
  have hevents : (op.perform g).events = (read n g).events :=
    congrArg Action.events (perform_of_requested hop g).2.1
  rw [hevents, output?, hop, Option.bind_some, Operation.result_perform hop]
  cases hout : (read n g).result with
  | ok out =>
      constructor
      · intro a ha
        obtain rfl : op.answer out = a := Except.ok.inj ha
        exact ⟨⟨out, rfl, rfl⟩, events_read_of_ok hout⟩
      · intro e herror
        cases herror
  | error cause =>
      constructor
      · intro a ha
        cases ha
      · intro e _
        exact ⟨rfl, events_read_of_error hout⟩

theorem events_perform_restart (seed : Int64) (g : Generator F) :
    let o := (Operation.restart seed).perform g
    (∀ a, o.result = .ok a →
        o.events = [.reseeded 8 (g.totals.reseeds + 1), .restarted seed]) ∧
      ∀ e, o.result = .error e → o.events = [] := by
  intro o
  obtain ⟨-, hactions, hresult⟩ := perform_restart seed g
  have hevents : o.events = (restart seed g).events := congrArg Action.events hactions
  rw [hevents]
  rcases events_restart seed g with ⟨hok, hlog⟩ | ⟨e, herror, hlog⟩
  · refine ⟨fun _ _ => hlog, ?_⟩
    intro e herror
    obtain ⟨a, ha⟩ := hresult.mpr ⟨(), hok⟩
    cases ha.symm.trans herror
  · refine ⟨?_, fun _ _ => hlog⟩
    intro a ha
    obtain ⟨u, hok⟩ := hresult.mp ⟨a, ha⟩
    cases hok.symm.trans herror

/-- In every state that requests leave behind, the log replays to the totals.
Seeds and new keys have been reported with the numbers from 1 to their totals,
one report each, and the bytes reported add up to the total of bytes, which is
the length of all outputs received.  The next request for output reports a new key
for each of its chunks and then its bytes if it succeeds, and the keys of the
chunks that it completed if not; a deterministic seed reports the seed and then
the reset, and nothing if it fails.

Numbers and totals are those of a program as long as the totals fit words of 64 bits
(`Totals.FitWords`); beyond that a program reports them modulo `2 ^ 64`. -/
theorem log_replays_to_totals {c : Created F} (hcreate : create F = .ok c)
    (ops : List Operation) :
    let g := c.generator.after ops
    let log := Action.events (c.history ops)
    let blocks := fun n => (n + g.blockSize - 1) / g.blockSize
    reseedNumbers log = List.range' 1 g.totals.reseeds ∧
      rekeyNumbers log = List.range' 1 g.totals.rekeys ∧
      (deliveries log).sum = g.totals.bytes ∧
      ((c.generator.outputs ops).map List.length).sum = g.totals.bytes ∧
      (∀ op n, op.requested = some n →
        (∀ a, (op.perform g).result = .ok a →
            (∃ out, g.output? op = some out ∧ a = op.answer out) ∧
              (op.perform g).events =
                g.rekeyReports ((blocks n + maxBlocks - 1) / maxBlocks) ++ [.delivered n]) ∧
          ∀ e, (op.perform g).result = .error e →
            g.output? op = none ∧
              (op.perform g).events = g.rekeyReports (g.completed (chunkSizes (blocks n)))) ∧
      ∀ seed,
        let o := (Operation.restart seed).perform g
        (∀ a, o.result = .ok a →
            o.events = [.reseeded 8 (g.totals.reseeds + 1), .restarted seed]) ∧
          ∀ e, o.result = .error e → o.events = [] := by
  intro g log blocks
  have hstart := consistent_of_create hcreate
  obtain ⟨hreseeds, hrekeys, hbytes⟩ := replays_history hcreate ops
  rw [Nat.zero_add] at hbytes
  refine ⟨hreseeds.symm, hrekeys.symm, hbytes.symm, ?_, ?_, ?_⟩
  · rw [← sum_deliveries_transcript hstart, hbytes, Created.history, Action.events_append,
      Event.deliveries_append]
    obtain ⟨cipher, -, -, rfl⟩ := (create_eq_ok_iff c).mp hcreate
    rfl
  · intro op n hop
    rw [← length_chunkSizes]
    exact events_perform_of_requested hop g
  · intro seed
    exact events_perform_restart seed g

/-- A run in which the first request comes before any seed, and the log of one
more request of two blocks. -/
theorem log_replays_to_totals_after_restart :
    let c : Created _ := ⟨plainGenerator, [.installed zeroKey, .logged (.created 16)]⟩
    let ops : List Operation := [.read 5, .reseed [1], .read 40, .restart 7, .int63]
    let g := c.generator.after ops
    reseedNumbers (Action.events (c.history ops)) = List.range' 1 2 ∧
      rekeyNumbers (Action.events (c.history ops)) = List.range' 1 2 ∧
      (deliveries (Action.events (c.history ops))).sum = 48 ∧
      ((Operation.read 20).perform g).events = [.rekeyed 3, .delivered 20] := by
  intro c ops g
  have hcreate : create (Transparent.factory ⟨.identity, 16, none⟩) = .ok c := rfl
  have htotals : g.totals = { reseeds := 2, rekeys := 2, blocks := 8, bytes := 48 } := by
    decide +kernel
  obtain ⟨hreseeds, hrekeys, hbytes, -, hrequests, -⟩ := log_replays_to_totals hcreate ops
  have hok : ((Operation.read 20).perform g).result =
      .ok (.bytes [4, 0, 0, 0, 0, 0, 0, 0, 0, 0, 0, 0, 0, 0, 0, 0, 5, 0, 0, 0]) := by
    decide +kernel
  have hevents : ((Operation.read 20).perform g).events =
      g.rekeyReports (((20 + g.blockSize - 1) / g.blockSize + maxBlocks - 1) / maxBlocks) ++
        [.delivered 20] := ((hrequests (.read 20) 20 rfl).1 _ hok).2
  have hsize : g.blockSize = 16 := (run_after c.generator ops).blockSize_eq
  rw [htotals] at hreseeds hrekeys hbytes
  rw [hsize, rekeyReports, htotals] at hevents
  exact ⟨hreseeds, hrekeys, hbytes, hevents⟩

end Generator

end Fortuna

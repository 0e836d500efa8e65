import Fortuna.Metrics.Exposition
import Fortuna.Proofs.Generator.Forgetting
import Fortuna.Proofs.Generator.Seededness

/-!
# What a generator gives away

Beside its answers a generator shows how requests end, the events that it
reports, a description of itself and a snapshot for metrics.  None of this depends
on key or cipher.  Call generators twins if key and cipher alone tell them apart
(`Twins`).  Under a factory that serves every key, an operation on twins ends
alike, reports the same and leaves twins (`Step.Alike`), even if the seed that it
mixes in differs, as long as the lengths agree.  So an outsider who sees all but
the answers sees the same of two runs whose seeds have the same lengths
(`sightings_ignore_seed_contents`).
-/

namespace Fortuna

namespace Generator

variable {F : CipherFactory}

/-! ## Twins -/

/-- Nothing but key and cipher tells the two generators apart. -/
structure Twins (g h : Generator F) : Prop where
  counter : g.counter = h.counter
  totals : g.totals = h.totals

section Twins

variable {g h : Generator F}

theorem Twins.refl (g : Generator F) : Twins g g :=
  ⟨rfl, rfl⟩

theorem Twins.isSeeded_eq (htwins : Twins g h) : g.isSeeded = h.isSeeded := by
  rw [isSeeded, isSeeded, htwins.counter]

theorem Twins.blockSize_eq (htwins : Twins g h) : g.blockSize = h.blockSize := by
  rw [blockSize, blockSize, htwins.counter]

theorem Twins.keyBlocks_eq (htwins : Twins g h) : g.keyBlocks = h.keyBlocks := by
  rw [keyBlocks, keyBlocks, blocksFor, blocksFor, htwins.blockSize_eq]

theorem Twins.drawn (htwins : Twins g h) (k : Nat) : Twins (g.drawn k) (h.drawn k) := by
  constructor
  · rw [counter_drawn, counter_drawn, htwins.counter]
  · simp only [Generator.drawn, htwins.totals]

/-- Twins describe themselves in the same words. -/
theorem Twins.describe_eq (htwins : Twins g h) : g.describe = h.describe := by
  unfold describe
  rw [htwins.blockSize_eq, htwins.isSeeded_eq, htwins.totals]

theorem Twins.snapshot_eq (htwins : Twins g h) :
    Snapshot.ofGenerator g = Snapshot.ofGenerator h := by
  rw [Snapshot.ofGenerator, Snapshot.ofGenerator, htwins.blockSize_eq, htwins.isSeeded_eq,
    htwins.totals]

end Twins

end Generator

/-! ## Endings -/

/-- How an operation ends, whatever it yields. -/
def Outcome.ending {F : CipherFactory} {ε α : Type} (o : Outcome F ε α) : Except ε Unit :=
  o.result.map fun _ => ()

@[simp] theorem Outcome.ending_ok {F : CipherFactory} {ε α : Type} (a : α) (g : Generator F)
    (as : List Action) :
    (⟨.ok a, g, as⟩ : Outcome F ε α).ending = .ok () :=
  rfl

/-! ## Operations on twins -/

namespace Step

open Generator

variable {F : CipherFactory} {ε ε' α α' β β' : Type} {bs : Nat}

/-- On twins with blocks of the given size the operations end alike, report the
same and leave twins; only what they yield may differ. -/
def Alike (bs : Nat) (x : Step F ε α) (y : Step F ε β) : Prop :=
  ∀ g h, g.blockSize = bs → Twins g h →
    (x g).ending = (y h).ending ∧ (x g).events = (y h).events ∧
      Twins (x g).state (y h).state ∧ (x g).state.blockSize = bs

theorem Alike.pure (a : α) (b : β) :
    (pure a : Step F ε α).Alike bs (pure b : Step F ε β) :=
  fun _ _ hsize htwins => ⟨rfl, rfl, htwins, hsize⟩

theorem Alike.bind {x : Step F ε α} {y : Step F ε β} {f : α → Step F ε α'} {k : β → Step F ε β'}
    (hx : x.Alike bs y) (hf : ∀ a b, (f a).Alike bs (k b)) :
    (x >>= f).Alike bs (y >>= k) := by
  intro g h hsize htwins
  obtain ⟨hending, hevents, hstate, hsize'⟩ := hx g h hsize htwins
  rw [bind_apply, bind_apply]
  generalize x g = o at hending hevents hstate hsize' ⊢
  generalize y h = p at hending hevents hstate ⊢
  rcases o with ⟨e | a, g', as⟩ <;> rcases p with ⟨e' | b, h', as'⟩
  · exact ⟨hending, hevents, hstate, hsize'⟩
  · cases hending
  · cases hending
  · obtain ⟨hending', hevents', hstate', hsize''⟩ := hf a b g' h' hsize' hstate
    refine ⟨hending', ?_, hstate', hsize''⟩
    change Action.events (as ++ _) = Action.events (as' ++ _)
    rw [Action.events_append, Action.events_append]
    exact congrArg₂ _ hevents hevents'

theorem Alike.mapError {x : Step F ε α} {y : Step F ε β} (hx : x.Alike bs y) (f : ε → ε') :
    (x.mapError f).Alike bs (y.mapError f) := by
  intro g h hsize htwins
  obtain ⟨hending, hevents, hnext⟩ := hx g h hsize htwins
  refine ⟨?_, hevents, hnext⟩
  have hmap {γ : Type} (o : Outcome F ε γ) : (o.mapError f).ending = o.ending.mapError f := by
    rcases o with ⟨_ | _, _, _⟩ <;> rfl
  rw [mapError_apply, mapError_apply, hmap, hmap, hending]

end Step

namespace CipherFactory.Steady

open Generator Step

variable {F : CipherFactory} {bs : Nat}

theorem alike_keystream (purpose : Purpose) (k : Nat) :
    (keystream purpose k : Step F GeneratorError Bytes).Alike bs (keystream purpose k) := by
  intro g h hsize htwins
  cases hseeded : g.isSeeded with
  | false =>
      have hseeded' : h.isSeeded = false := htwins.isSeeded_eq ▸ hseeded
      rw [keystream_of_unseeded _ _ hseeded, keystream_of_unseeded _ _ hseeded']
      exact ⟨rfl, rfl, htwins, hsize⟩
  | true =>
      have hseeded' : h.isSeeded = true := htwins.isSeeded_eq ▸ hseeded
      rw [keystream_of_seeded _ _ hseeded, keystream_of_seeded _ _ hseeded']
      refine ⟨rfl, ?_, htwins.drawn k, (blockSize_drawn g k).trans hsize⟩
      exact (events_trail g purpose k).trans (events_trail h purpose k).symm

theorem alike_rekey (hF : F.Steady bs) :
    (rekey : Step F GeneratorError Unit).Alike bs rekey := by
  intro g h hsize htwins
  have hsize' : h.blockSize = bs := htwins.blockSize_eq ▸ hsize
  cases hseeded : g.isSeeded with
  | false =>
      have hseeded' : h.isSeeded = false := htwins.isSeeded_eq ▸ hseeded
      rw [rekey_of_unseeded hseeded, rekey_of_unseeded hseeded']
      exact ⟨rfl, rfl, htwins, hsize⟩
  | true =>
      have hseeded' : h.isSeeded = true := htwins.isSeeded_eq ▸ hseeded
      obtain ⟨cipher, hcipher⟩ := hF.exists_cipherFor (length_freshKey (hsize ▸ hF.pos))
      obtain ⟨cipher', hcipher'⟩ := hF.exists_cipherFor (length_freshKey (hsize' ▸ hF.pos))
      rw [rekey_of_cipher hseeded (hsize ▸ hcipher), rekey_of_cipher hseeded' (hsize' ▸ hcipher')]
      have hdrawn := htwins.drawn g.keyBlocks
      refine ⟨rfl, ?_, ⟨?_, ?_⟩, (blockSize_drawn g _).trans hsize⟩
      · change Action.events (_ ++ _) = Action.events (_ ++ _)
        rw [Action.events_append, Action.events_append, events_trail, events_trail, htwins.totals]
        rfl
      · rw [← htwins.keyBlocks_eq]
        exact hdrawn.counter
      · rw [← htwins.keyBlocks_eq]
        simp only [Generator.drawn, htwins.totals]

theorem alike_chunk (hF : F.Steady bs) (size : Nat) :
    (chunk size : Step F GeneratorError Bytes).Alike bs (chunk size) := by
  apply (alike_keystream .output size).bind
  intro out out'
  apply hF.alike_rekey.bind
  intro _ _
  exact .pure out out'

theorem alike_chunks (hF : F.Steady bs) (sizes : List Nat) :
    (chunks sizes : Step F GeneratorError Bytes).Alike bs (chunks sizes) := by
  induction sizes with
  | nil => exact .pure [] []
  | cons size sizes ih =>
      rw [chunks_cons]
      apply (hF.alike_chunk size).bind
      intro first first'
      apply ih.bind
      intro rest rest'
      exact .pure _ _

theorem alike_deliver (n : Nat) (out out' : Bytes) :
    (deliver n out : Step F GeneratorError Bytes).Alike bs (deliver n out') := by
  intro g h hsize htwins
  refine ⟨rfl, rfl, ⟨htwins.counter, ?_⟩, hsize⟩
  simp only [deliver_apply, delivered, htwins.totals]

theorem alike_read (hF : F.Steady bs) (n : Nat) :
    (read n : Step F GeneratorError Bytes).Alike bs (read n) := by
  intro g h hsize htwins
  cases hseeded : g.isSeeded with
  | false =>
      have hseeded' : h.isSeeded = false := htwins.isSeeded_eq ▸ hseeded
      rw [read_of_unseeded n hseeded, read_of_unseeded n hseeded']
      exact ⟨rfl, rfl, htwins, hsize⟩
  | true =>
      have hseeded' : h.isSeeded = true := htwins.isSeeded_eq ▸ hseeded
      have hblocks : h.blocksFor n = g.blocksFor n := by
        rw [blocksFor, blocksFor, htwins.blockSize_eq]
      rw [read_of_seeded n hseeded, read_of_seeded n hseeded', hblocks]
      exact (hF.alike_chunks (chunkSizes (g.blocksFor n))).bind (alike_deliver n) g h hsize htwins

theorem alike_reseed (hF : F.Steady bs) {seed seed' : Bytes}
    (hlength : seed.length = seed'.length) :
    (reseed seed : Step F GeneratorError Unit).Alike bs (reseed seed') := by
  intro g h hsize htwins
  have hsize' : h.blockSize = bs := htwins.blockSize_eq ▸ hsize
  obtain ⟨cipher, hcipher⟩ := hF.exists_cipherFor (length_mixedKey g.key seed)
  obtain ⟨cipher', hcipher'⟩ := hF.exists_cipherFor (length_mixedKey h.key seed')
  rw [reseed_of_cipher (hsize ▸ hcipher), reseed_of_cipher (hsize' ▸ hcipher')]
  refine ⟨?_, ?_, ⟨?_, ?_⟩, (blockSize_mixed g seed cipher).trans hsize⟩
  · rw [Outcome.ending_ok, Outcome.ending_ok]
  · simp only [Outcome.events, Action.events_installed, Action.events_logged, htwins.totals,
      hlength]
  · exact congrArg Counter.next htwins.counter
  · simp only [mixed, htwins.totals]

theorem alike_wipe (hF : F.Steady bs) : (wipe : Step F GeneratorError Unit).Alike bs wipe := by
  intro g h hsize htwins
  have hsize' : h.blockSize = bs := htwins.blockSize_eq ▸ hsize
  have hlength : zeroKey.length = keySize := List.length_replicate
  obtain ⟨zero, hzero⟩ := hF.exists_cipherFor hlength
  rw [wipe_of_cipher (hsize ▸ hzero), wipe_of_cipher (hsize' ▸ hzero)]
  refine ⟨rfl, rfl, ⟨?_, htwins.totals⟩, (blockSize_wiped g zero).trans hsize⟩
  exact congrArg Counter.zero htwins.blockSize_eq

theorem alike_restart (hF : F.Steady bs) (seed : Int64) :
    (restart seed : Step F GeneratorError Unit).Alike bs (restart seed) := by
  rw [restart_eq]
  apply hF.alike_wipe.bind
  intro _ _
  apply (hF.alike_reseed rfl).bind
  intro _ _ g h hsize htwins
  exact ⟨rfl, rfl, htwins, hsize⟩

end CipherFactory.Steady

/-! ## Requests that differ in contents alone -/

namespace Operation

/-- The request with the contents of its byte strings blanked out; their lengths
stay. -/
def blank : Operation → Operation
  | .reseed seed => .reseed (List.replicate seed.length 0)
  | .fill buffer => .fill (List.replicate buffer.length 0)
  | .fillOrAbort buffer => .fillOrAbort (List.replicate buffer.length 0)
  | op => op

@[simp] theorem requested_blank (op : Operation) : op.blank.requested = op.requested := by
  cases op <;> simp [blank, requested]

@[simp] theorem failure_blank (op : Operation) : op.blank.failure = op.failure := by
  cases op <;> rfl

theorem ending_perform {F : CipherFactory} {op : Operation} {n : Nat}
    (hop : op.requested = some n) (g : Generator F) :
    (op.perform g).ending = (Generator.read n g).ending.mapError op.failure := by
  rw [Outcome.ending, result_perform hop, Outcome.ending]
  cases (Generator.read n g).result <;> rfl

end Operation

namespace CipherFactory.Steady

open Generator

variable {F : CipherFactory} {bs : Nat}

theorem alike_perform (hF : F.Steady bs) {op op' : Operation} (hblank : op.blank = op'.blank) :
    (op.perform : Step F Failure Answer).Alike bs op'.perform := by
  have hrequested : op.requested = op'.requested := by
    rw [← op.requested_blank, hblank, op'.requested_blank]
  have hfailure : op.failure = op'.failure := by
    rw [← op.failure_blank, hblank, op'.failure_blank]
  cases hop : op.requested with
  | some n =>
      have hop' : op'.requested = some n := hrequested ▸ hop
      intro g h hsize htwins
      obtain ⟨hstate, hactions, -⟩ := perform_of_requested hop g
      obtain ⟨hstate', hactions', -⟩ := perform_of_requested hop' h
      obtain ⟨hending, hevents, hnext⟩ := hF.alike_read n g h hsize htwins
      rw [Operation.ending_perform hop, Operation.ending_perform hop', hfailure, hending,
        Outcome.events, Outcome.events, hactions, hactions', hstate, hstate']
      exact ⟨rfl, hevents, hnext⟩
  | none =>
      cases op with
      | reseed seed =>
          cases op' with
          | reseed seed' =>
              have hlength : seed.length = seed'.length := by
                simpa using congrArg List.length (Operation.reseed.inj hblank)
              exact ((hF.alike_reseed hlength).mapError _).bind fun _ _ => .pure _ _
          | _ => cases hblank
      | restart seed =>
          cases op' with
          | restart seed' =>
              obtain rfl : seed = seed' := Operation.restart.inj hblank
              exact ((hF.alike_restart seed).mapError _).bind fun _ _ => .pure _ _
          | _ => cases hblank
      | read | fill | int63 | fillOrAbort | nextUInt32 | nextUInt64 => cases hop

end CipherFactory.Steady

/-! ## Sightings -/

/-- What an outsider sees of a request and of the generator after it: all but the
answer. -/
structure Sighting where
  ending : Except Failure Unit
  events : List Event
  isSeeded : Bool
  blockSize : Nat
  totals : Totals
  description : String
  snapshot : Snapshot

namespace Generator

variable {F : CipherFactory}

/-- What is seen of each request of a run. -/
def sightings (g : Generator F) : List Operation → List Sighting
  | [] => []
  | op :: ops =>
    let o := op.perform g
    { ending := o.ending
      events := o.events
      isSeeded := o.state.isSeeded
      blockSize := o.state.blockSize
      totals := o.state.totals
      description := o.state.describe
      snapshot := .ofGenerator o.state } :: o.state.sightings ops

/-- The text of a registry that was fed with snapshots at some moments of a run;
moment `i` is the one behind its first `i` requests. -/
def metricsText (g : Generator F) (ops : List Operation) (moments : List Nat) : String :=
  ((moments.map fun i => Snapshot.ofGenerator (g.after (ops.take i))).foldl Registry.update {}).text

theorem twins_after {bs : Nat} (hF : F.Steady bs) {ops ops' : List Operation}
    (hops : ops.map Operation.blank = ops'.map Operation.blank) {g h : Generator F}
    (hsize : g.blockSize = bs) (htwins : Twins g h) :
    Twins (g.after ops) (h.after ops') ∧ g.sightings ops = h.sightings ops' ∧
      Action.events (g.transcript ops) = Action.events (h.transcript ops') := by
  induction ops generalizing ops' g h with
  | nil =>
      obtain rfl : ops' = [] := List.map_eq_nil_iff.mp hops.symm
      exact ⟨htwins, rfl, rfl⟩
  | cons op ops ih =>
      cases ops' with
      | nil => cases hops
      | cons op' ops' =>
          obtain ⟨hhead, htail⟩ := List.cons.inj hops
          obtain ⟨hending, hevents, hnext, hsize'⟩ := hF.alike_perform hhead g h hsize htwins
          obtain ⟨hlast, hsightings, hlater⟩ := ih htail hsize' hnext
          refine ⟨hlast, ?_, ?_⟩
          · simp only [sightings, hending, hevents, hnext.isSeeded_eq, hnext.blockSize_eq,
              hnext.totals, hnext.describe_eq, hnext.snapshot_eq, hsightings]
          · rw [transcript, transcript, Action.events_append, Action.events_append, hlater]
            exact congrArg (· ++ _) hevents

/-- Under a factory that serves every key, two runs that differ only in the
contents of their byte strings look the same from outside: request by request they
end alike, report the same events and leave the same seededness, block size,
totals, description and snapshot, and so a registry fed with snapshots at any
moments has the same text. -/
theorem sightings_ignore_seed_contents {bs : Nat} (hF : F.Steady bs) {c : Created F}
    (hcreate : create F = .ok c) {ops ops' : List Operation}
    (hops : ops.map Operation.blank = ops'.map Operation.blank) :
    c.generator.sightings ops = c.generator.sightings ops' ∧
      Action.events (c.history ops) = Action.events (c.history ops') ∧
      ∀ moments, c.generator.metricsText ops moments = c.generator.metricsText ops' moments := by
  have hsize : c.generator.blockSize = bs := blockSize_of_counter (hF.counter_of_create hcreate)
  have hstart : Twins c.generator c.generator := .refl _
  obtain ⟨-, hsightings, hevents⟩ := twins_after hF hops hsize hstart
  refine ⟨hsightings, ?_, ?_⟩
  · rw [Created.history, Created.history, Action.events_append, Action.events_append, hevents]
  · intro moments
    have hsnapshots : (moments.map fun i => Snapshot.ofGenerator (c.generator.after (ops.take i))) =
        moments.map fun i => Snapshot.ofGenerator (c.generator.after (ops'.take i)) := by
      refine List.map_congr_left fun i _ => ?_
      have hprefix : (ops.take i).map Operation.blank = (ops'.take i).map Operation.blank := by
        rw [List.map_take, List.map_take, hops]
      exact (twins_after hF hprefix hsize hstart).1.snapshot_eq
    rw [metricsText, metricsText, hsnapshots]

/-- Two seeds of one length under a cipher that adds the key to each block. -/
theorem sightings_of_two_seeds :
    let ops : List Operation := [.reseed [1, 2, 3], .read 20, .restart 7, .nextUInt64]
    let ops' : List Operation := [.reseed [4, 5, 6], .read 20, .restart 7, .nextUInt64]
    maskGenerator.sightings ops = maskGenerator.sightings ops' ∧
      maskGenerator.metricsText ops [1, 2, 4] = maskGenerator.metricsText ops' [1, 2, 4] := by
  intro ops ops'
  have hcreate : create (Transparent.factory ⟨.mask, 16, none⟩) =
      .ok ⟨maskGenerator, [.installed zeroKey, .logged (.created 16)]⟩ := rfl
  have hops : ops.map Operation.blank = ops'.map Operation.blank := rfl
  obtain ⟨hsightings, -, hmetrics⟩ :=
    sightings_ignore_seed_contents (Transparent.steady .mask (by decide)) hcreate hops
  exact ⟨hsightings, hmetrics [1, 2, 4]⟩

end Generator

end Fortuna

import Fortuna.Cipher.Aes
import Fortuna.Proofs.Generator.Seededness

/-!
# Availability

Output of a seeded generator fails in two ways: a key is refused, or the counter
stands at zero again.  AES takes every key, in blocks of sixteen bytes
(`Aes.steady`), and a counter of sixteen bytes that has left zero is not back there
before `2 ^ 128` steps.  Within that many steps a generator over AES is available:
it can be built in each of the ways there are, every seed is taken, and output is
refused only as long as there was no seed (`available_once_seeded`).

The bound is on the steps that were taken.  A request that fails has taken those
that led up to its failure, and output takes no step back (`Run.le_foldl_tally`),
so a bound on the steps after a request holds wherever the request looks at the
counter.
-/

namespace Fortuna

theorem Aes.steady : (Aes.factory .aes256).Steady Aes.blockSize where
  pos := by decide
  build key hkey := ⟨Aes.cipher .aes256 key, Aes.build_eq_ok hkey, rfl⟩

/-! ## Within one round of the counter -/

namespace Step

open Generator

variable {F : CipherFactory} {ε α β : Type} {bs : Nat}

/-- The operation only draws keystream, and succeeds if it starts behind zero and
does not take the counter through a whole round. -/
structure Available (bs : Nat) (x : Step F ε α) : Prop where
  runs : x.Runs Draw
  ok : ∀ {g : Generator F} {s : Nat}, g.counter = .ofNat bs s → 0 < s →
    (x g).actions.foldl Action.tally s < 256 ^ bs → ∃ a, (x g).result = .ok a

theorem Available.pure (a : α) : (pure a : Step F ε α).Available bs where
  runs := .pure a
  ok _ _ _ := ⟨a, rfl⟩

theorem Available.bind {x : Step F ε α} {f : α → Step F ε β}
    (hx : x.Available bs) (hf : ∀ a, (f a).Available bs) :
    (x >>= f).Available bs where
  runs := hx.runs.bind fun a => (hf a).runs
  ok := by
    intro g s hcounter hpos hlt
    -- what comes after the first part only adds steps
    have hfirst : (x g).actions.foldl Action.tally s ≤
        ((x >>= f) g).actions.foldl Action.tally s := by
      rw [bind_apply]
      cases hresult : (x g).result with
      | error e => rw [Outcome.andThen_of_error hresult]
      | ok a =>
          rw [Outcome.andThen_of_ok hresult, List.foldl_append]
          exact ((hf a).runs _).le_foldl_tally _
    obtain ⟨a, ha⟩ := hx.ok hcounter hpos (lt_of_le_of_lt hfirst hlt)
    rw [bind_apply, Outcome.andThen_of_ok ha] at hlt ⊢
    rw [List.foldl_append] at hlt
    have hcounter' := ((hx.runs g).mono .draw).counter_eq hcounter
    exact (hf a).ok hcounter' (lt_of_lt_of_le hpos ((hx.runs g).le_foldl_tally s)) hlt

end Step

namespace Generator

variable {F : CipherFactory}

theorem isSeeded_of_lt {g : Generator F} {width s : Nat} (hcounter : g.counter = .ofNat width s)
    (hpos : 0 < s) (hlt : s < 256 ^ width) :
    g.isSeeded = true :=
  (isSeeded_iff hcounter).mpr (Nat.not_dvd_of_pos_of_lt hpos hlt)

/-- Without a seed a request for output is refused, and changes nothing. -/
theorem perform_of_unseeded {op : Operation} {n : Nat} (hop : op.requested = some n)
    {g : Generator F} (hseeded : g.isSeeded = false) :
    op.perform g = ⟨.error (op.failure .unseeded), g, []⟩ := by
  have hresult := Operation.result_perform hop g
  obtain ⟨hstate, hactions, -⟩ := perform_of_requested hop g
  rw [read_of_unseeded n hseeded] at hresult hstate hactions
  generalize op.perform g = o at hresult hstate hactions
  rcases o with ⟨result, h, as⟩
  simp only [Except.map, Except.mapError] at hresult hstate hactions
  rw [hresult, hstate, hactions]

end Generator

namespace CipherFactory.Steady

open Generator

variable {F : CipherFactory} {bs : Nat}

theorem available_chunk (hF : F.Steady bs) {size : Nat} (hpos : 0 < size)
    (hmax : size ≤ maxBlocks) :
    (chunk size : Step F GeneratorError Bytes).Available bs where
  runs := runs_chunk hpos hmax
  ok := by
    intro g s hcounter hs hlt
    have hsize := blockSize_of_counter hcounter
    have hkey_counter : (g.drawn size).counter = .ofNat bs (s + size) := by
      rw [counter_drawn, hcounter, Counter.advance_ofNat]
    have hend := chunk_end g size
    generalize chunk size g = o at hend hlt ⊢
    cases hend with
    | unseeded hseeded =>
        exact absurd (isSeeded_of_lt hcounter hs hlt) (Bool.not_eq_true _ ▸ hseeded)
    | stalled hseeded hdrawn =>
        rw [foldl_tally_trail] at hlt
        have hkey := isSeeded_of_lt hkey_counter (Nat.add_pos_left hs size) hlt
        exact absurd hkey (Bool.not_eq_true _ ▸ hdrawn)
    | refused e hseeded hdrawn hcipher =>
        have hlength : (g.nextKey size).length = keySize :=
          length_freshKey (lt_of_lt_of_eq hF.pos (hsize.symm.trans (blockSize_drawn g size).symm))
        obtain ⟨cipher, hok⟩ := hF.exists_cipherFor hlength
        rw [hsize, hok] at hcipher
        cases hcipher
    | rekeyed cipher => exact ⟨_, rfl⟩

theorem available_chunks (hF : F.Steady bs) {sizes : List Nat}
    (hsizes : ∀ size ∈ sizes, 0 < size ∧ size ≤ maxBlocks) :
    (chunks sizes : Step F GeneratorError Bytes).Available bs := by
  induction sizes with
  | nil => exact .pure []
  | cons size sizes ih =>
      rw [List.forall_mem_cons] at hsizes
      obtain ⟨⟨hpos, hmax⟩, hrest⟩ := hsizes
      rw [chunks_cons]
      apply (hF.available_chunk hpos hmax).bind
      intro first
      apply (ih hrest).bind
      intro rest
      exact .pure _

theorem available_read (hF : F.Steady bs) (n : Nat) :
    (read n : Step F GeneratorError Bytes).Available bs where
  runs := runs_read n
  ok := by
    intro g s hcounter hpos hlt
    have hseeded : g.isSeeded = true :=
      isSeeded_of_lt hcounter hpos (lt_of_le_of_lt ((runs_read n g).le_foldl_tally s) hlt)
    have hdeliver (out : Bytes) : (deliver n out : Step F GeneratorError Bytes).Available bs :=
      ⟨fun h => .single (.delivered n), fun _ _ _ => ⟨_, rfl⟩⟩
    have hchunks :
        (chunks (chunkSizes (g.blocksFor n)) : Step F GeneratorError Bytes).Available bs :=
      hF.available_chunks fun _ => bounds_of_mem_chunkSizes
    rw [read_of_seeded n hseeded] at hlt ⊢
    exact (hchunks.bind hdeliver).ok hcounter hpos hlt

end CipherFactory.Steady

/-! ## Generators over AES -/

namespace Generator

variable {F : CipherFactory}

/-- The ways in which a generator is built. -/
inductive Start where
  | unseeded
  | bytes (seed : Bytes)
  | word (seed : UInt64)

namespace Start

def make (F : CipherFactory) : Start → Except GeneratorError (Created F)
  | .unseeded => create F
  | .bytes seed => ofSeed F seed
  | .word seed => ofWord F seed

/-- The requests that a generator takes while it is built. -/
def seeds : Start → List Operation
  | .unseeded => []
  | .bytes seed => [.reseed seed]
  | .word seed => [.restart seed.toInt64]

end Start

/-- A seed during construction is a first request. -/
theorem Created.andThen_eq {c : Created F} {op : Operation} {x : Step F GeneratorError Unit}
    (hlike : (op.perform : Step F Failure Answer).Like x)
    (hok : ∃ answer, (op.perform c.generator).result = .ok answer) :
    c.andThen x = .ok ⟨c.generator.after [op], c.history [op]⟩ := by
  obtain ⟨hstate, hactions, hiff⟩ := hlike c.generator
  obtain ⟨u, hu⟩ := hiff.mp hok
  rw [andThen, hu, after, after, hstate, history, transcript, transcript, hactions,
    List.append_nil]
  rfl

/-- The steps of a generator are counted from its first request on. -/
theorem steps_history {c : Created F} (hcreate : create F = .ok c) (ops : List Operation) :
    Action.steps (c.history ops) = (c.generator.transcript ops).foldl Action.tally 0 := by
  obtain ⟨cipher, -, -, rfl⟩ := (create_eq_ok_iff c).mp hcreate
  rfl

end Generator

namespace CipherFactory.Steady

open Generator

variable {F : CipherFactory} {bs : Nat}

/-- Every way of building a generator succeeds, and amounts to the creation of an
unseeded generator and requests to it. -/
theorem exists_make (hF : F.Steady bs) (start : Start) :
    ∃ c, create F = .ok c ∧
      start.make F = .ok ⟨c.generator.after start.seeds, c.history start.seeds⟩ := by
  obtain ⟨zero, hbuild, hsize⟩ := hF.build zeroKey List.length_replicate
  obtain ⟨c, hcreate⟩ : ∃ c, create F = .ok c :=
    ⟨_, (create_eq_ok_iff _).mpr ⟨zero, hbuild, hsize ▸ hF.pos, rfl⟩⟩
  have hseed {op : Operation} (hop : op.requested = none) :=
    (hF.perform_seed (blockSize_of_counter (hF.counter_of_create hcreate)) hop 0).1
  refine ⟨c, hcreate, ?_⟩
  cases start with
  | unseeded =>
      rw [Start.make, hcreate, Start.seeds, after, Created.history, transcript, List.append_nil]
  | bytes seed =>
      rw [Start.make, ofSeed, hcreate]
      exact Created.andThen_eq (perform_reseed seed) (hseed rfl)
  | word seed =>
      rw [Start.make, ofWord, hcreate]
      exact Created.andThen_eq (perform_restart seed.toInt64) (hseed rfl)

/-- The counter stands at the number of its steps. -/
theorem counter_after (hF : F.Steady bs) {c : Created F} (hcreate : create F = .ok c)
    (ops : List Operation) :
    (c.generator.after ops).counter = .ofNat bs (Action.steps (c.history ops)) := by
  rw [steps_history hcreate]
  exact (run_after c.generator ops).counter_eq (hF.counter_of_create hcreate)

/-- The counter has taken a step once there was a seed. -/
theorem zero_lt_steps_iff (hF : F.Steady bs) {c : Created F} (hcreate : create F = .ok c)
    (ops : List Operation) :
    0 < Action.steps (c.history ops) ↔ ∃ op ∈ ops, op.requested = none := by
  rw [steps_history hcreate, hF.zero_lt_tally_transcript_iff ops (hF.counter_of_create hcreate)]
  simp

/-- Output that is asked for after a seed and within one round of the counter is
delivered. -/
theorem result_perform_of_lt (hF : F.Steady bs) {c : Created F} (hcreate : create F = .ok c)
    {ops : List Operation} {op : Operation} {n : Nat} (hop : op.requested = some n)
    (hpos : 0 < Action.steps (c.history ops))
    (hlt : Action.steps (c.history (ops ++ [op])) < 256 ^ bs) :
    ∃ answer, (op.perform (c.generator.after ops)).result = .ok answer := by
  obtain ⟨-, hactions, hok⟩ := perform_of_requested hop (c.generator.after ops)
  rw [Created.history_append, Action.steps, List.foldl_append, transcript, transcript,
    List.append_nil, hactions] at hlt
  exact hok.mpr ((hF.available_read n).ok (hF.counter_after hcreate ops) hpos hlt)

end CipherFactory.Steady

namespace Generator

/-- A generator over AES can be built in each of the ways there are and takes every
seed.  Output is refused without a change of state as long as there was no seed;
after a seed it is delivered, provided that from where the counter was last rewound
to the end of the request it takes fewer than `2 ^ 128` steps.  That it is delivered
is meant of output for which there is memory (`Checked.read`). -/
theorem available_once_seeded :
    (Aes.factory .aes256).Steady Aes.blockSize ∧
      ∀ F : CipherFactory, F.Steady Aes.blockSize → ∀ start : Start,
        ∃ c, start.make F = .ok c ∧ ∀ (ops : List Operation) (op : Operation),
          let g := c.generator.after ops
          let seeded := ∃ earlier ∈ start.seeds ++ ops, earlier.requested = none
          (op.requested = none → ∃ answer, (op.perform g).result = .ok answer) ∧
            (op.requested ≠ none → ¬ seeded →
              op.perform g = ⟨.error (op.failure .unseeded), g, []⟩) ∧
            (op.requested ≠ none → seeded →
              Action.steps (c.history (ops ++ [op])) < 2 ^ 128 →
                ∃ answer, (op.perform g).result = .ok answer) := by
  refine ⟨Aes.steady, ?_⟩
  intro F hF start
  obtain ⟨c, hcreate, hmake⟩ := hF.exists_make start
  refine ⟨_, hmake, ?_⟩
  intro ops op
  have hafter :
      (c.generator.after start.seeds).after ops = c.generator.after (start.seeds ++ ops) :=
    (after_append _ _ _).symm
  have hhistory : Created.history ⟨c.generator.after start.seeds, c.history start.seeds⟩
      (ops ++ [op]) = c.history ((start.seeds ++ ops) ++ [op]) := by
    rw [List.append_assoc]
    exact (c.history_append _ _).symm
  have hcounter := hF.counter_after hcreate (start.seeds ++ ops)
  have hsteps := hF.zero_lt_steps_iff hcreate (start.seeds ++ ops)
  rw [hafter, hhistory, ← hsteps]
  refine ⟨?_, ?_, ?_⟩
  · intro hop
    exact (hF.perform_seed (blockSize_of_counter hcounter) hop 0).1
  · intro hop hzero
    obtain ⟨n, hn⟩ := Option.ne_none_iff_exists'.mp hop
    apply perform_of_unseeded hn
    rw [← Bool.not_eq_true, isSeeded_iff hcounter, Nat.eq_zero_of_not_pos hzero]
    simp
  · intro hop hpos hlt
    obtain ⟨n, hn⟩ := Option.ne_none_iff_exists'.mp hop
    have hround : 256 ^ Aes.blockSize = 2 ^ 128 := by decide
    exact hF.result_perform_of_lt hcreate hn hpos (hround ▸ hlt)

theorem available_once_seeded_by_word :
    (∃ c, Start.make (Aes.factory .aes256) .unseeded = .ok c ∧
      Operation.nextUInt64.perform c.generator =
        ⟨.error (.aborted ⟨.unseeded⟩), c.generator, []⟩) ∧
      ∃ c, Start.make (Aes.factory .aes256) (.word 7) = .ok c ∧
        (∃ answer, ((Operation.restart (-1)).perform c.generator).result = .ok answer) ∧
        ∃ answer, (Operation.nextUInt64.perform c.generator).result = .ok answer := by
  constructor
  · obtain ⟨c, hmake, hrun⟩ := available_once_seeded.2 _ Aes.steady .unseeded
    exact ⟨c, hmake, (hrun [] .nextUInt64).2.1 nofun nofun⟩
  · obtain ⟨c, hmake, hrun⟩ := available_once_seeded.2 _ Aes.steady (.word 7)
    have hfour : (Start.make (Aes.factory .aes256) (.word 7)).toOption.map
        (fun c => Action.steps (c.history [.nextUInt64])) = some 4 := rfl
    rw [hmake] at hfour
    have hsteps : Action.steps (c.history [.nextUInt64]) = 4 := Option.some.inj hfour
    have hlt : Action.steps (c.history [.nextUInt64]) < 2 ^ 128 := by
      rw [hsteps]
      decide
    refine ⟨c, hmake, (hrun [] (.restart (-1))).1 rfl, ?_⟩
    exact (hrun [] .nextUInt64).2.2 nofun ⟨_, List.mem_cons_self, rfl⟩ hlt

end Generator

end Fortuna

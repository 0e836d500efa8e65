import Fortuna.Generator.Operation
import Fortuna.Proofs.Generator.Request

/-!
# Runs

Requests fail half way, so what a run of requests has done need not be a
sequence of whole requests.  It is a sequence of stages, though: a seed is mixed
in, the past is wiped, a chunk comes to one of its ends, bytes are handed out,
something is logged.  `Stage` lists them with the state that each leaves and the
actions that it takes, and `Run` chains them.  Every request is a run of stages
(`runs_perform`), and so is any number of requests (`run_after`).  What one stage
preserves, every request preserves, whether it succeeds or not.

Requests for output only draw keystream: their stages are those of `Draw`.
-/

namespace Fortuna

/-! ## Events -/

namespace Action

theorem events_append (as bs : List Action) :
    events (as ++ bs) = events as ++ events bs :=
  List.filterMap_append

@[simp] theorem events_installed (key : Bytes) (as : List Action) :
    events (.installed key :: as) = events as :=
  rfl

@[simp] theorem events_logged (event : Event) (as : List Action) :
    events (.logged event :: as) = event :: events as :=
  rfl

end Action

namespace Generator

variable {F : CipherFactory}

/-- Keystream is reported nowhere. -/
@[simp] theorem events_trail (g : Generator F) (purpose : Purpose) (k : Nat) :
    Action.events (g.trail purpose k) = [] := by
  rw [Action.events, trail, List.filterMap_map, List.filterMap_eq_nil_iff]
  intro c _
  rfl

@[simp] theorem events_chunkTrail (g : Generator F) (size : Nat) :
    Action.events (g.chunkTrail size) = [] := by
  rw [chunkTrail, Action.events_append, events_trail, events_trail, List.append_nil]

/-! ## Stages -/

theorem length_mixedKey (key seed : Bytes) : (mixedKey key seed).length = keySize :=
  rfl

/-- The state after a seed has been mixed in, given the cipher of the new key. -/
def mixed (g : Generator F) (seed : Bytes) (cipher : Cipher) : Generator F :=
  { g with
    key := mixedKey g.key seed
    cipher
    counter := g.counter.next
    totals.reseeds := g.totals.reseeds + 1 }

theorem blockSize_mixed (g : Generator F) (seed : Bytes) (cipher : Cipher) :
    (g.mixed seed cipher).blockSize = g.blockSize :=
  Counter.width_next g.counter

/-- The state after the past has been wiped, given the cipher of the zero key. -/
def wiped (g : Generator F) (cipher : Cipher) : Generator F :=
  { g with key := zeroKey, cipher, counter := .zero g.blockSize }

theorem blockSize_wiped (g : Generator F) (cipher : Cipher) :
    (g.wiped cipher).blockSize = g.blockSize :=
  Counter.width_zero g.blockSize

/-- What output is made of. -/
inductive Draw (g : Generator F) : List Action → Generator F → Prop
  | chunk (size : Nat) (hpos : 0 < size) (hmax : size ≤ maxBlocks)
      (o : Outcome F GeneratorError Bytes) (hend : ChunkEnd g size o) :
      Draw g o.actions o.state
  | delivered (n : Nat) :
      Draw g [.logged (.delivered n)] (g.delivered n)

/-- What a generator does without being interrupted by an error. -/
inductive Stage (g : Generator F) : List Action → Generator F → Prop
  | mixed (seed : Bytes) (cipher : Cipher)
      (hcipher : F.cipherFor g.blockSize (mixedKey g.key seed) = .ok cipher) :
      Stage g
        [.installed (mixedKey g.key seed),
          .logged (.reseeded seed.length (g.totals.reseeds + 1))]
        (g.mixed seed cipher)
  | wiped (cipher : Cipher) (hcipher : F.cipherFor g.blockSize zeroKey = .ok cipher) :
      Stage g [.installed zeroKey, .rewound] (g.wiped cipher)
  | restarted (seed : Int64) :
      Stage g [.logged (.restarted seed)] g
  | draw {as : List Action} {h : Generator F} (hdraw : Draw g as h) :
      Stage g as h

/-- Stages of one kind, one after the other. -/
inductive Run (R : Generator F → List Action → Generator F → Prop) :
    Generator F → List Action → Generator F → Prop
  | refl (g : Generator F) : Run R g [] g
  | head {g h k : Generator F} {as bs : List Action}
      (hstage : R g as h) (hrun : Run R h bs k) :
      Run R g (as ++ bs) k

section Run

variable {R R' : Generator F → List Action → Generator F → Prop} {g h k : Generator F}
  {as bs : List Action}

theorem Run.single (hstage : R g as h) : Run R g as h := by
  rw [← List.append_nil as]
  exact .head hstage (.refl h)

theorem Run.trans (hfirst : Run R g as h) (hsecond : Run R h bs k) :
    Run R g (as ++ bs) k := by
  induction hfirst with
  | refl => exact hsecond
  | head hstage hrun ih =>
      rw [List.append_assoc]
      exact .head hstage (ih hsecond)

theorem Run.mono (hsub : ∀ {g as h}, R g as h → R' g as h) (hrun : Run R g as h) :
    Run R' g as h := by
  induction hrun with
  | refl g => exact .refl g
  | head hstage hrun ih => exact .head (hsub hstage) ih

end Run

/-! ## What stages preserve -/

theorem Stage.blockSize_eq {g h : Generator F} {as : List Action} (hstage : Stage g as h) :
    h.blockSize = g.blockSize := by
  cases hstage with
  | mixed seed cipher hcipher => exact blockSize_mixed g seed cipher
  | wiped cipher hcipher => exact blockSize_wiped g cipher
  | restarted seed => rfl
  | draw hdraw =>
      cases hdraw with
      | delivered n => rfl
      | chunk size hpos hmax o hend =>
          cases hend with
          | unseeded => rfl
          | stalled => exact blockSize_drawn g size
          | refused => exact blockSize_drawn g _
          | rekeyed cipher => exact blockSize_drawn g _

/-- The block size is fixed. -/
theorem Run.blockSize_eq {g h : Generator F} {as : List Action} (hrun : Run Stage g as h) :
    h.blockSize = g.blockSize := by
  induction hrun with
  | refl => rfl
  | head hstage hrun ih => rw [ih, hstage.blockSize_eq]

theorem Consistent.drawn {g : Generator F} (hg : g.Consistent) (k : Nat) :
    (g.drawn k).Consistent where
  length_key := hg.length_key
  build_key := hg.build_key
  blockSize_cipher := hg.blockSize_cipher.trans (blockSize_drawn g k).symm
  blockSize_pos := (blockSize_drawn g k).symm ▸ hg.blockSize_pos

theorem Stage.consistent {g h : Generator F} {as : List Action} (hstage : Stage g as h)
    (hg : g.Consistent) :
    h.Consistent := by
  have hpos : 0 < h.blockSize := hstage.blockSize_eq ▸ hg.blockSize_pos
  cases hstage with
  | mixed seed cipher hcipher =>
      obtain ⟨hbuild, hsize⟩ := (F.cipherFor_eq_ok_iff _ _ _).mp hcipher
      exact ⟨rfl, hbuild, hsize.trans (blockSize_mixed g seed cipher).symm, hpos⟩
  | wiped cipher hcipher =>
      obtain ⟨hbuild, hsize⟩ := (F.cipherFor_eq_ok_iff _ _ _).mp hcipher
      exact ⟨rfl, hbuild, hsize.trans (blockSize_wiped g cipher).symm, hpos⟩
  | restarted seed => exact hg
  | draw hdraw =>
      cases hdraw with
      | delivered n => exact ⟨hg.length_key, hg.build_key, hg.blockSize_cipher, hpos⟩
      | chunk size hlow hmax o hend =>
          cases hend with
          | unseeded => exact hg
          | stalled => exact hg.drawn size
          | refused => exact hg.drawn _
          | rekeyed cipher hseeded hnonzero hcipher =>
              obtain ⟨hbuild, hsize⟩ := (F.cipherFor_eq_ok_iff _ _ _).mp hcipher
              exact ⟨length_freshKey (hg.drawn size).blockSize_pos, hbuild,
                hsize.trans (blockSize_drawn g _).symm, hpos⟩

/-- Key, cipher and counter fit together in every run. -/
theorem Run.consistent {g h : Generator F} {as : List Action} (hrun : Run Stage g as h)
    (hg : g.Consistent) :
    h.Consistent := by
  induction hrun with
  | refl => exact hg
  | head hstage hrun ih => exact ih (hstage.consistent hg)

end Generator

/-! ## Operations are runs -/

namespace Step

variable {F : CipherFactory} {ε ε' ε'' α β γ : Type}

/-- The operation, successful or not, is a run of stages of one kind. -/
def Runs (R : Generator F → List Action → Generator F → Prop) (x : Step F ε α) : Prop :=
  ∀ g, Generator.Run R g (x g).actions (x g).state

variable {R R' : Generator F → List Action → Generator F → Prop}

theorem Runs.pure (a : α) : (pure a : Step F ε α).Runs R :=
  fun g => .refl g

theorem Runs.bind {x : Step F ε α} {f : α → Step F ε β}
    (hx : x.Runs R) (hf : ∀ a, (f a).Runs R) :
    (x >>= f).Runs R := by
  intro g
  rw [bind_apply]
  cases hresult : (x g).result with
  | error e =>
      rw [Outcome.andThen_of_error hresult]
      exact hx g
  | ok a =>
      rw [Outcome.andThen_of_ok hresult]
      exact (hx g).trans (hf a _)

theorem Runs.mono {x : Step F ε α} (hsub : ∀ {g as h}, R g as h → R' g as h)
    (hx : x.Runs R) :
    x.Runs R' :=
  fun g => (hx g).mono hsub

/-- Both operations do the same, and one succeeds when the other does. -/
def Like (x : Step F ε α) (y : Step F ε' β) : Prop :=
  ∀ g, (x g).state = (y g).state ∧ (x g).actions = (y g).actions ∧
    ((∃ a, (x g).result = .ok a) ↔ ∃ b, (y g).result = .ok b)

theorem Like.refl (x : Step F ε α) : x.Like x :=
  fun _ => ⟨rfl, rfl, Iff.rfl⟩

theorem Like.mapError {x : Step F ε α} {y : Step F ε' β} (hlike : x.Like y) (f : ε → ε'') :
    (x.mapError f).Like y := by
  intro g
  obtain ⟨hstate, hactions, hok⟩ := hlike g
  refine ⟨hstate, hactions, ?_⟩
  rw [← hok, mapError_apply]
  rcases x g with ⟨_ | a, h, as⟩ <;> simp [Outcome.mapError, Except.mapError]

/-- It does not matter what is made of a result. -/
theorem Like.answer {x : Step F ε α} {y : Step F ε' β} (hlike : x.Like y) (f : α → γ) :
    (x >>= fun a => Pure.pure (f a)).Like y := by
  intro g
  obtain ⟨hstate, hactions, hok⟩ := hlike g
  rw [bind_apply, ← hstate, ← hactions, ← hok]
  rcases x g with ⟨_ | a, h, as⟩
  · simp
  · simp

theorem Like.runs {x : Step F ε α} {y : Step F ε' β} (hlike : x.Like y) (hy : y.Runs R) :
    x.Runs R := by
  intro g
  obtain ⟨hstate, hactions, -⟩ := hlike g
  rw [hstate, hactions]
  exact hy g

end Step

namespace Generator

variable {F : CipherFactory}

theorem runs_chunk {size : Nat} (hpos : 0 < size) (hmax : size ≤ maxBlocks) :
    (chunk size : Step F GeneratorError Bytes).Runs Draw :=
  fun g => .single (.chunk size hpos hmax _ (chunk_end g size))

theorem runs_chunks {sizes : List Nat} (hsizes : ∀ size ∈ sizes, 0 < size ∧ size ≤ maxBlocks) :
    (chunks sizes : Step F GeneratorError Bytes).Runs Draw := by
  induction sizes with
  | nil => exact .pure []
  | cons size sizes ih =>
      rw [List.forall_mem_cons] at hsizes
      obtain ⟨⟨hpos, hmax⟩, hrest⟩ := hsizes
      rw [chunks_cons]
      apply (runs_chunk hpos hmax).bind
      intro first
      apply (ih hrest).bind
      intro rest
      exact .pure _

theorem runs_read (n : Nat) : (read n : Step F GeneratorError Bytes).Runs Draw := by
  intro g
  cases hseeded : g.isSeeded with
  | false =>
      rw [read_of_unseeded n hseeded]
      exact .refl g
  | true =>
      rw [read_of_seeded n hseeded]
      have hchunks :
          (chunks (chunkSizes (g.blocksFor n)) : Step F GeneratorError Bytes).Runs Draw :=
        runs_chunks fun _ => bounds_of_mem_chunkSizes
      have hdeliver (out : Bytes) : (deliver n out : Step F GeneratorError Bytes).Runs Draw :=
        fun h => .single (.delivered n)
      exact hchunks.bind hdeliver g

theorem reseed_of_cipher {g : Generator F} {seed : Bytes} {cipher : Cipher}
    (hcipher : F.cipherFor g.blockSize (mixedKey g.key seed) = .ok cipher) :
    reseed seed g =
      ⟨.ok (), g.mixed seed cipher,
        [.installed (mixedKey g.key seed),
          .logged (.reseeded seed.length (g.totals.reseeds + 1))]⟩ := by
  simp only [reseed, Step.bind_apply, Step.state_apply, Outcome.andThen_ok,
    install_of_cipher hcipher, Step.update_apply, Step.report_apply, List.nil_append,
    List.cons_append]
  rfl

theorem reseed_of_refused {g : Generator F} {seed : Bytes} {e : GeneratorError}
    (hcipher : F.cipherFor g.blockSize (mixedKey g.key seed) = .error e) :
    reseed seed g = ⟨.error e, g, []⟩ := by
  simp only [reseed, Step.bind_apply, Step.state_apply, Outcome.andThen_ok,
    install_of_refused hcipher, Outcome.andThen_error, List.append_nil]

theorem runs_reseed (seed : Bytes) : (reseed seed : Step F GeneratorError Unit).Runs Stage := by
  intro g
  cases hcipher : F.cipherFor g.blockSize (mixedKey g.key seed) with
  | error e =>
      rw [reseed_of_refused hcipher]
      exact .refl g
  | ok cipher =>
      rw [reseed_of_cipher hcipher]
      exact .single (.mixed seed cipher hcipher)

/-- Goes back to the zero key and the zero counter. -/
def wipe : Step F GeneratorError Unit := do
  install zeroKey
  rewind

theorem wipe_of_cipher {g : Generator F} {cipher : Cipher}
    (hcipher : F.cipherFor g.blockSize zeroKey = .ok cipher) :
    wipe g = ⟨.ok (), g.wiped cipher, [.installed zeroKey, .rewound]⟩ := by
  simp only [wipe, rewind, Step.bind_apply, Outcome.andThen_ok, install_of_cipher hcipher,
    Step.update_apply, Step.record_apply, List.nil_append, List.cons_append]
  rfl

theorem wipe_of_refused {g : Generator F} {e : GeneratorError}
    (hcipher : F.cipherFor g.blockSize zeroKey = .error e) :
    wipe g = ⟨.error e, g, []⟩ := by
  simp only [wipe, Step.bind_apply, install_of_refused hcipher, Outcome.andThen_error]

theorem runs_wipe : (wipe : Step F GeneratorError Unit).Runs Stage := by
  intro g
  cases hcipher : F.cipherFor g.blockSize zeroKey with
  | error e =>
      rw [wipe_of_refused hcipher]
      exact .refl g
  | ok cipher =>
      rw [wipe_of_cipher hcipher]
      exact .single (.wiped cipher hcipher)

/-- A deterministic seed is mixed in after a wipe. -/
theorem restart_eq (seed : Int64) :
    (restart seed : Step F GeneratorError Unit) =
      wipe >>= fun _ => reseed (seedBytes seed) >>= fun _ =>
        Step.report (.restarted seed) := by
  simp only [restart, wipe, bind_assoc]

/-- Behind the wipe a deterministic seed is a seed like others. -/
theorem restart_of_wiped {g : Generator F} {zero : Cipher}
    (hzero : F.cipherFor g.blockSize zeroKey = .ok zero) (seed : Int64) :
    (restart seed g).result = (reseed (seedBytes seed) (g.wiped zero)).result ∧
      (restart seed g).state = (reseed (seedBytes seed) (g.wiped zero)).state := by
  rw [restart_eq, Step.bind_apply, wipe_of_cipher hzero, Outcome.andThen_ok, Step.bind_apply]
  cases hok : (reseed (seedBytes seed) (g.wiped zero)).result with
  | error e =>
      rw [Outcome.andThen_of_error hok]
      exact ⟨rfl, rfl⟩
  | ok u =>
      rw [Outcome.andThen_of_ok hok, Step.report_apply]
      exact ⟨rfl, rfl⟩

theorem restart_of_cipher {g : Generator F} {seed : Int64} {zero cipher : Cipher}
    (hzero : F.cipherFor g.blockSize zeroKey = .ok zero)
    (hcipher : F.cipherFor g.blockSize (mixedKey zeroKey (seedBytes seed)) = .ok cipher) :
    restart seed g =
      ⟨.ok (), (g.wiped zero).mixed (seedBytes seed) cipher,
        [.installed zeroKey, .rewound, .installed (mixedKey zeroKey (seedBytes seed)),
          .logged (.reseeded 8 (g.totals.reseeds + 1)), .logged (.restarted seed)]⟩ := by
  have hreseed := reseed_of_cipher (g := g.wiped zero) ((blockSize_wiped g zero).symm ▸ hcipher)
  rw [restart_eq, Step.bind_apply, wipe_of_cipher hzero, Outcome.andThen_ok, Step.bind_apply,
    hreseed, Outcome.andThen_ok, Step.report_apply]
  rfl

theorem runs_restart (seed : Int64) :
    (restart seed : Step F GeneratorError Unit).Runs Stage := by
  rw [restart_eq]
  apply runs_wipe.bind
  intro _
  apply (runs_reseed _).bind
  intro _ g
  exact .single (.restarted seed)

end Generator

/-! ## Requests -/

/-- The number of bytes of output that a request takes; nothing for a seed. -/
def Operation.requested : Operation → Option Nat
  | .reseed _ => none
  | .restart _ => none
  | .read n => some n
  | .fill buffer => some buffer.length
  | .int63 => some 8
  | .fillOrAbort buffer => some buffer.length
  | .nextUInt32 => some 4
  | .nextUInt64 => some 8

/-- What a request answers when it is given the output it asks for. -/
def Operation.answer : Operation → Bytes → Answer
  | .reseed _, _ => .done
  | .restart _, _ => .done
  | .read _, out => .bytes out
  | .fill _, out => .bytes out
  | .int63, out => .number (Bytes.toNatBE out % Nat.pow 2 63)
  | .fillOrAbort _, out => .bytes out
  | .nextUInt32, out => .number (UInt32.ofNat (Bytes.toNatLE out)).toNat
  | .nextUInt64, out => .number (UInt64.ofNat (Bytes.toNatLE out)).toNat

/-- How a request fails. -/
def Operation.failure : Operation → GeneratorError → Failure
  | .fillOrAbort _, cause => .aborted ⟨cause⟩
  | .nextUInt32, cause => .aborted ⟨cause⟩
  | .nextUInt64, cause => .aborted ⟨cause⟩
  | _, cause => .refused cause

/-- A request for output answers with the output or fails with its error. -/
theorem Operation.result_perform {F : CipherFactory} {op : Operation} {n : Nat}
    (hop : op.requested = some n) (g : Generator F) :
    (op.perform g).result =
      ((Generator.read n g).result.map op.answer).mapError op.failure := by
  cases op with
  | reseed | restart => cases hop
  | read | fill | int63 | fillOrAbort | nextUInt32 | nextUInt64 =>
      cases hop
      simp only [perform, reporting, promising, Generator.int63, Generator.fillOrAbort,
        Generator.nextUInt32, Generator.nextUInt64, Generator.fill, List.length_replicate,
        Step.bind_apply, Step.mapError_apply]
      generalize Generator.read _ g = o
      rcases o with ⟨_ | out, h, as⟩ <;> rfl

namespace Generator

variable {F : CipherFactory}

theorem perform_of_requested {op : Operation} {n : Nat} (hop : op.requested = some n) :
    (op.perform : Step F Failure Answer).Like (read n : Step F GeneratorError Bytes) := by
  have hread (n : Nat) : (read n : Step F GeneratorError Bytes).Like (read n) := .refl _
  cases op with
  | reseed seed => cases hop
  | restart seed => cases hop
  | read n => cases hop; exact ((hread _).mapError _).answer _
  | fill buffer => cases hop; exact ((hread _).mapError _).answer _
  | int63 => cases hop; exact (((hread _).answer _).mapError _).answer _
  | fillOrAbort buffer => cases hop; exact (((hread _).mapError _).mapError _).answer _
  | nextUInt32 => cases hop; exact ((((hread _).mapError _).answer _).mapError _).answer _
  | nextUInt64 => cases hop; exact ((((hread _).mapError _).answer _).mapError _).answer _

theorem perform_reseed (seed : Bytes) :
    ((Operation.reseed seed).perform : Step F Failure Answer).Like
      (reseed seed : Step F GeneratorError Unit) :=
  ((Step.Like.refl _).mapError _).answer _

theorem perform_restart (seed : Int64) :
    ((Operation.restart seed).perform : Step F Failure Answer).Like
      (restart seed : Step F GeneratorError Unit) :=
  ((Step.Like.refl _).mapError _).answer _

theorem runs_perform (op : Operation) : (op.perform : Step F Failure Answer).Runs Stage := by
  cases hop : op.requested with
  | some n => exact (perform_of_requested hop).runs ((runs_read n).mono .draw)
  | none =>
      cases op with
      | reseed seed => exact (perform_reseed seed).runs (runs_reseed seed)
      | restart seed => exact (perform_restart seed).runs (runs_restart seed)
      | read | fill | int63 | fillOrAbort | nextUInt32 | nextUInt64 => cases hop

/-! ## Histories -/

/-- The state after requests, whether they succeed or fail. -/
def after (g : Generator F) : List Operation → Generator F
  | [] => g
  | op :: ops => (op.perform g).state.after ops

/-- What is done in answer to requests. -/
def transcript (g : Generator F) : List Operation → List Action
  | [] => []
  | op :: ops => (op.perform g).actions ++ (op.perform g).state.transcript ops

theorem after_append (g : Generator F) (ops later : List Operation) :
    g.after (ops ++ later) = (g.after ops).after later := by
  induction ops generalizing g with
  | nil => rfl
  | cons op ops ih => exact ih _

theorem transcript_append (g : Generator F) (ops later : List Operation) :
    g.transcript (ops ++ later) = g.transcript ops ++ (g.after ops).transcript later := by
  induction ops generalizing g with
  | nil => rfl
  | cons op ops ih => rw [List.cons_append, transcript, ih, ← List.append_assoc]; rfl

theorem run_after (g : Generator F) (ops : List Operation) :
    Run Stage g (g.transcript ops) (g.after ops) := by
  induction ops generalizing g with
  | nil => exact .refl g
  | cons op ops ih => exact (runs_perform op g).trans (ih _)

/-- All that is done from the creation of a generator on. -/
def Created.history (c : Created F) (ops : List Operation) : List Action :=
  c.actions ++ c.generator.transcript ops

theorem Created.history_append (c : Created F) (ops later : List Operation) :
    c.history (ops ++ later) = c.history ops ++ (c.generator.after ops).transcript later := by
  rw [history, transcript_append, ← List.append_assoc, history]

theorem Created.history_take_prefix (c : Created F) (ops : List Operation) {i j : Nat}
    (hij : i ≤ j) :
    c.history (ops.take i) <+: c.history (ops.take j) := by
  obtain ⟨later, hlater⟩ : ops.take i <+: ops.take j := List.take_prefix_take_left hij
  rw [← hlater, history_append]
  exact List.prefix_append _ _

theorem Created.history_take_succ (c : Created F) {ops : List Operation} {i : Nat} {op : Operation}
    (hop : ops[i]? = some op) :
    c.history (ops.take (i + 1)) =
      c.history (ops.take i) ++ (op.perform (c.generator.after (ops.take i))).actions := by
  rw [List.take_add_one, hop, Option.toList_some, history_append, transcript, transcript,
    List.append_nil]

/-- A state in which requests can leave a generator. -/
def Reachable (g : Generator F) : Prop :=
  ∃ c ops, create F = .ok c ∧ c.generator.after ops = g

theorem create_eq_ok_iff (c : Created F) :
    create F = .ok c ↔
      ∃ cipher, F.build zeroKey = .ok cipher ∧ 0 < cipher.blockSize ∧
        c = ⟨{ key := zeroKey, cipher, counter := .zero cipher.blockSize },
          [.installed zeroKey, .logged (.created cipher.blockSize)]⟩ := by
  unfold create
  cases F.build zeroKey with
  | error cause => simp
  | ok cipher =>
      by_cases hzero : cipher.blockSize = 0
      · simp [hzero]
      · simp only [hzero, ↓reduceIte, Except.ok.injEq, exists_eq_left', Nat.pos_of_ne_zero hzero,
          true_and]
        exact eq_comm

theorem consistent_of_create {c : Created F} (hcreate : create F = .ok c) :
    c.generator.Consistent := by
  obtain ⟨cipher, hbuild, hpos, rfl⟩ := (create_eq_ok_iff c).mp hcreate
  have hsize : (Counter.zero cipher.blockSize).width = cipher.blockSize := Counter.width_zero _
  exact ⟨List.length_replicate, hbuild, hsize.symm, hpos.trans_eq hsize.symm⟩

/-- The zero key keeps its cipher. -/
theorem cipherFor_zeroKey_after {c : Created F} (hcreate : create F = .ok c)
    (ops : List Operation) :
    F.cipherFor (c.generator.after ops).blockSize zeroKey = .ok c.generator.cipher := by
  have hsize := (run_after c.generator ops).blockSize_eq
  obtain ⟨zero, hbuild, hpos, rfl⟩ := (create_eq_ok_iff c).mp hcreate
  rw [hsize, F.cipherFor_eq_ok_iff]
  exact ⟨hbuild, (Counter.width_zero _).symm⟩

end Generator

end Fortuna

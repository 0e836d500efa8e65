import Fortuna.Proofs.Generator.Availability
import Fortuna.Proofs.Generator.SeedingHistories

/-!
# Refused seeds

A seed is refused when the factory refuses the key that it makes, or has blocks of
another size for it.  A seed that is mixed in checks this before anything else, so
nothing is changed when it is refused (`reseed_of_error`).

A deterministic seed has wiped the past by then.  The wipe cannot fail, for the zero key
had a fitting cipher at creation and the block size is still the same.  So what a refused
deterministic seed leaves is a blank generator: the zero key, its cipher and a counter at
zero (`restart_of_error`).  It refuses every request for output, and refused seeds leave
it as it is, so this lasts until a seed is taken (`after_of_takesNoSeed`).

The counter is rewound nowhere else, and there only when the zero key has just been
installed (`Run.rewindsBehindZeroKey`): no other key ever meets a restarted counter.
-/

namespace Fortuna

/-- The factory refuses the key, or has blocks of another size for it. -/
def CipherFactory.Refuses (F : CipherFactory) (blockSize : Nat) (key : Bytes) : Prop :=
  (∃ cause, F.build key = .error cause) ∨
    ∃ cipher, F.build key = .ok cipher ∧ cipher.blockSize ≠ blockSize

theorem CipherFactory.exists_cipherFor_error_iff (F : CipherFactory) (blockSize : Nat)
    (key : Bytes) :
    (∃ e, F.cipherFor blockSize key = .error e) ↔ F.Refuses blockSize key := by
  simp only [cipherFor_eq_error_iff, Refuses]
  constructor
  · rintro ⟨e, ⟨cause, hbuild, -⟩ | ⟨cipher, hbuild, hsize, -⟩⟩
    · exact .inl ⟨cause, hbuild⟩
    · exact .inr ⟨cipher, hbuild, hsize⟩
  · rintro (⟨cause, hbuild⟩ | ⟨cipher, hbuild, hsize⟩)
    · exact ⟨_, .inl ⟨cause, hbuild, rfl⟩⟩
    · exact ⟨_, .inr ⟨cipher, hbuild, hsize, rfl⟩⟩

theorem Step.Like.exists_error_iff {F : CipherFactory} {ε ε' α β : Type} {x : Step F ε α}
    {y : Step F ε' β} (hlike : x.Like y) (g : Generator F) :
    (∃ e, (x g).result = .error e) ↔ ∃ e, (y g).result = .error e := by
  obtain ⟨-, -, hok⟩ := hlike g
  cases hx : (x g).result with
  | ok a =>
      obtain ⟨b, hb⟩ := hok.mp ⟨a, hx⟩
      simp [hb]
  | error e =>
      cases hy : (y g).result with
      | ok b =>
          obtain ⟨a, ha⟩ := hok.mpr ⟨b, hy⟩
          cases hx.symm.trans ha
      | error e' => simp

namespace Generator

variable {F : CipherFactory}

/-! ## Seeds that are mixed in -/

theorem reseed_eq_error_iff (seed : Bytes) (g : Generator F) (e : GeneratorError) :
    (reseed seed g).result = .error e ↔
      F.cipherFor g.blockSize (mixedKey g.key seed) = .error e := by
  cases hcipher : F.cipherFor g.blockSize (mixedKey g.key seed) with
  | error e' =>
      rw [reseed_of_refused hcipher]
      simp only [Except.error.injEq]
  | ok cipher =>
      rw [reseed_of_cipher hcipher]
      simp only [reduceCtorEq]

/-- A seed that is refused changes and reports nothing. -/
theorem reseed_of_error {seed : Bytes} {g : Generator F} {e : GeneratorError}
    (herror : (reseed seed g).result = .error e) :
    reseed seed g = ⟨.error e, g, []⟩ :=
  reseed_of_refused ((reseed_eq_error_iff seed g e).mp herror)

/-! ## Deterministic seeds -/

theorem wiped_wiped (g : Generator F) (zero : Cipher) :
    (g.wiped zero).wiped zero = g.wiped zero := by
  rw [wiped, blockSize_wiped]
  rfl

theorem isSeeded_wiped (g : Generator F) (zero : Cipher) : (g.wiped zero).isSeeded = false := by
  rw [isSeeded_eq_false_iff, wiped, Counter.isZero_iff_value_eq_zero, Counter.zero_eq_ofNat,
    Counter.value_ofNat, Nat.zero_mod]

theorem restart_eq_error_iff {g : Generator F} {zero : Cipher}
    (hzero : F.cipherFor g.blockSize zeroKey = .ok zero) (seed : Int64) (e : GeneratorError) :
    (restart seed g).result = .error e ↔
      F.cipherFor g.blockSize (mixedKey zeroKey (seedBytes seed)) = .error e := by
  rw [(restart_of_wiped hzero seed).1, reseed_eq_error_iff, blockSize_wiped]
  rfl

/-- A deterministic seed that is refused leaves the past wiped, and reports nothing. -/
theorem restart_of_error {g : Generator F} {zero : Cipher}
    (hzero : F.cipherFor g.blockSize zeroKey = .ok zero) {seed : Int64} {e : GeneratorError}
    (herror : (restart seed g).result = .error e) :
    restart seed g = ⟨.error e, g.wiped zero, [.installed zeroKey, .rewound]⟩ := by
  rw [(restart_of_wiped hzero seed).1] at herror
  rw [restart_eq, Step.bind_apply, wipe_of_cipher hzero, Outcome.andThen_ok, Step.bind_apply,
    reseed_of_error herror]
  rfl

/-- Whether it is refused or taken, a deterministic seed leaves nothing of the key. -/
theorem key_restart {g : Generator F} {zero : Cipher}
    (hzero : F.cipherFor g.blockSize zeroKey = .ok zero) (seed : Int64) :
    (restart seed g).state.key = zeroKey ∨
      (restart seed g).state.key = mixedKey zeroKey (seedBytes seed) := by
  cases hresult : (restart seed g).result with
  | error e =>
      rw [restart_of_error hzero hresult]
      exact .inl rfl
  | ok u => exact .inr (key_restart_of_ok hresult)

/-! ## Until a seed is taken -/

/-- No seed among the requests is taken, each in the state that the requests before it
leave. -/
def TakesNoSeed (g : Generator F) : List Operation → Prop
  | [] => True
  | op :: ops =>
    (op.requested = none → ∃ failure, (op.perform g).result = .error failure) ∧
      (op.perform g).state.TakesNoSeed ops

/-- A wiped generator stays as it is, unless a seed is taken. -/
theorem perform_wiped {g : Generator F} {zero : Cipher}
    (hzero : F.cipherFor g.blockSize zeroKey = .ok zero) {op : Operation}
    (hrefused : op.requested = none →
      ∃ failure, (op.perform (g.wiped zero)).result = .error failure) :
    (op.perform (g.wiped zero)).state = g.wiped zero := by
  have hzero' : F.cipherFor (g.wiped zero).blockSize zeroKey = .ok zero :=
    (blockSize_wiped g zero).symm ▸ hzero
  cases hop : op.requested with
  | some n => rw [perform_of_unseeded hop (isSeeded_wiped g zero)]
  | none =>
      obtain ⟨failure, hfailure⟩ := hrefused hop
      cases op with
      | reseed seed =>
          have hlike := perform_reseed (F := F) seed
          obtain ⟨e, herror⟩ := (hlike.exists_error_iff _).mp ⟨failure, hfailure⟩
          rw [(hlike _).1, reseed_of_error herror]
      | restart seed =>
          have hlike := perform_restart (F := F) seed
          obtain ⟨e, herror⟩ := (hlike.exists_error_iff _).mp ⟨failure, hfailure⟩
          rw [(hlike _).1, restart_of_error hzero' herror, wiped_wiped]
      | read | fill | int63 | fillOrAbort | nextUInt32 | nextUInt64 => cases hop

theorem after_of_takesNoSeed {g : Generator F} {zero : Cipher}
    (hzero : F.cipherFor g.blockSize zeroKey = .ok zero) {ops : List Operation}
    (hops : (g.wiped zero).TakesNoSeed ops) :
    (g.wiped zero).after ops = g.wiped zero := by
  induction ops with
  | nil => rfl
  | cons op ops ih =>
      obtain ⟨hrefused, hlater⟩ := hops
      rw [after, perform_wiped hzero hrefused]
      rw [perform_wiped hzero hrefused] at hlater
      exact ih hlater

/-- Which seeds a wiped generator takes does not change until it takes one. -/
theorem takesNoSeed_wiped_iff {g : Generator F} {zero : Cipher}
    (hzero : F.cipherFor g.blockSize zeroKey = .ok zero) (ops : List Operation) :
    (g.wiped zero).TakesNoSeed ops ↔
      ∀ op ∈ ops, op.requested = none →
        ∃ failure, (op.perform (g.wiped zero)).result = .error failure := by
  induction ops with
  | nil => simp [TakesNoSeed]
  | cons op ops ih =>
      rw [TakesNoSeed, List.forall_mem_cons]
      apply and_congr_right
      intro hrefused
      rw [perform_wiped hzero hrefused, ih]

end Generator

/-! ## Rewinding -/

namespace Action

/-- The counter is rewound only where the zero key has just been installed. -/
def RewindsBehindZeroKey (as : List Action) : Prop :=
  ∀ before later, as = before ++ .rewound :: later → before.getLast? = some (.installed zeroKey)

theorem RewindsBehindZeroKey.of_notMem {as : List Action} (hnone : .rewound ∉ as) :
    RewindsBehindZeroKey as := by
  rintro before later rfl
  simp at hnone

theorem RewindsBehindZeroKey.append {as bs : List Action} (has : RewindsBehindZeroKey as)
    (hbs : RewindsBehindZeroKey bs) :
    RewindsBehindZeroKey (as ++ bs) := by
  intro before later hsplit
  rcases List.append_eq_append_iff.mp hsplit with ⟨rest, rfl, hrest⟩ | ⟨rest, hrest, hlater⟩
  · rw [List.getLast?_append, hbs rest later hrest]
    rfl
  · cases rest with
    | nil =>
        -- the second part does not begin with a rewind
        have hnone := hbs [] later hlater.symm
        cases hnone
    | cons action rest =>
        obtain ⟨rfl, -⟩ := List.cons.inj hlater
        exact has before rest hrest

end Action

namespace Generator

variable {F : CipherFactory}

open Fortuna.Action (RewindsBehindZeroKey)

theorem rewound_notMem_trail (g : Generator F) (purpose : Purpose) (k : Nat) :
    .rewound ∉ g.trail purpose k := by
  simp [trail]

theorem rewound_notMem_chunkTrail (g : Generator F) (size : Nat) :
    .rewound ∉ g.chunkTrail size := by
  rw [chunkTrail, List.mem_append, not_or]
  exact ⟨rewound_notMem_trail _ _ _, rewound_notMem_trail _ _ _⟩

theorem Stage.rewindsBehindZeroKey {g h : Generator F} {as : List Action}
    (hstage : Stage g as h) :
    RewindsBehindZeroKey as := by
  cases hstage with
  | mixed seed cipher hcipher => exact .of_notMem (by simp)
  | restarted seed => exact .of_notMem (by simp)
  | wiped cipher hcipher =>
      intro before later hsplit
      rcases before with _ | ⟨first, _ | ⟨second, rest⟩⟩
      · cases hsplit
      · obtain rfl : Action.installed zeroKey = first := (List.cons.inj hsplit).1
        rfl
      · simp at hsplit
  | draw hdraw =>
      cases hdraw with
      | delivered n => exact .of_notMem (by simp)
      | chunk size hpos hmax o hend =>
          cases hend with
          | unseeded => exact .of_notMem (by simp)
          | stalled => exact .of_notMem (rewound_notMem_trail _ _ _)
          | refused => exact .of_notMem (rewound_notMem_chunkTrail _ _)
          | rekeyed => exact .of_notMem (by simp [rewound_notMem_chunkTrail])

theorem Run.rewindsBehindZeroKey {g h : Generator F} {as : List Action}
    (hrun : Run Stage g as h) :
    RewindsBehindZeroKey as := by
  induction hrun with
  | refl => exact .of_notMem (by simp)
  | head hstage hrun ih => exact hstage.rewindsBehindZeroKey.append ih

theorem rewindsBehindZeroKey_history {c : Created F} (hcreate : create F = .ok c)
    (ops : List Operation) :
    RewindsBehindZeroKey (c.history ops) := by
  have hlater := (run_after c.generator ops).rewindsBehindZeroKey
  obtain ⟨cipher, -, -, rfl⟩ := (create_eq_ok_iff c).mp hcreate
  have hactions : RewindsBehindZeroKey
      [.installed zeroKey, .logged (.created cipher.blockSize)] :=
    .of_notMem (by simp)
  exact hactions.append hlater

/-! ## Refusal -/

/-- In every state that requests leave behind, a seed is refused exactly when the factory
refuses the SHA-256d digest of the key and the seed or has blocks of another size for it,
and then nothing is changed and nothing reported.

A deterministic seed can always install the zero key, so it is refused exactly when the
same goes for the digest of the zero key and the seed.  Then it leaves a blank generator
with unchanged totals, which refuses every request for output and stays as it is until a
seed is taken.  Whatever its result, it leaves none of the keys before it; and in a whole
run the counter is rewound only just after the zero key has been installed. -/
theorem refused_seeds_fail_closed {c : Created F} (hcreate : create F = .ok c)
    (ops : List Operation) :
    let g := c.generator.after ops
    let bs := g.blockSize
    (∀ seed : Bytes,
      ((∃ e, (reseed seed g).result = .error e) ↔ F.Refuses bs (Sha256d.hash (g.key ++ seed))) ∧
        ∀ e, (reseed seed g).result = .error e → reseed seed g = ⟨.error e, g, []⟩) ∧
      (install zeroKey g).result = .ok () ∧
      (∀ seed : Int64,
        ((∃ e, (restart seed g).result = .error e) ↔
            F.Refuses bs (Sha256d.hash (zeroKey ++ seedBytes seed))) ∧
          ((restart seed g).state.key = zeroKey ∨
            (restart seed g).state.key = Sha256d.hash (zeroKey ++ seedBytes seed)) ∧
          ∀ e, (restart seed g).result = .error e → ∃ zero, F.build zeroKey = .ok zero ∧
            let blank : Generator F :=
              { key := zeroKey, cipher := zero, counter := .zero bs, totals := g.totals }
            restart seed g = ⟨.error e, blank, [.installed zeroKey, .rewound]⟩ ∧
              ∀ later, blank.TakesNoSeed later →
                blank.after later = blank ∧
                  ∀ op : Operation, op.requested ≠ none →
                    op.perform (blank.after later) = ⟨.error (op.failure .unseeded), blank, []⟩) ∧
      RewindsBehindZeroKey (c.history ops) := by
  intro g bs
  have hzero : F.cipherFor g.blockSize zeroKey = .ok c.generator.cipher :=
    cipherFor_zeroKey_after hcreate ops
  have hhash (key seed : Bytes) : Sha256d.hash (key ++ seed) = mixedKey key seed :=
    (mixedKey_eq key seed).symm
  refine ⟨?_, ?_, ?_, rewindsBehindZeroKey_history hcreate ops⟩
  · intro seed
    rw [hhash, ← F.exists_cipherFor_error_iff]
    exact ⟨exists_congr (reseed_eq_error_iff seed g), fun _ => reseed_of_error⟩
  · rw [install_of_cipher hzero]
  · intro seed
    rw [hhash, ← F.exists_cipherFor_error_iff]
    refine ⟨exists_congr (restart_eq_error_iff hzero seed), key_restart hzero seed, ?_⟩
    intro e herror
    refine ⟨_, ((F.cipherFor_eq_ok_iff _ _ _).mp hzero).1, restart_of_error hzero herror, ?_⟩
    intro later hlater
    have hafter := after_of_takesNoSeed hzero hlater
    refine ⟨hafter, ?_⟩
    intro op hop
    obtain ⟨n, hn⟩ := Option.ne_none_iff_exists'.mp hop
    exact hafter ▸ perform_of_unseeded hn (isSeeded_wiped g _)

/-- A generator with transparent blocks of sixteen bytes, whose factory refuses the keys
that begin with the byte 169, such as the key that the deterministic seed 7 makes. -/
def choosyGenerator :
    Generator (Transparent.factory ⟨.identity, 16, some (.byte 0 255 169, .reject "weak")⟩) where
  key := zeroKey
  cipher := Transparent.cipher .identity 16 zeroKey
  counter := .zero 16

/-- A seeded generator that has put out bytes is restarted with a seed that is refused,
and refuses output also after it has refused that seed once more. -/
theorem refused_seeds_fail_closed_for_seven :
    let g := choosyGenerator.after [.reseed [1, 2], .read 20]
    g.isSeeded = true ∧
      ∃ blank, restart 7 g =
          ⟨.error (.cipherInitFailed (.rejected "weak")), blank, [.installed zeroKey, .rewound]⟩ ∧
        blank.key = zeroKey ∧ blank.counter = .zero 16 ∧ blank.totals = g.totals ∧
        Operation.int63.perform (blank.after [.nextUInt64, .restart 7]) =
          ⟨.error (.refused .unseeded), blank, []⟩ := by
  intro g
  have hcreate : create
      (Transparent.factory ⟨.identity, 16, some (.byte 0 255 169, .reject "weak")⟩) =
        .ok ⟨choosyGenerator, [.installed zeroKey, .logged (.created 16)]⟩ := rfl
  have hzero := cipherFor_zeroKey_after hcreate [.reseed [1, 2], .read 20]
  have hseeded : g.isSeeded = true := by decide +kernel
  have hsize : g.blockSize = 16 := (run_after choosyGenerator _).blockSize_eq
  have hweak := (reseed_eq_error_iff (seedBytes 7) choosyGenerator
    (.cipherInitFailed (.rejected "weak"))).mp (by decide +kernel)
  obtain ⟨-, -, hrestart, -⟩ := refused_seeds_fail_closed hcreate [.reseed [1, 2], .read 20]
  obtain ⟨-, -, hblank⟩ := hrestart 7
  have herror : (restart 7 g).result = .error (.cipherInitFailed (.rejected "weak")) := by
    rw [restart_eq_error_iff hzero, hsize]
    exact hweak
  obtain ⟨zero, hbuild, hleft, hlater⟩ := hblank _ herror
  obtain rfl : choosyGenerator.cipher = zero := Except.ok.inj hbuild
  have hagain : (restart 7 (g.wiped choosyGenerator.cipher)).result =
      .error (.cipherInitFailed (.rejected "weak")) := by
    rw [restart_eq_error_iff ((blockSize_wiped g _).symm ▸ hzero), blockSize_wiped, hsize]
    exact hweak
  have hseeds : (g.wiped choosyGenerator.cipher).TakesNoSeed [.nextUInt64, .restart 7] := by
    rw [takesNoSeed_wiped_iff hzero, List.forall_mem_cons, List.forall_mem_singleton]
    exact ⟨nofun, fun _ => ((perform_restart 7).exists_error_iff _).mpr ⟨_, hagain⟩⟩
  exact ⟨hseeded, _, hleft, rfl, congrArg Counter.zero hsize, rfl,
    (hlater _ hseeds).2 .int63 (by decide)⟩

end Generator

end Fortuna

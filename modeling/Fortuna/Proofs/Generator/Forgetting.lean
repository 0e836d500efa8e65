import Fortuna.Cipher.Transparent
import Fortuna.Proofs.Generator.Run

/-!
# Forgetting

A deterministic seed makes a generator forget its past, except for its totals.
Totals are counted and reported, but nothing depends on them: an operation
started with higher totals gives the same result and leaves the same state, with
totals higher by as much (`Step.IgnoresTotals`).  After a deterministic seed a
generator is a freshly made and seeded one with higher totals, and it stays one
through all later requests.
-/

namespace Fortuna

/-! ## Totals -/

namespace Totals

instance : Add Totals where
  add s t :=
    { reseeds := s.reseeds + t.reseeds
      rekeys := s.rekeys + t.rekeys
      blocks := s.blocks + t.blocks
      bytes := s.bytes + t.bytes }

@[simp] theorem reseeds_add (s t : Totals) : (s + t).reseeds = s.reseeds + t.reseeds :=
  rfl

@[simp] theorem rekeys_add (s t : Totals) : (s + t).rekeys = s.rekeys + t.rekeys :=
  rfl

@[simp] theorem blocks_add (s t : Totals) : (s + t).blocks = s.blocks + t.blocks :=
  rfl

@[simp] theorem bytes_add (s t : Totals) : (s + t).bytes = s.bytes + t.bytes :=
  rfl

theorem add_assoc (s t u : Totals) : s + t + u = s + (t + u) := by
  change Totals.mk _ _ _ _ = Totals.mk _ _ _ _
  congr 1 <;> exact Nat.add_assoc _ _ _

end Totals

namespace Generator

variable {F : CipherFactory}

/-- The same generator with totals higher by `d`. -/
def shift (g : Generator F) (d : Totals) : Generator F :=
  { g with totals := d + g.totals }

theorem drawn_shift (g : Generator F) (d : Totals) (k : Nat) :
    (g.shift d).drawn k = (g.drawn k).shift d := by
  have hblocks : d.blocks + g.totals.blocks + k = d.blocks + (g.totals.blocks + k) :=
    Nat.add_assoc _ _ _
  change Generator.mk _ _ _ { d + g.totals with blocks := d.blocks + g.totals.blocks + k } = _
  rw [hblocks]
  rfl

theorem mixed_shift (g : Generator F) (d : Totals) (seed : Bytes) (cipher : Cipher) :
    (g.shift d).mixed seed cipher = (g.mixed seed cipher).shift d := by
  change Generator.mk _ _ _ { d + g.totals with reseeds := d.reseeds + g.totals.reseeds + 1 } = _
  rw [Nat.add_assoc]
  rfl

/-- Totals only grow. -/
theorem Stage.exists_growth {g h : Generator F} {as : List Action} (hstage : Stage g as h) :
    ∃ growth, h.totals = g.totals + growth := by
  cases hstage with
  | mixed seed cipher => exact ⟨{ reseeds := 1 }, rfl⟩
  | wiped cipher => exact ⟨{}, rfl⟩
  | restarted seed => exact ⟨{}, rfl⟩
  | draw hdraw =>
      cases hdraw with
      | delivered n => exact ⟨{ bytes := n }, rfl⟩
      | chunk size hpos hmax o hend =>
          cases hend with
          | unseeded => exact ⟨{}, rfl⟩
          | stalled => exact ⟨{ blocks := size }, rfl⟩
          | refused => exact ⟨{ blocks := size + g.keyBlocks }, rfl⟩
          | rekeyed cipher => exact ⟨{ rekeys := 1, blocks := size + g.keyBlocks }, rfl⟩

theorem Run.exists_growth {g h : Generator F} {as : List Action} (hrun : Run Stage g as h) :
    ∃ growth, h.totals = g.totals + growth := by
  induction hrun with
  | refl g => exact ⟨{}, rfl⟩
  | head hstage hrun ih =>
      obtain ⟨first, hfirst⟩ := hstage.exists_growth
      obtain ⟨rest, hrest⟩ := ih
      exact ⟨first + rest, by rw [hrest, hfirst, Totals.add_assoc]⟩

end Generator

/-! ## Nothing depends on totals -/

namespace Step

open Generator

variable {F : CipherFactory} {ε ε' α β : Type}

/-- With higher totals the operation has the same result and leaves the same
state, with totals higher by as much. -/
def IgnoresTotals (x : Step F ε α) : Prop :=
  ∀ (g : Generator F) (d : Totals),
    (x (g.shift d)).result = (x g).result ∧ (x (g.shift d)).state = (x g).state.shift d

theorem IgnoresTotals.pure (a : α) : (pure a : Step F ε α).IgnoresTotals :=
  fun _ _ => ⟨rfl, rfl⟩

theorem IgnoresTotals.bind {x : Step F ε α} {f : α → Step F ε β}
    (hx : x.IgnoresTotals) (hf : ∀ a, (f a).IgnoresTotals) :
    (x >>= f).IgnoresTotals := by
  intro g d
  obtain ⟨hresult, hstate⟩ := hx g d
  rw [bind_apply, bind_apply]
  cases hok : (x g).result with
  | error e =>
      rw [Outcome.andThen_of_error hok, Outcome.andThen_of_error (hresult.trans hok)]
      exact ⟨rfl, hstate⟩
  | ok a =>
      rw [Outcome.andThen_of_ok hok, Outcome.andThen_of_ok (hresult.trans hok), hstate]
      exact hf a _ d

theorem IgnoresTotals.mapError {x : Step F ε α} (hx : x.IgnoresTotals) (f : ε → ε') :
    (x.mapError f).IgnoresTotals := by
  intro g d
  obtain ⟨hresult, hstate⟩ := hx g d
  exact ⟨congrArg (Except.mapError f) hresult, hstate⟩

end Step

namespace Generator

variable {F : CipherFactory}

theorem ignoresTotals_keystream (purpose : Purpose) (k : Nat) :
    (keystream purpose k : Step F GeneratorError Bytes).IgnoresTotals := by
  intro g d
  cases hseeded : g.isSeeded with
  | false =>
      have hshift : (g.shift d).isSeeded = false := hseeded
      rw [keystream_of_unseeded _ _ hseeded, keystream_of_unseeded _ _ hshift]
      exact ⟨rfl, rfl⟩
  | true =>
      have hshift : (g.shift d).isSeeded = true := hseeded
      rw [keystream_of_seeded _ _ hseeded, keystream_of_seeded _ _ hshift]
      exact ⟨rfl, drawn_shift g d k⟩

theorem ignoresTotals_rekey : (rekey : Step F GeneratorError Unit).IgnoresTotals := by
  intro g d
  cases hseeded : g.isSeeded with
  | false =>
      have hshift : (g.shift d).isSeeded = false := hseeded
      rw [rekey_of_unseeded hseeded, rekey_of_unseeded hshift]
      exact ⟨rfl, rfl⟩
  | true =>
      have hshift : (g.shift d).isSeeded = true := hseeded
      have hdrawn := drawn_shift g d g.keyBlocks
      cases hcipher : F.cipherFor g.blockSize g.freshKey with
      | error e =>
          have hcipher' : F.cipherFor (g.shift d).blockSize (g.shift d).freshKey = .error e :=
            hcipher
          rw [rekey_of_refused hseeded hcipher, rekey_of_refused hshift hcipher']
          exact ⟨rfl, hdrawn⟩
      | ok cipher =>
          have hcipher' : F.cipherFor (g.shift d).blockSize (g.shift d).freshKey = .ok cipher :=
            hcipher
          rw [rekey_of_cipher hseeded hcipher, rekey_of_cipher hshift hcipher']
          refine ⟨rfl, ?_⟩
          change ({ (g.shift d).drawn g.keyBlocks with
            key := g.freshKey, cipher,
            totals.rekeys := d.rekeys + g.totals.rekeys + 1 } : Generator F) = _
          rw [hdrawn, Nat.add_assoc]
          rfl

theorem ignoresTotals_chunk (size : Nat) :
    (chunk size : Step F GeneratorError Bytes).IgnoresTotals := by
  apply (ignoresTotals_keystream .output size).bind
  intro out
  apply ignoresTotals_rekey.bind
  intro _
  exact .pure out

theorem ignoresTotals_chunks (sizes : List Nat) :
    (chunks sizes : Step F GeneratorError Bytes).IgnoresTotals := by
  induction sizes with
  | nil => exact .pure []
  | cons size sizes ih =>
      rw [chunks_cons]
      apply (ignoresTotals_chunk size).bind
      intro first
      apply ih.bind
      intro rest
      exact .pure _

theorem ignoresTotals_deliver (n : Nat) (out : Bytes) :
    (deliver n out : Step F GeneratorError Bytes).IgnoresTotals := by
  intro g d
  refine ⟨rfl, ?_⟩
  change Generator.mk _ _ _ { d + g.totals with bytes := d.bytes + g.totals.bytes + n } = _
  rw [Nat.add_assoc]
  rfl

theorem ignoresTotals_read (n : Nat) :
    (read n : Step F GeneratorError Bytes).IgnoresTotals := by
  intro g d
  cases hseeded : g.isSeeded with
  | false =>
      have hshift : (g.shift d).isSeeded = false := hseeded
      rw [read_of_unseeded n hseeded, read_of_unseeded n hshift]
      exact ⟨rfl, rfl⟩
  | true =>
      have hshift : (g.shift d).isSeeded = true := hseeded
      rw [read_of_seeded n hseeded, read_of_seeded n hshift]
      exact (ignoresTotals_chunks (chunkSizes (g.blocksFor n))).bind (ignoresTotals_deliver n) g d

theorem ignoresTotals_reseed (seed : Bytes) :
    (reseed seed : Step F GeneratorError Unit).IgnoresTotals := by
  intro g d
  cases hcipher : F.cipherFor g.blockSize (mixedKey g.key seed) with
  | error e =>
      have hcipher' : F.cipherFor (g.shift d).blockSize (mixedKey (g.shift d).key seed) =
          .error e := hcipher
      rw [reseed_of_refused hcipher, reseed_of_refused hcipher']
      exact ⟨rfl, rfl⟩
  | ok cipher =>
      have hcipher' : F.cipherFor (g.shift d).blockSize (mixedKey (g.shift d).key seed) =
          .ok cipher := hcipher
      rw [reseed_of_cipher hcipher, reseed_of_cipher hcipher']
      exact ⟨rfl, mixed_shift g d seed cipher⟩

theorem ignoresTotals_wipe : (wipe : Step F GeneratorError Unit).IgnoresTotals := by
  intro g d
  cases hcipher : F.cipherFor g.blockSize zeroKey with
  | error e =>
      have hcipher' : F.cipherFor (g.shift d).blockSize zeroKey = .error e := hcipher
      rw [wipe_of_refused hcipher, wipe_of_refused hcipher']
      exact ⟨rfl, rfl⟩
  | ok cipher =>
      have hcipher' : F.cipherFor (g.shift d).blockSize zeroKey = .ok cipher := hcipher
      rw [wipe_of_cipher hcipher, wipe_of_cipher hcipher']
      exact ⟨rfl, rfl⟩

theorem ignoresTotals_restart (seed : Int64) :
    (restart seed : Step F GeneratorError Unit).IgnoresTotals := by
  rw [restart_eq]
  apply ignoresTotals_wipe.bind
  intro _
  apply (ignoresTotals_reseed _).bind
  intro _ g d
  exact ⟨rfl, rfl⟩

theorem ignoresTotals_perform (op : Operation) :
    (op.perform : Step F Failure Answer).IgnoresTotals := by
  have hfill (buffer : Bytes) : (fill buffer : Step F GeneratorError Bytes).IgnoresTotals :=
    ignoresTotals_read buffer.length
  cases op with
  | reseed seed => exact ((ignoresTotals_reseed seed).mapError _).bind fun _ => .pure _
  | restart seed => exact ((ignoresTotals_restart seed).mapError _).bind fun _ => .pure _
  | read n => exact ((ignoresTotals_read n).mapError _).bind fun _ => .pure _
  | fill buffer => exact ((hfill buffer).mapError _).bind fun _ => .pure _
  | int63 =>
      have hint63 : (int63 : Step F GeneratorError Nat).IgnoresTotals :=
        (hfill _).bind fun _ => .pure _
      exact (hint63.mapError _).bind fun _ => .pure _
  | fillOrAbort buffer =>
      exact (((hfill buffer).mapError _).mapError _).bind fun _ => .pure _
  | nextUInt32 =>
      have hnext : (nextUInt32 : Step F Abort UInt32).IgnoresTotals :=
        ((hfill _).mapError _).bind fun _ => .pure _
      exact (hnext.mapError _).bind fun _ => .pure _
  | nextUInt64 =>
      have hnext : (nextUInt64 : Step F Abort UInt64).IgnoresTotals :=
        ((hfill _).mapError _).bind fun _ => .pure _
      exact (hnext.mapError _).bind fun _ => .pure _

theorem after_shift (g : Generator F) (d : Totals) (ops : List Operation) :
    (g.shift d).after ops = (g.after ops).shift d := by
  induction ops generalizing g with
  | nil => rfl
  | cons op ops ih =>
      obtain ⟨-, hstate⟩ := ignoresTotals_perform op g d
      rw [after, after, hstate, ih]

/-! ## Deterministic seeds -/

/-- A wipe takes every reachable state to a fresh generator. -/
theorem wiped_after {c : Created F} (hcreate : create F = .ok c) (ops : List Operation) :
    (c.generator.after ops).wiped c.generator.cipher =
      c.generator.shift (c.generator.after ops).totals := by
  have hsize := (run_after c.generator ops).blockSize_eq
  generalize c.generator.after ops = g at hsize ⊢
  obtain ⟨zero, hbuild, hpos, rfl⟩ := (create_eq_ok_iff c).mp hcreate
  have hwidth : g.blockSize = zero.blockSize := hsize.trans (Counter.width_zero _)
  rw [wiped, hwidth]
  rfl

/-- A deterministic seed does in every reachable state what it does to a fresh
generator, with the totals on top. -/
theorem restart_after {c : Created F} (hcreate : create F = .ok c) (ops : List Operation)
    (seed : Int64) :
    (restart seed (c.generator.after ops)).result =
        (reseed (seedBytes seed) c.generator).result ∧
      (restart seed (c.generator.after ops)).state =
        (reseed (seedBytes seed) c.generator).state.shift (c.generator.after ops).totals := by
  obtain ⟨hresult, hstate⟩ := restart_of_wiped (cipherFor_zeroKey_after hcreate ops) seed
  obtain ⟨hresult', hstate'⟩ :=
    ignoresTotals_reseed (seedBytes seed) c.generator (c.generator.after ops).totals
  rw [wiped_after hcreate] at hresult hstate
  exact ⟨hresult.trans hresult', hstate.trans hstate'⟩

/-- After a deterministic seed nothing tells two generators of one factory apart,
whatever they did before: the seed succeeds for both or fails for both, both have
key, cipher and counter of a fresh generator after that seed, and all that
follows yields the same and is counted the same. -/
theorem restart_forgets_history {g h : Generator F} (hg : Reachable g) (hh : Reachable h)
    (seed : Int64) :
    (restart seed g).result = (restart seed h).result ∧
      (∃ c, create F = .ok c ∧
        (reseed (seedBytes seed) c.generator).result = (restart seed g).result ∧
        ∀ k ∈ [(restart seed g).state, (restart seed h).state],
          k.key = (reseed (seedBytes seed) c.generator).state.key ∧
          k.cipher = (reseed (seedBytes seed) c.generator).state.cipher ∧
          k.counter = (reseed (seedBytes seed) c.generator).state.counter) ∧
      ∀ (ops : List Operation) (op : Operation),
        let g' := (restart seed g).state.after ops
        let h' := (restart seed h).state.after ops
        (op.perform g').result = (op.perform h').result ∧
          ∃ growth, (op.perform g').state.totals = g'.totals + growth ∧
            (op.perform h').state.totals = h'.totals + growth := by
  obtain ⟨c, gops, hcreate, rfl⟩ := hg
  obtain ⟨c', hops, hcreate', rfl⟩ := hh
  obtain rfl : c = c' := Except.ok.inj (hcreate.symm.trans hcreate')
  obtain ⟨hresult, hstate⟩ := restart_after hcreate gops seed
  obtain ⟨hresult', hstate'⟩ := restart_after hcreate hops seed
  refine ⟨hresult.trans hresult'.symm, ⟨c, hcreate, hresult.symm, ?_⟩, ?_⟩
  · rw [List.forall_mem_cons, List.forall_mem_singleton, hstate, hstate']
    exact ⟨⟨rfl, rfl, rfl⟩, rfl, rfl, rfl⟩
  · intro ops op
    rw [hstate, hstate', after_shift, after_shift]
    generalize (reseed (seedBytes seed) c.generator).state.after ops = fresh
    obtain ⟨hsame, hnext⟩ := ignoresTotals_perform op fresh (c.generator.after gops).totals
    obtain ⟨hsame', hnext'⟩ := ignoresTotals_perform op fresh (c.generator.after hops).totals
    obtain ⟨growth, hgrowth⟩ := (runs_perform op fresh).exists_growth
    refine ⟨hsame.trans hsame'.symm, growth, ?_, ?_⟩
    · rw [hnext, shift, hgrowth, ← Totals.add_assoc]
      rfl
    · rw [hnext', shift, hgrowth, ← Totals.add_assoc]
      rfl

/-- A generator with blocks of sixteen bytes to which the key is added. -/
def maskGenerator : Generator (Transparent.factory ⟨.mask, 16, none⟩) where
  key := zeroKey
  cipher := Transparent.cipher .mask 16 zeroKey
  counter := .zero 16

theorem reachable_maskGenerator (ops : List Operation) : Reachable (maskGenerator.after ops) :=
  ⟨⟨maskGenerator, [.installed zeroKey, .logged (.created 16)]⟩, ops, rfl, rfl⟩

theorem restart_forgets_output :
    (restart 7 (maskGenerator.after [])).result =
        (restart 7 (maskGenerator.after [.reseed [1, 2, 3], .read 5])).result ∧
      ((Operation.read 40).perform
          ((restart 7 (maskGenerator.after [])).state.after [.int63])).result =
        ((Operation.read 40).perform
          ((restart 7 (maskGenerator.after [.reseed [1, 2, 3], .read 5])).state.after
            [.int63])).result := by
  have hfresh := reachable_maskGenerator []
  have hused := reachable_maskGenerator [.reseed [1, 2, 3], .read 5]
  obtain ⟨hresult, -, hlater⟩ := restart_forgets_history hfresh hused 7
  obtain ⟨hread, -⟩ := hlater [.int63] (.read 40)
  exact ⟨hresult, hread⟩

end Generator

end Fortuna

import Fortuna.Generator.Output
import Fortuna.Proofs.Counter.Positions

/-!
# How a chunk ends

A chunk is a run of output blocks together with the key that follows it.  This
module opens the steps of which a chunk consists, once and for all, and says in
what ways a chunk can end (`chunk_end`): before its first block, at its key,
when the new key is refused, or with the new key installed.  Everything later
about requests goes through these four ends and never unfolds a step again.

A factory is consulted in one way only, through `CipherFactory.cipherFor`: the
cipher of a key, provided that it has the block size asked for.
-/

namespace Fortuna

/-! ## Steps -/

namespace Step

variable {F : CipherFactory} {ε ε' α β : Type}

@[simp] theorem fail_apply (e : ε) (g : Generator F) :
    (fail e : Step F ε α) g = ⟨.error e, g, []⟩ :=
  rfl

@[simp] theorem state_apply (g : Generator F) :
    (state : Step F ε (Generator F)) g = ⟨.ok g, g, []⟩ :=
  rfl

@[simp] theorem update_apply (f : Generator F → Generator F) (g : Generator F) :
    (update f : Step F ε Unit) g = ⟨.ok (), f g, []⟩ :=
  rfl

@[simp] theorem record_apply (actions : List Action) (g : Generator F) :
    (record actions : Step F ε Unit) g = ⟨.ok (), g, actions⟩ :=
  rfl

@[simp] theorem report_apply (event : Event) (g : Generator F) :
    (report event : Step F ε Unit) g = ⟨.ok (), g, [.logged event]⟩ :=
  rfl

@[simp] theorem mapError_apply (f : ε → ε') (x : Step F ε α) (g : Generator F) :
    (x.mapError f) g = (x g).mapError f :=
  rfl

end Step

namespace Outcome

variable {F : CipherFactory} {ε α β : Type}

@[simp] theorem andThen_ok (a : α) (g : Generator F) (as : List Action)
    (f : α → Step F ε β) :
    (⟨.ok a, g, as⟩ : Outcome F ε α).andThen f =
      ⟨(f a g).result, (f a g).state, as ++ (f a g).actions⟩ :=
  rfl

@[simp] theorem andThen_error (e : ε) (g : Generator F) (as : List Action)
    (f : α → Step F ε β) :
    (⟨.error e, g, as⟩ : Outcome F ε α).andThen f = ⟨.error e, g, as⟩ :=
  rfl

theorem andThen_of_ok {o : Outcome F ε α} {a : α} (hok : o.result = .ok a)
    (f : α → Step F ε β) :
    o.andThen f =
      ⟨(f a o.state).result, (f a o.state).state, o.actions ++ (f a o.state).actions⟩ := by
  rcases o with ⟨result, g, as⟩
  cases hok
  rfl

theorem andThen_of_error {o : Outcome F ε α} {e : ε} (herror : o.result = .error e)
    (f : α → Step F ε β) :
    o.andThen f = ⟨.error e, o.state, o.actions⟩ := by
  rcases o with ⟨result, g, as⟩
  cases herror
  rfl

/-- A continued step succeeds when both parts do. -/
theorem result_andThen_eq_ok_iff (o : Outcome F ε α) (f : α → Step F ε β) (b : β) :
    (o.andThen f).result = .ok b ↔
      ∃ a, o.result = .ok a ∧ (f a o.state).result = .ok b := by
  rcases o with ⟨_ | a, g, as⟩
  · simp
  · simp

end Outcome

namespace Step

variable {F : CipherFactory} {ε : Type}

instance : LawfulMonad (Step F ε) := LawfulMonad.mk' (Step F ε)
  (by
    intro α x
    funext g
    change (x g).andThen (fun a => pure a) = x g
    rcases x g with ⟨_ | a, h, as⟩ <;> simp)
  (by
    intro α β a f
    funext g
    simp)
  (by
    intro α β γ x f k
    funext g
    simp only [bind_apply]
    rcases x g with ⟨_ | a, h, as⟩
    · rfl
    · simp only [Outcome.andThen_ok, bind_apply]
      rcases f a h with ⟨_ | b, h', as'⟩ <;> simp)

end Step

/-! ## Keys and keystream -/

/-- The cipher of a key, if it has blocks of the given size. -/
def CipherFactory.cipherFor (F : CipherFactory) (blockSize : Nat) (key : Bytes) :
    Except GeneratorError Cipher :=
  match F.build key with
  | .error cause => .error (.cipherInitFailed cause)
  | .ok cipher =>
    if cipher.blockSize = blockSize then .ok cipher
    else .error (.blockSizeMismatch blockSize cipher.blockSize)

theorem CipherFactory.cipherFor_eq_ok_iff (F : CipherFactory) (blockSize : Nat) (key : Bytes)
    (cipher : Cipher) :
    F.cipherFor blockSize key = .ok cipher ↔
      F.build key = .ok cipher ∧ cipher.blockSize = blockSize := by
  unfold CipherFactory.cipherFor
  cases F.build key with
  | error cause => simp
  | ok built =>
      by_cases hsize : built.blockSize = blockSize
      · simp only [hsize, ↓reduceIte, Except.ok.injEq]
        constructor
        · rintro rfl
          exact ⟨rfl, hsize⟩
        · exact And.left
      · simp only [hsize, ↓reduceIte, reduceCtorEq, Except.ok.injEq, false_iff, not_and]
        rintro rfl
        exact hsize

/-- There is no fitting cipher when the factory has none or one of another size. -/
theorem CipherFactory.cipherFor_eq_error_iff (F : CipherFactory) (blockSize : Nat) (key : Bytes)
    (e : GeneratorError) :
    F.cipherFor blockSize key = .error e ↔
      (∃ cause, F.build key = .error cause ∧ .cipherInitFailed cause = e) ∨
        ∃ cipher, F.build key = .ok cipher ∧ cipher.blockSize ≠ blockSize ∧
          .blockSizeMismatch blockSize cipher.blockSize = e := by
  unfold CipherFactory.cipherFor
  cases F.build key with
  | error cause => simp
  | ok built =>
      by_cases hsize : built.blockSize = blockSize
      · simp [hsize]
      · simp [hsize]

namespace Generator

variable {F : CipherFactory}

theorem isSeeded_eq_true_iff (g : Generator F) :
    g.isSeeded = true ↔ g.counter.isZero = false := by
  rw [isSeeded, Bool.not_eq_true']

theorem isSeeded_eq_false_iff (g : Generator F) :
    g.isSeeded = false ↔ g.counter.isZero = true := by
  rw [isSeeded, Bool.not_eq_false']

theorem isSeeded_iff {g : Generator F} {width s : Nat} (hcounter : g.counter = .ofNat width s) :
    g.isSeeded = true ↔ ¬ 256 ^ width ∣ s := by
  rw [isSeeded_eq_true_iff, ← Bool.not_eq_true, hcounter, Counter.isZero_ofNat_iff]

theorem install_of_cipher {g : Generator F} {key : Bytes} {cipher : Cipher}
    (hcipher : F.cipherFor g.blockSize key = .ok cipher) :
    install key g = ⟨.ok (), { g with key, cipher }, [.installed key]⟩ := by
  obtain ⟨hbuild, hsize⟩ := (F.cipherFor_eq_ok_iff _ _ _).mp hcipher
  simp only [install, hbuild, hsize, ↓reduceIte]

theorem install_of_refused {g : Generator F} {key : Bytes} {e : GeneratorError}
    (hcipher : F.cipherFor g.blockSize key = .error e) :
    install key g = ⟨.error e, g, []⟩ := by
  rcases (F.cipherFor_eq_error_iff _ _ _).mp hcipher with
    ⟨cause, hbuild, rfl⟩ | ⟨cipher, hbuild, hsize, rfl⟩
  · simp only [install, hbuild]
  · simp only [install, hbuild, hsize, ↓reduceIte]

/-- The blocks that a new key takes. -/
def keyBlocks (g : Generator F) : Nat :=
  g.blocksFor keySize

theorem keyBlocks_pos {g : Generator F} (hpos : 0 < g.blockSize) : 0 < g.keyBlocks := by
  have hkey : keySize = 32 := rfl
  exact Nat.div_pos (by omega) hpos

/-- The next `k` blocks of keystream, whatever they are made for. -/
def blocks (g : Generator F) (k : Nat) : Bytes :=
  (g.counter.upcoming k).flatMap fun c => g.cipher.encrypt c.bytes

/-- The encryptions for `k` blocks. -/
def trail (g : Generator F) (purpose : Purpose) (k : Nat) : List Action :=
  (g.counter.upcoming k).map (.encrypted purpose)

/-- The state after `k` blocks of keystream. -/
def drawn (g : Generator F) (k : Nat) : Generator F :=
  { g with counter := g.counter.advance k, totals.blocks := g.totals.blocks + k }

@[simp] theorem key_drawn (g : Generator F) (k : Nat) : (g.drawn k).key = g.key :=
  rfl

@[simp] theorem cipher_drawn (g : Generator F) (k : Nat) : (g.drawn k).cipher = g.cipher :=
  rfl

@[simp] theorem counter_drawn (g : Generator F) (k : Nat) :
    (g.drawn k).counter = g.counter.advance k :=
  rfl

@[simp] theorem blockSize_drawn (g : Generator F) (k : Nat) :
    (g.drawn k).blockSize = g.blockSize :=
  Counter.width_advance g.counter k

@[simp] theorem keyBlocks_drawn (g : Generator F) (k : Nat) :
    (g.drawn k).keyBlocks = g.keyBlocks := by
  simp only [keyBlocks, blocksFor, blockSize_drawn]

theorem drawn_drawn (g : Generator F) (j k : Nat) :
    (g.drawn j).drawn k = g.drawn (j + k) := by
  simp only [drawn, Counter.advance_advance, Nat.add_assoc]

theorem keystream_of_seeded (purpose : Purpose) (k : Nat) {g : Generator F}
    (hseeded : g.isSeeded = true) :
    keystream purpose k g =
      ⟨.ok (g.blocks k), g.drawn k, g.trail purpose k⟩ := by
  simp only [keystream, Step.bind_apply, Step.state_apply, Outcome.andThen_ok, hseeded,
    ↓reduceIte, Counter.draw_eq, Step.record_apply, Step.update_apply, Step.pure_apply,
    List.append_nil, List.nil_append]
  rfl

theorem keystream_of_unseeded (purpose : Purpose) (k : Nat) {g : Generator F}
    (hseeded : g.isSeeded = false) :
    keystream purpose k g = ⟨.error .unseeded, g, []⟩ := by
  simp [keystream, hseeded]

/-! ## The next key -/

@[simp] theorem length_blocks (g : Generator F) (k : Nat) :
    (g.blocks k).length = k * g.blockSize := by
  rw [blocks, List.length_flatMap, Counter.upcoming_eq_map, List.map_map]
  simp [Function.comp_def, g.cipher.length_encrypt, Counter.ofNat, blockSize]

/-- Keystream that is made has the length asked for. -/
theorem keystream_of_ok {purpose : Purpose} {k : Nat} {g : Generator F} {made : Bytes}
    (hok : (keystream purpose k g).result = .ok made) :
    made.length = k * g.blockSize ∧ (keystream purpose k g).state = g.drawn k := by
  cases hseeded : g.isSeeded with
  | false =>
      rw [keystream_of_unseeded _ _ hseeded] at hok
      cases hok
  | true =>
      rw [keystream_of_seeded _ _ hseeded] at hok ⊢
      obtain rfl : g.blocks k = made := Except.ok.inj hok
      exact ⟨length_blocks g k, rfl⟩

theorem le_blocksFor_mul {g : Generator F} (hpos : 0 < g.blockSize) (n : Nat) :
    n ≤ g.blocksFor n * g.blockSize := by
  have hdiv := Nat.div_add_mod (n + g.blockSize - 1) g.blockSize
  have hmod := Nat.mod_lt (n + g.blockSize - 1) hpos
  rw [blocksFor, Nat.mul_comm]
  omega

/-- The key that the next keystream makes. -/
def freshKey (g : Generator F) : Bytes :=
  (g.blocks g.keyBlocks).take keySize

theorem length_freshKey {g : Generator F} (hpos : 0 < g.blockSize) :
    g.freshKey.length = keySize := by
  rw [freshKey, List.length_take, length_blocks]
  exact Nat.min_eq_left (le_blocksFor_mul hpos keySize)

theorem rekey_of_unseeded {g : Generator F} (hseeded : g.isSeeded = false) :
    rekey g = ⟨.error .unseeded, g, []⟩ := by
  simp only [rekey, Step.bind_apply, Step.state_apply, Outcome.andThen_ok,
    keystream_of_unseeded _ _ hseeded, Outcome.andThen_error, List.append_nil]

theorem rekey_of_refused {g : Generator F} {e : GeneratorError}
    (hseeded : g.isSeeded = true) (hcipher : F.cipherFor g.blockSize g.freshKey = .error e) :
    rekey g = ⟨.error e, g.drawn g.keyBlocks, g.trail .key g.keyBlocks⟩ := by
  have hinstall : install ((g.blocks (g.blocksFor keySize)).take keySize)
      (g.drawn (g.blocksFor keySize)) = ⟨.error e, g.drawn g.keyBlocks, []⟩ :=
    install_of_refused (by rw [blockSize_drawn]; exact hcipher)
  simp only [rekey, Step.bind_apply, Step.state_apply, Outcome.andThen_ok,
    keystream_of_seeded _ _ hseeded, hinstall, Outcome.andThen_error, List.append_nil,
    List.nil_append]
  rfl

theorem rekey_of_cipher {g : Generator F} {cipher : Cipher}
    (hseeded : g.isSeeded = true) (hcipher : F.cipherFor g.blockSize g.freshKey = .ok cipher) :
    rekey g =
      ⟨.ok (),
        { g.drawn g.keyBlocks with
          key := g.freshKey, cipher, totals.rekeys := g.totals.rekeys + 1 },
        g.trail .key g.keyBlocks ++
          [.installed g.freshKey, .logged (.rekeyed (g.totals.rekeys + 1))]⟩ := by
  have hinstall : install ((g.blocks (g.blocksFor keySize)).take keySize)
      (g.drawn (g.blocksFor keySize)) =
        ⟨.ok (), { g.drawn g.keyBlocks with key := g.freshKey, cipher },
          [.installed g.freshKey]⟩ :=
    install_of_cipher (by rw [blockSize_drawn]; exact hcipher)
  simp only [rekey, Step.bind_apply, Step.state_apply, Outcome.andThen_ok,
    keystream_of_seeded _ _ hseeded, hinstall, Step.update_apply, Step.report_apply,
    List.nil_append, List.cons_append]
  rfl

/-! ## Chunks -/

/-- A run of output blocks and the key that follows it. -/
def chunk (size : Nat) : Step F GeneratorError Bytes := do
  let bytes ← keystream .output size
  rekey
  return bytes

theorem chunks_cons (size : Nat) (sizes : List Nat) :
    (chunks (size :: sizes) : Step F GeneratorError Bytes) = do
      let first ← chunk size
      let rest ← chunks sizes
      return first ++ rest := by
  simp only [chunks, chunk, bind_assoc, pure_bind]

theorem chunks_append (xs ys : List Nat) :
    (chunks (xs ++ ys) : Step F GeneratorError Bytes) = do
      let first ← chunks xs
      let rest ← chunks ys
      return first ++ rest := by
  induction xs with
  | nil => simp [chunks]
  | cons size sizes ih =>
      simp only [List.cons_append, chunks_cons, ih, bind_assoc, pure_bind, List.append_assoc]

theorem chunks_singleton (size : Nat) :
    (chunks [size] : Step F GeneratorError Bytes) = chunk size := by
  simp [chunks, chunk]

/-- The key that follows a chunk. -/
def nextKey (g : Generator F) (size : Nat) : Bytes :=
  (g.drawn size).freshKey

theorem nextKey_eq (g : Generator F) (size : Nat) :
    g.nextKey size =
      (((g.counter.advance size).upcoming g.keyBlocks).flatMap fun c =>
        g.cipher.encrypt c.bytes).take keySize := by
  rw [nextKey, freshKey, keyBlocks_drawn]
  rfl

/-- The encryptions for a chunk and for the key that follows it. -/
def chunkTrail (g : Generator F) (size : Nat) : List Action :=
  g.trail .output size ++ (g.drawn size).trail .key g.keyBlocks

/-- The state after a chunk whose new key has the given cipher. -/
def rekeyed (g : Generator F) (size : Nat) (cipher : Cipher) : Generator F :=
  { g.drawn (size + g.keyBlocks) with
    key := g.nextKey size, cipher, totals.rekeys := g.totals.rekeys + 1 }

/-- The ways in which a chunk can end. -/
inductive ChunkEnd (g : Generator F) (size : Nat) : Outcome F GeneratorError Bytes → Prop
  /-- No block can be made. -/
  | unseeded (hseeded : g.isSeeded = false) :
      ChunkEnd g size ⟨.error .unseeded, g, []⟩
  /-- The output blocks take the counter to zero. -/
  | stalled (hseeded : g.isSeeded = true) (hdrawn : (g.drawn size).isSeeded = false) :
      ChunkEnd g size ⟨.error .unseeded, g.drawn size, g.trail .output size⟩
  /-- The factory has no fitting cipher for the new key. -/
  | refused (e : GeneratorError) (hseeded : g.isSeeded = true)
      (hdrawn : (g.drawn size).isSeeded = true)
      (hcipher : F.cipherFor g.blockSize (g.nextKey size) = .error e) :
      ChunkEnd g size ⟨.error e, g.drawn (size + g.keyBlocks), g.chunkTrail size⟩
  /-- The new key is installed. -/
  | rekeyed (cipher : Cipher) (hseeded : g.isSeeded = true)
      (hdrawn : (g.drawn size).isSeeded = true)
      (hcipher : F.cipherFor g.blockSize (g.nextKey size) = .ok cipher) :
      ChunkEnd g size
        ⟨.ok (g.blocks size), g.rekeyed size cipher,
          g.chunkTrail size ++
            [.installed (g.nextKey size), .logged (.rekeyed (g.totals.rekeys + 1))]⟩

theorem chunk_end (g : Generator F) (size : Nat) : ChunkEnd g size (chunk size g) := by
  cases hseeded : g.isSeeded with
  | false =>
      rw [chunk, Step.bind_apply, keystream_of_unseeded _ _ hseeded]
      exact .unseeded hseeded
  | true =>
      rw [chunk, Step.bind_apply, keystream_of_seeded _ _ hseeded, Outcome.andThen_ok,
        Step.bind_apply]
      cases hdrawn : (g.drawn size).isSeeded with
      | false =>
          rw [rekey_of_unseeded hdrawn, Outcome.andThen_error, List.append_nil]
          exact .stalled hseeded hdrawn
      | true =>
          cases hcipher : F.cipherFor g.blockSize (g.nextKey size) with
          | error e =>
              have hrefused : F.cipherFor (g.drawn size).blockSize (g.drawn size).freshKey =
                  .error e := by
                rw [blockSize_drawn]
                exact hcipher
              rw [rekey_of_refused hdrawn hrefused, Outcome.andThen_error, keyBlocks_drawn,
                drawn_drawn]
              exact .refused e hseeded hdrawn hcipher
          | ok cipher =>
              have hfitting : F.cipherFor (g.drawn size).blockSize (g.drawn size).freshKey =
                  .ok cipher := by
                rw [blockSize_drawn]
                exact hcipher
              rw [rekey_of_cipher hdrawn hfitting, Outcome.andThen_ok, keyBlocks_drawn,
                drawn_drawn, Step.pure_apply, List.append_nil, ← List.append_assoc]
              exact .rekeyed cipher hseeded hdrawn hcipher

/-- The only end of a chunk that is a success. -/
theorem chunk_of_ok {g : Generator F} {size : Nat} {out : Bytes}
    (hout : (chunk size g).result = .ok out) :
    ∃ cipher, F.cipherFor g.blockSize (g.nextKey size) = .ok cipher ∧ g.blocks size = out ∧
      (chunk size g).state = g.rekeyed size cipher := by
  have hend := chunk_end g size
  generalize chunk size g = o at hend hout ⊢
  cases hend with
  | unseeded => cases hout
  | stalled => cases hout
  | refused => cases hout
  | rekeyed cipher hseeded hdrawn hcipher =>
      exact ⟨cipher, hcipher, Except.ok.inj hout, rfl⟩

theorem actions_chunk_of_ok {g : Generator F} {size : Nat} {out : Bytes}
    (hout : (chunk size g).result = .ok out) :
    (chunk size g).actions = g.chunkTrail size ++
      [.installed (g.nextKey size), .logged (.rekeyed (g.totals.rekeys + 1))] := by
  have hend := chunk_end g size
  generalize chunk size g = o at hend hout ⊢
  cases hend with
  | unseeded => cases hout
  | stalled => cases hout
  | refused => cases hout
  | rekeyed => rfl

theorem result_chunks_cons_iff (g : Generator F) (size : Nat) (sizes : List Nat) :
    (∃ out, (chunks (size :: sizes) g).result = .ok out) ↔
      (∃ first, (chunk size g).result = .ok first) ∧
        ∃ rest, (chunks sizes (chunk size g).state).result = .ok rest := by
  rw [chunks_cons, Step.bind_apply]
  constructor
  · rintro ⟨out, hout⟩
    obtain ⟨first, hfirst, hout⟩ := (Outcome.result_andThen_eq_ok_iff _ _ _).mp hout
    obtain ⟨rest, hrest, -⟩ := (Outcome.result_andThen_eq_ok_iff _ _ _).mp hout
    exact ⟨⟨first, hfirst⟩, rest, hrest⟩
  · rintro ⟨⟨first, hfirst⟩, rest, hrest⟩
    refine ⟨first ++ rest, (Outcome.result_andThen_eq_ok_iff _ _ _).mpr ⟨first, hfirst, ?_⟩⟩
    exact (Outcome.result_andThen_eq_ok_iff _ _ _).mpr ⟨rest, hrest, rfl⟩

end Generator

end Fortuna

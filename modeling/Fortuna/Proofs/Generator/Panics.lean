import Fortuna.Proofs.Generator.Seededness

/-!
# Panics

A program ends without an error of its own where it divides by zero, asks for more
memory than there can be, takes a part that a slice does not have, copies between
slices of different lengths, or has a cipher encrypt what is not a block of it.
The namespace `Checked` holds the requests to a generator once more, with the
buffers that they work in and with each of these checks in its place, so that they
may panic where they would in a program.

In every state that requests can leave, and under any factory, no check fails as
long as the blocks of the request fit in memory (`no_stray_panic`).  Key, cipher
and counter fit together in such a state (`Run.consistent`), which settles the
lengths of keys and blocks, and chunks make as many blocks as were asked for, which
settles the rest.  What remains are the aborts of requests that promise an answer.
-/

namespace Fortuna

/-- What ends a program without an error of its own. -/
inductive Panic where
  | divisionByZero
  | capacityOverflow
  | sliceOutOfRange
  | copyLengthMismatch
  | blockLengthMismatch
  deriving DecidableEq

/-- How a checked operation ends early. -/
inductive Stop (ε : Type) where
  | failed (e : ε)
  | panicked (panic : Panic)
  deriving DecidableEq

def Stop.map {ε ε' : Type} (f : ε → ε') : Stop ε → Stop ε'
  | .failed e => .failed (f e)
  | .panicked panic => .panicked panic

/-! ## Requests with their checks -/

namespace Checked

variable {F : CipherFactory} {ε : Type}

/-- Goes on if the condition holds. -/
def require (panic : Panic) (condition : Bool) : Step F (Stop ε) Unit :=
  if condition then pure () else Step.fail (.panicked panic)

/-- The quotient of two numbers, rounded up. -/
def divideUp (n d : Nat) : Step F (Stop ε) Nat := do
  require .divisionByZero (d != 0)
  return (n + d - 1) / d

/-- Makes room for a number of bytes. -/
def reserve (limit size : Nat) : Step F (Stop ε) Unit :=
  require .capacityOverflow (size ≤ limit)

/-- Overwrites a slice with another; the result is what the slice then holds. -/
def copy (dest source : Bytes) : Step F (Stop ε) Bytes := do
  require .copyLengthMismatch (dest.length == source.length)
  return source

/-- The bytes of a slice before an index. -/
def sliceTo (stop : Nat) (bytes : Bytes) : Step F (Stop ε) Bytes := do
  require .sliceOutOfRange (stop ≤ bytes.length)
  return bytes.take stop

/-- The bytes of a slice from an index on. -/
def sliceFrom (start : Nat) (bytes : Bytes) : Step F (Stop ε) Bytes := do
  require .sliceOutOfRange (start ≤ bytes.length)
  return bytes.drop start

def encryptBlock (cipher : Cipher) (block : Bytes) : Step F (Stop ε) Bytes :=
  match cipher.encrypt? block with
  | some encrypted => pure encrypted
  | none => Step.fail (.panicked .blockLengthMismatch)

/-- The encryptions of the next `k` counters, each made in place in one buffer. -/
def blocks (purpose : Purpose) (buffer : Bytes) : Nat → Step F (Stop ε) Bytes
  | 0 => return []
  | k + 1 => do
    let g ← Step.state
    let block ← copy buffer g.counter.bytes
    let encrypted ← encryptBlock g.cipher block
    Step.record [.encrypted purpose g.counter]
    Step.update fun g => { g with counter := g.counter.next }
    let rest ← blocks purpose encrypted k
    return encrypted ++ rest

/-- Keystream that is appended to the `used` bytes of a vector. -/
def keystream (limit : Nat) (purpose : Purpose) (used k : Nat) :
    Step F (Stop GeneratorError) Bytes := do
  let g ← Step.state
  if g.isSeeded then
    reserve limit g.blockSize
    reserve limit (used + k * g.blockSize)
    let made ← blocks purpose (List.replicate g.blockSize 0) k
    Step.update fun g => { g with totals.blocks := g.totals.blocks + k }
    return made
  else
    Step.fail (.failed .unseeded)

def install (key : Bytes) : Step F (Stop GeneratorError) Unit := do
  let g ← Step.state
  match F.build key with
  | .error cause => Step.fail (.failed (.cipherInitFailed cause))
  | .ok cipher =>
    if cipher.blockSize = g.blockSize then
      let key ← copy g.key key
      Step.update fun g => { g with key, cipher }
      Step.record [.installed key]
    else
      Step.fail (.failed (.blockSizeMismatch g.blockSize cipher.blockSize))

def rekey (limit : Nat) : Step F (Stop GeneratorError) Unit := do
  let before ← Step.state
  let count ← divideUp keySize before.blockSize
  reserve limit (count * before.blockSize)
  let material ← keystream limit .key 0 count
  let first ← sliceTo keySize material
  let key ← copy zeroKey first
  install key
  Step.update fun g => { g with totals.rekeys := g.totals.rekeys + 1 }
  let after ← Step.state
  Step.report (.rekeyed after.totals.rekeys)

/-- Chunks that are appended to the `used` bytes of a vector. -/
def chunks (limit used : Nat) : List Nat → Step F (Stop GeneratorError) Bytes
  | [] => return []
  | size :: sizes => do
    let chunk ← keystream limit .output used size
    rekey limit
    let rest ← chunks limit (used + chunk.length) sizes
    return chunk ++ rest

/-- What the last block holds beyond the bytes asked for is overwritten. -/
def read (limit n : Nat) : Step F (Stop GeneratorError) Bytes := do
  let g ← Step.state
  if g.isSeeded then
    let count ← divideUp n g.blockSize
    reserve limit (count * g.blockSize)
    let out ← chunks limit 0 (chunkSizes count)
    let _padding ← sliceFrom n out
    Step.update fun g => { g with totals.bytes := g.totals.bytes + n }
    Step.report (.delivered n)
    return out.take n
  else
    Step.fail (.failed .unseeded)

def fill (limit : Nat) (buffer : Bytes) : Step F (Stop GeneratorError) Bytes := do
  let data ← read limit buffer.length
  copy buffer data

def reseed (seed : Bytes) : Step F (Stop GeneratorError) Unit := do
  let before ← Step.state
  let key ← copy zeroKey (Generator.mixedKey before.key seed)
  install key
  Step.update fun g =>
    { g with counter := g.counter.next, totals.reseeds := g.totals.reseeds + 1 }
  let after ← Step.state
  Step.report (.reseeded seed.length after.totals.reseeds)

def restart (seed : Int64) : Step F (Stop GeneratorError) Unit := do
  install zeroKey
  Generator.rewind.mapError .failed
  reseed (Generator.seedBytes seed)
  Step.report (.restarted seed)

def int63 (limit : Nat) : Step F (Stop GeneratorError) Nat := do
  let bytes ← fill limit (List.replicate 8 0)
  return Bytes.toNatBE bytes % Nat.pow 2 63

def fillOrAbort (limit : Nat) (buffer : Bytes) : Step F (Stop Abort) Bytes :=
  (fill limit buffer).mapError (.map Abort.mk)

def nextUInt32 (limit : Nat) : Step F (Stop Abort) UInt32 := do
  let bytes ← fillOrAbort limit (List.replicate 4 0)
  return UInt32.ofNat (Bytes.toNatLE bytes)

def nextUInt64 (limit : Nat) : Step F (Stop Abort) UInt64 := do
  let bytes ← fillOrAbort limit (List.replicate 8 0)
  return UInt64.ofNat (Bytes.toNatLE bytes)

def reporting {α : Type} (answer : α → Answer) (x : Step F (Stop GeneratorError) α) :
    Step F (Stop Failure) Answer :=
  x.mapError (.map .refused) >>= fun a => pure (answer a)

def promising {α : Type} (answer : α → Answer) (x : Step F (Stop Abort) α) :
    Step F (Stop Failure) Answer :=
  x.mapError (.map .aborted) >>= fun a => pure (answer a)

/-- A request, where no more than `limit` bytes can be had at once. -/
def perform (limit : Nat) : Operation → Step F (Stop Failure) Answer
  | .reseed seed => reporting (fun _ => .done) (reseed seed)
  | .restart seed => reporting (fun _ => .done) (restart seed)
  | .read n => reporting .bytes (read limit n)
  | .fill buffer => reporting .bytes (fill limit buffer)
  | .int63 => reporting .number (int63 limit)
  | .fillOrAbort buffer => promising .bytes (fillOrAbort limit buffer)
  | .nextUInt32 => promising (fun w => .number w.toNat) (nextUInt32 limit)
  | .nextUInt64 => promising (fun w => .number w.toNat) (nextUInt64 limit)

/-! ## What the checks come to -/

theorem require_eq {panic : Panic} {condition : Bool} (h : condition = true) :
    (require panic condition : Step F (Stop ε) Unit) = pure () :=
  if_pos h

theorem divideUp_eq {d : Nat} (hd : 0 < d) (n : Nat) :
    (divideUp n d : Step F (Stop ε) Nat) = pure ((n + d - 1) / d) := by
  rw [divideUp, require_eq (by simpa using Nat.ne_of_gt hd), pure_bind]

theorem reserve_eq {limit size : Nat} (hsize : size ≤ limit) :
    (reserve limit size : Step F (Stop ε) Unit) = pure () :=
  require_eq (by simpa using hsize)

theorem copy_eq {dest source : Bytes} (hlength : dest.length = source.length) :
    (copy dest source : Step F (Stop ε) Bytes) = pure source := by
  rw [copy, require_eq (by simpa using hlength), pure_bind]

theorem sliceTo_eq {stop : Nat} {bytes : Bytes} (hstop : stop ≤ bytes.length) :
    (sliceTo stop bytes : Step F (Stop ε) Bytes) = pure (bytes.take stop) := by
  rw [sliceTo, require_eq (by simpa using hstop), pure_bind]

theorem sliceFrom_eq {start : Nat} {bytes : Bytes} (hstart : start ≤ bytes.length) :
    (sliceFrom start bytes : Step F (Stop ε) Bytes) = pure (bytes.drop start) := by
  rw [sliceFrom, require_eq (by simpa using hstart), pure_bind]

theorem encryptBlock_eq {cipher : Cipher} {block : Bytes}
    (hlength : block.length = cipher.blockSize) :
    (encryptBlock cipher block : Step F (Stop ε) Bytes) = pure (cipher.encrypt block) := by
  rw [encryptBlock, Cipher.encrypt?, if_pos hlength]

-- a counter of two bytes is no block of a cipher with blocks of one byte
example :
    let g : Generator (Transparent.factory ⟨.identity, 1, none⟩) :=
      { Generator.oneByteGenerator with counter := .ofNat 2 1 }
    (keystream 64 .output 0 1 g).result = .error (.panicked .blockLengthMismatch) :=
  rfl

end Checked

/-! ## Passing the checks -/

namespace Step

variable {F : CipherFactory} {ε ε' α β : Type}

/-- From a state the checked operation passes its checks and does what the
operation without them does. -/
def Passes (x : Step F (Stop ε) α) (y : Step F ε α) (g : Generator F) : Prop :=
  x g = (y g).mapError .failed

variable {x : Step F (Stop ε) α} {y : Step F ε α} {g : Generator F}

theorem Passes.bind {f : α → Step F (Stop ε) β} {f' : α → Step F ε β} (hx : x.Passes y g)
    (hf : ∀ a, (y g).result = .ok a → (f a).Passes (f' a) (y g).state) :
    (x >>= f).Passes (y >>= f') g := by
  rw [Passes, bind_apply, bind_apply, hx]
  cases hresult : (y g).result with
  | error e =>
      rw [Outcome.andThen_of_error hresult]
      simp only [Outcome.mapError, hresult, Except.mapError, Outcome.andThen_error]
  | ok a =>
      rw [Outcome.andThen_of_ok hresult]
      simp only [Outcome.mapError, hresult, Except.mapError, Outcome.andThen_ok]
      rw [hf a hresult]
      rfl

theorem Passes.state_bind {f : Generator F → Step F (Stop ε) β} {f' : Generator F → Step F ε β}
    (hf : (f g).Passes (f' g) g) :
    (Step.state >>= f).Passes (Step.state >>= f') g := by
  rw [Passes, bind_apply, bind_apply, state_apply, state_apply, Outcome.andThen_ok,
    Outcome.andThen_ok, hf]
  rfl

theorem Passes.answer (hx : x.Passes y g) (f : α → β) :
    (x >>= fun a => pure (f a)).Passes (y >>= fun a => pure (f a)) g :=
  hx.bind fun _ _ => rfl

theorem Passes.mapError (hx : x.Passes y g) (f : ε → ε') :
    (x.mapError (.map f)).Passes (y.mapError f) g := by
  rw [Passes, mapError_apply, mapError_apply, hx]
  rcases y g with ⟨_ | a, h, as⟩ <;> rfl

end Step

namespace Checked

open Step Generator

variable {F : CipherFactory} {limit : Nat}

/-- The loop makes the blocks of keystream in a buffer of one block. -/
theorem blocks_eq (purpose : Purpose) {g : Generator F} (hg : g.cipher.blockSize = g.blockSize)
    {buffer : Bytes} (hbuffer : buffer.length = g.blockSize) (k : Nat) :
    (blocks purpose buffer k : Step F (Stop GeneratorError) Bytes) g =
      ⟨.ok (g.blocks k), { g with counter := g.counter.advance k }, g.trail purpose k⟩ := by
  induction k generalizing g buffer with
  | zero => rfl
  | succ k ih =>
      have hblock : g.counter.bytes.length = g.cipher.blockSize := hg.symm
      have hwidth : g.counter.next.width = g.counter.width := Counter.width_next g.counter
      have hencrypted : (g.cipher.encrypt g.counter.bytes).length = g.counter.next.width := by
        rw [g.cipher.length_encrypt, hwidth]
        rfl
      have hrest := ih (g := { g with counter := g.counter.next }) (hg.trans hwidth.symm) hencrypted
      simp only [blocks, bind_apply, state_apply, Outcome.andThen_ok, copy_eq hbuffer,
        encryptBlock_eq hblock, pure_apply, record_apply, update_apply, hrest, List.nil_append,
        List.append_nil]
      rfl

theorem keystream_passes (purpose : Purpose) {g : Generator F} (hg : g.Consistent) {used k : Nat}
    (hblock : g.blockSize ≤ limit) (hroom : used + k * g.blockSize ≤ limit) :
    (keystream limit purpose used k).Passes (Generator.keystream purpose k) g := by
  cases hseeded : g.isSeeded with
  | false =>
      rw [Passes, keystream_of_unseeded _ _ hseeded, keystream, bind_apply, state_apply,
        Outcome.andThen_ok, hseeded]
      rfl
  | true =>
      have hbuffer : (List.replicate g.blockSize (0 : UInt8)).length = g.blockSize :=
        List.length_replicate
      rw [Passes, keystream_of_seeded _ _ hseeded]
      simp only [keystream, bind_apply, state_apply, Outcome.andThen_ok, hseeded, ↓reduceIte,
        reserve_eq hblock, reserve_eq hroom, pure_apply, update_apply,
        blocks_eq purpose hg.blockSize_cipher hbuffer, List.nil_append, List.append_nil]
      rfl

theorem install_passes {g : Generator F} {key : Bytes} (hlength : g.key.length = key.length) :
    (install key).Passes (Generator.install key) g := by
  rw [Passes, Generator.install, install, bind_apply, state_apply, Outcome.andThen_ok]
  cases F.build key with
  | error cause => rfl
  | ok cipher =>
      by_cases hsize : cipher.blockSize = g.blockSize
      · simp only [hsize, ↓reduceIte, copy_eq hlength, bind_apply, update_apply, record_apply,
          pure_apply, Outcome.andThen_ok]
        rfl
      · simp only [hsize, ↓reduceIte]
        rfl

/-- There is room for the material of a key where there is room for two keys and
for a block. -/
theorem keyBlocks_mul_le {g : Generator F} (hg : g.Consistent) (hkeys : 2 * keySize ≤ limit)
    (hblock : g.blockSize ≤ limit) :
    g.blocksFor keySize * g.blockSize ≤ limit := by
  have hsize : keySize = 32 := rfl
  have hpos := hg.blockSize_pos
  rw [blocksFor]
  rcases Nat.lt_or_ge keySize g.blockSize with hlarge | hsmall
  · -- one block is enough for a key
    have hone : (keySize + g.blockSize - 1) / g.blockSize < 2 :=
      Nat.div_lt_of_lt_mul (by omega)
    have hle := Nat.mul_le_mul_right g.blockSize (Nat.le_of_lt_succ hone)
    omega
  · have hle := Nat.div_mul_le_self (keySize + g.blockSize - 1) g.blockSize
    omega

theorem rekey_passes {g : Generator F} (hg : g.Consistent) (hkeys : 2 * keySize ≤ limit)
    (hblock : g.blockSize ≤ limit) :
    (rekey limit).Passes Generator.rekey g := by
  have hroom := keyBlocks_mul_le hg hkeys hblock
  have hroom' : 0 + g.blocksFor keySize * g.blockSize ≤ limit := by rwa [Nat.zero_add]
  apply Passes.state_bind
  rw [divideUp_eq hg.blockSize_pos, pure_bind, ← blocksFor, reserve_eq hroom, pure_bind]
  apply (keystream_passes .key hg hblock hroom').bind
  intro material hok
  obtain ⟨hlength, hstate⟩ := keystream_of_ok hok
  have hslice : keySize ≤ material.length := by
    rw [hlength]
    exact le_blocksFor_mul hg.blockSize_pos keySize
  have hkey : (material.take keySize).length = keySize := List.length_take_of_le hslice
  have hcopied : zeroKey.length = (material.take keySize).length := hkey.symm
  have hinstalled : (g.drawn (g.blocksFor keySize)).key.length = (material.take keySize).length :=
    hg.length_key.trans hkey.symm
  rw [hstate, sliceTo_eq hslice, pure_bind, copy_eq hcopied, pure_bind]
  apply (install_passes hinstalled).bind
  intro u _
  rfl

theorem chunk_passes {g : Generator F} (hg : g.Consistent) (hkeys : 2 * keySize ≤ limit)
    (hblock : g.blockSize ≤ limit) {used size : Nat} (hroom : used + size * g.blockSize ≤ limit) :
    (keystream limit .output used size >>= fun bytes => rekey limit >>= fun _ => pure bytes).Passes
      (chunk size) g := by
  apply (keystream_passes .output hg hblock hroom).bind
  intro bytes hok
  obtain ⟨-, hstate⟩ := keystream_of_ok hok
  have hblock' : (g.drawn size).blockSize ≤ limit := (blockSize_drawn g size).symm ▸ hblock
  rw [hstate]
  exact (rekey_passes (hg.drawn size) hkeys hblock').answer fun _ => bytes

theorem chunks_passes {sizes : List Nat} (hsizes : ∀ size ∈ sizes, 0 < size ∧ size ≤ maxBlocks)
    {g : Generator F} (hg : g.Consistent) (hkeys : 2 * keySize ≤ limit) {used : Nat}
    (hroom : used + sizes.sum * g.blockSize ≤ limit) :
    (chunks limit used sizes).Passes (Generator.chunks sizes) g := by
  induction sizes generalizing g used with
  | nil => rfl
  | cons size sizes ih =>
      rw [List.forall_mem_cons] at hsizes
      obtain ⟨⟨hpos, hmax⟩, hrest⟩ := hsizes
      rw [List.sum_cons, Nat.add_mul, ← Nat.add_assoc] at hroom
      have hfirst : used + size * g.blockSize ≤ limit := le_trans (Nat.le_add_right _ _) hroom
      have hblock : g.blockSize ≤ limit := by
        have hle := Nat.le_mul_of_pos_left g.blockSize hpos
        omega
      have hchecked : (chunks limit used (size :: sizes) : Step F (Stop GeneratorError) Bytes) =
          (keystream limit .output used size >>= fun bytes => rekey limit >>= fun _ => pure bytes)
            >>= fun first => chunks limit (used + first.length) sizes >>= fun rest =>
              pure (first ++ rest) := by
        simp only [chunks, bind_assoc, pure_bind]
      rw [hchecked, chunks_cons]
      apply (chunk_passes hg hkeys hblock hfirst).bind
      intro first hok
      have hrun := (runs_chunk hpos hmax g).mono Stage.draw
      obtain ⟨-, -, rfl, -⟩ := chunk_of_ok hok
      rw [← length_blocks, ← hrun.blockSize_eq] at hroom
      exact (ih hrest (hrun.consistent hg) hroom).answer fun rest => g.blocks size ++ rest

theorem read_passes {g : Generator F} (hg : g.Consistent) (hkeys : 2 * keySize ≤ limit) {n : Nat}
    (hroom : g.isSeeded = true → g.blocksFor n * g.blockSize ≤ limit) :
    (read limit n).Passes (Generator.read n) g := by
  apply Passes.state_bind
  cases hseeded : g.isSeeded with
  | false => rfl
  | true =>
      have hroom := hroom hseeded
      have hroom' : 0 + (chunkSizes (g.blocksFor n)).sum * g.blockSize ≤ limit := by
        rwa [Nat.zero_add, sum_chunkSizes]
      simp only [↓reduceIte]
      rw [divideUp_eq hg.blockSize_pos, pure_bind, ← blocksFor, reserve_eq hroom, pure_bind]
      apply (chunks_passes (fun _ => bounds_of_mem_chunkSizes) hg hkeys hroom').bind
      intro out hout
      rw [sliceFrom_eq (le_length_of_chunks_ok hg.blockSize_pos hout), pure_bind]
      rfl

theorem fill_passes {g : Generator F} (hg : g.Consistent) (hkeys : 2 * keySize ≤ limit)
    {buffer : Bytes} (hroom : g.isSeeded = true → g.blocksFor buffer.length * g.blockSize ≤ limit) :
    (fill limit buffer).Passes (Generator.fill buffer) g := by
  rw [Generator.fill, ← bind_pure (Generator.read buffer.length)]
  apply (read_passes hg hkeys hroom).bind
  intro data hdata
  rw [copy_eq (length_of_read_ok hg.blockSize_pos hdata).symm]
  rfl

theorem fillOrAbort_passes {g : Generator F} (hg : g.Consistent) (hkeys : 2 * keySize ≤ limit)
    {buffer : Bytes} (hroom : g.isSeeded = true → g.blocksFor buffer.length * g.blockSize ≤ limit) :
    (fillOrAbort limit buffer).Passes (Generator.fillOrAbort buffer) g :=
  (fill_passes hg hkeys hroom).mapError Abort.mk

theorem reseed_passes {g : Generator F} (hg : g.Consistent) (seed : Bytes) :
    (reseed seed).Passes (Generator.reseed seed) g := by
  have hmixed := length_mixedKey g.key seed
  have hcopied : zeroKey.length = (mixedKey g.key seed).length := hmixed.symm
  apply Passes.state_bind
  rw [copy_eq hcopied, pure_bind]
  apply (install_passes (hg.length_key.trans hmixed.symm)).bind
  intro u _
  rfl

theorem restart_passes {g : Generator F} (hg : g.Consistent) (seed : Int64) :
    (restart seed).Passes (Generator.restart seed) g := by
  have hwipe : (install zeroKey >>= fun _ => rewind.mapError .failed).Passes wipe g := by
    apply (install_passes hg.length_key).bind
    intro u _
    rfl
  have hchecked : (restart seed : Step F (Stop GeneratorError) Unit) =
      (install zeroKey >>= fun _ => rewind.mapError .failed) >>= fun _ =>
        reseed (seedBytes seed) >>= fun _ => Step.report (.restarted seed) := by
    simp only [restart, bind_assoc]
  rw [restart_eq, hchecked]
  apply hwipe.bind
  intro u _
  apply (reseed_passes ((runs_wipe g).consistent hg) (seedBytes seed)).bind
  intro v _
  rfl

end Checked

/-! ## No stray panic -/

/-- The buffer of a request that promises an answer. -/
def Operation.promised : Operation → Option Bytes
  | .fillOrAbort buffer => some buffer
  | .nextUInt32 => some (List.replicate 4 0)
  | .nextUInt64 => some (List.replicate 8 0)
  | _ => none

namespace Generator

variable {F : CipherFactory}

theorem result_reporting_ne_aborted {α : Type} (answer : α → Answer)
    (x : Step F GeneratorError α) (g : Generator F) (abort : Abort) :
    (Operation.reporting answer x g).result ≠ .error (.aborted abort) := by
  rw [Operation.reporting, Step.bind_apply, Step.mapError_apply]
  rcases x g with ⟨_ | a, h, as⟩ <;> rintro ⟨⟩

/-- The requests that abort are those that promise an answer, where the output for
it is refused. -/
theorem aborted_iff (op : Operation) (g : Generator F) (abort : Abort) :
    (op.perform g).result = .error (.aborted abort) ↔
      ∃ buffer, op.promised = some buffer ∧ (fill buffer g).result = .error abort.cause := by
  rcases abort with ⟨cause⟩
  cases op with
  | reseed | restart | read | fill | int63 =>
      exact iff_of_false (result_reporting_ne_aborted _ _ g _) nofun
  | fillOrAbort | nextUInt32 | nextUInt64 =>
      rw [Operation.result_perform rfl]
      simp only [Operation.promised, Option.some.injEq, exists_eq_left', fill,
        List.length_replicate]
      cases (read _ g).result <;> simp [Except.map, Except.mapError, Operation.failure]

theorem perform_passes {g : Generator F} (hg : g.Consistent) {limit : Nat}
    (hkeys : 2 * keySize ≤ limit) {op : Operation}
    (hroom : ∀ n, op.requested = some n → g.isSeeded = true →
      g.blocksFor n * g.blockSize ≤ limit) :
    (Checked.perform limit op).Passes op.perform g := by
  cases op with
  | reseed seed => exact ((Checked.reseed_passes hg seed).mapError _).answer _
  | restart seed => exact ((Checked.restart_passes hg seed).mapError _).answer _
  | read n => exact ((Checked.read_passes hg hkeys (hroom _ rfl)).mapError _).answer _
  | fill buffer => exact ((Checked.fill_passes hg hkeys (hroom _ rfl)).mapError _).answer _
  | int63 =>
      exact (((Checked.fill_passes hg hkeys (hroom _ rfl)).answer _).mapError _).answer _
  | fillOrAbort buffer =>
      exact ((Checked.fillOrAbort_passes hg hkeys (hroom _ rfl)).mapError _).answer _
  | nextUInt32 =>
      exact (((Checked.fillOrAbort_passes hg hkeys (hroom _ rfl)).answer _).mapError _).answer _
  | nextUInt64 =>
      exact (((Checked.fillOrAbort_passes hg hkeys (hroom _ rfl)).answer _).mapError _).answer _

/-- In every state that requests can leave, under any factory, a request passes all
checks if its blocks fit in memory, or if the generator is unseeded, provided that
memory holds two keys: what it does with the checks is what it does without them.
It aborts only if it promises an answer, and exactly when filling a buffer of that
length in that state reports an error. -/
theorem no_stray_panic {g : Generator F} (hg : g.Reachable) {limit : Nat}
    (hkeys : 2 * keySize ≤ limit) {op : Operation}
    (hroom : ∀ n, op.requested = some n → g.isSeeded = true →
      g.blocksFor n * g.blockSize ≤ limit) :
    Checked.perform limit op g = (op.perform g).mapError .failed ∧
      ∀ abort, (op.perform g).result = .error (.aborted abort) ↔
        ∃ buffer, op.promised = some buffer ∧ (fill buffer g).result = .error abort.cause := by
  obtain ⟨c, ops, hcreate, rfl⟩ := hg
  have hconsistent := (run_after c.generator ops).consistent (consistent_of_create hcreate)
  exact ⟨perform_passes hconsistent hkeys hroom, aborted_iff op _⟩

theorem no_stray_panic_one_byte :
    let g := oneByteGenerator.after [.reseed []]
    Checked.perform 64 .nextUInt64 g = (Operation.nextUInt64.perform g).mapError .failed ∧
      Checked.perform 64 .nextUInt64 oneByteGenerator =
        ⟨.error (.failed (.aborted ⟨.unseeded⟩)), oneByteGenerator, []⟩ := by
  have hseeded : (oneByteGenerator.after [.reseed []]).Reachable :=
    ⟨_, [.reseed []], create_oneByte, rfl⟩
  have hfresh : oneByteGenerator.Reachable := ⟨_, [], create_oneByte, rfl⟩
  have hkeys : 2 * keySize ≤ 64 := by decide
  constructor
  · refine (no_stray_panic hseeded hkeys ?_).1
    intro n hn _
    cases hn
    decide
  · have hpasses : Checked.perform 64 .nextUInt64 oneByteGenerator =
        (Operation.nextUInt64.perform oneByteGenerator).mapError .failed :=
      (no_stray_panic hfresh hkeys nofun).1
    rw [hpasses]
    rfl

end Generator

end Fortuna

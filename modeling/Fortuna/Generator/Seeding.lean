import Fortuna.Generator.Basic

/-!
# Seeding

Seeds enter the key through SHA-256d of the old key and the seed, so that the
new state does not give the old key away.  A deterministic seed first sets key
and counter back to zero, so that nothing of the past survives it.

A key is installed only together with a cipher of the block size fixed at
creation; otherwise the installed pair stays.
-/

namespace Fortuna

/-- Bytes of operating system entropy in the first seed of a generator. -/
def entropySeedSize : Nat := 32

namespace Generator

variable {F : CipherFactory}

def install (key : Bytes) : Step F GeneratorError Unit := fun g =>
  match F.build key with
  | .error cause => ⟨.error (.cipherInitFailed cause), g, []⟩
  | .ok cipher =>
    if cipher.blockSize = g.blockSize then
      ⟨.ok (), { g with key, cipher }, [.installed key]⟩
    else
      ⟨.error (.blockSizeMismatch g.blockSize cipher.blockSize), g, []⟩

/-- The key that mixes a seed into a key. -/
def mixedKey (key seed : Bytes) : Bytes :=
  ((Sha256d.Hasher.empty.update key).update seed).finish

/-- Mixes a seed into the key and steps the counter. -/
def reseed (seed : Bytes) : Step F GeneratorError Unit := do
  let before ← Step.state
  install (mixedKey before.key seed)
  Step.update fun g =>
    { g with counter := g.counter.next, totals.reseeds := g.totals.reseeds + 1 }
  let after ← Step.state
  Step.report (.reseeded seed.length after.totals.reseeds)

def rewind : Step F GeneratorError Unit := do
  Step.update fun g => { g with counter := .zero g.blockSize }
  Step.record [.rewound]

/-- The eight bytes of a deterministic seed, most significant byte first. -/
def seedBytes (seed : Int64) : Bytes :=
  Bytes.ofNatBE 8 seed.toUInt64.toNat

/-- Forgets the past and starts from a deterministic seed. -/
def restart (seed : Int64) : Step F GeneratorError Unit := do
  install zeroKey
  rewind
  reseed (seedBytes seed)
  Step.report (.restarted seed)

/-! ## Construction -/

/-- A generator and the transcript of its life so far. -/
structure Created (F : CipherFactory) where
  generator : Generator F
  actions : List Action

/-- An unseeded generator with the zero key. -/
def create (F : CipherFactory) : Except GeneratorError (Created F) :=
  match F.build zeroKey with
  | .error cause => .error (.cipherInitFailed cause)
  | .ok cipher =>
    if cipher.blockSize = 0 then .error .invalidBlockSize
    else .ok {
      generator := { key := zeroKey, cipher, counter := .zero cipher.blockSize }
      actions := [.installed zeroKey, .logged (.created cipher.blockSize)] }

def Created.andThen (c : Created F) (step : Step F GeneratorError Unit) :
    Except GeneratorError (Created F) :=
  let o := step c.generator
  o.result.map fun _ => ⟨o.state, c.actions ++ o.actions⟩

/-- A generator with a first seed, for instance from the operating system. -/
def ofSeed (F : CipherFactory) (seed : Bytes) : Except GeneratorError (Created F) :=
  (create F).bind (·.andThen (reseed seed))

/-- A generator started from a deterministic seed, given as a word. -/
def ofWord (F : CipherFactory) (seed : UInt64) : Except GeneratorError (Created F) :=
  (create F).bind (·.andThen (restart seed.toInt64))

end Generator

end Fortuna

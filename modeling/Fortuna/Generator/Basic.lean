import Fortuna.Cipher.Basic
import Fortuna.Counter
import Fortuna.Decimal
import Fortuna.Sha256.Hasher

/-!
# The generator

A Fortuna generator is a block cipher in counter mode whose key is replaced by
its own output after every request.  Its state is a key, the cipher of that key,
a block counter that stands at zero until the generator is seeded, and running
totals.

Operations may fail half way, and what they did until then stays done.  An
operation therefore yields an `Outcome`: its result or error, the state it
leaves in either case, and the transcript of its actions.  Operations are
written in the monad `Step`, in which an error ends an operation and keeps state
and transcript.
-/

namespace Fortuna

/-- Bytes in a key, as many as in a digest. -/
def keySize : Nat := digestSize

def zeroKey : Bytes := List.replicate keySize 0

/-! ## State -/

/-- Running totals of a generator's activity.  A program keeps them in words of 64 bits,
which start again at zero; here they are numbers without bound.  What is said of their
values is what a program has as long as none reaches `2 ^ 64`
(`Totals.FitWords`), and beyond that modulo `2 ^ 64`.  Nothing but reports and metrics
reads them. -/
structure Totals where
  reseeds : Nat := 0
  /-- Keys replaced by output. -/
  rekeys : Nat := 0
  /-- Blocks encrypted, for output and for keys. -/
  blocks : Nat := 0
  bytes : Nat := 0
  deriving DecidableEq

/-- The state of a generator that derives its ciphers with `F`. -/
structure Generator (F : CipherFactory) where
  key : Bytes
  cipher : Cipher
  counter : Counter
  totals : Totals := {}

namespace Generator

variable {F : CipherFactory}

def blockSize (g : Generator F) : Nat :=
  g.counter.width

/-- Whether the counter has left zero. -/
def isSeeded (g : Generator F) : Bool :=
  !g.counter.isZero

def blocksFor (g : Generator F) (n : Nat) : Nat :=
  (n + g.blockSize - 1) / g.blockSize

end Generator

/-! ## Errors -/

inductive GeneratorError where
  /-- Output was asked for while the counter stood at zero. -/
  | unseeded
  /-- The factory derives no cipher from the new key. -/
  | cipherInitFailed (cause : KeyError)
  | invalidBlockSize
  /-- The cipher of the new key has another block size. -/
  | blockSizeMismatch (expected got : Nat)
  deriving DecidableEq

def GeneratorError.message : GeneratorError → String
  | .unseeded => "generator not yet seeded"
  | .cipherInitFailed cause => "cipher initialisation failed: " ++ cause.message
  | .invalidBlockSize => "cipher reports a zero block size"
  | .blockSizeMismatch expected got =>
    "cipher block size changed from " ++ Decimal.ofNat expected ++ " to " ++
      Decimal.ofNat got ++ " bytes"

/-! ## Transcripts -/

/-- What a generator reports of its work.  Events hold sizes, totals and
deterministic seeds, never keys, counters or output. -/
inductive Event where
  | created (blockSize : Nat)
  | reseeded (seedLength reseeds : Nat)
  | restarted (seed : Int64)
  | rekeyed (rekeys : Nat)
  | delivered (bytes : Nat)
  deriving DecidableEq

def Event.line : Event → String
  | .created blockSize => "DEBUG generator created block_size=" ++ Decimal.ofNat blockSize
  | .reseeded seedLength reseeds =>
    "DEBUG setting the generator seed seed_len=" ++ Decimal.ofNat seedLength ++
      " reseeds=" ++ Decimal.ofNat reseeds
  | .restarted seed =>
    "DEBUG generator reset to deterministic seed seed=" ++ Decimal.ofInt seed.toInt
  | .rekeyed rekeys => "TRACE generator rekeyed rekeys=" ++ Decimal.ofNat rekeys
  | .delivered bytes => "TRACE generated pseudo-random bytes bytes=" ++ Decimal.ofNat bytes

/-- What a block of keystream is made for. -/
inductive Purpose where
  | output
  | key
  deriving DecidableEq

inductive Action where
  /-- A key was installed together with its cipher. -/
  | installed (key : Bytes)
  | rewound
  /-- The counter was encrypted under the installed key. -/
  | encrypted (purpose : Purpose) (counter : Counter)
  | logged (event : Event)
  deriving DecidableEq

def Action.events (actions : List Action) : List Event :=
  actions.filterMap fun
    | .logged event => some event
    | _ => none

/-! ## Operations -/

/-- What an operation comes to. -/
structure Outcome (F : CipherFactory) (ε α : Type) where
  result : Except ε α
  /-- The state afterwards, also after an error. -/
  state : Generator F
  actions : List Action

def Step (F : CipherFactory) (ε α : Type) : Type :=
  Generator F → Outcome F ε α

namespace Outcome

variable {F : CipherFactory} {ε ε' α β : Type}

/-- Continues with an operation on the result; an error ends the matter. -/
def andThen (o : Outcome F ε α) (f : α → Step F ε β) : Outcome F ε β :=
  match o.result with
  | .ok a => let p := f a o.state; { p with actions := o.actions ++ p.actions }
  | .error e => ⟨.error e, o.state, o.actions⟩

def mapError (f : ε → ε') (o : Outcome F ε α) : Outcome F ε' α :=
  { o with result := o.result.mapError f }

def events (o : Outcome F ε α) : List Event :=
  Action.events o.actions

end Outcome

namespace Step

variable {F : CipherFactory} {ε ε' α β : Type}

instance : Monad (Step F ε) where
  pure a := fun g => ⟨.ok a, g, []⟩
  bind x f := fun g => (x g).andThen f

def fail (e : ε) : Step F ε α :=
  fun g => ⟨.error e, g, []⟩

def state : Step F ε (Generator F) :=
  fun g => ⟨.ok g, g, []⟩

def update (f : Generator F → Generator F) : Step F ε Unit :=
  fun g => ⟨.ok (), f g, []⟩

/-- Enters actions in the transcript. -/
def record (actions : List Action) : Step F ε Unit :=
  fun g => ⟨.ok (), g, actions⟩

def report (event : Event) : Step F ε Unit :=
  record [.logged event]

def mapError (f : ε → ε') (x : Step F ε α) : Step F ε' α :=
  fun g => (x g).mapError f

@[simp] theorem pure_apply (a : α) (g : Generator F) :
    (pure a : Step F ε α) g = ⟨.ok a, g, []⟩ :=
  rfl

@[simp] theorem bind_apply (x : Step F ε α) (f : α → Step F ε β) (g : Generator F) :
    (x >>= f) g = (x g).andThen f :=
  rfl

end Step

end Fortuna

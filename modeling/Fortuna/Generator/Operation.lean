import Fortuna.Generator.Integers

/-!
# Requests to a generator

Everything that can be asked of a generator after its construction, as data, so
that runs of a generator are lists.
-/

namespace Fortuna

/-- A request to a generator. -/
inductive Operation where
  | reseed (seed : Bytes)
  | restart (seed : Int64)
  | read (n : Nat)
  | fill (buffer : Bytes)
  | int63
  | fillOrAbort (buffer : Bytes)
  | nextUInt32
  | nextUInt64
  deriving DecidableEq

inductive Answer where
  | done
  | bytes (output : Bytes)
  | number (n : Nat)
  deriving DecidableEq

inductive Failure where
  /-- With an error for the caller to handle. -/
  | refused (cause : GeneratorError)
  | aborted (abort : Abort)
  deriving DecidableEq

def Failure.message : Failure → String
  | .refused cause => cause.message
  | .aborted abort => abort.message

namespace Operation

variable {F : CipherFactory} {α : Type}

def reporting (answer : α → Answer) (x : Step F GeneratorError α) : Step F Failure Answer :=
  x.mapError .refused >>= fun a => pure (answer a)

def promising (answer : α → Answer) (x : Step F Abort α) : Step F Failure Answer :=
  x.mapError .aborted >>= fun a => pure (answer a)

def perform : Operation → Step F Failure Answer
  | .reseed seed => reporting (fun _ => .done) (Generator.reseed seed)
  | .restart seed => reporting (fun _ => .done) (Generator.restart seed)
  | .read n => reporting .bytes (Generator.read n)
  | .fill buffer => reporting .bytes (Generator.fill buffer)
  | .int63 => reporting .number Generator.int63
  | .fillOrAbort buffer => promising .bytes (Generator.fillOrAbort buffer)
  | .nextUInt32 => promising (fun w => .number w.toNat) Generator.nextUInt32
  | .nextUInt64 => promising (fun w => .number w.toNat) Generator.nextUInt64

end Operation

end Fortuna

import Fortuna.Generator.Output

/-!
# Integers from output

Uniform integers are drawn by reading output as a number.  Two interfaces exist:
one reports errors, and one promises an answer and aborts where it cannot keep
the promise.  The second is shared with other sources of random bytes.  For buffers
it has a form that reports errors as well, in a type of its own.
-/

namespace Fortuna

/-- The end of a draw that promised an answer. -/
structure Abort where
  cause : GeneratorError
  deriving DecidableEq

def Abort.message (a : Abort) : String :=
  "fortuna generator failed: " ++ a.cause.message

/-- An error in the type that all sources of random bytes report. -/
structure SourceError where
  cause : GeneratorError
  deriving DecidableEq

namespace Generator

variable {F : CipherFactory}

/-- A number below `2 ^ 63`: eight bytes, most significant byte first, without
their top bit. -/
def int63 : Step F GeneratorError Nat := do
  let bytes ← fill (List.replicate 8 0)
  return Bytes.toNatBE bytes % Nat.pow 2 63

def fillOrAbort (buffer : Bytes) : Step F Abort Bytes :=
  (fill buffer).mapError Abort.mk

def tryFill (buffer : Bytes) : Step F SourceError Bytes :=
  (fill buffer).mapError SourceError.mk

/-- Four bytes, least significant byte first, or an abort. -/
def nextUInt32 : Step F Abort UInt32 := do
  let bytes ← fillOrAbort (List.replicate 4 0)
  return UInt32.ofNat (Bytes.toNatLE bytes)

/-- Eight bytes, least significant byte first, or an abort. -/
def nextUInt64 : Step F Abort UInt64 := do
  let bytes ← fillOrAbort (List.replicate 8 0)
  return UInt64.ofNat (Bytes.toNatLE bytes)

end Generator

end Fortuna

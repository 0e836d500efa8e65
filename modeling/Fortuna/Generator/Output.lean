import Fortuna.Generator.Seeding

/-!
# Output

Output is the keystream: the counter and its successors, encrypted under the
installed key.  A request is served in chunks of at most `maxBlocks` blocks.
After each chunk, the last one included, further keystream becomes the new key,
so that a key seen after a request tells nothing of what the request returned.
-/

namespace Fortuna

/-- The most blocks of output under one key. -/
def maxBlocks : Nat := Nat.pow 2 16

/-- The chunk sizes in which a number of blocks is served: full chunks, then
what remains. -/
def chunkSizes (blocks : Nat) : List Nat :=
  List.replicate (blocks / maxBlocks) maxBlocks ++
    if blocks % maxBlocks = 0 then [] else [blocks % maxBlocks]

namespace Generator

variable {F : CipherFactory}

def keystream (purpose : Purpose) (k : Nat) : Step F GeneratorError Bytes := do
  let g ← Step.state
  if g.isSeeded then
    let (counters, after) := g.counter.draw k
    Step.record (counters.map (.encrypted purpose))
    Step.update fun g =>
      { g with counter := after, totals.blocks := g.totals.blocks + k }
    return counters.flatMap fun c => g.cipher.encrypt c.bytes
  else
    Step.fail .unseeded

/-- Replaces the key by keystream. -/
def rekey : Step F GeneratorError Unit := do
  let before ← Step.state
  let material ← keystream .key (before.blocksFor keySize)
  install (material.take keySize)
  Step.update fun g => { g with totals.rekeys := g.totals.rekeys + 1 }
  let after ← Step.state
  Step.report (.rekeyed after.totals.rekeys)

/-- Chunks of the given sizes, each followed by a new key. -/
def chunks : List Nat → Step F GeneratorError Bytes
  | [] => pure []
  | size :: sizes => do
    let chunk ← keystream .output size
    rekey
    let rest ← chunks sizes
    return chunk ++ rest

/-- The next `n` bytes of output.  What the last block holds beyond them is
never handed out.  Asking for no bytes changes nothing, but needs a seed too.

There is always memory for the output here.  Where the blocks of a request do not fit
in memory, a program panics instead of serving it; `Checked.read` is the request with
such a limit. -/
def read (n : Nat) : Step F GeneratorError Bytes := do
  let g ← Step.state
  if g.isSeeded then
    let out ← chunks (chunkSizes (g.blocksFor n))
    Step.update fun g => { g with totals.bytes := g.totals.bytes + n }
    Step.report (.delivered n)
    return out.take n
  else
    Step.fail .unseeded

/-- Fills a buffer with output; the result is what the buffer then holds. -/
def fill (buffer : Bytes) : Step F GeneratorError Bytes :=
  read buffer.length

end Generator

/-- What a buffer holds after an attempt to fill it, successful or not. -/
def Outcome.buffer {F : CipherFactory} {ε : Type} (o : Outcome F ε Bytes) (before : Bytes) :
    Bytes :=
  match o.result with
  | .ok filled => filled
  | .error _ => before

end Fortuna

import Fortuna.Generator.Description

/-!
# Metrics

A snapshot is what metrics show of a generator at one moment.  A registry is fed
with snapshots: its counters, which are words, only move forward, and its gauges
follow the last snapshot.
-/

namespace Fortuna

/-- What metrics show of a generator. -/
structure Snapshot where
  isSeeded : Bool := false
  blockSize : Nat := 0
  totals : Totals := {}
  deriving DecidableEq

namespace Snapshot

def ofGenerator {F : CipherFactory} (g : Generator F) : Snapshot :=
  ⟨g.isSeeded, g.blockSize, g.totals⟩

def describe (s : Snapshot) : String :=
  "MetricsSnapshot \x7b is_seeded: " ++ boolText s.isSeeded ++
    ", block_size: " ++ Decimal.ofNat s.blockSize ++ ", " ++ s.totals.fields ++ " \x7d"

end Snapshot

/-- Moves a counter up to a target that is ahead of it. -/
def advance (counter target : UInt64) : UInt64 :=
  if counter < target then counter + (target - counter) else counter

structure Registry where
  /-- 1 if the last snapshot was of a seeded generator, else 0. -/
  seeded : Int64 := 0
  /-- The block size of the last snapshot, as a signed word. -/
  blockSize : Int64 := 0
  reseeds : UInt64 := 0
  rekeys : UInt64 := 0
  blocks : UInt64 := 0
  bytes : UInt64 := 0
  deriving DecidableEq

def Registry.update (r : Registry) (s : Snapshot) : Registry where
  seeded := if s.isSeeded then 1 else 0
  blockSize := Int64.ofNat s.blockSize
  reseeds := advance r.reseeds (UInt64.ofNat s.totals.reseeds)
  rekeys := advance r.rekeys (UInt64.ofNat s.totals.rekeys)
  blocks := advance r.blocks (UInt64.ofNat s.totals.blocks)
  bytes := advance r.bytes (UInt64.ofNat s.totals.bytes)

end Fortuna

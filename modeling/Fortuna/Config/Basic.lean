import Fortuna.Generator.Seeding

/-!
# Configuration

Seven settings with defaults, the conditions under which they are valid, and the
errors of loading them.
-/

namespace Fortuna

inductive Format where
  | hex
  | raw
  deriving DecidableEq

namespace Format

def name : Format → String
  | .hex => "hex"
  | .raw => "raw"

def ofName? (name : String) : Option Format :=
  if name = "hex" then some .hex
  else if name = "raw" then some .raw
  else none

@[simp] theorem ofName?_name (f : Format) : ofName? f.name = some f := by
  cases f <;> decide

end Format

/-- The settings of a run. -/
structure Config where
  /-- The deterministic seed; without one the operating system seeds. -/
  seed : Option Int64 := none
  osSeedBytes : Nat := entropySeedSize
  format : Format := .hex
  /-- Bytes or integers to write out. -/
  count : Nat := 32
  /-- Hexadecimal digits on a line; 0 for a single line. -/
  lineWidth : Nat := 64
  /-- Bytes in a request of an endless stream. -/
  streamChunk : Nat := 4096
  printMetrics : Bool := false
  deriving DecidableEq

/-- Why the bytes of a file are not available as text. -/
inductive ReadFailure where
  | system (reason : String) (code : Nat)
  | notUtf8
  deriving DecidableEq

namespace ReadFailure

def notFound : ReadFailure :=
  .system "No such file or directory" 2

def notDirectory : ReadFailure :=
  .system "Not a directory" 20

def isDirectory : ReadFailure :=
  .system "Is a directory" 21

def nameTooLong : ReadFailure :=
  .system "File name too long" 36

def message : ReadFailure → String
  | .system reason code => reason ++ " (os error " ++ Decimal.ofNat code ++ ")"
  | .notUtf8 => "stream did not contain valid UTF-8"

end ReadFailure

inductive ConfigError where
  | emptyOsSeed
  | emptyStreamChunk
  | oddLineWidth
  | unreadable (cause : ReadFailure)
  | unparsable
  deriving DecidableEq

def ConfigError.message : ConfigError → String
  | .emptyOsSeed => "os_seed_bytes must be at least 1"
  | .emptyStreamChunk => "stream_chunk must be at least 1"
  | .oddLineWidth => "line_width must be even (two hex characters per byte)"
  | .unreadable cause => "failed to read config file: " ++ cause.message
  | .unparsable => "failed to parse config file"

/-- Passes a configuration on if no setting is out of range; of several faults
the first in this order counts. -/
def Config.validate (c : Config) : Except ConfigError Config :=
  if c.osSeedBytes = 0 then .error .emptyOsSeed
  else if c.streamChunk = 0 then .error .emptyStreamChunk
  else if c.lineWidth % 2 ≠ 0 then .error .oddLineWidth
  else .ok c

end Fortuna

import Fortuna.Config.Basic

/-!
# Options of the command line

The options and what a value does to them.  Some options stand anywhere, some
only behind the commands that use them.
-/

namespace Fortuna

namespace CommandLine

inductive Command where
  | bytes
  /-- Integers below `2 ^ 63`, one on a line. -/
  | int63
  | stream
  deriving DecidableEq

def Command.name : Command → String
  | .bytes => "bytes"
  | .int63 => "int63"
  | .stream => "stream"

def Command.ofName? (name : String) : Option Command :=
  [Command.bytes, .int63, .stream].find? (·.name == name)

@[simp] theorem Command.ofName?_name (c : Command) : ofName? c.name = some c := by
  cases c <;> decide

inductive OptionName where
  | config
  | seed
  | metrics
  | count
  | format
  | chunk
  deriving DecidableEq

namespace OptionName

def long : OptionName → String
  | .config => "config"
  | .seed => "seed"
  | .metrics => "metrics"
  | .count => "count"
  | .format => "format"
  | .chunk => "chunk"

def ofLong? (name : String) : Option OptionName :=
  [config, seed, metrics, count, format, chunk].find? (·.long == name)

@[simp] theorem ofLong?_long (o : OptionName) : ofLong? o.long = some o := by
  cases o <;> decide

def isGlobal (o : OptionName) : Bool :=
  o ∈ [config, seed, metrics]

def servesCommand (c : Command) : OptionName → Bool
  | .config | .seed | .metrics => true
  | .count => c ≠ .stream
  | .format => c = .bytes
  | .chunk => c = .stream

/-- Whether the argument after an option is its value whatever it looks like. -/
def takesAnything (o : OptionName) : Bool :=
  o = .seed

end OptionName

inductive Setting where
  | config (path : String)
  | seed (x : Int64)
  | metrics
  | count (n : Nat)
  | format (f : Format)
  | chunk (n : Nat)
  deriving DecidableEq

namespace Setting

def option : Setting → OptionName
  | .config _ => .config
  | .seed _ => .seed
  | .metrics => .metrics
  | .count _ => .count
  | .format _ => .format
  | .chunk _ => .chunk

/-- A size that fits a word of 64 bits. -/
def size? (text : String) : Option Nat :=
  (Decimal.signedNatural? text.toList).filter (· < Nat.pow 2 64)

/-- An integer that fits a signed word of 64 bits. -/
def seed? (text : String) : Option Int64 :=
  (Decimal.integer? text.toList).bind fun n =>
    if Int64.minValue.toInt ≤ n ∧ n ≤ Int64.maxValue.toInt then some (Int64.ofInt n) else none

def ofValue? (text : String) : OptionName → Option Setting
  | .config => if text = "" then none else some (.config text)
  | .seed => (seed? text).map .seed
  | .metrics => none
  | .count => (size? text).map .count
  | .format => (Format.ofName? text).map .format
  | .chunk => (size? text).map .chunk

def path? : Setting → Option String
  | .config path => some path
  | _ => none

def seedValue? : Setting → Option Int64
  | .seed x => some x
  | _ => none

def count? : Setting → Option Nat
  | .count n => some n
  | _ => none

def format? : Setting → Option Format
  | .format f => some f
  | _ => none

def chunk? : Setting → Option Nat
  | .chunk n => some n
  | _ => none

end Setting

end CommandLine

end Fortuna

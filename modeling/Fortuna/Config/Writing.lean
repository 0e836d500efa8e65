import Fortuna.Config.Basic
import Fortuna.Toml.Number
import Fortuna.Toml.Writing

/-!
# Writing configurations

The TOML form of a configuration: three sections in a fixed order, each setting
on a line of its own, and no line for an absent seed.  Integers of TOML are
signed words, so a configuration with a larger size has no such form.
-/

namespace Fortuna

namespace Config

/-- The numeral of a size, if the size is an integer of TOML. -/
def sizeText? (n : Nat) : Option String :=
  if Toml.fitsWord n then some (Decimal.ofNat n) else none

def formatText (f : Format) : String :=
  "\"" ++ f.name ++ "\""

def flagText (b : Bool) : String :=
  if b then "true" else "false"

def sections? (c : Config) : Option (List Toml.PlainSection) := do
  let osSeedBytes ← sizeText? c.osSeedBytes
  let count ← sizeText? c.count
  let lineWidth ← sizeText? c.lineWidth
  let streamChunk ← sizeText? c.streamChunk
  let seed := (c.seed.map fun seed => ("seed", Decimal.ofInt seed.toInt)).toList
  return [
    { name := "generator", settings := seed ++ [("os_seed_bytes", osSeedBytes)] },
    { name := "output"
      settings := [
        ("format", formatText c.format),
        ("count", count),
        ("line_width", lineWidth),
        ("stream_chunk", streamChunk)] },
    { name := "metrics", settings := [("print", flagText c.printMetrics)] }]

def toToml? (c : Config) : Option String :=
  c.sections?.map Toml.plainText

end Config

end Fortuna

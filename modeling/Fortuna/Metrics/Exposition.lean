import Fortuna.Decimal.Binary64
import Fortuna.Metrics.Registry

/-!
# Metrics as text

The text exposition of a registry: families in the order of their names, each
with its help, its type and its value.  Values are written as 64-bit floats, so
whole numbers are exact up to `2 ^ 53`.
-/

namespace Fortuna

inductive MetricType where
  | counter
  | gauge
  deriving DecidableEq

def MetricType.name : MetricType → String
  | .counter => "counter"
  | .gauge => "gauge"

structure Family where
  name : String
  help : String
  type : MetricType
  value : Int
  deriving DecidableEq

def Family.text (f : Family) : String :=
  "# HELP " ++ f.name ++ " " ++ f.help ++ "\n" ++
    "# TYPE " ++ f.name ++ " " ++ f.type.name ++ "\n" ++
    f.name ++ " " ++ Binary64.integerText f.value ++ "\n"

namespace Registry

/-- The families of a registry, in the order of their names. -/
def families (r : Registry) : List Family := [
  { name := "fortuna_generator_block_size_bytes"
    help := "Block size of the generator cipher in bytes"
    type := .gauge
    value := r.blockSize.toInt },
  { name := "fortuna_generator_blocks_total"
    help := "Total cipher blocks produced, including rekey blocks"
    type := .counter
    value := r.blocks.toNat },
  { name := "fortuna_generator_bytes_total"
    help := "Total pseudo-random bytes handed out"
    type := .counter
    value := r.bytes.toNat },
  { name := "fortuna_generator_rekeys_total"
    help := "Total number of keys replaced with generator output"
    type := .counter
    value := r.rekeys.toNat },
  { name := "fortuna_generator_reseeds_total"
    help := "Total number of generator reseeds"
    type := .counter
    value := r.reseeds.toNat },
  { name := "fortuna_generator_seeded"
    help := "Whether the generator has been seeded (1=seeded, 0=unseeded)"
    type := .gauge
    value := r.seeded.toInt }]

def text (r : Registry) : String :=
  String.join (r.families.map Family.text)

end Registry

end Fortuna

import Fortuna.Generator.Basic

/-!
# Descriptions

The text that describes a generator.  It shows block size, seededness and
totals, and nothing of key, counter or output.
-/

namespace Fortuna

def boolText : Bool → String
  | true => "true"
  | false => "false"

def Totals.fields (t : Totals) : String :=
  "reseeds: " ++ Decimal.ofNat t.reseeds ++ ", rekeys: " ++ Decimal.ofNat t.rekeys ++
    ", blocks_generated: " ++ Decimal.ofNat t.blocks ++
    ", bytes_generated: " ++ Decimal.ofNat t.bytes

def Generator.describe {F : CipherFactory} (g : Generator F) : String :=
  "Generator \x7b block_size: " ++ Decimal.ofNat g.blockSize ++
    ", seeded: " ++ boolText g.isSeeded ++
    ", stats: GeneratorStats \x7b " ++ g.totals.fields ++ " \x7d, .. \x7d"

end Fortuna

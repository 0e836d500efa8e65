import Fortuna.Bytes
import Fortuna.Chunks

/-!
# Hexadecimal lines

Bytes in hexadecimal, on lines of a given width or on a single line.
-/

namespace Fortuna

namespace CommandLine

/-- The lines that show bytes in hexadecimal, `width` digits on each but the
last; with width 0 a single line. -/
def hexLines (width : Nat) (data : Bytes) : List Char :=
  if width = 0 then data.hex ++ ['\n']
  else (chunksOf width data.hex).flatMap (· ++ ['\n'])

end CommandLine

end Fortuna

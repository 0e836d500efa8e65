/-!
# Scanning text

A scanner reads a value from the front of a text and leaves the rest, or fails.
An alternative starts again where the failed scanner started.
-/

namespace Fortuna

namespace Toml

/-- A reader of the front of a text. -/
abbrev Scan := StateT (List Char) Option

namespace Scan

variable {α : Type}

/-- The next character, which is not passed; none at the end. -/
def peek : Scan (Option Char) :=
  fun cs => some (cs.head?, cs)

def atEnd : Scan Unit
  | [] => some ((), [])
  | _ => none

def satisfying (p : Char → Bool) : Scan Char
  | [] => none
  | c :: cs => if p c then some (c, cs) else none

def exactly (c : Char) : Scan Unit := do
  let _ ← satisfying (· == c)

def word : List Char → Scan Unit
  | [] => pure ()
  | c :: cs => do
    exactly c
    word cs

/-- All characters of a class up to the first that is not of it. -/
def span (p : Char → Bool) : Scan (List Char) :=
  fun cs => some (cs.takeWhile p, cs.dropWhile p)

def span1 (p : Char → Bool) : Scan (List Char) := do
  let c ← satisfying p
  return c :: (← span p)

def times (p : Char → Bool) : Nat → Scan (List Char)
  | 0 => pure []
  | n + 1 => do
    let c ← satisfying p
    return c :: (← times p n)

/-- Adds what a scanner finds to what was found (latest first), as often as it
succeeds but not more than the given number of times. -/
def collect (x : Scan α) (found : List α) : Nat → Scan (List α)
  | 0, cs => some (found.reverse, cs)
  | n + 1, cs =>
    match x cs with
    | some (a, rest) => collect x (a :: found) n rest
    | none => some (found.reverse, cs)

/-- Everything a scanner finds until it fails.  A scanner that passes at least
one character each time cannot succeed more often than there are characters. -/
def many (x : Scan α) : Scan (List α) :=
  fun cs => collect x [] cs.length cs

def whole (x : Scan α) (cs : List Char) : Option α :=
  match x cs with
  | some (a, []) => some a
  | _ => none

end Scan

end Toml

end Fortuna

import Fortuna.Bytes
import Fortuna.Decimal
import Fortuna.Toml.Scan

/-!
# Strings, blanks and comments of TOML

The characters of a TOML text that carry no structure: blanks, newlines,
comments, and the four kinds of string.
-/

namespace Fortuna

namespace Toml

/-! ## Character classes -/

def quote : Char := '\x22'

def apostrophe : Char := '\x27'

def backslash : Char := '\x5c'

def isBlank (c : Char) : Bool :=
  c == ' ' || c == '\t'

/-- The characters of comments: all but control characters, and the tab. -/
def isPlain (c : Char) : Bool :=
  c == '\t' || (0x20 ≤ c.toNat && c.toNat != 0x7f)

def isBasic (c : Char) : Bool :=
  isPlain c && c != quote && c != backslash

def isLiteral (c : Char) : Bool :=
  isPlain c && c != apostrophe

/-! ## Blanks and line ends -/

namespace Scan

def blanks : Scan Unit := do
  let _ ← span isBlank

def newline : Scan Unit :=
  word ['\n'] <|> word ['\r', '\n']

def comment : Scan Unit := do
  exactly '#'
  let _ ← span isPlain

/-- Blanks, perhaps a comment, and the end of the line or of the text. -/
def lineEnd : Scan Unit := do
  blanks
  let _ ← optional comment
  newline <|> atEnd

/-- Blanks, newlines and comments that end with their line. -/
def gap : Scan Unit := do
  let blank := do let _ ← span1 isBlank
  let line := do let _ ← optional comment; newline
  let _ ← many (blank <|> line)

/-! ## Strings -/

/-- The character with the number that `n` hexadecimal digits spell. -/
def codePoint (n : Nat) : Scan Char := do
  let ds ← times (fun c => (Bytes.hexDigit? c).isSome) n
  let code := Decimal.value 16 (ds.filterMap Bytes.hexDigit?)
  if code.isValidChar then return Char.ofNat code else failure

def escape : Scan Char := do
  exactly backslash
  match ← satisfying fun _ => true with
  | 'b' => return '\x08'
  | 't' => return '\t'
  | 'n' => return '\n'
  | 'f' => return '\x0c'
  | 'r' => return '\r'
  | '\x22' => return quote
  | '\x5c' => return backslash
  | 'u' => codePoint 4
  | 'U' => codePoint 8
  | _ => failure

def basicString : Scan (List Char) := do
  exactly quote
  let parts ← many (span1 isBasic <|> List.singleton <$> escape)
  exactly quote
  return parts.flatten

def literalString : Scan (List Char) := do
  exactly apostrophe
  let text ← span isLiteral
  exactly apostrophe
  return text

/-- One or two of the given quotes that are not followed by another. -/
def innerQuotes (q : Char) : Scan (List Char) := do
  let run ← span1 (· == q)
  if run.length ≤ 2 then return run else failure

/-- The end of a string over several lines: three of the given quotes, before
which up to two may belong to the string. -/
def closingQuotes (q : Char) : Scan (List Char) := do
  let run ← span1 (· == q)
  if 3 ≤ run.length ∧ run.length ≤ 5 then return run.drop 3 else failure

/-- A newline in a string, which counts as one character however it is
written. -/
def lineBreak : Scan (List Char) := do
  newline
  return ['\n']

/-- A backslash at the end of a line, with all blanks and newlines after it. -/
def continuation : Scan (List Char) := do
  exactly backslash
  blanks
  newline
  let _ ← many ((do let _ ← span1 isBlank) <|> newline)
  return []

/-- A string over several lines between the given quotes, made of the given
parts.  A newline right after the opening does not count. -/
def multiline (q : Char) (part : Scan (List Char)) : Scan (List Char) := do
  word [q, q, q]
  let _ ← optional newline
  let parts ← many (part <|> lineBreak <|> innerQuotes q)
  let last ← closingQuotes q
  return parts.flatten ++ last

def basicText : Scan (List Char) :=
  multiline quote (span1 isBasic <|> List.singleton <$> escape <|> continuation)

def literalText : Scan (List Char) :=
  multiline apostrophe (span1 isLiteral)

def string : Scan (List Char) :=
  basicText <|> basicString <|> literalText <|> literalString

end Scan

end Toml

end Fortuna

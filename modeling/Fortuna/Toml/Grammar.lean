import Fortuna.Toml.Moment
import Fortuna.Toml.Number
import Fortuna.Toml.Table
import Fortuna.Toml.Text

/-!
# The grammar of TOML

The grammar of documents: lines that bind a value at a dotted key, and headers.
Values nest; the nesting of a document cannot be deeper than the document is
long, which bounds the recursion.  There is no other limit to nesting, so that what
is said of all documents is meant of those that a parser with a limit does not refuse
for their depth.

`parse?` gives the table that a text denotes, if the text is a TOML document.
-/

namespace Fortuna

namespace Toml

namespace Scan

/-! ## Keys -/

/-- The characters of keys that need no quotes. -/
def isBare (c : Char) : Bool :=
  c.isAlphanum || c == '_' || c == '-'

def simpleKey : Scan String :=
  String.ofList <$> (span1 isBare <|> basicString <|> literalString)

/-- A dotted key, with blanks around each part: its first part and the others.  It may
have any number of parts; the assumption is that no document has one that a parser with
a limit on nesting refuses for its length. -/
def key : Scan (String × List String) := do
  let part := do
    blanks
    let k ← simpleKey
    blanks
    return k
  let first ← part
  return (first, ← many (exactly '.' *> part))

/-! ## Values -/

def isScalar (c : Char) : Bool :=
  c.isAlphanum || c == '+' || c == '-' || c == '.' || c == '_' || c == ':'

def scalarValue? (cs : List Char) : Option Value :=
  if cs = ['t', 'r', 'u', 'e'] then some (.boolean true)
  else if cs = ['f', 'a', 'l', 's', 'e'] then some (.boolean false)
  else match integer? cs with
    | some n => some (.integer n)
    | none =>
      if isFloat cs then some (.float (String.ofList cs))
      else if isMoment cs then some (.moment (String.ofList cs))
      else none

/-- The time of day that follows a date and a space. -/
def spacedClock : Scan (List Char) := do
  exactly ' '
  let clock ← span1 isScalar
  if isPlacedClock clock then return ' ' :: clock else failure

/-- A number, a truth value, a date or a time. -/
def scalar : Scan Value := do
  let text ← span1 isScalar
  if isDate text then
    let clock ← spacedClock <|> pure []
    return .moment (String.ofList (text ++ clock))
  else
    match scalarValue? text with
    | some v => return v
    | none => failure

/-- Items between brackets, with commas between them and perhaps one at the end. -/
def array (value : Scan Value) : Scan Value := do
  exactly '['
  gap
  let item := value <* gap
  let comma := exactly ',' *> gap
  let items := do
    let first ← item
    let rest ← many (comma *> item)
    let _ ← optional comma
    return first :: rest
  let items ← items <|> pure []
  exactly ']'
  return .array items

def binding (value : Scan Value) : Scan Binding := do
  let (first, rest) ← key
  exactly '='
  blanks
  return ⟨first :: rest, ← value⟩

/-- Bindings between braces, with commas between them, on one line. -/
def inlineTable (value : Scan Value) : Scan Value := do
  exactly '\x7b'
  blanks
  let item := binding value <* blanks
  let items := do
    let first ← item
    return first :: (← many (exactly ',' *> item))
  let items ← items <|> pure []
  exactly '\x7d'
  match Entries.bindAll items [] with
  | some entries => return .table .inline entries
  | none => failure

/-- A value in which at most `depth` values nest.  A document is read with a depth that
no value in it can exceed (`document`), so that nesting is not limited.  Parsers that
protect their stack refuse very deep documents; the assumption is that documents stay
below such a limit. -/
def value : Nat → Scan Value
  | 0 => failure
  | depth + 1 => do
    match ← peek with
    | some '[' => array (value depth)
    | some '\x7b' => inlineTable (value depth)
    | some '\x22' | some '\x27' => return .string (String.ofList (← string))
    | _ => scalar

/-! ## Lines -/

def bodyLine (value : Scan Value) : Scan (Option Binding) := do
  let _ ← peek >>= fun c => if c.isSome then pure () else failure
  blanks
  match ← peek with
  | none | some '#' | some '\n' | some '\r' =>
    lineEnd
    return none
  | _ =>
    let b ← binding value
    lineEnd
    return some b

def body (value : Scan Value) : Scan (List Binding) := do
  return (← many (bodyLine value)).filterMap id

/-- A header, and whether it adds to an array of tables. -/
def header : Scan (Bool × String × List String) := do
  let tables := do
    word ['[', '[']
    let path ← key
    word [']', ']']
    return (true, path)
  let table := do
    exactly '['
    let path ← key
    exactly ']'
    return (false, path)
  tables <|> table

/-- The keys of a path before its last, and its last. -/
def splitLast (first : String) : List String → List String × String
  | [] => ([], first)
  | second :: rest =>
    let (parents, last) := splitLast second rest
    (first :: parents, last)

def «section» (value : Scan Value) : Scan Section := do
  blanks
  let (repeated, first, rest) ← header
  lineEnd
  let (parents, key) := splitLast first rest
  return { repeated, parents, key, bindings := ← body value }

/-- A document.  A byte order mark in front of it does not count. -/
def document : Scan Document := do
  let _ ← optional (exactly '\ufeff')
  let value := value (← get).length
  let preamble ← body value
  let sections ← many («section» value)
  atEnd
  return { preamble, sections }

end Scan

def parse? (text : List Char) : Option Entries := do
  let document ← Scan.document.whole text
  document.table?

end Toml

end Fortuna

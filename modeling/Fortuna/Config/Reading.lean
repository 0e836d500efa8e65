import Fortuna.Config.Basic
import Fortuna.Toml.Grammar

/-!
# Reading configurations

A configuration file is a TOML document with three sections.  Every setting is
read from its own key and from nothing else: an absent setting takes its default,
and what is not a setting is passed over.

A section may also be an array of its settings in order, or be taken for absent
when it is a date or time.
-/

namespace Fortuna

open Toml (Entries Value)

/-! ## Settings -/

namespace Config

def readNat : Value → Option Nat
  | .integer n => if 0 ≤ n then some n.toNat else none
  | _ => none

def readSeed : Value → Option (Option Int64)
  | .integer n => some (some (Int64.ofInt n))
  | _ => none

def readBool : Value → Option Bool
  | .boolean b => some b
  | _ => none

/-- A value that carries nothing. -/
def isEmptyValue : Value → Bool
  | .table _ entries => entries.isEmpty
  | .array items => items.isEmpty
  | _ => false

/-- A format: its name, or a table that binds its name to an empty value. -/
def readFormat : Value → Option Format
  | .string name => Format.ofName? name
  | .table _ [(name, value)] => if isEmptyValue value then Format.ofName? name else none
  | _ => none

/-- A setting: its default if the key is not bound. -/
def setting {α : Type} (entries : Entries) (key : String)
    (read : Value → Option α) (default : α) : Option α :=
  match entries.lookup key with
  | none => some default
  | some value => read value

/-! ## Sections -/

/-- The bindings of a section whose settings have the given keys, in order. -/
def sectionEntries (keys : List String) : Option Value → Option Entries
  | none => some []
  | some (.table _ entries) => some entries
  | some (.array items) => some (keys.zip items)
  | some (.tables elements) => some (keys.zip (elements.map (.table .header)))
  | some (.moment _) => some []
  | some _ => none

def ofTable? (root : Entries) : Option Config := do
  let generator ← sectionEntries ["seed", "os_seed_bytes"] (root.lookup "generator")
  let output ← sectionEntries ["format", "count", "line_width", "stream_chunk"]
    (root.lookup "output")
  let metrics ← sectionEntries ["print"] (root.lookup "metrics")
  let default : Config := {}
  return {
    seed := ← setting generator "seed" readSeed default.seed
    osSeedBytes := ← setting generator "os_seed_bytes" readNat default.osSeedBytes
    format := ← setting output "format" readFormat default.format
    count := ← setting output "count" readNat default.count
    lineWidth := ← setting output "line_width" readNat default.lineWidth
    streamChunk := ← setting output "stream_chunk" readNat default.streamChunk
    printMetrics := ← setting metrics "print" readBool default.printMetrics }

/-! ## Documents and files -/

def ofToml (text : String) : Except ConfigError Config :=
  match (Toml.parse? text.toList).bind ofTable? with
  | some c => c.validate
  | none => .error .unparsable

def decode (content : Bytes) : Except ReadFailure String :=
  match String.fromUTF8? content.toByteArray with
  | some text => .ok text
  | none => .error .notUtf8

def ofFile (content : Except ReadFailure Bytes) : Except ConfigError Config :=
  match content.bind decode with
  | .ok text => ofToml text
  | .error cause => .error (.unreadable cause)

end Config

end Fortuna

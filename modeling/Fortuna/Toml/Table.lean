import Fortuna.Toml.Value

/-!
# TOML tables

A document denotes a table, to which its lines add one after another.  A binding
or a header may add to some tables and not to others, and no binding is ever
replaced.

`bindPath` binds a value at a dotted key, `addSection` adds the content of a
header.  Both fail where the document is not allowed to say so.
-/

namespace Fortuna

namespace Toml

namespace Entries

/-- Binds a key, in place of its binding if it has one. -/
def put (entries : Entries) (key : String) (value : Value) : Entries :=
  match entries with
  | [] => [(key, value)]
  | (k, v) :: rest => if k = key then (key, value) :: rest else (k, v) :: put rest key value

/-- Binds a value at the end of a dotted key.  The key must be free, and the
table that receives it must be the one at hand or one that dotted keys opened. -/
def bindPath (entries : Entries) (path : List String) (value : Value) : Option Entries :=
  match path with
  | [] => none
  | [key] =>
    if (entries.lookup key).isSome then none else some (entries.put key value)
  | key :: path =>
    match entries.lookup key with
    | none => do
      let inner ← bindPath [] path value
      return entries.put key (.table .dotted inner)
    | some (.table .dotted inner) => do
      let inner ← bindPath inner path value
      return entries.put key (.table .dotted inner)
    | some (.table .parent inner) => do
      guard (path.length ≠ 1)
      let inner ← bindPath inner path value
      return entries.put key (.table .parent inner)
    | some (.tables elements) => do
      guard (path.length ≠ 1)
      let last ← elements.getLast?
      let last ← bindPath last path value
      return entries.put key (.tables (elements.dropLast ++ [last]))
    | some _ => none

/-- Changes the table to which a header's path leads.  Tables on the way that do
not exist are made; of an array of tables the last element is meant. -/
def atPath (entries : Entries) (path : List String)
    (change : Entries → Option Entries) : Option Entries :=
  match path with
  | [] => change entries
  | key :: path =>
    match entries.lookup key with
    | none => do
      let inner ← atPath [] path change
      return entries.put key (.table .parent inner)
    | some (.table .inline _) => none
    | some (.table origin inner) => do
      let inner ← atPath inner path change
      return entries.put key (.table origin inner)
    | some (.tables elements) => do
      let last ← elements.getLast?
      let last ← atPath last path change
      return entries.put key (.tables (elements.dropLast ++ [last]))
    | some _ => none

end Entries

structure Binding where
  path : List String
  value : Value

structure Section where
  /-- Whether the header adds an element to an array of tables. -/
  repeated : Bool
  /-- The path up to the last key. -/
  parents : List String
  key : String
  bindings : List Binding

namespace Entries

def bindAll (bindings : List Binding) (entries : Entries) : Option Entries :=
  bindings.foldlM (fun es b => es.bindPath b.path b.value) entries

/-- Adds the content of a header.  A plain header names a new table, or one that
only its subtables named so far. -/
def addSection (s : Section) (root : Entries) : Option Entries :=
  root.atPath s.parents fun entries =>
    match s.repeated, entries.lookup s.key with
    | false, none => do
      return entries.put s.key (.table .header (← bindAll s.bindings []))
    | false, some (.table .parent inner) => do
      return entries.put s.key (.table .header (← bindAll s.bindings inner))
    | true, none => do
      return entries.put s.key (.tables [← bindAll s.bindings []])
    | true, some (.tables elements) => do
      return entries.put s.key (.tables (elements ++ [← bindAll s.bindings []]))
    | _, _ => none

end Entries

structure Document where
  preamble : List Binding
  sections : List Section

/-- The table that a document denotes, if it says nothing twice. -/
def Document.table? (d : Document) : Option Entries := do
  let root ← Entries.bindAll d.preamble []
  d.sections.foldlM (fun es s => es.addSection s) root

end Toml

end Fortuna

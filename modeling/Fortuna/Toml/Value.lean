/-!
# TOML values

Values nest: arrays hold values, and tables bind keys to values.  A table
remembers how it came about, because that decides how it may grow while a
document is read.
-/

namespace Fortuna

namespace Toml

/-- How a table came about. -/
inductive Origin where
  | header
  /-- Only headers of its subtables named it. -/
  | parent
  /-- A dotted key opened it. -/
  | dotted
  | inline
  deriving DecidableEq

/-- A TOML value.  Floats, dates and times are kept as they are written. -/
inductive Value where
  | string (text : String)
  | integer (n : Int)
  | float (text : String)
  | boolean (b : Bool)
  | moment (text : String)
  | array (items : List Value)
  | table (origin : Origin) (entries : List (String × Value))
  | tables (elements : List (List (String × Value)))

/-- The bindings of a table; no key occurs twice. -/
abbrev Entries := List (String × Value)

end Toml

end Fortuna

/-!
# Writing TOML

Plain documents: sections with a blank line between them, and in each section one
line for every setting.
-/

namespace Fortuna

namespace Toml

/-- A section to be written: its name, and its keys with the texts of their
values. -/
structure PlainSection where
  name : String
  settings : List (String × String)

def settingLine (key value : String) : String :=
  key ++ " = " ++ value ++ "\n"

def PlainSection.text (s : PlainSection) : String :=
  "[" ++ s.name ++ "]\n" ++ String.join (s.settings.map fun (key, value) => settingLine key value)

def plainText (sections : List PlainSection) : String :=
  "\n".intercalate (sections.map PlainSection.text)

end Toml

end Fortuna

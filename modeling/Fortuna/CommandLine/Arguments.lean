import Fortuna.CommandLine.Setting

/-!
# Arguments

The arguments of a run: global options, a command, and more options.  An option
is given as `--name value` or `--name=value`, the count also as `-n value`,
`-nvalue` or `-n=value`.  Within the options before the command, and within
those behind it, none may stand twice; of a global option in both places the
later counts.

Arguments may instead ask for help or for the version, or be refused.
-/

namespace Fortuna

namespace CommandLine

inductive Task where
  | bytes (count : Option Nat) (format : Option Format)
  | int63 (count : Option Nat)
  | stream (chunk : Option Nat)
  deriving DecidableEq

structure Invocation where
  config : Option String := none
  seed : Option Int64 := none
  metrics : Bool := false
  task : Task
  deriving DecidableEq

/-- Why arguments invoke nothing. -/
inductive Stop where
  | help
  | version
  | refused
  deriving DecidableEq

/-! ## Single arguments -/

inductive Shape where
  /-- The mark that ends the options. -/
  | endOfOptions
  | long (name : String) (value : Option String)
  /-- A letter, and what stands right behind it. -/
  | short (letter : Char) (rest : List Char)
  | plain
  deriving DecidableEq

def Shape.of (arg : String) : Shape :=
  match arg.toList with
  | ['-', '-'] => .endOfOptions
  | '-' :: '-' :: cs =>
    let (name, tail) := cs.span (· != '=')
    .long (String.ofList name) (if tail = [] then none else some (String.ofList tail.tail))
  | '-' :: c :: cs => .short c cs
  | _ => .plain

/-- Where options stand: before the command, or behind it. -/
inductive Place where
  | beforeCommand
  | behind (command : Command)
  deriving DecidableEq

def Place.admits : Place → OptionName → Bool
  | .beforeCommand, o => o.isGlobal
  | .behind command, o => o.servesCommand command

/-- What an argument that is no command says. -/
inductive Meaning where
  | sets (s : Setting)
  | awaits (o : OptionName)
  | stops (why : Stop)
  deriving DecidableEq

def Meaning.ofValue (o : OptionName) (value : String) : Meaning :=
  (Setting.ofValue? value o).elim (.stops .refused) .sets

def Meaning.ofLong (place : Place) (name : String) (value : Option String) : Meaning :=
  if name = "help" then .stops (if value.isNone then .help else .refused)
  else if name = "version" ∧ place = .beforeCommand then
    .stops (if value.isNone then .version else .refused)
  else
    match OptionName.ofLong? name with
    | none => .stops .refused
    | some o =>
      if place.admits o then
        match o, value with
        | .metrics, none => .sets .metrics
        | _, none => .awaits o
        | _, some value => .ofValue o value
      else .stops .refused

def Meaning.ofShort (place : Place) (letter : Char) (rest : List Char) : Meaning :=
  if letter = 'h' then .stops .help
  else if letter = 'V' ∧ place = .beforeCommand then .stops .version
  else if letter = 'n' ∧ place.admits .count then
    match rest with
    | [] => .awaits .count
    | '=' :: value => .ofValue .count (String.ofList value)
    | value => .ofValue .count (String.ofList value)
  else .stops .refused

def Meaning.of (place : Place) (arg : String) : Meaning :=
  match Shape.of arg with
  | .long name value => .ofLong place name value
  | .short letter rest => .ofShort place letter rest
  | .endOfOptions | .plain => .stops .refused

/-- Whether the argument after an option can be its value. -/
def OptionName.takes (o : OptionName) (arg : String) : Bool :=
  o.takesAnything || Shape.of arg = .plain

/-- Adds a setting to those found at the same place, unless its option is set
already. -/
def addSetting (found : List Setting) (s : Setting) : Option (List Setting) :=
  if found.any (·.option == s.option) then none else some (found ++ [s])

/-! ## Behind the command -/

/-- The settings behind a command, after those found. -/
def settingsBehind (command : Command) (found : List Setting) :
    List String → Except Stop (List Setting)
  | [] => .ok found
  | "--" :: args => if args.isEmpty then .ok found else .error .refused
  | arg :: args =>
    match Meaning.of (.behind command) arg with
    | .stops why => .error why
    | .sets s =>
      match addSetting found s with
      | some found => settingsBehind command found args
      | none => .error .refused
    | .awaits o =>
      match args with
      | [] => .error .refused
      | value :: args =>
        if o.takes value then
          match (Setting.ofValue? value o).bind (addSetting found) with
          | some found => settingsBehind command found args
          | none => .error .refused
        else .error .refused

/-- The task that the settings behind a command make of it. -/
def Task.ofSettings (behind : List Setting) : Command → Task
  | .bytes => .bytes (behind.findSome? (·.count?)) (behind.findSome? (·.format?))
  | .int63 => .int63 (behind.findSome? (·.count?))
  | .stream => .stream (behind.findSome? (·.chunk?))

/-- The invocation that the settings before and behind a command make. -/
def Invocation.ofSettings (before : List Setting) (command : Command)
    (behind : List Setting) : Invocation where
  config := (behind.findSome? (·.path?)).or (before.findSome? (·.path?))
  seed := (behind.findSome? (·.seedValue?)).or (before.findSome? (·.seedValue?))
  metrics := before.contains .metrics || behind.contains .metrics
  task := Task.ofSettings behind command

/-! ## Before the command -/

/-- The arguments of the request for help on a command. -/
def helpTopic : List String → Stop
  | [] => .help
  | [topic] => if topic = "help" ∨ (Command.ofName? topic).isSome then .help else .refused
  | _ => .refused

/-- How arguments end of which an option before the command had a bad value.
Such a value is only looked at once the rest of the arguments has been, so that
a request for help right behind it is still met. -/
def afterBadValue : List String → Stop
  | [] => .refused
  | name :: args =>
    match Command.ofName? name with
    | some command =>
      match settingsBehind command [] args with
      | .error .help => .help
      | _ => .refused
    | none => if name = "help" then helpTopic args else .refused

/-- The invocation that arguments make, after the settings found before the
command. -/
def invocation (found : List Setting) : List String → Except Stop Invocation
  | [] => .error .refused
  | arg :: args =>
    match Command.ofName? arg with
    | some command => (settingsBehind command [] args).map (.ofSettings found command)
    | none =>
      if arg = "help" then .error (helpTopic args)
      else
        match Meaning.of .beforeCommand arg with
        | .stops why => .error why
        | .sets s =>
          match addSetting found s with
          | some found => invocation found args
          | none => .error .refused
        | .awaits o =>
          match args with
          | [] => .error .refused
          | value :: args =>
            if o.takes value then
              match (Setting.ofValue? value o).bind (addSetting found) with
              | some found => invocation found args
              | none => .error (afterBadValue args)
            else .error .refused

def parse (args : List String) : Except Stop Invocation :=
  invocation [] args

end CommandLine

end Fortuna

import Fortuna.Cipher.Aes
import Fortuna.CommandLine.Arguments
import Fortuna.CommandLine.Hex
import Fortuna.Config.Reading
import Fortuna.Generator.Integers
import Fortuna.Metrics.Exposition

/-!
# Runs of the program

A run loads its configuration, lets flags override it, seeds a generator and
writes output drawn from it piece by piece: bytes in one piece, integers one
after another, a stream without end.  Then it reports its totals, and its
metrics if asked.

`Plan` is a run that has been prepared but has not written anything.  `Plan.write`
writes its output, in whatever monad the output is written; `Plan.report` says what
the run leaves behind at an output that takes a given number of bytes.
-/

namespace Fortuna

namespace CommandLine

def version : String := "0.1.0"

def versionText : String := "fortuna-gen " ++ version ++ "\n"

def cipher : CipherFactory := Aes.factory .aes256

/-! ## Configuration -/

/-- What a run takes from its surroundings. -/
structure Host where
  file : String → Except ReadFailure Bytes
  /-- Entropy of the operating system, so many bytes. -/
  entropy : Nat → Bytes

def Invocation.override (i : Invocation) (c : Config) : Config :=
  { c with
    seed := i.seed.or c.seed
    printMetrics := c.printMetrics || i.metrics }

def Invocation.load (i : Invocation) (host : Host) : Except ConfigError Config :=
  match i.config with
  | some path => (Config.ofFile (host.file path)).map i.override
  | none => .ok (i.override {})

/-! ## Output -/

/-- Characters of one byte each. -/
def ascii (text : List Char) : Bytes :=
  text.map fun c => UInt8.ofNat c.toNat

def encode (c : Config) : Format → Bytes → Bytes
  | .raw, data => data
  | .hex, data => ascii (hexLines c.lineWidth data)

/-- Output that is drawn piece by piece. -/
structure Source where
  piece : Step cipher GeneratorError Bytes
  /-- The number of pieces; without it there is no end. -/
  pieces : Option Nat
  notice : List String := []

def Task.source (c : Config) : Task → Source
  | .bytes count format => {
      piece := encode c (format.getD c.format) <$> Generator.read (count.getD c.count)
      pieces := some 1 }
  | .int63 count => {
      piece := (fun n => ascii (Decimal.digits n ++ ['\n'])) <$> Generator.int63
      pieces := some (count.getD c.count) }
  | .stream chunk =>
    let size := max 1 (chunk.getD c.streamChunk)
    { piece := Generator.read size
      pieces := none
      notice := ["INFO fortuna_gen: Streaming; press Ctrl-C to stop chunk=" ++
        Decimal.ofNat size] }

/-! ## Plans -/

structure Plan where
  generator : Generator cipher
  source : Source
  opening : List String
  printMetrics : Bool

def openingLog (c : Config) : List String :=
  ("INFO fortuna_gen: Fortuna generator v" ++ version) ::
    (c.seed.map fun seed =>
      "WARN fortuna_gen: using deterministic seed; output is reproducible seed=" ++
        Decimal.ofInt seed.toInt).toList

def seeded (c : Config) (host : Host) : Except GeneratorError (Generator cipher) := do
  let created ← Generator.create cipher
  let seeding := match c.seed with
    | some seed => Generator.restart seed
    | none => Generator.reseed (host.entropy c.osSeedBytes)
  let ready ← created.andThen seeding
  return ready.generator

inductive RunError where
  | config (e : ConfigError)
  | generator (e : GeneratorError)
  /-- The output takes no more, though no reader has closed it. -/
  | output (reason : String)
  deriving DecidableEq

def RunError.message : RunError → String
  | .config e => e.message
  | .generator e => e.message
  | .output reason => "output error: " ++ reason

/-- The plan of a run; an error comes with what has been logged before it. -/
def Invocation.plan (i : Invocation) (host : Host) : Except (RunError × List String) Plan :=
  match i.load host with
  | .error e => .error (.config e, [])
  | .ok c =>
    match seeded c host with
    | .error e => .error (.generator e, openingLog c)
    | .ok generator => .ok {
        generator
        source := i.task.source c
        opening := openingLog c
        printMetrics := c.printMetrics }

/-! ## Writing -/

/-- What becomes of a piece that is written. -/
inductive Written where
  | taken
  /-- The reader has closed the output. -/
  | closed
  | failed (reason : String)

/-- Draws pieces, as many as asked for, and writes each before the next is drawn.  An
output that its reader has closed ends this as the last piece would. -/
@[specialize]
def writePieces {m : Type → Type} [Monad m] (write : Bytes → m Written)
    (piece : Step cipher GeneratorError Bytes) (g : Generator cipher) :
    Nat → m (Except RunError (Generator cipher))
  | 0 => return .ok g
  | k + 1 =>
    let o := piece g
    match o.result with
    | .error e => return .error (.generator e)
    | .ok bytes => do
      match ← write bytes with
      | .taken => writePieces write piece o.state k
      | .closed => return .ok o.state
      | .failed reason => return .error (.output reason)

/-- The number of pieces to write.  Of an endless source these are more than a program
can live to write. -/
def Source.count (s : Source) : Nat :=
  s.pieces.getD (Nat.pow 2 64)

def Plan.write {m : Type → Type} [Monad m] (p : Plan) (write : Bytes → m Written) :
    m (Except RunError (Generator cipher)) :=
  writePieces write p.source.piece p.generator p.source.count

/-! ## Reports -/

structure Report where
  status : Nat
  output : Bytes
  log : List String
  /-- What it said beside its log. -/
  notes : String
  deriving DecidableEq

def RunError.text (e : RunError) : String :=
  "fortuna-gen: " ++ e.message ++ "\n"

def closingLog (g : Generator cipher) : String :=
  "INFO fortuna_gen: Done reseeds=" ++ Decimal.ofNat g.totals.reseeds ++
    " rekeys=" ++ Decimal.ofNat g.totals.rekeys ++
    " bytes=" ++ Decimal.ofNat g.totals.bytes

/-- The metrics of a generator, if they are asked for. -/
def closingNotes (printMetrics : Bool) (g : Generator cipher) : String :=
  if printMetrics then (({} : Registry).update (.ofGenerator g)).text else ""

structure Drawn where
  /-- The pieces, latest first. -/
  pieces : List Bytes
  generator : Generator cipher
  error : Option GeneratorError

/-- What `writePieces` draws and writes after the pieces drawn, at an output that takes
only `wanted` more bytes, those that wait to be read included: its reader closes it
during the first piece that holds more, and that piece is the last. -/
def draw (piece : Step cipher GeneratorError Bytes) (drawn : List Bytes)
    (wanted : Option Nat) (g : Generator cipher) : Nat → Drawn
  | 0 => ⟨drawn, g, none⟩
  | k + 1 =>
    let o := piece g
    match o.result with
    | .error e => ⟨drawn, o.state, some e⟩
    | .ok bytes =>
      if wanted.any (· < bytes.length) then ⟨bytes :: drawn, o.state, none⟩
      else draw piece (bytes :: drawn) (wanted.map (· - bytes.length)) o.state k

/-- How many pieces a reader who takes at most `wanted` bytes can make a run draw.
The pieces of an endless source are not empty, so that one more than `wanted` of them
are too much for the reader; without a limit none is drawn. -/
def Source.times (s : Source) (wanted : Option Nat) : Nat :=
  s.pieces.getD (wanted.elim 0 (· + 1))

/-- What a prepared run draws for a reader who takes at most `wanted` bytes. -/
def Plan.drawn (p : Plan) (wanted : Option Nat) : Drawn :=
  draw p.source.piece [] wanted p.generator (p.source.times wanted)

/-- The bytes that the reader takes. -/
def Drawn.taken (d : Drawn) (wanted : Option Nat) : Bytes :=
  let output := d.pieces.reverse.flatten
  wanted.elim output output.take

/-- What a prepared run leaves behind, when its reader takes at most `wanted`
bytes.  An output that its reader has closed is no error. -/
def Plan.report (p : Plan) (wanted : Option Nat) : Report :=
  let drawn := p.drawn wanted
  let output := drawn.taken wanted
  let log := p.opening ++ p.source.notice
  match drawn.error with
  | some e => ⟨1, output, log, (RunError.generator e).text⟩
  | none => {
      status := 0
      output
      log := log ++ [closingLog drawn.generator]
      notes := closingNotes p.printMetrics drawn.generator }

def Invocation.report (i : Invocation) (host : Host) (wanted : Option Nat) : Report :=
  match i.plan host with
  | .error (e, log) => ⟨1, [], log, e.text⟩
  | .ok plan => plan.report wanted

end CommandLine

end Fortuna

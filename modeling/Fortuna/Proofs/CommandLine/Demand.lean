import Fortuna.CommandLine.Run
import Fortuna.Proofs.Generator.Availability
import Fortuna.Proofs.Generator.Series

/-!
# What a run is asked for

Options and configuration file together say what a run has to write
(`Task.demand`): a setting is that of its option if the option is given, else that of
the file, in which what is absent has its default.  Every demand is served by
requests of one size whose output is shown in one way (`Demand.source`).

A run with a deterministic seed starts from a state that the seed determines
(`start`).  What it reports depends on its demand, its seed and whether metrics are
asked for, and on nothing else (`Invocation.report_of_seed`).
-/

namespace Fortuna

namespace CommandLine

open Generator

/-! ## Demands -/

/-- How bytes are written. -/
inductive Encoding where
  | raw
  | hex (lineWidth : Nat)
  deriving DecidableEq

namespace Encoding

def ofFormat (lineWidth : Nat) : Format → Encoding
  | .raw => .raw
  | .hex => .hex lineWidth

def write : Encoding → Bytes → Bytes
  | .raw, data => data
  | .hex lineWidth, data => ascii (hexLines lineWidth data)

end Encoding

/-- What a run has to write. -/
inductive Demand where
  | bytes (count : Nat) (encoding : Encoding)
  | int63 (count : Nat)
  | stream (chunk : Nat) (pos : 0 < chunk)
  deriving DecidableEq

/-- What a task comes to with the settings of a file. -/
def Task.demand (c : Config) : Task → Demand
  | .bytes count format =>
    .bytes (count.getD c.count) (.ofFormat c.lineWidth (format.getD c.format))
  | .int63 count => .int63 (count.getD c.count)
  | .stream chunk => .stream (max 1 (chunk.getD c.streamChunk)) (Nat.le_max_left _ _)

/-- The line of an integer that is drawn as eight bytes. -/
def int63Line (data : Bytes) : Bytes :=
  ascii (Decimal.digits (Bytes.toNatBE data % Nat.pow 2 63) ++ ['\n'])

namespace Demand

/-- Bytes in a request. -/
def size : Demand → Nat
  | .bytes count _ => count
  | .int63 _ => 8
  | .stream chunk _ => chunk

/-- What is written of the output of a request. -/
def write : Demand → Bytes → Bytes
  | .bytes _ encoding => encoding.write
  | .int63 _ => int63Line
  | .stream _ _ => id

/-- The number of requests; without it there is no end. -/
def requests : Demand → Option Nat
  | .bytes _ _ => some 1
  | .int63 count => some count
  | .stream _ _ => none

def notice : Demand → List String
  | .bytes _ _ | .int63 _ => []
  | .stream chunk _ =>
    ["INFO fortuna_gen: Streaming; press Ctrl-C to stop chunk=" ++ Decimal.ofNat chunk]

def source (d : Demand) : Source where
  piece := d.write <$> Generator.read d.size
  pieces := d.requests
  notice := d.notice

end Demand

/-- Tasks are served by requests of one size. -/
theorem Task.source_override (task : Task) (i : Invocation) (c : Config) :
    task.source (i.override c) = (task.demand c).source := by
  have hsource {piece piece' : Step cipher GeneratorError Bytes} (hpiece : piece = piece')
      (pieces : Option Nat) (notice : List String) :
      (⟨piece, pieces, notice⟩ : Source) = ⟨piece', pieces, notice⟩ := by
    rw [hpiece]
  cases task with
  | bytes count format =>
      have hencode : encode (i.override c) (format.getD c.format) =
          (Encoding.ofFormat c.lineWidth (format.getD c.format)).write := by
        funext data
        cases format.getD c.format <;> rfl
      exact hsource (congrArg (· <$> Generator.read (count.getD c.count)) hencode) _ _
  | int63 count =>
      have hline : (fun n => ascii (Decimal.digits n ++ ['\n'])) <$> Generator.int63 =
          int63Line <$> (Generator.read 8 : Step cipher GeneratorError Bytes) := by
        rw [Generator.int63, map_bind]
        rfl
      exact hsource hline _ _
  | stream chunk => exact hsource (id_map _).symm _ _

theorem Task.pieces_source (task : Task) (c : Config) :
    (task.source c).pieces = (task.demand c).requests := by
  cases task <;> rfl

theorem Task.exists_stream_of_requests {task : Task} {c : Config}
    (hendless : (task.demand c).requests = none) : ∃ chunk, task = .stream chunk := by
  cases task with
  | bytes | int63 => cases hendless
  | stream chunk => exact ⟨chunk, rfl⟩

/-! ## Configurations -/

/-- The settings of a run apart from its options: those of its file, or the defaults. -/
def Invocation.fileConfig (i : Invocation) (host : Host) : Except ConfigError Config :=
  match i.config with
  | some path => Config.ofFile (host.file path)
  | none => .ok {}

theorem Invocation.load_eq (i : Invocation) (host : Host) :
    i.load host = (i.fileConfig host).map i.override := by
  unfold load fileConfig
  cases i.config <;> rfl

/-- A file is read as the text that it encodes. -/
theorem ofFile_toUTF8 (text : String) :
    Config.ofFile (.ok text.toUTF8.data.toList) = Config.ofToml text := by
  have hbytes : text.toUTF8.data.toList.toByteArray = text.toUTF8 := by
    apply ByteArray.ext
    rw [List.data_toByteArray, Array.toArray_toList]
  have htext : String.fromUTF8? text.toUTF8 = some text := dif_pos text.isValidUTF8
  rw [Config.ofFile, Except.bind, Config.decode, hbytes, htext]

/-! ## Deterministic seeds -/

/-- The state from which a run with a deterministic seed starts. -/
def start (x : Int64) : Generator cipher where
  key := mixedKey zeroKey (seedBytes x)
  cipher := Aes.cipher .aes256 (mixedKey zeroKey (seedBytes x))
  counter := .ofNat Aes.blockSize 1
  totals := { reseeds := 1 }

theorem exists_restart (x : Int64) :
    ∃ c, create cipher = .ok c ∧ (restart x c.generator).result = .ok () ∧
      (restart x c.generator).state = start x := by
  have hbuild {key : Bytes} (hkey : key.length = keySize) :
      cipher.cipherFor Aes.blockSize key = .ok (Aes.cipher .aes256 key) :=
    (cipher.cipherFor_eq_ok_iff _ _ _).mpr ⟨Aes.build_eq_ok hkey, rfl⟩
  have hzero : cipher.cipherFor Aes.blockSize zeroKey = _ := hbuild List.length_replicate
  have hmixed := hbuild (length_mixedKey zeroKey (seedBytes x))
  have hcreate : create cipher = .ok _ :=
    (create_eq_ok_iff _).mpr ⟨_, Aes.build_eq_ok List.length_replicate, by decide, rfl⟩
  refine ⟨_, hcreate, ?_⟩
  rw [restart_of_cipher hzero hmixed]
  exact ⟨rfl, rfl⟩

theorem seeded_of_seed {c : Config} {x : Int64} (hseed : c.seed = some x) (host : Host) :
    seeded c host = .ok (start x) := by
  obtain ⟨created, hcreate, hresult, hstate⟩ := exists_restart x
  rw [seeded, hcreate, hseed]
  change (Created.andThen created (restart x)).bind _ = _
  rw [Created.andThen, hresult]
  exact congrArg Except.ok hstate

theorem ready_start (x : Int64) : (start x).Ready Aes.blockSize where
  blockSize_eq := Counter.width_ofNat _ _
  balanced := ⟨1, 0, rfl, rfl, rfl⟩
  reseeds_pos := Nat.one_pos

/-! ## Seeded runs -/

/-- The plan of a run that is to serve a demand from a deterministic seed. -/
def Demand.plan (d : Demand) (x : Int64) (printMetrics : Bool) : Plan where
  generator := start x
  source := d.source
  opening := openingLog { seed := some x }
  printMetrics

namespace Invocation

variable {i : Invocation} {host : Host} {c : Config} {x : Int64}

theorem plan_of_seed (hfile : i.fileConfig host = .ok c) (hseed : i.seed.or c.seed = some x) :
    i.plan host = .ok ((i.task.demand c).plan x (c.printMetrics || i.metrics)) := by
  have hload : i.load host = .ok (i.override c) := by
    rw [i.load_eq, hfile]
    rfl
  have hopening : openingLog (i.override c) = openingLog { seed := some x } := by
    rw [openingLog, openingLog, ← hseed]
    rfl
  have hseeded : seeded (i.override c) host = .ok (start x) := seeded_of_seed hseed host
  rw [plan, hload]
  dsimp only
  rw [hseeded, hopening, i.task.source_override]
  rfl

/-- A seeded run reports what its demand, its seed and the wish for metrics make of it. -/
theorem report_of_seed (hfile : i.fileConfig host = .ok c) (hseed : i.seed.or c.seed = some x)
    (wanted : Option Nat) :
    i.report host wanted =
      ((i.task.demand c).plan x (c.printMetrics || i.metrics)).report wanted := by
  rw [report, plan_of_seed hfile hseed]

/-- A run whose configuration is faulty writes nothing. -/
theorem report_of_fault {e : ConfigError} (hfile : i.fileConfig host = .error e)
    (wanted : Option Nat) :
    i.report host wanted = ⟨1, [], [], (RunError.config e).text⟩ := by
  rw [report, plan, i.load_eq, hfile]
  rfl

end Invocation

end CommandLine

end Fortuna

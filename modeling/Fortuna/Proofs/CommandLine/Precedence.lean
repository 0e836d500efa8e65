import Fortuna.Proofs.CommandLine.Drawing

/-!
# Options override the file

An option overrides the setting of the file, which overrides the default, and only the
settings that the command uses count: together they are its demand.  So runs of one
demand with one deterministic seed agree in what they write, in how they end and in
their log, whatever else their options and files say.  The metrics are the only other
thing a run tells, and asking for them changes nothing of the rest
(`Demand.report_congr`).
-/

namespace Fortuna

namespace CommandLine

/-- Metrics are told beside output and log. -/
theorem Demand.report_congr (d : Demand) (x : Int64) (printMetrics printMetrics' : Bool)
    (wanted : Option Nat) :
    let r := (d.plan x printMetrics).report wanted
    let r' := (d.plan x printMetrics').report wanted
    r.output = r'.output ∧ r.status = r'.status ∧ r.log = r'.log := by
  have hdrawn : (d.plan x printMetrics).drawn wanted = (d.plan x printMetrics').drawn wanted := rfl
  rw [Plan.report, Plan.report, hdrawn]
  dsimp only
  cases ((d.plan x printMetrics').drawn wanted).error with
  | none => exact ⟨rfl, rfl, rfl⟩
  | some e => exact ⟨rfl, rfl, rfl⟩

/-- Runs with the same deterministic seed and the same demand, each taken from the
options, else from a valid file, else from the defaults, write the same output, end
with the same status and log the same lines, up to the line that tells the totals.  A
reader who takes less of one has a prefix of what another reader takes of the other. -/
theorem demand_determines_output {i i' : Invocation} {host host' : Host} {c c' : Config}
    {x : Int64} (hfile : i.fileConfig host = .ok c) (hfile' : i'.fileConfig host' = .ok c')
    (hseed : i.seed.or c.seed = some x) (hseed' : i'.seed.or c'.seed = some x)
    (hdemand : i.task.demand c = i'.task.demand c') :
    (∀ wanted,
      let r := i.report host wanted
      let r' := i'.report host' wanted
      r.output = r'.output ∧ r.status = r'.status ∧ r.log = r'.log) ∧
      ∀ w w', w ≤ w' →
        (i.report host (some w)).output = (i'.report host' (some w')).output.take w := by
  constructor
  · intro wanted
    rw [Invocation.report_of_seed hfile hseed, Invocation.report_of_seed hfile' hseed', hdemand]
    exact Demand.report_congr _ x _ _ wanted
  · intro w w' hle
    rw [Invocation.report_of_seed hfile hseed, Invocation.report_of_seed hfile' hseed', hdemand,
      Demand.output_report_of_le _ x (c.printMetrics || i.metrics) hle]
    exact congrArg (List.take w) (Demand.report_congr _ x _ _ (some w')).1

/-- The file of a run that is to write five bytes. -/
def fiveBytesFile : String :=
  "[generator]\nseed = 42\nos_seed_bytes = 7\n[output]\ncount = 5\nstream_chunk = 9\n"

/-- A run whose options set seed and count agrees with one whose file does, although the
one prints metrics and the other has settings for other commands. -/
theorem demand_determines_output_of_file :
    let options : Invocation := { seed := some 42, metrics := true, task := .bytes (some 5) none }
    let file : Invocation := { config := some "five.toml", task := .bytes none (some .hex) }
    let host : Host := ⟨fun _ => .ok fiveBytesFile.toUTF8.data.toList, fun _ => []⟩
    (options.report host none).output = (file.report host none).output ∧
      (options.report host none).log = (file.report host none).log ∧
      (options.report host (some 3)).output = (file.report host (some 8)).output.take 3 := by
  intro options file host
  have hoptions : options.fileConfig host = .ok {} := rfl
  have hfile : file.fileConfig host =
      .ok { seed := some 42, osSeedBytes := 7, count := 5, streamChunk := 9 } := by
    refine (ofFile_toUTF8 fiveBytesFile).trans ?_
    decide +kernel
  obtain ⟨hsame, hprefix⟩ := demand_determines_output (x := 42) hoptions hfile rfl rfl rfl
  exact ⟨(hsame none).1, (hsame none).2.2, hprefix 3 8 (by decide)⟩

end CommandLine

end Fortuna

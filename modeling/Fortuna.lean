import Fortuna.Cipher.Transparent
import Fortuna.Config.Writing
import Fortuna.Generator.Operation
import Fortuna.Main
import Fortuna.Proofs.Generator.Failure
import Fortuna.Proofs.Generator.Forgetting
import Fortuna.Proofs.Generator.Invariants
import Fortuna.Proofs.Generator.Keystream
import Fortuna.Proofs.Generator.RandomAccess
import Fortuna.Proofs.Generator.Receipts
import Fortuna.Proofs.Generator.SeedingHistories
import Fortuna.Proofs.Generator.Telemetry
import Fortuna.Proofs.Generator.Availability
import Fortuna.Proofs.Generator.Panics
import Fortuna.Proofs.Generator.EventLog
import Fortuna.Proofs.Metrics.Exposition
import Fortuna.Proofs.Metrics.Mirror
import Fortuna.Proofs.Toml.Scan
import Fortuna.Proofs.Toml.Table
import Fortuna.Proofs.Toml.Grammar
import Fortuna.Proofs.Toml.Plain
import Fortuna.Proofs.Config.Fieldwise
import Fortuna.Proofs.Config.RoundTrip
import Fortuna.Proofs.Generator.Accounting
import Fortuna.Proofs.Generator.Series
import Fortuna.Proofs.CommandLine.Sizes
import Fortuna.Proofs.CommandLine.Demand
import Fortuna.Proofs.CommandLine.Drawing
import Fortuna.Proofs.CommandLine.Modes
import Fortuna.Proofs.CommandLine.Precedence
import Fortuna.Proofs.CommandLine.Ending
import Fortuna.Proofs.Generator.Lengths
import Fortuna.Proofs.Generator.Draws
import Fortuna.Proofs.Generator.RefusedSeeds
import Fortuna.Proofs.CommandLine.HexText
import Fortuna.Proofs.CommandLine.Rendering
import Fortuna.Proofs.CommandLine.Writing
import Fortuna.Proofs.Sha256.Prefixes
import Fortuna.Proofs.Counter.Cycle

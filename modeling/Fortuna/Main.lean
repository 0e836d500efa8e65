import Fortuna.CommandLine.Run

/-!
# The program

The thin layer that reads arguments, files and entropy and writes what a run
says.
-/

namespace Fortuna

namespace CommandLine

def usageStatus : UInt32 := 2

def usage : String :=
  "Usage: fortuna-gen [--config <PATH>] [--seed <SEED>] [--metrics] <COMMAND>\n\n" ++
    "Commands:\n" ++
    "  bytes   [-n, --count <N>] [--format <hex|raw>]  write bytes\n" ++
    "  int63   [-n, --count <N>]                       write integers\n" ++
    "  stream  [--chunk <N>]                           write bytes without end\n"

/-- The number of a system error, which may be reported with its sign changed. -/
def errorNumber (code : UInt32) : UInt32 :=
  if code < 0x80000000 then code else -code

def readFailure (e : IO.Error) : ReadFailure :=
  match e with
  | .noFileOrDirectory .. => .notFound
  | .permissionDenied .. => .system "Permission denied" 13
  | .inappropriateType _ code _ =>
    if errorNumber code = 21 then .isDirectory else .notDirectory
  | .invalidArgument _ code _ =>
    if errorNumber code = 36 then .nameTooLong else .system "Invalid argument" 22
  | e => .system (toString e) 5

def readFile (path : String) : IO (Except ReadFailure Bytes) := do
  try
    let content ← IO.FS.readBinFile path
    return .ok content.toList
  catch e =>
    return .error (readFailure e)

/-- How a write has failed; errno 32 says that the reader has closed the output. -/
def writeFailure (e : IO.Error) : Written :=
  let failed (reason : String) (code : UInt32) : Written :=
    .failed (ReadFailure.system reason (errorNumber code).toNat).message
  match e with
  | .resourceVanished code reason =>
    if errorNumber code = 32 then .closed else failed reason code
  | .resourceExhausted _ code reason | .permissionDenied _ code reason
  | .invalidArgument _ code reason => failed reason code
  | .hardwareFault code reason | .illegalOperation code reason
  | .unsupportedOperation code reason | .resourceBusy code reason
  | .timeExpired code reason | .otherError code reason => failed reason code
  | e => .failed (toString e)

def writeTo (out : IO.FS.Stream) (bytes : Bytes) : IO Written := do
  try
    out.write bytes.toByteArray
    out.flush
    return .taken
  catch e =>
    return writeFailure e

def Invocation.execute (i : Invocation) : IO UInt32 := do
  let err ← IO.getStderr
  let content ← match i.config with
    | some path => readFile path
    | none => pure (.error .notFound)
  let wanted := match i.load ⟨fun _ => content, fun _ => []⟩ with
    | .ok c => c.osSeedBytes
    | .error _ => 0
  let entropy ← IO.getRandomBytes (USize.ofNat wanted)
  match i.plan ⟨fun _ => content, fun _ => entropy.toList⟩ with
  | .error (e, log) =>
    log.forM err.putStrLn
    err.putStr e.text
    return 1
  | .ok plan =>
    (plan.opening ++ plan.source.notice).forM err.putStrLn
    match ← plan.write (writeTo (← IO.getStdout)) with
    | .error e =>
      err.putStr e.text
      return 1
    | .ok g =>
      err.putStrLn (closingLog g)
      err.putStr (closingNotes plan.printMetrics g)
      return 0

end CommandLine

end Fortuna

open Fortuna.CommandLine in
def main (args : List String) : IO UInt32 := do
  match parse args with
  | .ok invocation => invocation.execute
  | .error .version =>
    (← IO.getStdout).putStr versionText
    return 0
  | .error .help =>
    (← IO.getStdout).putStr usage
    return 0
  | .error .refused =>
    (← IO.getStderr).putStr usage
    return usageStatus

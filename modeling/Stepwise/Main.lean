import Stepwise.Cli.Run

/-!
# The program

The command line on a real machine.  There is no network here, so services and message servers
cannot be reached; everything else runs in the process itself.
-/

namespace Stepwise

/-- The lines of a stream up to its end, the last one first. -/
partial def readLines (s : IO.FS.Stream) (lines : List String) : IO (List String) := do
  let line ← s.getLine
  if line.isEmpty then return lines else readLines s (line :: lines)

/-- The machine as a host. -/
def machine : Cli.Host IO where
  out text := do
    IO.print text
    (← IO.getStdout).flush
  err text := IO.eprint text
  readAll := do return String.join (← readLines (← IO.getStdin) []).reverse
  readLine := do
    let line ← (← IO.getStdin).getLine
    if line.isEmpty then return none
    return some (String.ofList (line.toList.takeWhile (· != '\n')))
  seconds := do return (← IO.monoNanosNow).toFloat / 1e9
  now := do return (← IO.monoMsNow : Nat)
  call _ := return .unreachable "connection refused"
  reach _ := return .error (.unavailable "connection refused")
  serve _ := return ()
  clientId := do
    let ds := Nat.toDigits 10 (← IO.rand 0 9999)
    return "CLIENT-" ++ String.ofList (List.replicate (4 - ds.length) '0' ++ ds)

/-- The environment variables that hold settings. -/
def settingVariables : IO (List (String × String)) := do
  let names : List String := match Settings.standard.toJson with
    | .object entries => entries.map fun e => Settings.environmentMark ++ e.1
    | _ => []
  names.filterMapM fun name => do
    let upper := String.ofList (name.toList.map Char.toUpper)
    return (← IO.getEnv upper).map (upper, ·)

/-- What is said about something that went wrong. -/
def explanation : Cli.Escape → String
  | .fault f => f.message
  | .notJson => "the answer is no Json"
  | .notAnObject => "the answer is no object"
  | .invalid _ => "the answer is no response"
  | .mismatchedMarkup => "the markup does not match"
  | .endless => "there is no end to this"

end Stepwise

open Stepwise in
/-- Runs the command that the arguments ask for; the result is the exit code. -/
def main (arguments : List String) : IO UInt32 := do
  match Settings.ofEnvironment (← settingVariables) with
  | .error _ =>
    IO.eprintln "the settings in the environment are not valid"
    return 1
  | .ok settings =>
    match ← Cli.runArguments machine settings 4611686018427387904 arguments with
    | .returned => return 0
    | .exited code => return code.toUInt32
    | .failed e =>
      IO.eprintln (explanation e)
      return 1

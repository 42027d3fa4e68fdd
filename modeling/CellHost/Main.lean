import CellHost.CommandLine

/-!
# The program

Runs an image from the command line. A run is computed on a clock of its own, and its output is then
printed at the pace of that clock.
-/

namespace CellHost.Main

open CommandLine

/-- The most instructions, idle calls and sleeps of one run. -/
def fuel : Nat := 1 <<< 60

/-- The kind of a failure of the operating system. -/
def fileErrorOf (e : IO.Error) : FileError :=
  match e with
  | .noFileOrDirectory _ _ _ => .notFound
  | .inappropriateType _ _ _ => .isDirectory
  | e => .other (toString e)

/-- The contents of a file. -/
def readFile (path : String) : IO (Except FileError (List UInt8)) := do
  try
    let contents ← IO.FS.readBinFile path
    return .ok contents.data.toList
  catch e => return .error (fileErrorOf e)

/-- The files at some paths. -/
def readFiles (paths : List String) : IO FileReader := do
  let entries ← paths.mapM fun path => do return (path, ← readFile path)
  return fun path => (entries.lookup path).getD (.error .notFound)

/-- The values of the environment variables that count. -/
def readEnvironment : IO Settings.Lookup := do
  let keys := Settings.overrides.map (·.key) ++ ["XDG_CONFIG_HOME", "HOME", "APPDATA"]
  let entries ← keys.mapM fun key => do return (key, ← IO.getEnv key)
  return fun key => (entries.lookup key).join

/-- The settings of the user. -/
def readSettings : IO (Except SettingsError Settings) := do
  let environment ← readEnvironment
  let contents ← match Settings.path? environment with
    | some path => readFile path
    | none => pure (.error .notFound)
  return Settings.loadWith environment contents

/-- Print the output of a session at the pace at which it was written. -/
def replay (s : Session) : IO Unit := do
  let out ← IO.getStdout
  let mut passed := 0
  for (stamp, text) in s.world.console.writes do
    IO.sleep ((stamp - passed) / nanosPerMilli).toUInt32
    passed := max passed stamp
    out.putStr text
    out.flush
  IO.sleep ((s.world.clock.waited - passed) / nanosPerMilli).toUInt32

/-- Carry out a command line. -/
def execute (words : List String) : IO (Option Ending) := do
  let request := parse words
  let settings ← readSettings
  let paths := match request, settings with
    | .ok i, .ok s => candidates s i
    | _, _ => []
  return CommandLine.execute (← readFiles paths) settings request .steady fuel

/-- Print what became of a command line. -/
def report (ending : Ending) : IO Unit := do
  let out ← IO.getStdout
  match ending with
  | .failed after => replay after
  | .finished report after =>
    replay after
    out.putStr report.summary
  | .badSettings e =>
    let reason := e.message?.getD "the file cannot be used"
    IO.eprintln s!"Error: Failed to load configuration: {reason}"
  | other => out.putStr (other.output helpText RunReport.timeLine)
  out.flush

end CellHost.Main

/-- Run an image from the command line. -/
def main (words : List String) : IO UInt32 := do
  match ← CellHost.Main.execute words with
  | none => return 1
  | some ending =>
    CellHost.Main.report ending
    return ending.exitCode.toUInt32

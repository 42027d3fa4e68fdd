import CellHost.CommandLine.Options
import CellHost.ImageFile

/-!
# The command line

```text
coopvm [OPTIONS] [FILE] [ARGS]...
```

The words are read by an option parser. `-stack` stands for `--stack` wherever it is, and `--stack`
turns monitoring on even among ARGS, where it is taken out.

## Main definitions

* `CommandLine.parseWith`, `CommandLine.parse` : what a command line asks for.
* `CommandLine.execute` : what becomes of it.
-/

namespace CellHost.CommandLine

/-- The name of the program. -/
def programName : String := "coopvm"

/-- The version of the program. -/
def version : String := "0.1.0"

/-- The word that a word of the command line stands for. -/
def normalize (word : String) : String := if word = "-stack" then "--stack" else word

/-- Turn monitoring on if the arguments ask for it, and take that out of them. -/
def Invocation.settle (i : Invocation) : Invocation :=
  { i with
    stack := i.stack || i.arguments.contains "--stack"
    arguments := i.arguments.filter (· != "--stack") }

/-- What a command line asks for as an option parser reads it, the program's name left out. -/
def parseWith (read : List String → Except Stop Invocation) (words : List String) :
    Except Stop Invocation :=
  (read (words.map normalize)).map Invocation.settle

/-- What a command line asks for. -/
def parse : List String → Except Stop Invocation := parseWith readOptions

/-- What became of a command line. -/
inductive Ending where
  | help
  | version
  /-- There was nothing to run, which help is printed for. -/
  | usage
  | badSettings (error : SettingsError)
  /-- No session could be made; with the report. -/
  | notStarted (report : String)
  /-- Making the session has ended the process. -/
  | crashed
  /-- The program failed; with the session after its report. -/
  | failed (after : Session)
  | finished (report : RunReport) (after : Session)

/-- The options of the session that an invocation asks for, under settings. -/
def sessionOptions (s : Settings) (i : Invocation) : RunOptions :=
  { s.runOptions with monitorStack := i.stack, arguments := i.arguments }

/-- Run an image under settings. There is no ending if that takes more than the fuel. -/
def runImage (files : FileReader) (s : Settings) (i : Invocation) (path : String) (clock : Clock)
    (fuel : Nat) : Option Ending :=
  match ImageFile.load files path s.extension with
  | .error _ => some .usage
  | .ok (image, p) =>
    match Session.create? p (sessionOptions s i) {} clock with
    | none => some .crashed
    | some (.error f) => some (.notStarted (Reporter.render ⟨some image⟩ files p f))
    | some (.ok session) =>
      ((session.withImage image).run fuel).map fun (result, after) =>
        match result with
        | .ok report => .finished report after
        | .error f => .failed (after.report files f)

/-- Carry out a command line under settings, or fail for want of them. -/
def execute (files : FileReader) (settings : Except SettingsError Settings)
    (request : Except Stop Invocation) (clock : Clock) (fuel : Nat) : Option Ending :=
  match request with
  | .error .help => some .help
  | .error .version => some .version
  | .error .invalid => some .usage
  | .ok i =>
    match settings with
    | .error e => some (.badSettings e)
    | .ok s =>
      match i.file with
      | none => some .usage
      | some path => runImage files s i path clock fuel

/-- The images that an invocation can load, in order of trial. -/
def candidates (s : Settings) (i : Invocation) : List String :=
  match i.file with
  | some path => [path, ImageFile.withExtension path s.extension]
  | none => []

namespace Ending

/-- The exit status of the process. -/
def exitCode : Ending → Nat
  | help | version | finished _ _ => 0
  | usage | badSettings _ | notStarted _ | failed _ => 1
  | crashed => 101

/-- Whether help is printed. -/
def printsHelp : Ending → Bool
  | help | usage => true
  | _ => false

/-- What is printed, the line of the run time being worded by `timeLine`. -/
def output (helpText : String) (timeLine : RunReport → String) : Ending → String
  | help => helpText
  | usage => helpText ++ "\n"
  | version => s!"{programName} {CommandLine.version}\n"
  | badSettings _ => ""
  | notStarted report => report
  | crashed => ""
  | failed after => after.world.console.text
  | finished report after => after.world.console.text ++ report.summaryWith (timeLine report)

end Ending

/-- The help text. -/
def helpText : String :=
  s!"{programName}

Usage: {programName} [OPTIONS] [FILE] [ARGS]...

Arguments:
  [FILE]     Program image; `.cvm` is appended if the path does not load
  [ARGS]...  Other options are passed to the program

Options:
      --stack    Monitor stack and heap usage (also accepted as `-stack`)
  -v, --verbose  Enable verbose output
  -h, --help     Print help
  -V, --version  Print version
"

end CellHost.CommandLine

import CellHost.FileSystem
import CellHost.Session
import CellHost.Text.Blank
import CellHost.Toml.Document

/-!
# Settings

What a user can set about the host: the data memory of programs, the extension tried on images that
do not load, when idle functions get fresh snapshots, and which messages are logged. Settings come
from a file in the user's configuration directory, and environment variables override them one by
one; what neither sets has a default.

In the file, settings stand in the tables `runtime` and `log`, and unknown keys are passed over. A
table can also be written as an array of its settings in order.

## Main definitions

* `Settings.load` : the settings of a file.
* `Settings.applyOverrides` : the settings changed by environment variables.
* `Settings.toToml?` : the file that holds settings.
-/

namespace CellHost

/-- Which messages are logged. -/
inductive LogLevel where
  | debug
  | info
  | warn
  | error
  deriving DecidableEq, Repr, Inhabited

namespace LogLevel

/-- The spelling of a level in files. -/
def name : LogLevel → String
  | debug => "debug"
  | info => "info"
  | warn => "warn"
  | error => "error"

/-- Every level. -/
def all : List LogLevel := [debug, info, warn, error]

/-- The level with a spelling. -/
def ofName? (text : String) : Option LogLevel := all.find? (·.name == text)

/-- Text with the capital letters of ASCII made small. -/
def toLower (text : String) : String := text.map Char.toLower

/-- The level that a user writes, in letters of any size; `warning` will do. -/
def parse? (text : String) : Except String LogLevel :=
  let text := toLower text
  match ofName? (if text = "warning" then "warn" else text) with
  | some level => .ok level
  | none => .error s!"unknown log level '{text}'"

end LogLevel

namespace SnapshotPolicy

/-- The spelling of a policy. -/
def name : SnapshotPolicy → String
  | perSleep => "per-sleep"
  | perIteration => "per-iteration"

/-- The policy with a spelling. -/
def ofName? (text : String) : Option SnapshotPolicy :=
  [perSleep, perIteration].find? (·.name == text)

/-- The policy that a user writes. -/
def parse? (text : String) : Except String SnapshotPolicy :=
  match ofName? text with
  | some policy => .ok policy
  | none => .error s!"unknown snapshot policy '{text}'"

end SnapshotPolicy

/-- Extension of image files. -/
def defaultExtension : String := "cvm"

/-- What a user can set. -/
structure Settings where
  /-- Bytes of data memory. -/
  memorySize : Nat := 16384
  /-- Extension tried when an image does not load. -/
  extension : String := defaultExtension
  snapshotPolicy : SnapshotPolicy := .perSleep
  logLevel : LogLevel := .warn
  deriving DecidableEq, Repr, Inhabited

/-- Why there are no settings. -/
inductive SettingsError where
  | file (error : FileError)
  /-- The file is not well formed, or sets something to what it cannot be. -/
  | malformed
  /-- The settings cannot be written to a file. -/
  | unwritable
  /-- An environment variable has a value that it cannot have. -/
  | invalidValue (key value : String)
  deriving DecidableEq, Repr, Inhabited

/-- The wording of an error of environment variables; the others come without. -/
def SettingsError.message? : SettingsError → Option String
  | invalidValue key value => some s!"Invalid value for {key}: {value}"
  | _ => none

namespace Settings

/-! ## Reading files -/

/-- Highest number of bytes of memory that can be asked for. -/
def maxMemory : Nat := 0xffffffffffffffff

/-- A choice among names: a string, or a table with the name as its only key and nothing in it. -/
def choice? {α : Type} (ofName? : String → Option α) : Toml.Value → Option α
  | .text name => ofName? name
  | .table [(name, value)] => if value.isEmpty then ofName? name else none
  | _ => none

/-- A number of bytes. -/
def bytes? : Toml.Value → Option Nat
  | .integer n => if 0 ≤ n then some n.toNat else none
  | _ => none

/-- A text. -/
def text? : Toml.Value → Option String
  | .text value => some value
  | _ => none

/-- The values of fields in order, of a table by name or of an array by place; a date stands for a
table with none of them. -/
def fields? (names : List String) : Toml.Value → Option (List (Option Toml.Value))
  | .table entries => some (names.map fun name => entries.lookup name)
  | .array items => some (names.zipIdx.map fun (_, i) => items[i]?)
  | .datetime _ => some (names.map fun _ => none)
  | _ => none

/-- A field that is read if it is there and keeps its default if not. -/
def field? {α : Type} (read : Toml.Value → Option α) (default : α) : Option Toml.Value → Option α
  | none => some default
  | some value => read value

/-- Take over what the table `runtime` sets. -/
def readRuntime? (s : Settings) (value : Toml.Value) : Option Settings := do
  match ← fields? ["memory_size", "default_extension", "snapshot_policy"] value with
  | [memory, extension, policy] =>
    return { s with
      memorySize := ← field? bytes? s.memorySize memory
      extension := ← field? text? s.extension extension
      snapshotPolicy := ← field? (choice? SnapshotPolicy.ofName?) s.snapshotPolicy policy }
  | _ => none

/-- Take over what the table `log` sets. -/
def readLog? (s : Settings) (value : Toml.Value) : Option Settings := do
  match ← fields? ["level"] value with
  | [level] =>
    return { s with logLevel := ← field? (choice? LogLevel.ofName?) s.logLevel level }
  | _ => none

/-- The settings that a document sets, the others having their defaults. -/
def ofDocument? (document : Toml.Value) : Option Settings := do
  let s ← field? (readRuntime? {}) {} (document.get? "runtime")
  field? (readLog? s) s (document.get? "log")

/-- The settings of a text. -/
def ofToml? (text : String) : Option Settings := (Toml.parse text).bind ofDocument?

/-- The settings of a file. Without a file there are the defaults. -/
def load (contents : Except FileError (List UInt8)) : Except SettingsError Settings :=
  match contents with
  | .error e => if e.isAbsence then .ok {} else .error (.file e)
  | .ok bytes =>
    match Utf8.decode bytes with
    | .error _ => .error (.file .notText)
    | .ok text =>
      match ofToml? text with
      | some s => .ok s
      | none => .error .malformed

/-! ## Writing files -/

/-- The file that holds settings; numbers of more than 63 bits cannot be written. -/
def toToml? (s : Settings) : Except SettingsError String :=
  if Toml.maxInteger < s.memorySize then .error .unwritable
  else
    .ok <| s!"[runtime]\nmemory_size = {s.memorySize}\n"
      ++ s!"default_extension = {Toml.quote s.extension}\n"
      ++ s!"snapshot_policy = {Toml.quote s.snapshotPolicy.name}\n\n"
      ++ s!"[log]\nlevel = {Toml.quote s.logLevel.name}\n"

/-! ## Environment variables -/

/-- The values of environment variables. -/
abbrev Lookup := String → Option String

/-- An environment variable with what it sets; setting fails on a value it cannot have. -/
structure Override where
  key : String
  set? : Settings → String → Option Settings

/-- A number of bytes as a user writes it, perhaps with blanks around. -/
def parseMemory? (value : String) : Option Nat := Numeral.unsigned? maxMemory (Blank.trimText value)

/-- A name without the dots at its front. -/
def dropDots (name : String) : String := String.ofList (name.toList.dropWhile (· == '.'))

/-- The environment variables, in the order in which they are looked at. -/
def overrides : List Override := [
  ⟨"COOPVM_MEMORY_SIZE", fun s value =>
    (parseMemory? value).map fun n => { s with memorySize := n }⟩,
  ⟨"COOPVM_DEFAULT_EXTENSION", fun s value => some { s with extension := dropDots value }⟩,
  ⟨"COOPVM_SNAPSHOT_POLICY", fun s value =>
    (SnapshotPolicy.ofName? (Blank.trimText value)).map fun p => { s with snapshotPolicy := p }⟩,
  ⟨"COOPVM_LOG", fun s value =>
    (LogLevel.parse? value).toOption.map fun l => { s with logLevel := l }⟩]

/-- Apply environment variables in order, up to the first that has a value it cannot have. Gives the
settings as they are then, and that error if there is one. -/
def applyAll (lookup : Lookup) : List Override → Settings → Settings × Option SettingsError
  | [], s => (s, none)
  | o :: rest, s =>
    match lookup o.key with
    | none => applyAll lookup rest s
    | some value =>
      match o.set? s value with
      | some s' => applyAll lookup rest s'
      | none => (s, some (.invalidValue o.key value))

/-- Apply the environment variables. -/
def applyOverrides (lookup : Lookup) (s : Settings) : Settings × Option SettingsError :=
  applyAll lookup overrides s

/-- Settings that have been loaded, if they have, with environment variables applied. -/
def withOverrides (lookup : Lookup) (loaded : Except SettingsError Settings) :
    Except SettingsError Settings := do
  match (← loaded).applyOverrides lookup with
  | (s, none) => .ok s
  | (_, some e) => .error e

/-- Settings from a file, then from environment variables. -/
def loadWith (lookup : Lookup) (contents : Except FileError (List UInt8)) :
    Except SettingsError Settings :=
  withOverrides lookup (load contents)

/-! ## Places -/

/-- A path below a directory. -/
def join (directory name : String) : String :=
  if directory = "" ∨ directory.endsWith "/" then directory ++ name
  else directory ++ "/" ++ name

/-- The directory of the settings file, by the first environment variable that says where. -/
def directory? (lookup : Lookup) : Option String :=
  match lookup "XDG_CONFIG_HOME", lookup "HOME", lookup "APPDATA" with
  | some base, _, _ => some (join base "coopvm")
  | none, some home, _ => some (join (join home ".config") "coopvm")
  | none, none, some base => some (join base "coopvm")
  | none, none, none => none

/-- The settings file. -/
def path? (lookup : Lookup) : Option String := (directory? lookup).map (join · "config.toml")

/-- The options of a session under settings. -/
def runOptions (s : Settings) : RunOptions where
  memorySize := s.memorySize
  policy := s.snapshotPolicy

end Settings

end CellHost

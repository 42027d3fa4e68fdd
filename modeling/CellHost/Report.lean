import CellHost.Decimal.Fixed
import CellHost.Driver
import CellHost.FileSystem
import CellHost.Image.Reader

/-!
# Reports

What a host prints when a program fails, and when it ends.

```text
Run time error 11: "divide by zero" on address 420
File: blink.p, line: 12
```

The second line stands only if the failing address can be resolved: by the program's own line table,
or, if its image has one that was left aside on loading, by that of the image, which is read when it
is needed. Whatever goes wrong in reading it only costs the line.

## Main definitions

* `Reporter.resolve?`, `Reporter.render` : the location and the text of a fault.
* `RunReport.summary` : the text printed at the end of a run.
-/

namespace CellHost

/-- The wording of a fault. -/
def Fault.describe (f : Fault) : String :=
  s!"Run time error {f.error.code}: \"{f.error.message}\" on address {f.cip}"

/-- Where to look for line tables: the image the program came from, if any. -/
structure Reporter where
  image : Option String := none
  deriving DecidableEq, Repr, Inhabited

namespace Reporter

/-- The line table in the image, if one can be read. -/
def imageLines? (r : Reporter) (files : FileReader) : Option LineTable := do
  let path ← r.image
  let bytes ← (files path).toOption
  (LineTable.ofImage bytes).toOption

/-- The source location of a code address. -/
def resolve? (r : Reporter) (files : FileReader) (p : Program) (cip : Nat) :
    Option SourceLocation :=
  match p.lines with
  | some table => table.lookup? cip
  | none => if p.hasLines then (r.imageLines? files).bind (·.lookup? cip) else none

/-- The report of a fault: its wording, and the location if it is known. -/
def render (r : Reporter) (files : FileReader) (p : Program) (f : Fault) : String :=
  match r.resolve? files p f.cip with
  | some location => s!"{f.describe}\n{location.describe}\n"
  | none => s!"{f.describe}\n"

end Reporter

/-- What is known of a run that ended well. -/
structure RunReport where
  value : Cell := 0
  stats : RunStats := {}
  /-- High-water marks, zero if none were kept. -/
  usage : Usage := {}
  deriving DecidableEq, Repr, Inhabited

namespace RunReport

/-- Whether high-water marks were recorded. -/
def hasUsage (r : RunReport) : Bool := !r.usage.isEmpty

/-- The line of the run time. -/
def timeLine (r : RunReport) : String :=
  s!"\nRun time:     {Decimal.fixed 2 (Decimal.seconds r.stats.elapsed)} seconds\n"

/-- The text printed at the end of a run, with a given line for the time. -/
def summaryWith (r : RunReport) (timeLine : String) : String :=
  let value := if r.value = 0 then "" else s!"\nReturn value: {r.value.toInt}\n"
  let usage :=
    if r.hasUsage then
      s!"Stack usage:  {r.usage.stackCells} cells ({r.usage.stack} bytes)\n" ++
      s!"Heap usage:   {r.usage.heapCells} cells ({r.usage.heap} bytes)\n"
    else ""
  value ++ timeLine ++ usage

/-- The text printed at the end of a run. -/
def summary (r : RunReport) : String := r.summaryWith r.timeLine

end RunReport

end CellHost

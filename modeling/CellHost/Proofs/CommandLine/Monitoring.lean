import CellHost.Proofs.CommandLine.Reader

/-!
# Where the option for monitoring may stand

A command line that asks for an image can be made to ask for monitoring too by one more `-stack`,
whatever documented parser reads it. Among the options the parser reads it, and among the program's
arguments it is taken out when they are settled. Right behind a `--` that comes before FILE neither
happens: there it is FILE, and the image is an argument. Whether it can be given twice among the
options is the parser's to say.

## Main results

* `CommandLine.insert_among_options`, `CommandLine.insert_among_arguments`,
  `CommandLine.insert_behind_file` : what one more `-stack` does to what is read, by its place.
* `CommandLine.parse_insert_stack` : what one more `-stack` does to a command line.
-/

namespace CellHost.CommandLine

variable {read : List String → Except Stop Invocation} {kind : String → Kind}
  {together : List Flag → Prop} {isPath : String → Prop} {i j : Invocation} {r e : Reading}
  {path : String} {words before after : List String}

/-! ## What a command line comes to -/

theorem parseWith_eq_ok (hRead : Documented read kind together isPath) :
    parseWith read words = .ok i ↔
      ∃ r, Reaches kind words r ∧ r.Admitted together isPath ∧ r.asks.settle = i := by
  rw [parseWith, map_eq_ok]
  constructor
  · rintro ⟨_, hLine, rfl⟩
    obtain ⟨r, hReaches, hAdmitted, rfl⟩ := hRead.reads.mp hLine
    exact ⟨r, hReaches, hAdmitted, rfl⟩
  · rintro ⟨r, hReaches, hAdmitted, rfl⟩
    exact ⟨r.asks, hRead.reads.mpr ⟨r, hReaches, hAdmitted, rfl⟩, rfl⟩

/-- A line with one more `-stack`, in three parts. -/
theorem reaches_insert :
    Reaches kind (before ++ "-stack" :: after) e ↔
      ∃ r, Reaches kind before r ∧
        Reading.TakesAll kind ("--stack" :: after.map normalize) r e := by
  unfold Reaches
  rw [List.map_append, Reading.takesAll_append]
  rfl

theorem reaches_append :
    Reaches kind (before ++ after) e ↔
      ∃ r, Reaches kind before r ∧ Reading.TakesAll kind (after.map normalize) r e := by
  unfold Reaches
  rw [List.map_append, Reading.takesAll_append]

/-! ## One more word -/

/-- Among the options, the word is one of them. -/
theorem insert_among_options (hRead : Documented read kind together isPath)
    (hBefore : Reaches kind before r) (hOpen : r.ended = false)
    (hAfter : Reading.TakesAll kind (after.map normalize) r e) :
    ∃ more, e.flags = r.flags ++ more ∧
      Reaches kind (before ++ "-stack" :: after) { e with flags := r.flags ++ .stack :: more } := by
  obtain ⟨more, hMore, hTakesAll⟩ := hAfter.exists_more
  have hWord : Reading.Takes kind "--stack" r { r with flags := r.flags ++ [.stack] } := by
    obtain ⟨ended, flags, operands⟩ := r
    cases hOpen
    exact .options hRead.stack_kind
  have hRest := hTakesAll (r.flags ++ [.stack])
  rw [← List.append_cons] at hRest
  exact ⟨more, hMore, reaches_insert.mpr ⟨r, hBefore, _, hWord, hRest⟩⟩

/-- Among the arguments, the word is one of them. -/
theorem insert_among_arguments (hBefore : Reaches kind before r) (hEnded : r.ended = true)
    (hAfter : Reading.TakesAll kind (after.map normalize) r e) :
    e.operands = r.operands ++ after.map normalize ∧
      Reaches kind (before ++ "-stack" :: after)
        { e with operands := r.operands ++ "--stack" :: after.map normalize } := by
  cases hAfter.unique (Reading.takesAll_of_ended hEnded _)
  exact ⟨rfl, reaches_insert.mpr ⟨r, hBefore, Reading.takesAll_of_ended hEnded _⟩⟩

/-- Behind FILE, the word is among what is positional. So it is at FILE if FILE is named like it. -/
theorem insert_behind_file (hBefore : Reaches kind before r) (hEnded : r.ended = true)
    (hAfter : Reading.TakesAll kind (after.map normalize) r e)
    (hPath : e.operands.head? = some path) (hNext : r.operands = [] → path = "--stack") :
    ∃ first second, first ≠ [] ∧ e.operands = first ++ second ∧
      Reaches kind (before ++ "-stack" :: after)
        { e with operands := first ++ "--stack" :: second } := by
  obtain ⟨hOperands, hInsert⟩ := insert_among_arguments hBefore hEnded hAfter
  by_cases hNone : r.operands = []
  · rw [hNone, List.nil_append] at hOperands hInsert
    obtain ⟨rest, hRest⟩ := List.head?_eq_some_iff.mp hPath
    rw [hNext hNone] at hRest
    rw [← hOperands, hRest] at hInsert
    exact ⟨["--stack"], rest, List.cons_ne_nil _ _, hRest, hInsert⟩
  · exact ⟨r.operands, _, hNone, hOperands, hInsert⟩

/-- A line whose FILE is the same is accepted with one more word among its arguments. -/
theorem admitted_insert {first second : List String} (hAdmitted : e.Admitted together isPath)
    (hFile : first ≠ []) (hOperands : e.operands = first ++ second) :
    Reading.Admitted together isPath { e with operands := first ++ "--stack" :: second } := by
  refine ⟨hAdmitted.together, fun file hHead => hAdmitted.isPath file ?_⟩
  rw [List.head?_append_of_ne_nil first hFile] at hHead
  rwa [hOperands, List.head?_append_of_ne_nil first hFile]

/-! ## What it asks for -/

/-- One more `--stack` among the options turns monitoring on. -/
theorem settle_option (first more : List Flag) (hFlags : e.flags = first ++ more) :
    (Reading.asks { e with flags := first ++ .stack :: more }).settle =
      { e.asks.settle with stack := true } := by
  simp [Reading.asks, Invocation.settle, hFlags]

/-- One more `--stack` among the arguments is taken out of them and turns monitoring on. -/
theorem settle_argument (first second : List String) (hFile : first ≠ [])
    (hOperands : e.operands = first ++ second) :
    (Reading.asks { e with operands := first ++ "--stack" :: second }).settle =
      { e.asks.settle with stack := true } := by
  obtain ⟨path, arguments, rfl⟩ := List.exists_cons_of_ne_nil hFile
  simp [Reading.asks, Invocation.settle, hOperands, List.filter_append]

/-- Where FILE is next it is FILE, and what was FILE is an argument. -/
theorem settle_file (second : List String) (hOperands : e.operands = path :: second)
    (hName : path ≠ "--stack") :
    (Reading.asks { e with operands := "--stack" :: path :: second }).settle =
      { e.asks.settle with
        file := some "--stack"
        arguments := path :: e.asks.settle.arguments } := by
  simp [Reading.asks, Invocation.settle, hOperands, hName, hName.symm]

/-- **Where `-stack` may stand.** On a line that asks for an image, as any documented parser reads
it, one more `-stack` leaves the image, the arguments and all else as they were and turns monitoring
on, in all places but two. Among the options of a line that gives the option the parser may refuse
it, and does nothing else if it does not; and right behind a `--` that comes before FILE it is the
file, the image being the first argument then. -/
theorem parse_insert_stack (hRead : Documented read kind together isPath)
    (hParse : parseWith read (before ++ after) = .ok i) (hPath : i.file = some path) :
    ((OptionNext kind before → ¬ GivesStack kind (before ++ after)) →
        (FileNext kind before → path = "--stack") →
        parseWith read (before ++ "-stack" :: after) = .ok { i with stack := true }) ∧
      (OptionNext kind before →
        ∀ j, parseWith read (before ++ "-stack" :: after) = .ok j → j = { i with stack := true }) ∧
      (FileNext kind before → path ≠ "--stack" →
        parseWith read (before ++ "-stack" :: after) =
          .ok { i with file := some "--stack", arguments := path :: i.arguments }) := by
  obtain ⟨e, hLine, hAdmitted, rfl⟩ := (parseWith_eq_ok hRead).mp hParse
  obtain ⟨r, hBefore, hAfter⟩ := reaches_append.mp hLine
  have hGives : GivesStack kind (before ++ after) ↔ .stack ∈ e.flags :=
    ⟨fun ⟨_, hSame, hMem⟩ => hSame.unique hLine ▸ hMem, fun hMem => ⟨e, hLine, hMem⟩⟩
  have hOption : OptionNext kind before ↔ r.ended = false :=
    ⟨fun ⟨_, hSame, hOpen⟩ => hSame.unique hBefore ▸ hOpen, fun hOpen => ⟨r, hBefore, hOpen⟩⟩
  have hFileNext : FileNext kind before ↔ r.ended = true ∧ r.operands = [] :=
    (fileNext_iff hRead).trans
      ⟨fun ⟨_, hSame, hNext⟩ => hSame.unique hBefore ▸ hNext, fun hNext => ⟨r, hBefore, hNext⟩⟩
  rw [hGives, hOption, hFileNext]
  -- The place is among the options, behind FILE, or at FILE.
  cases hEnded : r.ended with
  | false =>
      obtain ⟨more, hFlags, hInsert⟩ := insert_among_options hRead hBefore hEnded hAfter
      have hSettle := settle_option r.flags more hFlags
      refine ⟨fun hNotGiven _ => ?_, fun _ j hParsed => ?_, nofun⟩
      · have hNew : .stack ∉ r.flags ++ more := hFlags ▸ hNotGiven rfl
        have hTogether := hRead.insert_stack hNew (hFlags ▸ hAdmitted.together)
        exact (parseWith_eq_ok hRead).mpr ⟨_, hInsert, ⟨hTogether, hAdmitted.isPath⟩, hSettle⟩
      · obtain ⟨_, hReaches, _, rfl⟩ := (parseWith_eq_ok hRead).mp hParsed
        exact hReaches.unique hInsert ▸ hSettle
  | true =>
      refine ⟨fun _ hNext => ?_, nofun, ?_⟩
      · obtain ⟨first, second, hFile, hOperands, hInsert⟩ :=
          insert_behind_file hBefore hEnded hAfter hPath fun hNone => hNext ⟨rfl, hNone⟩
        exact (parseWith_eq_ok hRead).mpr ⟨_, hInsert, admitted_insert hAdmitted hFile hOperands,
          settle_argument first second hFile hOperands⟩
      · rintro ⟨_, hNone⟩ hName
        obtain ⟨hOperands, hInsert⟩ := insert_among_arguments hBefore hEnded hAfter
        rw [hNone, List.nil_append] at hOperands hInsert
        obtain ⟨rest, hRest⟩ := List.head?_eq_some_iff.mp hPath
        rw [← hOperands, hRest] at hInsert
        have hAdmits : ∀ file ∈ ["--stack"].head?, isPath file := by
          rintro file ⟨⟩
          exact hRead.isPath_of_ne (by decide)
        exact (parseWith_eq_ok hRead).mpr
          ⟨_, hInsert, ⟨hAdmitted.together, hAdmits⟩, settle_file rest hRest hName⟩

/-- A line with monitoring off does not give the option. -/
theorem not_givesStack (hRead : Documented read kind together isPath)
    (hParse : parseWith read words = .ok i) (hOff : i.stack = false) : ¬ GivesStack kind words := by
  rintro ⟨_, hReaches, hMem⟩
  obtain ⟨r, hLine, -, rfl⟩ := (parseWith_eq_ok hRead).mp hParse
  cases hReaches.unique hLine
  simp [Invocation.settle, Reading.asks, hMem] at hOff

/-- What a line with `--` in front of FILE asks for. -/
def dashed : Invocation where
  file := some "u"
  arguments := ["x"]
  verbose := true

/-- On that line the word turns monitoring on in front of `--` and behind FILE, but not between. -/
theorem parse_insert_stack_dashed :
    Documented readOptions Kind.ofWord Together (· ≠ "") ∧
      parse ["-v", "--", "u", "x"] = .ok dashed ∧ dashed.file = some "u" ∧
      parse ["-v", "-stack", "--", "u", "x"] = .ok { dashed with stack := true } ∧
      parse ["-v", "--", "u", "-stack", "x"] = .ok { dashed with stack := true } ∧
      parse ["-v", "--", "-stack", "u", "x"] =
        .ok { dashed with file := some "--stack", arguments := ["u", "x"] } := by
  have hParse : parse ["-v", "--", "u", "x"] = .ok dashed := rfl
  have hNotGiven := not_givesStack documented_readOptions hParse rfl
  have hNotNext : ∀ {before}, before.getLast? ≠ some "--" → ¬ FileNext Kind.ofWord before := by
    rintro _ hLast ⟨options, _, rfl, _⟩
    exact hLast List.getLast?_concat
  have hFileNext : FileNext Kind.ofWord ["-v", "--"] :=
    ⟨["-v"], ⟨false, [.verbose], []⟩, rfl, ⟨_, .options (by decide +kernel), rfl⟩, rfl, rfl⟩
  have hOption := parse_insert_stack documented_readOptions
    (show parseWith readOptions (["-v"] ++ ["--", "u", "x"]) = _ from hParse) rfl
  have hArgument := parse_insert_stack documented_readOptions
    (show parseWith readOptions (["-v", "--", "u"] ++ ["x"]) = _ from hParse) rfl
  have hFile := parse_insert_stack documented_readOptions
    (show parseWith readOptions (["-v", "--"] ++ ["u", "x"]) = _ from hParse) rfl
  refine ⟨documented_readOptions, hParse, rfl, ?_, ?_, hFile.2.2 hFileNext (by decide)⟩
  · exact hOption.1 (fun _ => hNotGiven) fun hNext => absurd hNext (hNotNext (by decide))
  · exact hArgument.1 (fun _ => hNotGiven) fun hNext => absurd hNext (hNotNext (by decide))

/-- With `--` in front of it the image is no longer the file, and monitoring stays off. -/
theorem dashes_take_stack :
    ∃ i i', parse (["--"] ++ ["u"]) = .ok i ∧ i.file = some "u" ∧
      parse (["--"] ++ "-stack" :: ["u"]) = .ok i' ∧ i'.file = some "--stack" ∧ i'.stack = false :=
  ⟨_, _, rfl, rfl, rfl, rfl, rfl⟩

end CellHost.CommandLine

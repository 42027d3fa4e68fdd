import CellHost.CommandLine
import Mathlib.Data.List.Induction

/-!
# The usage that an option parser documents

```text
coopvm [OPTIONS] [FILE] [ARGS]...
```

Options are recognised until the first of ARGS or `--`, and everything behind is positional. Once
FILE is given, a word with a dash that is no known option is the first of ARGS. Which words are known
options is the parser's to say, and so is which options it takes together and what can be a path: a
parser is documented for one choice of these.

## Main definitions

* `CommandLine.Reading.Takes` : what a word does to what has been read.
* `CommandLine.Documented` : option parsers that follow the usage.
* `CommandLine.OptionNext`, `CommandLine.FileNext` : places among the options, and at FILE.

## Main results

* `Reading.TakesAll.unique` : a line is read in one way.
* `Reading.TakesAll.exists_more` : what a line adds does not depend on the options given before it.
* `CommandLine.fileNext_iff` : FILE is next behind `--` if the options have ended without it.
-/

namespace CellHost.CommandLine

/-- How far a line has been read. -/
structure Reading where
  /-- Whether the options have ended. -/
  ended : Bool := false
  /-- The options given. -/
  flags : List Flag := []
  /-- FILE, and then ARGS. -/
  operands : List String := []

/-- What can be the first of ARGS once FILE is given. -/
def Kind.StartsArguments : Kind → Prop
  | operand | unknown _ => True
  | options _ | misused | dashes => False

namespace Reading

variable {kind : String → Kind} {p q r : Reading} {word : String} {words before after : List String}

/-- What is asked for. -/
def asks (r : Reading) : Invocation where
  file := r.operands.head?
  arguments := r.operands.tail
  stack := r.flags.contains .stack
  verbose := r.flags.contains .verbose

/-- What a word does to what has been read, words being of a kind. -/
inductive Takes (kind : String → Kind) (word : String) : Reading → Reading → Prop
  /-- Options are recognised until they end. -/
  | options {flags more operands} : kind word = .options more →
      Takes kind word ⟨false, flags, operands⟩ ⟨false, flags ++ more, operands⟩
  /-- Among them a word that is no option is FILE. -/
  | file {flags} : kind word = .operand →
      Takes kind word ⟨false, flags, []⟩ ⟨false, flags, [word]⟩
  /-- Options end at `--`, -/
  | dashes {flags operands} : kind word = .dashes →
      Takes kind word ⟨false, flags, operands⟩ ⟨true, flags, operands⟩
  /-- or at the first of ARGS, once FILE is given. -/
  | argument {flags operands} : (kind word).StartsArguments → operands ≠ [] →
      Takes kind word ⟨false, flags, operands⟩ ⟨true, flags, operands ++ [word]⟩
  /-- Everything behind is positional. -/
  | positional {flags operands} :
      Takes kind word ⟨true, flags, operands⟩ ⟨true, flags, operands ++ [word]⟩

/-- What words do, one after another. -/
def TakesAll (kind : String → Kind) : List String → Reading → Reading → Prop
  | [], p, r => p = r
  | word :: rest, p, r => ∃ q, Takes kind word p q ∧ TakesAll kind rest q r

theorem Takes.unique (hq : Takes kind word p q) (hr : Takes kind word p r) : q = r := by
  cases hq <;> cases hr <;> simp_all [Kind.StartsArguments]

theorem TakesAll.unique (hq : TakesAll kind words p q) (hr : TakesAll kind words p r) : q = r := by
  induction words generalizing p with
  | nil => exact hq.symm.trans hr
  | cons word rest ih =>
      obtain ⟨mid, hWord, hRest⟩ := hq
      obtain ⟨mid', hWord', hRest'⟩ := hr
      cases hWord.unique hWord'
      exact ih hRest hRest'

theorem takesAll_append :
    TakesAll kind (before ++ after) p r ↔
      ∃ q, TakesAll kind before p q ∧ TakesAll kind after q r := by
  induction before generalizing p with
  | nil => exact ⟨fun h => ⟨p, rfl, h⟩, fun ⟨_, hSame, h⟩ => hSame ▸ h⟩
  | cons word rest ih =>
      simp only [List.cons_append, TakesAll, ih]
      constructor
      · rintro ⟨mid, hWord, q, hRest, hAfter⟩
        exact ⟨q, ⟨mid, hWord, hRest⟩, hAfter⟩
      · rintro ⟨q, ⟨mid, hWord, hRest⟩, hAfter⟩
        exact ⟨mid, hWord, q, hRest, hAfter⟩

/-- A word adds to the options, whatever they are, and does nothing else by them. -/
theorem Takes.exists_more (h : Takes kind word p q) :
    ∃ more, q.flags = p.flags ++ more ∧
      ∀ flags, Takes kind word { p with flags := flags } { q with flags := flags ++ more } := by
  cases h with
  | options hKind => exact ⟨_, rfl, fun _ => .options hKind⟩
  | file hKind => exact ⟨[], by simp, fun _ => by simpa using .file hKind⟩
  | dashes hKind => exact ⟨[], by simp, fun _ => by simpa using .dashes hKind⟩
  | argument hKind hFile => exact ⟨[], by simp, fun _ => by simpa using .argument hKind hFile⟩
  | positional => exact ⟨[], by simp, fun _ => by simpa using .positional⟩

/-- **A line adds to the options**, whatever they are, and does nothing else by them. -/
theorem TakesAll.exists_more (h : TakesAll kind words p q) :
    ∃ more, q.flags = p.flags ++ more ∧
      ∀ flags, TakesAll kind words { p with flags := flags } { q with flags := flags ++ more } := by
  induction words generalizing p with
  | nil =>
      cases h
      exact ⟨[], by simp, fun flags => by rw [List.append_nil]; rfl⟩
  | cons word rest ih =>
      obtain ⟨mid, hWord, hRest⟩ := h
      obtain ⟨first, hFirst, hTakes⟩ := hWord.exists_more
      obtain ⟨second, hSecond, hAll⟩ := ih hRest
      refine ⟨first ++ second, by rw [hSecond, hFirst, List.append_assoc], fun flags => ?_⟩
      refine ⟨_, hTakes flags, ?_⟩
      rw [← List.append_assoc]
      exact hAll (flags ++ first)

/-- Once the options have ended, everything is positional. -/
theorem takesAll_of_ended (h : p.ended = true) (words : List String) :
    TakesAll kind words p { p with operands := p.operands ++ words } := by
  induction words generalizing p with
  | nil => exact congrArg (Reading.mk p.ended p.flags) (List.append_nil p.operands).symm
  | cons word rest ih =>
      obtain ⟨ended, flags, operands⟩ := p
      cases h
      refine ⟨_, .positional, ?_⟩
      have hRest := ih (p := ⟨true, flags, operands ++ [word]⟩) rfl
      rwa [List.append_assoc] at hRest

/-- What there is when the options have ended without FILE: the word that ended them was `--`. -/
theorem Takes.of_ended (h : Takes kind word p q) (hEnded : q.ended = true)
    (hOperands : q.operands = []) :
    kind word = .dashes ∧ p.ended = false ∧ p.operands = [] := by
  cases h with
  | dashes hKind => exact ⟨hKind, rfl, hOperands⟩
  | options | file => cases hEnded
  | argument | positional => simp at hOperands

/-- What can be accepted of what has been read: the options go together, and FILE is a path. -/
structure Admitted (together : List Flag → Prop) (isPath : String → Prop) (r : Reading) : Prop where
  together : together r.flags
  isPath : ∀ file ∈ r.operands.head?, isPath file

end Reading

/-- **An option parser that follows its documentation**, with what is left open to it: of which
kind a word is, which options it takes together, and what can be a path. -/
structure Documented (read : List String → Except Stop Invocation) (kind : String → Kind)
    (together : List Flag → Prop) (isPath : String → Prop) : Prop where
  /-- It accepts the lines of the usage and answers what they ask for. -/
  reads : ∀ {words i}, read words = .ok i ↔
    ∃ r, Reading.TakesAll kind words {} r ∧ r.Admitted together isPath ∧ r.asks = i
  /-- The option for monitoring is known by its long name. -/
  stack_kind : kind "--stack" = .options [.stack]
  /-- No other word ends the options as `--` does. -/
  dashes_kind : ∀ {word}, kind word = .dashes ↔ word = "--"
  /-- The option for monitoring, if it is not given, can be given with all others. -/
  insert_stack : ∀ {before after}, .stack ∉ before ++ after → together (before ++ after) →
    together (before ++ .stack :: after)
  /-- Any word can be FILE, save perhaps the empty one. -/
  isPath_of_ne : ∀ {word}, word ≠ "" → isPath word

/-! ## Places on a line -/

section Places

variable {read : List String → Except Stop Invocation} {kind : String → Kind}
  {together : List Flag → Prop} {isPath : String → Prop} {before : List String}

/-- What a line comes to with the words that its words stand for. -/
def Reaches (kind : String → Kind) (words : List String) (r : Reading) : Prop :=
  Reading.TakesAll kind (words.map normalize) {} r

/-- The next word is among the options. -/
def OptionNext (kind : String → Kind) (before : List String) : Prop :=
  ∃ r, Reaches kind before r ∧ r.ended = false

/-- The next word stands right behind a `--` that comes before FILE. -/
def FileNext (kind : String → Kind) (before : List String) : Prop :=
  ∃ options r, before = options ++ ["--"] ∧ Reaches kind options r ∧ r.ended = false ∧
    r.operands = []

/-- The option for monitoring is among the options of a line. -/
def GivesStack (kind : String → Kind) (words : List String) : Prop :=
  ∃ r, Reaches kind words r ∧ .stack ∈ r.flags

/-- **FILE is next behind a `--`** if the options have ended without it. -/
theorem fileNext_iff (hRead : Documented read kind together isPath) :
    FileNext kind before ↔ ∃ r, Reaches kind before r ∧ r.ended = true ∧ r.operands = [] := by
  constructor
  · rintro ⟨options, ⟨_, flags, _⟩, rfl, hOptions, rfl, rfl⟩
    refine ⟨⟨true, flags, []⟩, ?_, rfl, rfl⟩
    unfold Reaches
    rw [List.map_append, Reading.takesAll_append]
    exact ⟨_, hOptions, _, .dashes (hRead.dashes_kind.mpr rfl), rfl⟩
  · rintro ⟨r, hReaches, hEnded, hOperands⟩
    cases before using List.reverseRecOn with
    | nil =>
        cases hReaches
        cases hEnded
    | append_singleton options word =>
        unfold Reaches at hReaches
        rw [List.map_append, Reading.takesAll_append] at hReaches
        obtain ⟨mid, hOptions, _, hWord, rfl⟩ := hReaches
        obtain ⟨hKind, hOpen, hNone⟩ := hWord.of_ended hEnded hOperands
        have hName : word = "--" := by
          have hNormal := hRead.dashes_kind.mp hKind
          unfold normalize at hNormal
          split at hNormal
          · exact absurd hNormal (by decide)
          · exact hNormal
        exact ⟨options, mid, by rw [hName], hOptions, hOpen, hNone⟩

end Places

end CellHost.CommandLine

/-!
# The options of the command line

```text
coopvm [OPTIONS] [FILE] [ARGS]...
```

What the program asks its option parser for, and a reader that does the parser's part when the
program is run. Options are recognised up to `--` or up to the first of ARGS; from there on
everything is passed to the program. Once FILE is given, an option that is not known is the first of
ARGS; before, it is an error. An option that is given twice is an error too.

The parser is a library's. What the program relies on is what a reader documents, and not this
reader, which settles in one way what the documentation leaves open.

## Main definitions

* `CommandLine.Invocation` : what an option parser answers.
* `CommandLine.Kind` : what a word can be while options are recognised.
* `CommandLine.readOptions` : the reader.
-/

namespace CellHost.CommandLine

/-- The options. -/
inductive Flag where
  | stack
  | verbose
  | help
  | version
  deriving DecidableEq, Repr, Inhabited

/-- The option with a long name. -/
def Flag.ofName? : String → Option Flag
  | "stack" => some stack
  | "verbose" => some verbose
  | "help" => some help
  | "version" => some version
  | _ => none

/-- The option with a letter. -/
def Flag.ofLetter? : Char → Option Flag
  | 'v' => some verbose
  | 'h' => some help
  | 'V' => some version
  | _ => none

/-- What a command line asks for. -/
structure Invocation where
  file : Option String := none
  arguments : List String := []
  stack : Bool := false
  verbose : Bool := false
  deriving DecidableEq, Repr, Inhabited

/-- Why reading stops early. -/
inductive Stop where
  | help
  | version
  /-- The command line is not well formed. -/
  | invalid
  deriving DecidableEq, Repr, Inhabited

/-- What a word is while options are recognised. -/
inductive Kind where
  /-- One option, or several by their letters. -/
  | options (flags : List Flag)
  /-- An option with a value, which none of them takes. -/
  | misused
  /-- A word with a dash that is no known option; with the options in front of what is not known. -/
  | unknown (known : List Flag)
  /-- The `--` that ends the options. -/
  | dashes
  /-- A word that is no option: FILE, or the first of ARGS. -/
  | operand
  deriving DecidableEq, Repr, Inhabited

/-- What a word with two dashes is by the name behind them. -/
def Kind.long (name : List Char) : Kind :=
  match Flag.ofName? (String.ofList (name.takeWhile (· != '='))) with
  | none => .unknown []
  | some flag => if name.contains '=' then .misused else .options [flag]

/-- What a word with one dash is by the letters behind it. -/
def Kind.short (letters : List Char) : Kind :=
  let known := (letters.takeWhile (Flag.ofLetter? · |>.isSome)).filterMap Flag.ofLetter?
  if letters.all (Flag.ofLetter? · |>.isSome) then .options known else .unknown known

/-- What a word is. -/
def Kind.ofWord (word : String) : Kind :=
  match word.toList with
  | ['-', '-'] => .dashes
  | '-' :: '-' :: name => .long name
  | ['-'] => .operand
  | '-' :: letters => .short letters
  | _ => .operand

/-- Take an option. Asking for help or for the version ends the reading. -/
def Invocation.raise (i : Invocation) : Flag → Except Stop Invocation
  | .help => .error .help
  | .version => .error .version
  | .stack => if i.stack then .error .invalid else .ok { i with stack := true }
  | .verbose => if i.verbose then .error .invalid else .ok { i with verbose := true }

/-- Take options in order. -/
def Invocation.raiseAll (i : Invocation) : List Flag → Except Stop Invocation
  | [] => .ok i
  | flag :: others => (i.raise flag).bind (·.raiseAll others)

/-- What has been read of a command line. -/
structure Scan where
  asked : Invocation := {}
  /-- Whether everything that follows is passed on. -/
  trailing : Bool := false
  deriving DecidableEq, Repr, Inhabited

namespace Scan

/-- Take the first of the program's arguments or a further one. -/
def pass (s : Scan) (word : String) : Scan where
  asked := { s.asked with arguments := s.asked.arguments ++ [word] }
  trailing := true

/-- Take options in order. -/
def raiseAll (s : Scan) (flags : List Flag) : Except Stop Scan :=
  (s.asked.raiseAll flags).map ({ s with asked := · })

/-- Take a word that is no option: the file, which must not be empty, or an argument. -/
def place (s : Scan) (word : String) : Except Stop Scan :=
  match s.asked.file with
  | some _ => .ok (s.pass word)
  | none =>
    if word = "" then .error .invalid
    else .ok { s with asked := { s.asked with file := some word } }

/-- Take a word of the command line. Where an unknown option is refused, those in front of it have
been taken. -/
def take (s : Scan) (word : String) : Except Stop Scan :=
  if s.trailing then s.place word
  else
    match Kind.ofWord word with
    | .options flags => s.raiseAll flags
    | .misused => .error .invalid
    | .unknown known =>
      if s.asked.file.isSome then .ok (s.pass word)
      else (s.raiseAll known).bind fun _ => .error .invalid
    | .dashes => .ok { s with trailing := true }
    | .operand => s.place word

/-- Take words of the command line in order. -/
def takeAll (s : Scan) : List String → Except Stop Scan
  | [] => .ok s
  | word :: rest => (s.take word).bind (·.takeAll rest)

end Scan

/-- Read a command line, the program's name left out. -/
def readOptions (words : List String) : Except Stop Invocation :=
  (Scan.takeAll {} words).map (·.asked)

end CellHost.CommandLine

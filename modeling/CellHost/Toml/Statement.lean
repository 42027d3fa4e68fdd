import CellHost.Toml.Scalars

/-!
# Statements of configuration files

A configuration file is a sequence of lines, each a key with its value, the header of a table, or
nothing, and each perhaps with a comment behind. Reading turns it into a list of statements, or fails
if some line is none.

Arrays and inline tables can be nested, less than eighty deep, and a key can have less than eighty
parts.

## Main definitions

* `readStatements` : the statements of a file.
-/

namespace CellHost.Toml

/-- The parts of a key; never empty. -/
abbrev Path := List String

/-- One line of a file. -/
inductive Statement where
  /-- `path = value`. -/
  | assign (path : Path) (value : Value)
  /-- `[path]`. -/
  | header (path : Path)
  /-- `[[path]]`. -/
  | itemHeader (path : Path)
  deriving Repr, Inhabited

/-- Reading something from the front of a list of characters. -/
abbrev Reader (α : Type) := List Char → Option (α × List Char)

/-- Bound on the depth of nesting and on the parts of a key. -/
def depthLimit : Nat := 80

/-- Text without the blanks at its front. -/
def dropBlanks (cs : List Char) : List Char := cs.dropWhile isBlank

/-! ## Blanks, comments and ends of lines -/

/-- Text without the comment at its front, if there is one. -/
def dropComment : List Char → List Char
  | '#' :: rest => rest.dropWhile isPlain
  | cs => cs

/-- What follows the rest of a line, which holds nothing but blanks and a comment. -/
def afterLine? (cs : List Char) : Option (List Char) :=
  match dropComment (dropBlanks cs) with
  | [] => some []
  | rest => afterNewline? rest

/-- Text without the blanks, line breaks and comments at its front; `comment` says whether the front
is inside a comment. A comment that does not end with its line stops this. -/
def dropTrivia (comment : Bool) : List Char → List Char
  | [] => []
  | '\n' :: rest => dropTrivia false rest
  | '\r' :: '\n' :: rest => dropTrivia false rest
  | c :: rest =>
    if comment then if isPlain c then dropTrivia true rest else c :: rest
    else if isBlank c then dropTrivia false rest
    else if c = '#' then dropTrivia true rest
    else c :: rest

/-! ## Keys -/

/-- Characters of a key without marks. -/
def isBareKeyChar (c : Char) : Bool := c.isAlphanum || c == '-' || c == '_'

/-- One part of a key. -/
def readKeyPart : Reader String := fun cs =>
  match cs with
  | '"' :: _ | '\'' :: _ => readShortString cs
  | _ =>
    let (part, rest) := cs.span isBareKeyChar
    if part.isEmpty then none else some (String.ofList part, rest)

/-- The parts of a key, with dots between them and blanks around, at most `left` of them. -/
def readKeyParts : Nat → Reader Path
  | 0, _ => none
  | left + 1, cs => do
    let (part, rest) ← readKeyPart (dropBlanks cs)
    match dropBlanks rest with
    | '.' :: rest =>
      let (parts, rest) ← readKeyParts left rest
      return (part :: parts, rest)
    | rest => return ([part], rest)

/-- A key. -/
def readKey : Reader Path := readKeyParts (depthLimit - 1)

/-! ## Tables with places for more -/

/-- The entries that dotted keys write into inline tables. -/
inductive InlineNode where
  | leaf (value : Value)
  /-- A table made by dotted keys, which more of them can fill. -/
  | open (entries : List (String × InlineNode))
  deriving Inhabited

/-- Replace or add the entry of a key. -/
def putEntry {α : Type} (entries : List (String × α)) (key : String) (a : α) :
    List (String × α) :=
  if entries.any (·.1 == key) then
    entries.map fun entry => if entry.1 == key then (key, a) else entry
  else entries ++ [(key, a)]

/-- Write a value under a key into the entries of an inline table. A key can be written once, and
only tables made by dotted keys can be written into. -/
def insertInline (value : Value) : Path → List (String × InlineNode) →
    Option (List (String × InlineNode))
  | [], _ => none
  | [key], entries =>
    if entries.any (·.1 == key) then none else some (entries ++ [(key, .leaf value)])
  | key :: path, entries =>
    match entries.lookup key with
    | some (.leaf _) => none
    | some (.open inner) =>
      (insertInline value path inner).map fun inner => putEntry entries key (.open inner)
    | none => (insertInline value path []).map fun inner => putEntry entries key (.open inner)

/-- The values of an inline table. -/
def InlineNode.toValue : InlineNode → Value
  | .leaf value => value
  | .open entries => .table (entries.attach.map fun ⟨(key, node), _⟩ => (key, node.toValue))
  decreasing_by
    have := List.sizeOf_lt_of_mem ‹_›
    simp_all
    omega

/-! ## Values -/

/-- The rest of an array, after items in reverse; fewer than `left` items follow. -/
def readItems (item : Reader Value) : Nat → List Value → Reader Value
  | 0, _, _ => none
  | left + 1, done, cs =>
    match dropTrivia false cs with
    | ']' :: rest => some (.array done.reverse, rest)
    | cs => do
      let (value, rest) ← item cs
      match dropTrivia false rest with
      | ',' :: rest => readItems item left (value :: done) rest
      | ']' :: rest => some (.array (value :: done).reverse, rest)
      | _ => none

/-- A key with its value; the blanks after the value belong to it. -/
def readAssignment (value : Reader Value) : Reader (Path × Value) := fun cs => do
  let (path, rest) ← readKey cs
  match rest with
  | '=' :: rest =>
    let (v, rest) ← value (dropBlanks rest)
    return ((path, v), dropBlanks rest)
  | _ => none

/-- The entries of an inline table, of which there is one at least and fewer than `left`, after some
that were read. -/
def readEntries (value : Reader Value) : Nat → List (String × InlineNode) → Reader Value
  | 0, _, _ => none
  | left + 1, entries, cs => do
    let ((path, v), rest) ← readAssignment value cs
    let entries ← insertInline v path entries
    match rest with
    | ',' :: rest => readEntries value left entries rest
    | '}' :: rest => return ((InlineNode.open entries).toValue, rest)
    | _ => none

/-- A value, in which arrays and tables are nested at most `depth` deep. -/
def readValue : Nat → Reader Value
  | depth, cs =>
    match cs with
    | '"' :: _ | '\'' :: _ => (readString cs).map fun (s, rest) => (.text s, rest)
    | '[' :: rest =>
      match depth with
      | 0 => none
      | depth + 1 => readItems (readValue depth) (rest.length + 1) [] rest
    | '{' :: rest =>
      match depth with
      | 0 => none
      | depth + 1 =>
        match dropBlanks rest with
        | '}' :: rest => some (.table [], rest)
        | rest => readEntries (readValue depth) (rest.length + 1) [] rest
    | cs => readScalar cs

/-! ## Lines -/

/-- The statement at the front of a line that has one. -/
def readStatement : Reader Statement := fun cs =>
  match cs with
  | '[' :: '[' :: rest => do
    let (path, rest) ← readKey rest
    match rest with
    | ']' :: ']' :: rest => return (.itemHeader path, rest)
    | _ => none
  | '[' :: rest => do
    let (path, rest) ← readKey rest
    match rest with
    | ']' :: rest => return (.header path, rest)
    | _ => none
  | _ => (readAssignment (readValue (depthLimit - 1)) cs).map fun ((path, value), rest) =>
    (.assign path value, rest)

/-- The statements of a text of fewer than `left` lines, after some in reverse. -/
def readLines : Nat → List Statement → List Char → Option (List Statement)
  | 0, _, _ => none
  | left + 1, done, cs =>
    match dropBlanks cs with
    | [] => some done.reverse
    | '#' :: rest => do readLines left done (← afterLine? ('#' :: rest))
    | '\n' :: rest => readLines left done rest
    | '\r' :: '\n' :: rest => readLines left done rest
    | cs => do
      let (statement, rest) ← readStatement cs
      readLines left (statement :: done) (← afterLine? rest)

/-- Text without the mark that says it is Unicode. -/
def dropByteOrderMark : List Char → List Char
  | '\ufeff' :: rest => rest
  | cs => cs

/-- The statements of a file. -/
def readStatements (text : String) : Option (List Statement) :=
  let cs := dropByteOrderMark text.toList
  readLines (cs.length + 1) [] cs

end CellHost.Toml

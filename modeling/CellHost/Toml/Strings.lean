/-!
# Strings of configuration files

A string stands between quotation marks, with escapes, or between apostrophes, without any; between
three of either it may go over several lines. A backslash at the end of a line takes the line break
and the blanks after it away.

Written strings take the simplest form that needs no escape; only text that has none is escaped.

All readers work from the front of a list of characters and leave the rest.

## Main definitions

* `readString` : a string in any of the four forms.
* `quote` : the written form of a text.
-/

namespace CellHost.Toml

/-- Characters that stand for themselves: a tab, and everything but controls. -/
def isPlain (c : Char) : Bool := c == '\t' || (0x20 ≤ c.toNat && c.toNat != 0x7f)

/-- Blanks inside a line. -/
def isBlank (c : Char) : Bool := c == ' ' || c == '\t'

/-- What follows a line break. -/
def afterNewline? : List Char → Option (List Char)
  | '\n' :: rest => some rest
  | '\r' :: '\n' :: rest => some rest
  | _ => none

/-- Text without a line break at its front. -/
def dropNewline (cs : List Char) : List Char := (afterNewline? cs).getD cs

/-- Text without the blanks and line breaks at its front. -/
def dropBlankLines : List Char → List Char
  | ' ' :: rest => dropBlankLines rest
  | '\t' :: rest => dropBlankLines rest
  | '\n' :: rest => dropBlankLines rest
  | '\r' :: '\n' :: rest => dropBlankLines rest
  | cs => cs

/-- What follows a line that ends after blanks, and the blank lines behind it. -/
def afterLineEnd? (cs : List Char) : Option (List Char) :=
  (afterNewline? (cs.dropWhile isBlank)).map dropBlankLines

/-! ## Escapes -/

/-- The value of a hexadecimal digit. -/
def hexDigit? (c : Char) : Option Nat :=
  if c.isDigit then some (c.toNat - '0'.toNat)
  else if 'a' ≤ c ∧ c ≤ 'f' then some (c.toNat - 'a'.toNat + 10)
  else if 'A' ≤ c ∧ c ≤ 'F' then some (c.toNat - 'A'.toNat + 10)
  else none

/-- The character with the code that hexadecimal digits write. -/
def charOfHex? (digits : List Char) : Option Char := do
  let code ← digits.foldlM (fun n c => (hexDigit? c).map (16 * n + ·)) 0
  if h : code.isValidChar then some (Char.ofNatAux code h) else none

/-- The character that an escape stands for; the backslash has been read. -/
def escape? : List Char → Option (Char × List Char)
  | 'b' :: rest => some ('\x08', rest)
  | 't' :: rest => some ('\t', rest)
  | 'n' :: rest => some ('\n', rest)
  | 'f' :: rest => some ('\x0c', rest)
  | 'r' :: rest => some ('\r', rest)
  | '"' :: rest => some ('"', rest)
  | '\\' :: rest => some ('\\', rest)
  | 'u' :: a :: b :: c :: d :: rest => (charOfHex? [a, b, c, d]).map (·, rest)
  | 'U' :: a :: b :: c :: d :: e :: f :: g :: h :: rest =>
    (charOfHex? [a, b, c, d, e, f, g, h]).map (·, rest)
  | _ => none

theorem length_of_escape? {cs rest : List Char} {c : Char} (h : escape? cs = some (c, rest)) :
    rest.length < cs.length := by
  unfold escape? at h
  split at h <;> simp_all <;> obtain ⟨_, _, _, rfl⟩ := h <;> omega

theorem length_afterNewline? {cs rest : List Char} (h : afterNewline? cs = some rest) :
    rest.length < cs.length := by
  unfold afterNewline? at h
  split at h
  · cases h; exact Nat.lt_succ_self _
  · cases h; exact Nat.lt_succ_of_lt (Nat.lt_succ_self _)
  · cases h

theorem length_dropBlankLines (cs : List Char) : (dropBlankLines cs).length ≤ cs.length := by
  fun_induction dropBlankLines cs <;> simp_all <;> omega

theorem length_afterLineEnd? {cs rest : List Char} (h : afterLineEnd? cs = some rest) :
    rest.length < cs.length := by
  obtain ⟨after, hAfter, rfl⟩ := Option.map_eq_some_iff.1 h
  have := length_afterNewline? hAfter
  have := length_dropBlankLines after
  have := (List.dropWhile_sublist (l := cs) isBlank).length_le
  omega

/-! ## Reading -/

/-- The text of characters read so far, which are in reverse. -/
def textOf (done : List Char) : String := String.ofList done.reverse

/-- The end of a string between three marks: up to two marks more belong to the text. -/
def closeLong (mark : Char) (done rest : List Char) : String × List Char :=
  match rest with
  | a :: b :: rest' =>
    if a = mark then
      if b = mark then (textOf (mark :: mark :: done), rest')
      else (textOf (mark :: done), b :: rest')
    else (textOf done, rest)
  | [a] => if a = mark then (textOf (mark :: done), []) else (textOf done, rest)
  | [] => (textOf done, [])

/-- The rest of a string between quotation marks. -/
def readBasic (done : List Char) (cs : List Char) : Option (String × List Char) :=
  match cs with
  | [] => none
  | '"' :: rest => some (textOf done, rest)
  | '\\' :: rest =>
    match h : escape? rest with
    | some (c, rest') =>
      have := length_of_escape? h
      readBasic (c :: done) rest'
    | none => none
  | c :: rest => if isPlain c then readBasic (c :: done) rest else none
  termination_by cs.length
  decreasing_by all_goals simp_all <;> omega

/-- The rest of a string between three quotation marks. -/
def readLongBasic (done : List Char) (cs : List Char) : Option (String × List Char) :=
  match cs with
  | [] => none
  | '"' :: '"' :: '"' :: rest => some (closeLong '"' done rest)
  | '\n' :: rest => readLongBasic ('\n' :: done) rest
  | '\r' :: '\n' :: rest => readLongBasic ('\n' :: done) rest
  | '\\' :: rest =>
    match h : afterLineEnd? rest with
    | some rest' =>
      have := length_afterLineEnd? h
      readLongBasic done rest'
    | none =>
      match h : escape? rest with
      | some (c, rest') =>
        have := length_of_escape? h
        readLongBasic (c :: done) rest'
      | none => none
  | c :: rest => if isPlain c then readLongBasic (c :: done) rest else none
  termination_by cs.length
  decreasing_by all_goals simp_all <;> omega

/-- The rest of a string between apostrophes. -/
def readLiteral (done : List Char) : List Char → Option (String × List Char)
  | [] => none
  | '\'' :: rest => some (textOf done, rest)
  | c :: rest => if isPlain c then readLiteral (c :: done) rest else none

/-- The rest of a string between three apostrophes. -/
def readLongLiteral (done : List Char) : List Char → Option (String × List Char)
  | [] => none
  | '\'' :: '\'' :: '\'' :: rest => some (closeLong '\'' done rest)
  | '\n' :: rest => readLongLiteral ('\n' :: done) rest
  | '\r' :: '\n' :: rest => readLongLiteral ('\n' :: done) rest
  | c :: rest => if isPlain c then readLongLiteral (c :: done) rest else none

/-- A string of one line. -/
def readShortString : List Char → Option (String × List Char)
  | '"' :: rest => readBasic [] rest
  | '\'' :: rest => readLiteral [] rest
  | _ => none

/-- A string in any form. A line break right after three opening marks is not part of the text. -/
def readString : List Char → Option (String × List Char)
  | '"' :: '"' :: '"' :: rest => readLongBasic [] (dropNewline rest)
  | '\'' :: '\'' :: '\'' :: rest => readLongLiteral [] (dropNewline rest)
  | cs => readShortString cs

/-! ## Writing -/

/-- Whether a character needs an escape in any quoted form. -/
def needsEscape (c : Char) : Bool := !isPlain c && c != '\n'

/-- The longest run of a character. -/
def longestRun (mark : Char) (cs : List Char) : Nat :=
  (cs.foldl (fun (run, longest) c =>
    let run := if c = mark then run + 1 else 0
    (run, max longest run)) (0, 0)).2

/-- The escape of a control character by its code. -/
def codeEscape (c : Char) : List Char :=
  let digits := (Nat.toDigits 16 c.toNat).map Char.toUpper
  '\\' :: 'u' :: (List.replicate (4 - digits.length) '0' ++ digits)

/-- Characters with escapes, `run` quotation marks having been written before them. More than `marks`
quotation marks in a row need an escape, and a line break does in a string of one line. -/
def escaped (marks : Nat) (long : Bool) (run : Nat) : List Char → List Char
  | [] => []
  | '"' :: rest =>
    if run < marks then '"' :: escaped marks long (run + 1) rest
    else '\\' :: '"' :: escaped marks long 0 rest
  | c :: rest =>
    let written := match c with
      | '\x08' => ['\\', 'b']
      | '\t' => ['\\', 't']
      | '\n' => if long then ['\n'] else ['\\', 'n']
      | '\x0c' => ['\\', 'f']
      | '\r' => ['\\', 'r']
      | '\\' => ['\\', '\\']
      | c => if isPlain c then [c] else codeEscape c
    written ++ escaped marks long 0 rest

/-- Text between marks, on a line of its own if it has several lines. -/
def between (mark : String) (long : Bool) (cs : List Char) : String :=
  let start := if long && cs.contains '\n' then "\n" else ""
  mark ++ start ++ String.ofList cs ++ mark

/-- The written form of a text: the first form that needs no escape but that of a tab, of quotation
marks, apostrophes, three quotation marks and three apostrophes; else quotation marks with escapes. -/
def quote (text : String) : String :=
  let cs := text.toList
  let hard := cs.any needsEscape
  let backslash := cs.contains '\\'
  let newline := cs.contains '\n'
  let marks := longestRun '"' cs
  let apostrophes := longestRun '\'' cs
  if !hard && !backslash && !newline && marks == 0 then
    between "\"" false (escaped 0 false 0 cs)
  else if !hard && !newline && apostrophes == 0 then between "'" false cs
  else if !hard && !backslash && marks ≤ 2 then between "\"\"\"" true (escaped 2 true 0 cs)
  else if !hard && apostrophes ≤ 2 then between "'''" true cs
  else if newline then between "\"\"\"" true (escaped 2 true 0 cs)
  else between "\"" false (escaped 0 false 0 cs)

end CellHost.Toml

import CellHost.Numeral
import CellHost.Toml.Strings
import CellHost.Toml.Value

/-!
# Numbers, dates and truth values of configuration files

These are written without marks, so each is a run of letters, digits and the signs `+ - . : _`, and
the whole run has to be of one of the forms. Underscores may stand between digits. Whole numbers take
64 bits with a sign. A float must not be so large that only infinity is left of it.

## Main definitions

* `scalar?` : the value that a run of characters writes.
-/

namespace CellHost.Toml

/-- Characters of which numbers, dates and truth values are made. -/
def isScalarChar (c : Char) : Bool :=
  c.isAlphanum || c == '+' || c == '-' || c == '.' || c == ':' || c == '_'

/-- Digits of some kind without the underscores between them. -/
def ungroup (ok : Char → Bool) : List Char → Option (List Char)
  | [] => none
  | [c] => if ok c then some [c] else none
  | c :: '_' :: rest => if ok c then (ungroup ok rest).map (c :: ·) else none
  | c :: rest => if ok c then (ungroup ok rest).map (c :: ·) else none

/-- A sign, if there is one, and what follows: whether it is a minus. -/
def splitSign : List Char → Bool × List Char
  | '-' :: rest => (true, rest)
  | '+' :: rest => (false, rest)
  | cs => (false, cs)

/-! ## Whole numbers -/

/-- Decimal digits, without a zero in front of others. -/
def decimalDigits? (cs : List Char) : Option (List Char) :=
  match cs with
  | ['0'] => some ['0']
  | '0' :: _ => none
  | _ => ungroup Char.isDigit cs

/-- Highest whole number. -/
def maxInteger : Nat := 0x7fffffffffffffff

/-- A number in a base of its own, after its mark. -/
def based? (base : Nat) (cs : List Char) : Option Int := do
  let ok (c : Char) : Bool := (hexDigit? c).any (· < base)
  let digits ← ungroup ok cs
  let n := digits.foldl (fun n c => base * n + (hexDigit? c).getD 0) 0
  if n ≤ maxInteger then some (Int.ofNat n) else none

/-- A whole number. -/
def integer? (cs : List Char) : Option Int :=
  match cs with
  | '0' :: 'x' :: rest => based? 16 rest
  | '0' :: 'o' :: rest => based? 8 rest
  | '0' :: 'b' :: rest => based? 2 rest
  | _ => do
    let (negative, body) := splitSign cs
    let n := Numeral.valueFrom 0 (← decimalDigits? body)
    if negative then if n ≤ maxInteger + 1 then some (-(n : Int)) else none
    else if n ≤ maxInteger then some (n : Int) else none

/-! ## Floats -/

/-- The least whole number that rounds to infinity as a double. -/
def doubleLimit : Nat := (1 <<< 1024) - (1 <<< 970)

/-- Whether a decimal with the given digits and power of ten is too large for a double. Decimals of
far more or far fewer than 309 places are decided by their length. -/
def exceedsDouble (digits : List Char) (exponent : Int) : Bool :=
  let significant := digits.dropWhile (· == '0')
  let places := (significant.length : Int) + exponent
  if significant = [] ∨ places < 300 then false
  else if 320 < places then true
  else
    let n := Numeral.valueFrom 0 significant
    if 0 ≤ exponent then doubleLimit ≤ n * Nat.pow 10 exponent.toNat
    else doubleLimit * Nat.pow 10 (-exponent).toNat ≤ n

/-- Whether a run of characters is a float. It has a fraction, an exponent or both. -/
def isFloat (cs : List Char) : Bool :=
  let (negative, body) := splitSign cs
  if body = ['i', 'n', 'f'] ∨ body = ['n', 'a', 'n'] then true
  else
    let (mantissa, power) := body.span fun c => c != 'e' && c != 'E'
    let (whole, point) := mantissa.span (· != '.')
    let fraction := match point with
      | [] => some []
      | _ :: rest => ungroup Char.isDigit rest
    let exponent := match power with
      | [] => some 0
      | _ :: rest =>
        let (negative, digits) := splitSign rest
        (ungroup Char.isDigit digits).map fun ds =>
          let n : Int := Numeral.valueFrom 0 ds
          if negative then -n else n
    match decimalDigits? whole, fraction, exponent with
    | some whole, some fraction, some exponent =>
      (point != [] || power != []) &&
        (negative || !exceedsDouble (whole ++ fraction) (exponent - fraction.length))
    | _, _, _ => false

/-! ## Dates and times -/

/-- The number that two digits write. -/
def two? (a b : Char) : Option Nat :=
  if a.isDigit && b.isDigit then some (Numeral.valueFrom 0 [a, b]) else none

/-- Days of a month. -/
def daysIn (year month : Nat) : Nat :=
  if month = 2 then
    if year % 4 = 0 ∧ (year % 100 ≠ 0 ∨ year % 400 = 0) then 29 else 28
  else if month = 4 ∨ month = 6 ∨ month = 9 ∨ month = 11 then 30
  else 31

/-- What follows a date at the front of a run. -/
def afterDate? : List Char → Option (List Char)
  | y₁ :: y₂ :: y₃ :: y₄ :: '-' :: m₁ :: m₂ :: '-' :: d₁ :: d₂ :: rest => do
    let year := 100 * (← two? y₁ y₂) + (← two? y₃ y₄)
    let month ← two? m₁ m₂
    let day ← two? d₁ d₂
    if 1 ≤ month ∧ month ≤ 12 ∧ 1 ≤ day ∧ day ≤ daysIn year month then some rest else none
  | _ => none

/-- What follows a time of day at the front of a run; leap seconds are times. -/
def afterTime? : List Char → Option (List Char)
  | h₁ :: h₂ :: ':' :: m₁ :: m₂ :: ':' :: s₁ :: s₂ :: rest => do
    if 23 < (← two? h₁ h₂) ∨ 59 < (← two? m₁ m₂) ∨ 60 < (← two? s₁ s₂) then none
    else
      match rest with
      | '.' :: c :: rest' => if c.isDigit then some (rest'.dropWhile Char.isDigit) else none
      | rest => some rest
  | _ => none

/-- Whether a run is nothing or an offset from universal time. -/
def isOffset : List Char → Bool
  | [] | ['Z'] | ['z'] => true
  | [sign, h₁, h₂, ':', m₁, m₂] =>
    (sign == '+' || sign == '-') && (two? h₁ h₂).any (· ≤ 23) && (two? m₁ m₂).any (· ≤ 59)
  | _ => false

/-- Whether a run is a time, perhaps with an offset. -/
def isTime (offset : Bool) (cs : List Char) : Bool :=
  match afterTime? cs with
  | some rest => rest.isEmpty || (offset && isOffset rest)
  | none => false

/-- Whether a run is a date, a time or both. -/
def isDatetime (cs : List Char) : Bool :=
  match afterDate? cs with
  | some [] => true
  | some (mark :: rest) => (mark == 'T' || mark == 't' || mark == ' ') && isTime true rest
  | none => isTime false cs

/-! ## All together -/

/-- The value that a run of characters writes. -/
def scalar? (cs : List Char) : Option Value :=
  if cs = "true".toList then some (.boolean true)
  else if cs = "false".toList then some (.boolean false)
  else if isDatetime cs then some (.datetime (String.ofList cs))
  else if isFloat cs then some (.float (String.ofList cs))
  else (integer? cs).map .integer

/-- A number, a date or a truth value. A time may follow its date after one blank. -/
def readScalar (cs : List Char) : Option (Value × List Char) :=
  let (run, rest) := cs.span isScalarChar
  match rest with
  | ' ' :: c :: rest' =>
    if c.isDigit && (afterDate? run).any List.isEmpty then
      let (time, rest'') := (c :: rest').span isScalarChar
      (scalar? (run ++ ' ' :: time)).map (·, rest'')
    else (scalar? run).map (·, rest)
  | _ => (scalar? run).map (·, rest)

end CellHost.Toml

/-!
# Decimal numerals

Reading whole numbers written in ASCII digits. A numeral has at least one digit and may have leading
zeros; a plus sign may stand before it, and, where negative numbers are read, a minus sign. Blanks,
separators and numbers out of range are refused.

## Main results

* `Numeral.digits?_isSome_iff` : exactly the nonempty strings of digits are read.
-/

namespace CellHost.Numeral

/-- The value of a digit. -/
def digitValue (c : Char) : Nat := c.toNat - '0'.toNat

/-- The number written by digits, continuing from the number read so far. -/
def valueFrom (n : Nat) (digits : List Char) : Nat :=
  digits.foldl (fun n c => 10 * n + digitValue c) n

/-- A nonempty string of digits. -/
def digits? (text : List Char) : Option Nat :=
  if text ≠ [] ∧ text.all Char.isDigit then some (valueFrom 0 text) else none

/-- A number from zero to `max`, perhaps with a plus sign. -/
def unsigned? (max : Nat) (text : String) : Option Nat :=
  let read := match text.toList with
    | '+' :: rest => digits? rest
    | chars => digits? chars
  read.filter (· ≤ max)

/-- A number from `-(max + 1)` to `max`, perhaps with a sign. -/
def signed? (max : Nat) (text : String) : Option Int :=
  match text.toList with
  | '-' :: rest => ((digits? rest).filter (· ≤ max + 1)).map fun n => -(n : Int)
  | '+' :: rest => ((digits? rest).filter (· ≤ max)).map Int.ofNat
  | chars => ((digits? chars).filter (· ≤ max)).map Int.ofNat

theorem digits?_isSome_iff (text : List Char) :
    (digits? text).isSome ↔ text ≠ [] ∧ ∀ c ∈ text, c.isDigit = true := by
  by_cases h : text ≠ [] ∧ text.all Char.isDigit
  · rw [digits?, if_pos h]
    simpa using h
  · rw [digits?, if_neg h]
    simpa using h

end CellHost.Numeral

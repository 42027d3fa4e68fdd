/-!
# Blanks

The characters that Unicode counts as white space, and text without them at its ends.

## Main results

* `Blank.trimEnd_append_blanks` : trimming takes any blanks at the end away.
-/

namespace CellHost.Blank

/-- Whether a character is white space. -/
def isBlank (c : Char) : Bool :=
  let n := c.toNat
  (0x09 ≤ n && n ≤ 0x0d) || n == 0x20 || n == 0x85 || n == 0xa0 || n == 0x1680 ||
    (0x2000 ≤ n && n ≤ 0x200a) || n == 0x2028 || n == 0x2029 || n == 0x202f || n == 0x205f ||
    n == 0x3000

/-- Characters without the blanks at their end. -/
def trimEnd (cs : List Char) : List Char := (cs.reverse.dropWhile isBlank).reverse

/-- Characters without the blanks at both ends. -/
def trim (cs : List Char) : List Char := trimEnd (cs.dropWhile isBlank)

/-- Text without the blanks at its end. -/
def trimTextEnd (text : String) : String := String.ofList (trimEnd text.toList)

/-- Text without the blanks at both ends. -/
def trimText (text : String) : String := String.ofList (trim text.toList)

theorem trimEnd_append_blanks (cs blanks : List Char) (h : blanks.all isBlank) :
    trimEnd (cs ++ blanks) = trimEnd cs := by
  have hr : ∀ c ∈ blanks.reverse, isBlank c = true := by simpa using h
  simp only [trimEnd, List.reverse_append]
  rw [List.dropWhile_append_of_pos hr]

end CellHost.Blank

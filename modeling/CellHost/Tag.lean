/-!
# Registry tags

What a host hangs on a context is filed under a *tag* of four bytes, usually the four letters of a
short name.
-/

namespace CellHost

/-- A four-byte name, first byte highest. -/
structure Tag where
  value : UInt32
  deriving DecidableEq, Repr, Inhabited

namespace Tag

/-- The tag with the given bytes. -/
def ofBytes (a b c d : UInt8) : Tag :=
  ⟨a.toUInt32 <<< 24 ||| b.toUInt32 <<< 16 ||| c.toUInt32 <<< 8 ||| d.toUInt32⟩

/-- The four bytes of a tag. -/
def bytes (tag : Tag) : List UInt8 :=
  [(tag.value >>> 24).toUInt8, (tag.value >>> 16).toUInt8, (tag.value >>> 8).toUInt8,
   tag.value.toUInt8]

/-- The tag spelled by four characters of ASCII. -/
def ofChars (a b c d : Char) : Tag := ofBytes a.toUInt8 b.toUInt8 c.toUInt8 d.toUInt8

/-- Record of stack and heap usage. -/
def usage : Tag := ofChars 'S' 't' 'c' 'k'

/-- Idle function. -/
def idle : Tag := ofChars 'I' 'd' 'l' 'e'

/-- Arguments of the program. -/
def arguments : Tag := ofChars 'A' 'r' 'g' 's'

/-- Timer. -/
def timer : Tag := ofChars 'T' 'i' 'm' 'r'

/-- How a byte of a tag is shown: itself if it is a visible ASCII character, else a question mark. -/
def showByte (b : UInt8) : Char :=
  if 0x21 ≤ b && b ≤ 0x7e then Char.ofNat b.toNat else '?'

/-- The four characters shown for a tag. -/
def text (tag : Tag) : String := String.ofList (tag.bytes.map showByte)

/-- The tag in listings of a registry. -/
def describe (tag : Tag) : String := s!"Tag({tag.text})"

end Tag

end CellHost

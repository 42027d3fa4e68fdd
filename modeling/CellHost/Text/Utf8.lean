/-!
# Where a byte string stops being UTF-8

A character is encoded in one to four bytes. Its first byte says how many, and which second bytes can
follow; all further bytes are between `0x80` and `0xbf`. A byte string that is no text goes wrong at
the start of some character: either the bytes there begin no character (the *fault* is as long as
the bytes that could still have begun one, and one byte at least), or the string ends inside one.

## Main definitions

* `Utf8.step` : the character at the start of a byte string, or what is wrong with it.
* `Utf8.fault?` : the first fault of a byte string.

## Main results

* `Utf8.decode_encode`, `Utf8.encode_of_decode` : texts and the byte strings that are text correspond
  one to one.
-/

namespace CellHost.Utf8

/-- What is wrong with a byte string, counting bytes from its start. -/
inductive Fault where
  /-- `length` bytes from `index` on begin no character. -/
  | invalid (length index : Nat)
  /-- The string ends inside the character that starts at `index`. -/
  | incomplete (index : Nat)
  deriving DecidableEq, Repr, Inhabited

/-- The wording of a fault. -/
def Fault.message : Fault → String
  | invalid length index => s!"invalid utf-8 sequence of {length} bytes from index {index}"
  | incomplete index => s!"incomplete utf-8 byte sequence from index {index}"

/-- What a byte string starts with. -/
inductive Start where
  /-- A character of so many bytes. -/
  | character (length : Nat)
  /-- So many bytes that begin no character. -/
  | invalid (length : Nat)
  /-- The beginning of a character that is cut off. -/
  | incomplete
  deriving DecidableEq, Repr, Inhabited

/-- The bytes that a character of this first byte has, with the range of the second; `none` if the
byte starts no character of several bytes. -/
def shape? (first : UInt8) : Option (Nat × UInt8 × UInt8) :=
  if first < 0xc2 then none
  else if first < 0xe0 then some (2, 0x80, 0xbf)
  else if first = 0xe0 then some (3, 0xa0, 0xbf)
  else if first = 0xed then some (3, 0x80, 0x9f)
  else if first < 0xf0 then some (3, 0x80, 0xbf)
  else if first = 0xf0 then some (4, 0x90, 0xbf)
  else if first < 0xf4 then some (4, 0x80, 0xbf)
  else if first = 0xf4 then some (4, 0x80, 0x8f)
  else none

/-- Whether a byte continues a character. -/
def isContinuation (b : UInt8) : Bool := 0x80 ≤ b && b ≤ 0xbf

/-- Check that `left` continuation bytes follow, `seen` bytes of the character having been read. -/
def continued (seen : Nat) : Nat → List UInt8 → Start
  | 0, _ => .character seen
  | _ + 1, [] => .incomplete
  | left + 1, b :: rest =>
    if isContinuation b then continued (seen + 1) left rest else .invalid seen

/-- What a nonempty byte string starts with. -/
def step (first : UInt8) (rest : List UInt8) : Start :=
  if first < 0x80 then .character 1
  else
    match shape? first with
    | none => .invalid 1
    | some (length, low, high) =>
      match rest with
      | [] => .incomplete
      | second :: rest =>
        if low ≤ second && second ≤ high then continued 2 (length - 2) rest else .invalid 1

/-- The first fault of a byte string whose first byte has the given index; `skip` bytes belong to a
character already read. -/
def faultFrom (index : Nat) : Nat → List UInt8 → Option Fault
  | _, [] => none
  | skip + 1, _ :: rest => faultFrom (index + 1) skip rest
  | 0, first :: rest =>
    match step first rest with
    | .character length => faultFrom (index + 1) (length - 1) rest
    | .invalid length => some (.invalid length index)
    | .incomplete => some (.incomplete index)

/-- The first fault of a byte string; `none` if it is text. -/
def fault? (bytes : List UInt8) : Option Fault := faultFrom 0 0 bytes

/-- The text that a byte string encodes, or its first fault. -/
def decode (bytes : List UInt8) : Except Fault String :=
  match String.fromUTF8? ⟨bytes.toArray⟩ with
  | some text => .ok text
  | none => .error ((fault? bytes).getD (.incomplete bytes.length))

/-- The bytes that encode a text. -/
def encode (text : String) : List UInt8 := text.toUTF8.data.toList

theorem decode_encode (text : String) : decode (encode text) = .ok text := by
  have hBytes : (⟨(encode text).toArray⟩ : ByteArray) = text.toByteArray := by simp [encode]
  rw [decode, hBytes, String.fromUTF8?, dif_pos text.isValidUTF8]
  rfl

/-- A text has one encoding. -/
theorem encode_of_decode {bytes : List UInt8} {text : String} (h : decode bytes = .ok text) :
    encode text = bytes := by
  unfold decode String.fromUTF8? at h
  by_cases hValid : (⟨bytes.toArray⟩ : ByteArray).IsValidUTF8
  · rw [dif_pos hValid] at h
    cases h
    rfl
  · rw [dif_neg hValid] at h
    cases h

end CellHost.Utf8

import CellHost.Proofs.Image.Canonical

/-!
# Images delimit themselves

An image says itself where it ends. What is read as a program is a number of bytes from the front,
whatever follows them, and fewer of those bytes are refused because they run out, wherever the cut
is made: within a number, a name or a table, which is a failure of the file, or within a block of
cells, which makes the image invalid.

Both hold of every reader of a field, and of readers one after the other. So the proof for a whole
image follows the reader as it is composed, and says nothing of what the bytes mean.

## Main definitions

* `ImageError.IsShort` : the errors of bytes that run out.
* `Image.ReadsFrom` : a reader that gives a value for certain bytes and needs all of them.
* `Image.Delimits` : a reader whose success is decided by the bytes that it takes.

## Main results

* `Image.Delimits.bind` : two readers, one after the other.
* `Image.delimits_read` : the reader of images.
* `Image.read_delimits` : the bytes that an image takes up.
-/

namespace CellHost

/-- Bytes ran out: within a field, or within a block of cells. -/
inductive ImageError.IsShort : ImageError → Prop
  | field : IsShort (.file .endOfFile)
  | cells {wanted found : Nat} : found < wanted → IsShort (.cellsCutShort wanted found)

namespace Image

variable {α β : Type} {item : Reader α} {next : α → Reader β} {a : α} {b : β}
  {taken behind : List UInt8}

/-- The reader gives `a` for the bytes `taken` and leaves what follows them, and with fewer of them
it runs out. -/
structure ReadsFrom (item : Reader α) (taken : List UInt8) (a : α) : Prop where
  whole : ∀ rest, item (taken ++ rest) = .ok (a, rest)
  short : ∀ kept, kept <+: taken → kept ≠ taken → ∃ e, item kept = .error e ∧ e.IsShort

/-- What the reader gives was decided by the bytes that it took. -/
def Delimits (item : Reader α) : Prop :=
  ∀ ⦃input a rest⦄, item input = .ok (a, rest) → ∃ taken, input = taken ++ rest ∧
    ReadsFrom item taken a

/-! ## Readers one after the other -/

theorem ReadsFrom.bind (h : ReadsFrom item taken a) (hNext : ReadsFrom (next a) behind b) :
    ReadsFrom (item >>= next) (taken ++ behind) b := by
  constructor
  · intro rest
    rw [List.append_assoc, bind_of_ok (h.whole _)]
    exact hNext.whole rest
  · intro kept hKept hFewer
    -- The cut is made behind all bytes of the first reader, or within them.
    by_cases hPast : taken <+: kept
    · obtain ⟨more, rfl⟩ := hPast
      have hMore : more <+: behind := (List.prefix_append_right_inj taken).mp hKept
      obtain ⟨e, hShort, hIsShort⟩ := hNext.short more hMore fun hAll => hFewer (by rw [hAll])
      exact ⟨e, by rw [bind_of_ok (h.whole more), hShort], hIsShort⟩
    · have hIn : kept <+: taken :=
        (List.prefix_or_prefix_of_prefix hKept (List.prefix_append taken behind)).resolve_right
          hPast
      have hCut : kept ≠ taken := fun hAll => hPast (hAll ▸ List.prefix_refl kept)
      obtain ⟨e, hShort, hIsShort⟩ := h.short kept hIn hCut
      exact ⟨e, bind_of_error hShort, hIsShort⟩

theorem Delimits.bind (h : Delimits item) (hNext : ∀ a, Delimits (next a)) :
    Delimits (item >>= next) := by
  intro input b rest hRead
  obtain ⟨a, mid, hItem, hRest⟩ := bind_eq_ok.mp hRead
  obtain ⟨taken, rfl, hTaken⟩ := h hItem
  obtain ⟨behind, rfl, hBehind⟩ := hNext a hRest
  exact ⟨taken ++ behind, (List.append_assoc _ _ _).symm, hTaken.bind hBehind⟩

/-- A value that is there without reading takes no bytes. -/
theorem readsFrom_nil (h : ∀ input, item input = .ok (a, input)) : ReadsFrom item [] a :=
  ⟨h, fun _ hKept hFewer => absurd (List.prefix_nil.mp hKept) hFewer⟩

theorem delimits_pure (a : α) : Delimits (pure a : Reader α) := by
  intro input _ _ hRead
  obtain ⟨rfl, rfl⟩ := pure_eq_ok.mp hRead
  exact ⟨[], rfl, readsFrom_nil fun _ => rfl⟩

theorem delimits_throw (e : ImageError) : Delimits (throw e : Reader α) :=
  fun _ _ _ hRead => nomatch hRead

theorem delimits_lift (check : Except ImageError α) : Delimits (liftM check : Reader α) := by
  intro input a _ hRead
  obtain ⟨hCheck, rfl⟩ := lift_eq_ok.mp hRead
  exact ⟨[], rfl, readsFrom_nil fun _ => lift_eq_ok.mpr ⟨hCheck, rfl⟩⟩

/-! ## Fields -/

/-- A field of a known width is taken whole, or runs out. -/
theorem delimits_field (width : Nat) (value : List UInt8 → α) (missing : Nat → ImageError)
    (hMissing : ∀ found < width, (missing found).IsShort) :
    Delimits fun input =>
      if (input.take width).length = width then .ok (value (input.take width), input.drop width)
      else .error (missing (input.take width).length) := by
  intro input a rest hRead
  dsimp only at hRead
  split at hRead
  · next hWidth =>
      cases hRead
      refine ⟨input.take width, (List.take_append_drop width input).symm, fun rest => ?_,
        fun kept hKept hFewer => ?_⟩
      · rw [List.take_left' hWidth, List.drop_left' hWidth, if_pos hWidth]
      · have hLength : kept.length < width := by
          have hLe := hKept.length_le
          have hNe : kept.length ≠ (input.take width).length := fun h =>
            hFewer (hKept.eq_of_length h)
          omega
        have hAll : kept.take width = kept := List.take_of_length_le (Nat.le_of_lt hLength)
        refine ⟨missing kept.length, ?_, hMissing _ hLength⟩
        rw [hAll, if_neg (Nat.ne_of_lt hLength)]
  · cases hRead

theorem delimits_bytes (count : Nat) : Delimits (bytes count) :=
  delimits_field count id (fun _ => .file .endOfFile) fun _ _ => .field

theorem delimits_number (width : Nat) : Delimits (number width) :=
  (delimits_bytes width).bind fun _ => delimits_pure _

theorem delimits_readCells : Delimits readCells :=
  (delimits_number 4).bind fun count =>
    delimits_field (count * cellSize) (cellsOf #[]) (.cellsCutShort (count * cellSize))
      fun _ hFound => .cells hFound

theorem delimits_readName : Delimits readName := by
  refine (delimits_number 2).bind fun length => (delimits_bytes length).bind fun encoded => ?_
  cases Utf8.decode encoded with
  | ok name => exact delimits_pure name
  | error fault => exact delimits_throw _

theorem readItems_succ (item : Reader α) (count : Nat) (done : List α) :
    readItems item (count + 1) done = item >>= fun a => readItems item count (a :: done) := by
  funext input
  rw [readItems]
  cases hItem : item input with
  | error e => rw [bind_of_error hItem]
  | ok first => rw [bind_of_ok hItem]

theorem delimits_readItems (h : Delimits item) (count : Nat) (done : List α) :
    Delimits (readItems item count done) := by
  induction count generalizing done with
  | zero => exact delimits_pure done.reverse
  | succ count ih =>
      rw [readItems_succ]
      exact h.bind fun a => ih (a :: done)

theorem delimits_readMany (h : Delimits item) : Delimits (readMany item) :=
  (delimits_number 4).bind fun count => delimits_readItems h count []

theorem delimits_readPublic : Delimits readPublic :=
  delimits_readName.bind fun _ => (delimits_number 4).bind fun _ => delimits_pure _

theorem delimits_readRow : Delimits readRow :=
  (delimits_number 4).bind fun _ => (delimits_number 2).bind fun _ =>
    (delimits_number 4).bind fun _ => delimits_pure _

theorem delimits_readLines : Delimits readLines :=
  (delimits_readMany delimits_readName).bind fun _ =>
    (delimits_readMany delimits_readRow).bind fun _ => delimits_pure _

theorem delimits_readMark : Delimits readMark := by
  refine (delimits_bytes _).bind fun found => ?_
  split
  · exact delimits_pure ()
  · exact delimits_throw _

theorem delimits_readFormat : Delimits readFormat := by
  refine (delimits_number 2).bind fun found => ?_
  split
  · exact delimits_pure ()
  · exact delimits_throw _

theorem delimits_readMain : Delimits readMain := by
  refine (delimits_number 4).bind fun entry => ?_
  split
  · exact delimits_pure none
  · split
    · exact delimits_pure (some entry)
    · exact delimits_throw _

/-! ## Whole images -/

theorem delimits_readBody : Delimits readBody :=
  delimits_readMark.bind fun _ => delimits_readFormat.bind fun _ =>
    (delimits_number 2).bind fun _ => delimits_readMain.bind fun _ =>
    delimits_readCells.bind fun _ => delimits_readCells.bind fun _ =>
    (delimits_readMany delimits_readPublic).bind fun _ =>
    (delimits_readMany delimits_readName).bind fun _ => delimits_pure _

/-- **What is read as a program delimits itself**, with its line table and without. -/
theorem delimits_read (withLines : Bool) : Delimits (read withLines) := by
  refine delimits_readBody.bind fun p => (delimits_lift (checkEntries p)).bind fun _ => ?_
  split
  · exact delimits_readLines.bind fun _ => delimits_pure _
  · exact delimits_pure p

/-- **The bytes that an image takes up.** What was read as a program is read as that program
wherever its first `count` bytes stand in front, with what follows them left over; fewer of them are
refused because they run out; and the entries of the program are addresses in its code. -/
theorem read_delimits {withLines : Bool} {input rest : List UInt8} {p : Program}
    (hRead : read withLines input = .ok (p, rest)) :
    ∃ count ≤ input.length,
      rest = input.drop count ∧
      (∀ other : List UInt8, other.take count = input.take count →
        read withLines other = .ok (p, other.drop count)) ∧
      (∀ fewer < count, ∃ e, read withLines (input.take fewer) = .error e ∧ e.IsShort) ∧
      EntriesInside p := by
  obtain ⟨-, hInside, -⟩ := read_eq_ok.mp hRead
  obtain ⟨taken, rfl, hTaken⟩ := delimits_read withLines hRead
  have hFront : (taken ++ rest).take taken.length = taken := List.take_left
  refine ⟨taken.length, by simp, List.drop_left.symm, fun other hOther => ?_,
    fun fewer hFewer => ?_, hInside⟩
  · rw [hFront] at hOther
    obtain ⟨more, rfl⟩ : taken <+: other := hOther ▸ List.take_prefix taken.length other
    rw [List.drop_left]
    exact hTaken.whole more
  · have hKept : (taken ++ rest).take fewer = taken.take fewer :=
      List.take_append_of_le_length (Nat.le_of_lt hFewer)
    rw [hKept]
    refine hTaken.short _ (List.take_prefix fewer taken) fun hAll => ?_
    have hLength := congrArg List.length hAll
    rw [List.length_take] at hLength
    omega

/-- An image of a program with one public and one native, with a line table of one row and one byte
behind it. -/
def followed : List UInt8 :=
  [0x43, 0x56, 0x4d, 0x58, 1, 0, 1, 0, 255, 255, 255, 255,
    2, 0, 0, 0, 1, 0, 0, 0, 0, 0, 0, 0, 0, 0, 0, 0,
    1, 0, 0, 0, 1, 0, 112, 4, 0, 0, 0, 1, 0, 0, 0, 1, 0, 110,
    1, 0, 0, 0, 1, 0, 97, 1, 0, 0, 0, 4, 0, 0, 0, 0, 0, 9, 0, 0, 0, 7]

/-- The program of that image. -/
def followedProgram : Program where
  flags := 1
  code := #[1, 0]
  publics := [⟨"p", 4⟩]
  natives := ["n"]
  lines := some (.ofParts ["a"] [⟨4, 0, 9⟩])

/-- The image takes up all bytes but the last; it is refused when cut within its line table. -/
theorem read_delimits_followed :
    read true followed = .ok (followedProgram, [7]) ∧
      (∀ other : List UInt8, other.take 67 = followed.take 67 →
        read true other = .ok (followedProgram, other.drop 67)) ∧
      (∃ e, read true (followed.take 60) = .error e ∧ e.IsShort) ∧
      EntriesInside followedProgram := by
  have hRead : read true followed = .ok (followedProgram, [7]) := rfl
  obtain ⟨count, hCount, hRest, hOther, hFewer, hInside⟩ := read_delimits hRead
  have hLength : [(7 : UInt8)].length = followed.length - count := by rw [hRest, List.length_drop]
  have hBytes : followed.length = 68 := rfl
  obtain rfl : count = 67 := by
    rw [List.length_singleton] at hLength
    omega
  exact ⟨hRead, hOther, hFewer 60 (by omega), hInside⟩

end Image

end CellHost

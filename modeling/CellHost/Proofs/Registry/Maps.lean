import CellHost.Proofs.Registry.Bounded
import CellHost.Registries
import Mathlib.Data.Finmap

/-!
# Registries are finite maps

Whatever is done with registries and the cells they share is what it would be if each registry were a
finite map from tags to typed values, with room for four. Copies are maps of their own. A shared cell
is one thing, however many registries refer to it.

The maps do not keep the order of entry, which no answer here depends on.

## Main definitions

* `EntryType`, `Typed` : the types of entries, and a value with its type.
* `RegistryAct` : what a host can do with registries.
* `Registries.perform`, `Maps.perform` : the same act on registries and on finite maps.
* `Registries.Represents` : registries with the same contents as maps.

## Main results

* `Maps.load_store` : a value stored through one map is seen through the others.
* `Registry.Represents.find?` : a typed look-up is a look-up in the map, followed by a test of type.
* `Registries.Represents.perform` : an act gets the same answer from registries as from the maps that
  they represent, and they go on representing them.
* `registries_are_maps` : so does any number of acts.
-/

namespace CellHost

/-! ## Typed values -/

/-- The types of entries. -/
inductive EntryType where
  | number
  | text
  | cell
  | arguments
  | usage
  | timer
  | idle
  deriving DecidableEq, Repr

namespace EntryType

/-- The values of a type. A cell, a usage record and a timer are objects, and have references. -/
def Value : EntryType → Type
  | number => Cell
  | text => String
  | cell => Nat
  | arguments => List String
  | usage => Nat
  | timer => Nat
  | idle => IdleFunction

/-- The entry with a value. -/
def entry : (type : EntryType) → type.Value → Entry
  | number, value => .number value
  | text, value => .text value
  | cell, ref => .cell ref
  | arguments, values => .arguments values
  | usage, ref => .usage ref
  | timer, ref => .timer ref
  | idle, handler => .idle handler

/-- The value of an entry that is of this type. -/
def view : (type : EntryType) → Entry → Option type.Value
  | number => Entry.number?
  | text => Entry.text?
  | cell => Entry.cell?
  | arguments => Entry.arguments?
  | usage => Entry.usage?
  | timer => Entry.timer?
  | idle => Entry.idle?

end EntryType

/-- A value with its type. -/
abbrev Typed := Σ type : EntryType, type.Value

namespace Typed

/-- The value, if it is of the type asked for. -/
def as? (type : EntryType) (value : Typed) : Option type.Value :=
  if h : value.1 = type then some (h ▸ value.2) else none

/-- The entry that holds a value. -/
def entry (value : Typed) : Entry := value.1.entry value.2

/-- A typed look-up tests the type and nothing else. -/
theorem view_entry (type : EntryType) (value : Typed) : type.view value.entry = value.as? type := by
  obtain ⟨stored, value⟩ := value
  cases type <;> cases stored <;> rfl

/-- Every entry holds a value of some type. -/
theorem exists_entry_eq (e : Entry) : ∃ value : Typed, value.entry = e := by
  cases e with
  | number value => exact ⟨⟨.number, value⟩, rfl⟩
  | text value => exact ⟨⟨.text, value⟩, rfl⟩
  | cell ref => exact ⟨⟨.cell, ref⟩, rfl⟩
  | arguments values => exact ⟨⟨.arguments, values⟩, rfl⟩
  | usage ref => exact ⟨⟨.usage, ref⟩, rfl⟩
  | timer ref => exact ⟨⟨.timer, ref⟩, rfl⟩
  | idle handler => exact ⟨⟨.idle, handler⟩, rfl⟩

end Typed

/-! ## Acts and answers -/

/-- What a host can do with registries. They go by number, number zero being there from the start. -/
inductive RegistryAct where
  | set (n : Nat) (tag : Tag) (value : Typed)
  | remove (n : Nat) (tag : Tag)
  | clone (n : Nat)
  | get (n : Nat) (tag : Tag) (type : EntryType)
  | contains (n : Nat) (tag : Tag)
  | count (n : Nat)
  /-- Make a cell that registries can share. -/
  | allot (value : Cell)
  /-- Read the shared cell under a tag. -/
  | load (n : Nat) (tag : Tag)
  /-- Write the shared cell under a tag. -/
  | store (n : Nat) (tag : Tag) (value : Cell)

/-- What the host is told. -/
inductive RegistryAnswer where
  | done
  | refused (e : MachineError)
  | flag (value : Bool)
  | number (value : Nat)
  | entry (type : EntryType) (value : Option type.Value)
  | contents (value : Option Cell)

/-- An act on registries. -/
def Registries.perform (rs : Registries) : RegistryAct → RegistryAnswer × Registries
  | .set n tag value =>
    match rs.set n tag value.entry with
    | .ok rs' => (.done, rs')
    | .error e => (.refused e, rs)
  | .remove n tag => (.flag ((rs.get n).contains tag), rs.remove n tag)
  | .clone n => (.number (rs.copy n).1, (rs.copy n).2)
  | .get n tag type => (.entry type ((rs.get n).find? tag type.view), rs)
  | .contains n tag => (.flag ((rs.get n).contains tag), rs)
  | .count n => (.number (rs.get n).size, rs)
  | .allot value => (.entry .cell (EntryType.cell.view (rs.newCell value).1), (rs.newCell value).2)
  | .load n tag => (.contents (rs.cell? n tag), rs)
  | .store n tag value => (.flag (rs.setCell? n tag value).isSome, (rs.setCell? n tag value).getD rs)

/-! ## Finite maps -/

/-- Finite maps by number, and the contents of the shared cells. -/
structure Maps where
  all : List (Finmap fun _ : Tag => Typed) := [∅]
  cells : List Cell := []

namespace Maps

/-- The map with a number. -/
def get (ms : Maps) (n : Nat) : Finmap fun _ : Tag => Typed := ms.all.getD n ∅

/-- The maps with another one in place of that with a number. -/
def put (ms : Maps) (n : Nat) (m : Finmap fun _ : Tag => Typed) : Maps :=
  { ms with all := ms.all.set n m }

theorem get_concat (ms : Maps) (m : Finmap fun _ : Tag => Typed) (k : Nat) :
    ({ ms with all := ms.all ++ [m] } : Maps).get k =
      if k = ms.all.length then m else ms.get k := by
  rw [get, get, List.getD_eq_getElem?_getD, List.getD_eq_getElem?_getD, List.getElem?_append]
  rcases Nat.lt_trichotomy k ms.all.length with hOld | hNew | hNone
  · rw [if_pos hOld, if_neg (Nat.ne_of_lt hOld)]
  · simp [hNew]
  · simp [Nat.not_lt_of_gt hNone, Nat.ne_of_gt hNone, Nat.sub_ne_zero_of_lt hNone]

/-- The reference of the shared cell under a tag. -/
def cell? (ms : Maps) (n : Nat) (tag : Tag) : Option Nat :=
  ((ms.get n).lookup tag).bind (Typed.as? .cell)

/-- An act on finite maps. A tag can be set if it is there or fewer than four others are. -/
def perform (ms : Maps) : RegistryAct → RegistryAnswer × Maps
  | .set n tag value =>
    if tag ∈ ms.get n ∨ (ms.get n).keys.card < 4 then (.done, ms.put n ((ms.get n).insert tag value))
    else (.refused .userDataFull, ms)
  | .remove n tag => (.flag (decide (tag ∈ ms.get n)), ms.put n ((ms.get n).erase tag))
  | .clone n => (.number ms.all.length, { ms with all := ms.all ++ [ms.get n] })
  | .get n tag type => (.entry type (((ms.get n).lookup tag).bind (Typed.as? type)), ms)
  | .contains n tag => (.flag (decide (tag ∈ ms.get n)), ms)
  | .count n => (.number (ms.get n).keys.card, ms)
  | .allot value => (.entry .cell (some ms.cells.length), { ms with cells := ms.cells ++ [value] })
  | .load n tag => (.contents ((ms.cell? n tag).map fun ref => ms.cells.getD ref 0), ms)
  | .store n tag value =>
    match ms.cell? n tag with
    | some ref => (.flag true, { ms with cells := ms.cells.set ref value })
    | none => (.flag false, ms)

/-- What is stored through one map is read through every map that has the cell. -/
theorem load_store {ms : Maps} {n m : Nat} {tag other : Tag} {ref : Nat}
    (hAllotted : ref < ms.cells.length) (hHere : ms.cell? n tag = some ref)
    (hThere : ms.cell? m other = some ref) (value : Cell) :
    ((ms.perform (.store n tag value)).2.perform (.load m other)).1 = .contents (some value) := by
  have hStored : (ms.perform (.store n tag value)).2 =
      { ms with cells := ms.cells.set ref value } := by
    rw [perform, hHere]
  have hStill : ({ ms with cells := ms.cells.set ref value } : Maps).cell? m other = some ref :=
    hThere
  rw [hStored, perform, hStill, Option.map_some, List.getD_eq_getElem?_getD,
    List.getElem?_set_self hAllotted, Option.getD_some]

end Maps

/-! ## One registry and its map -/

namespace Registry

/-- The registry has the contents of the map, and is within its bounds. -/
structure Represents (r : Registry Entry) (m : Finmap fun _ : Tag => Typed) : Prop where
  bounded : r.Bounded
  entry (tag : Tag) : r.get? tag = (m.lookup tag).map Typed.entry

namespace Represents

variable {r r' : Registry Entry} {m : Finmap fun _ : Tag => Typed}

theorem mem_tags_iff (h : r.Represents m) (tag : Tag) : tag ∈ r.tags ↔ tag ∈ m := by
  rw [← isSome_get?_iff, h.entry, Option.isSome_map, Finmap.lookup_isSome]

theorem contains_eq (h : r.Represents m) (tag : Tag) : r.contains tag = decide (tag ∈ m) := by
  rw [Bool.eq_iff_iff, contains_iff_mem_tags, h.mem_tags_iff, decide_eq_true_iff]

theorem card_keys (h : r.Represents m) : m.keys.card = r.size := by
  have hKeys : r.tags.toFinset = m.keys := by
    ext tag
    rw [List.mem_toFinset, h.mem_tags_iff, Finmap.mem_keys]
  rw [← hKeys, List.toFinset_card_of_nodup h.bounded.once, length_tags]

theorem find? (h : r.Represents m) (tag : Tag) (type : EntryType) :
    r.find? tag type.view = (m.lookup tag).bind (Typed.as? type) := by
  rw [Registry.find?, h.entry]
  cases m.lookup tag with
  | none => rfl
  | some value => exact Typed.view_entry type value

theorem empty : (Registry.empty : Registry Entry).Represents ∅ :=
  ⟨Bounded.empty, fun _ => rfl⟩

theorem set {tag : Tag} {value : Typed} (h : r.Represents m)
    (hSet : r.set tag value.entry = .ok r') : r'.Represents (m.insert tag value) := by
  refine ⟨h.bounded.set hSet, fun other => ?_⟩
  rw [get?_set hSet]
  split
  next same => rw [← same, Finmap.lookup_insert, Option.map_some]
  next different => rw [Finmap.lookup_insert_of_ne _ (Ne.symm different), h.entry]

theorem remove (h : r.Represents m) (tag : Tag) : (r.remove tag).Represents (m.erase tag) := by
  refine ⟨h.bounded.remove tag, fun other => ?_⟩
  rw [get?_remove]
  split
  next same => rw [← same, Finmap.lookup_erase, Option.map_none]
  next different => rw [Finmap.lookup_erase_ne (Ne.symm different), h.entry]

end Represents

end Registry

/-! ## Many registries and their maps -/

namespace Registries

/-- A copy has the bindings of its original, and all other registries are as they were. -/
theorem get_copy (rs : Registries) (n k : Nat) :
    (rs.copy n).2.get k = if k = rs.all.size then rs.get n else rs.get k := by
  rw [get, copy, Array.getD_eq_getD_getElem?, Array.getElem?_push]
  split
  · rfl
  · rw [get, Array.getD_eq_getD_getElem?]

/-- There are as many registries as maps, each has the contents of the map with its number, and the
shared cells have the same contents. -/
structure Represents (rs : Registries) (ms : Maps) : Prop where
  count : rs.all.size = ms.all.length
  registry (n : Nat) : (rs.get n).Represents (ms.get n)
  cells : rs.objects.cells.toList = ms.cells

namespace Represents

variable {rs : Registries} {ms : Maps}

theorem put (h : rs.Represents ms) (n : Nat) {r : Registry Entry} {m : Finmap fun _ : Tag => Typed}
    (hNew : r.Represents m) : (rs.put n r).Represents (ms.put n m) := by
  by_cases hThere : n < rs.all.size
  · refine ⟨?_, fun k => ?_, h.cells⟩
    · simpa [Registries.put, Maps.put] using h.count
    by_cases hSame : n = k
    · subst hSame
      have hMap : (ms.put n m).get n = m := by
        simp [Maps.put, Maps.get, ← h.count, hThere]
      rwa [get_put hThere, hMap]
    · have hMap : (ms.put n m).get k = ms.get k := by
        simp [Maps.put, Maps.get, hSame]
      rw [get_put_of_ne rs hSame, hMap]
      exact h.registry k
  · have hRegistries : rs.put n r = rs := by
      rw [Registries.put, Array.setIfInBounds_eq_of_size_le (Nat.le_of_not_lt hThere)]
    have hMaps : ms.put n m = ms := by
      rw [Maps.put, List.set_eq_of_length_le (h.count ▸ Nat.le_of_not_lt hThere)]
    rwa [hRegistries, hMaps]

theorem copy (h : rs.Represents ms) (n : Nat) :
    (rs.copy n).2.Represents { ms with all := ms.all ++ [ms.get n] } := by
  refine ⟨?_, fun k => ?_, h.cells⟩
  · simpa [Registries.copy] using h.count
  rw [get_copy, Maps.get_concat, h.count]
  split
  · exact h.registry n
  · exact h.registry k

theorem cell? (h : rs.Represents ms) (n : Nat) (tag : Tag) :
    (rs.get n).find? tag Entry.cell? = ms.cell? n tag :=
  (h.registry n).find? tag .cell

/-- An act gets the same answer from registries as from the maps that they represent, and leaves
registries that represent the maps after it. -/
theorem perform (h : rs.Represents ms) (act : RegistryAct) :
    (rs.perform act).1 = (ms.perform act).1 ∧ (rs.perform act).2.Represents (ms.perform act).2 := by
  cases act with
  | set n tag value =>
    have hRoom : (∃ r, (rs.get n).set tag value.entry = .ok r) ↔
        tag ∈ ms.get n ∨ (ms.get n).keys.card < 4 := by
      rw [Registry.set_ok_iff, (h.registry n).mem_tags_iff, (h.registry n).card_keys]
      rfl
    rw [Registries.perform, Maps.perform, Registries.set]
    cases hSet : (rs.get n).set tag value.entry with
    | ok r =>
      rw [if_pos (hRoom.mp ⟨r, hSet⟩)]
      exact ⟨rfl, h.put n ((h.registry n).set hSet)⟩
    | error e =>
      have hFull : ¬(tag ∈ ms.get n ∨ (ms.get n).keys.card < 4) := fun room => by
        obtain ⟨r, hOk⟩ := hRoom.mpr room
        rw [hSet] at hOk
        cases hOk
      rw [if_neg hFull, Registry.set_error hSet]
      exact ⟨rfl, h⟩
  | remove n tag =>
    refine ⟨?_, h.put n ((h.registry n).remove tag)⟩
    rw [Registries.perform, Maps.perform, (h.registry n).contains_eq]
  | clone n =>
    refine ⟨?_, h.copy n⟩
    rw [Registries.perform, Maps.perform, Registries.copy, h.count]
  | get n tag type =>
    refine ⟨?_, h⟩
    rw [Registries.perform, Maps.perform, (h.registry n).find?]
  | contains n tag =>
    refine ⟨?_, h⟩
    rw [Registries.perform, Maps.perform, (h.registry n).contains_eq]
  | count n =>
    refine ⟨?_, h⟩
    rw [Registries.perform, Maps.perform, (h.registry n).card_keys]
  | allot value =>
    have hRef : rs.objects.cells.size = ms.cells.length := by rw [← h.cells, Array.length_toList]
    refine ⟨?_, h.count, h.registry, ?_⟩
    · exact congrArg (fun ref => RegistryAnswer.entry .cell (some ref)) hRef
    · rw [Registries.perform, Maps.perform, ← h.cells]
      exact Array.toList_push
  | load n tag =>
    refine ⟨?_, h⟩
    have hContents (ref : Nat) : rs.objects.cell ref = ms.cells.getD ref 0 := by
      rw [← h.cells, Objects.cell, Array.getD_eq_getD_getElem?, List.getD_eq_getElem?_getD,
        Array.getElem?_toList]
    rw [Registries.perform, Maps.perform, Registries.cell?, h.cell?]
    exact congrArg (fun f => RegistryAnswer.contents ((ms.cell? n tag).map f)) (funext hContents)
  | store n tag value =>
    rw [Registries.perform, Maps.perform, Registries.setCell?, h.cell?]
    cases ms.cell? n tag with
    | none => exact ⟨rfl, h⟩
    | some ref =>
      refine ⟨rfl, h.count, h.registry, ?_⟩
      rw [← h.cells]
      exact Array.toList_setIfInBounds ..

end Represents

/-- Acts one after the other, with their answers. -/
def performAll (rs : Registries) : List RegistryAct → List RegistryAnswer × Registries
  | [] => ([], rs)
  | act :: rest =>
    let (answers, rs') := (rs.perform act).2.performAll rest
    ((rs.perform act).1 :: answers, rs')

end Registries

/-- Acts one after the other, with their answers. -/
def Maps.performAll (ms : Maps) : List RegistryAct → List RegistryAnswer × Maps
  | [] => ([], ms)
  | act :: rest =>
    let (answers, ms') := (ms.perform act).2.performAll rest
    ((ms.perform act).1 :: answers, ms')

theorem Registries.Represents.performAll {rs : Registries} {ms : Maps} (h : rs.Represents ms)
    (acts : List RegistryAct) :
    (rs.performAll acts).1 = (ms.performAll acts).1 ∧
      (rs.performAll acts).2.Represents (ms.performAll acts).2 := by
  induction acts generalizing rs ms with
  | nil => exact ⟨rfl, h⟩
  | cons act rest ih =>
    obtain ⟨hAnswer, hAfter⟩ := h.perform act
    obtain ⟨hAnswers, hEnd⟩ := ih hAfter
    exact ⟨congrArg₂ List.cons hAnswer hAnswers, hEnd⟩

theorem Registries.Represents.start : ({} : Registries).Represents {} := by
  refine ⟨rfl, fun n => ?_, rfl⟩
  cases n with
  | zero => exact .empty
  | succ n => exact .empty

/-- **Main theorem.** Whatever a host does with registries, starting from an empty one, it is told
what finite maps with room for four tags would tell it, and each registry has the contents of its map,
every tag once. -/
theorem registries_are_maps (acts : List RegistryAct) :
    (({} : Registries).performAll acts).1 = (({} : Maps).performAll acts).1 ∧
      (({} : Registries).performAll acts).2.Represents (({} : Maps).performAll acts).2 :=
  Registries.Represents.start.performAll acts

/-- What is stored through a copy is read through the original, which keeps the tag that is taken out
of the copy. -/
example :
    (({} : Registries).performAll
      [.allot 1, .set 0 .timer ⟨.cell, (0 : Nat)⟩, .clone 0, .store 1 .timer 8, .load 0 .timer,
       .remove 1 .timer, .contains 0 .timer, .get 0 .timer .text]).1 =
      [.entry .cell (some (0 : Nat)), .done, .number 1, .flag true, .contents (some 8), .flag true,
       .flag true, .entry .text none] := rfl

end CellHost

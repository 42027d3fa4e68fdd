import CellHost.Entry
import CellHost.Registry

/-!
# Registries that share objects

A host can keep any number of registries. Copying one copies its bindings, so that the copies go
their own ways afterwards, while the objects that their entries refer to belong to all of them.

## Main definitions

* `Registries.set`, `Registries.remove` : changing the bindings of one registry.
* `Registries.copy` : one more registry with the same bindings.
* `Registries.cell?`, `Registries.setCell?` : a shared cell, as one registry sees it.
-/

namespace CellHost

/-- Registries by number, with the objects that their entries refer to. -/
structure Registries where
  all : Array (Registry Entry) := #[{}]
  objects : Objects := {}
  deriving Repr, Inhabited

namespace Registries

/-- The registry with a number. -/
def get (rs : Registries) (n : Nat) : Registry Entry := rs.all.getD n {}

/-- The registries with another one in place of that with a number. -/
def put (rs : Registries) (n : Nat) (r : Registry Entry) : Registries :=
  { rs with all := rs.all.setIfInBounds n r }

/-- File an entry in a registry. -/
def set (rs : Registries) (n : Nat) (tag : Tag) (entry : Entry) :
    Except MachineError Registries :=
  ((rs.get n).set tag entry).map (rs.put n)

/-- Take a tag out of a registry. -/
def remove (rs : Registries) (n : Nat) (tag : Tag) : Registries :=
  rs.put n ((rs.get n).remove tag)

/-- A copy of a registry and its number. -/
def copy (rs : Registries) (n : Nat) : Nat × Registries :=
  (rs.all.size, { rs with all := rs.all.push (rs.get n) })

/-- An entry for a fresh shared cell. -/
def newCell (rs : Registries) (value : Cell) : Entry × Registries :=
  let (ref, objects) := rs.objects.newCell value
  (.cell ref, { rs with objects })

/-- The contents of the shared cell under a tag. -/
def cell? (rs : Registries) (n : Nat) (tag : Tag) : Option Cell :=
  ((rs.get n).find? tag Entry.cell?).map rs.objects.cell

/-- Store into the shared cell under a tag, if there is one. -/
def setCell? (rs : Registries) (n : Nat) (tag : Tag) (value : Cell) : Option Registries :=
  ((rs.get n).find? tag Entry.cell?).map fun ref =>
    { rs with objects := rs.objects.setCell ref value }

theorem get_put {rs : Registries} {n : Nat} (h : n < rs.all.size) (r : Registry Entry) :
    (rs.put n r).get n = r := by
  simp [get, put, h]

theorem get_put_of_ne (rs : Registries) {n m : Nat} (h : n ≠ m) (r : Registry Entry) :
    (rs.put n r).get m = rs.get m := by
  simp [get, put, Array.getD_eq_getD_getElem?, h]

end Registries

end CellHost

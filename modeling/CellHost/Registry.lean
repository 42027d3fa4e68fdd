import CellHost.MachineError
import CellHost.Tag

/-!
# Registries

A registry is a small map from tags to entries, kept in order of first entry. It has room for four
tags: setting a fifth is refused, while setting one that is there replaces its entry. Copying a
registry copies the bindings, so the copies go their own ways afterwards; what an entry refers to is
not part of the registry and stays shared.

The entry type is left open. A typed look-up is `find?` with a view of the entries: an entry of
another kind reads as absent.

## Main results

* `Registry.get?_set` : what is set is found, and no other tag is affected.
* `Registry.size_le_of_set` : setting never takes a registry past its room.
-/

namespace CellHost

/-- Tags with their entries, in order of first entry. -/
structure Registry (ε : Type) where
  entries : List (Tag × ε) := []
  deriving Repr, Inhabited

namespace Registry

variable {ε α : Type}

/-- How many tags a registry has room for. -/
def slots : Nat := 4

/-- The registry without entries. -/
def empty : Registry ε := {}

/-- The entry under a tag. -/
def get? (r : Registry ε) (tag : Tag) : Option ε :=
  (r.entries.find? fun entry => entry.1 == tag).map (·.2)

/-- The entry under a tag, if it is of the kind that `view` accepts. -/
def find? (r : Registry ε) (tag : Tag) (view : ε → Option α) : Option α :=
  (r.get? tag).bind view

/-- Whether a tag has an entry. -/
def contains (r : Registry ε) (tag : Tag) : Bool := r.entries.any fun entry => entry.1 == tag

/-- The tags that have an entry, oldest first. -/
def tags (r : Registry ε) : List Tag := r.entries.map (·.1)

/-- The number of tags. -/
def size (r : Registry ε) : Nat := r.entries.length

/-- An entry of a registry after setting a tag that it has. -/
def replaced (tag : Tag) (entry : ε) (old : Tag × ε) : Tag × ε :=
  if old.1 = tag then (tag, entry) else old

/-- File an entry under a tag, in place of the one that is there; a new tag needs a free slot. -/
def set (r : Registry ε) (tag : Tag) (entry : ε) : Except MachineError (Registry ε) :=
  if r.contains tag then .ok ⟨r.entries.map (replaced tag entry)⟩
  else if r.size < slots then .ok ⟨r.entries ++ [(tag, entry)]⟩
  else .error .userDataFull

/-- The registry without a tag. -/
def remove (r : Registry ε) (tag : Tag) : Registry ε :=
  ⟨r.entries.filter fun entry => entry.1 != tag⟩

/-- The tags as a listing shows them. -/
def describe (r : Registry ε) : String :=
  "[" ++ ", ".intercalate (r.tags.map Tag.describe) ++ "]"

theorem get?_cons (tag other : Tag) (entry : ε) (rest : List (Tag × ε)) :
    get? ⟨(tag, entry) :: rest⟩ other = if tag = other then some entry else get? ⟨rest⟩ other := by
  by_cases h : tag = other <;> simp [get?, h]

theorem contains_cons (tag other : Tag) (entry : ε) (rest : List (Tag × ε)) :
    contains ⟨(tag, entry) :: rest⟩ other = (tag == other || contains ⟨rest⟩ other) := rfl

theorem get?_replace_self {entries : List (Tag × ε)} {tag : Tag} {entry : ε}
    (h : contains ⟨entries⟩ tag = true) :
    get? ⟨entries.map (replaced tag entry)⟩ tag = some entry := by
  induction entries with
  | nil => cases h
  | cons head rest ih =>
    rw [List.map_cons, replaced]
    split
    · rw [get?_cons, if_pos rfl]
    next other =>
      rw [contains_cons, beq_false_of_ne other, Bool.false_or] at h
      rw [get?_cons, if_neg other, ih h]

theorem get?_replace_of_ne {tag other : Tag} (h : tag ≠ other) (entry : ε)
    (entries : List (Tag × ε)) :
    get? ⟨entries.map (replaced tag entry)⟩ other = get? ⟨entries⟩ other := by
  induction entries with
  | nil => rfl
  | cons head rest ih =>
    rw [List.map_cons, replaced]
    split
    next same => rw [get?_cons, get?_cons, same, if_neg h, if_neg h, ih]
    next => rw [get?_cons, get?_cons, ih]

theorem get?_append_self {entries : List (Tag × ε)} {tag : Tag} (entry : ε)
    (h : contains ⟨entries⟩ tag = false) : get? ⟨entries ++ [(tag, entry)]⟩ tag = some entry := by
  induction entries with
  | nil => rw [List.nil_append, get?_cons, if_pos rfl]
  | cons head rest ih =>
    rw [contains_cons, Bool.or_eq_false_iff, beq_eq_false_iff_ne] at h
    rw [List.cons_append, get?_cons, if_neg h.1, ih h.2]

theorem get?_append_of_ne {tag other : Tag} (h : tag ≠ other) (entry : ε)
    (entries : List (Tag × ε)) :
    get? ⟨entries ++ [(tag, entry)]⟩ other = get? ⟨entries⟩ other := by
  induction entries with
  | nil => rw [List.nil_append, get?_cons, if_neg h]
  | cons head rest ih => rw [List.cons_append, get?_cons, get?_cons, ih]

theorem get?_set {r r' : Registry ε} {tag : Tag} {entry : ε} (h : r.set tag entry = .ok r')
    (other : Tag) : r'.get? other = if tag = other then some entry else r.get? other := by
  rw [set] at h
  split at h
  next found =>
    cases h
    split
    next same => exact same ▸ get?_replace_self found
    next different => exact get?_replace_of_ne different entry r.entries
  next missing =>
    split at h
    · cases h
      split
      next same => exact same ▸ get?_append_self entry (eq_false_of_ne_true missing)
      next different => exact get?_append_of_ne different entry r.entries
    · cases h

theorem size_le_of_set {r r' : Registry ε} {tag : Tag} {entry : ε} (h : r.set tag entry = .ok r')
    (hSize : r.size ≤ slots) : r'.size ≤ slots := by
  rw [set] at h
  split at h
  · cases h
    rwa [size, List.length_map]
  · split at h
    next room =>
      cases h
      rw [size, List.length_append]
      exact room
    next => cases h

end Registry

end CellHost

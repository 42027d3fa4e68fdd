import CellHost.Registry

/-!
# What a registry holds

A registry holds each of its tags once and has room for four. Replacing an entry needs no room, and a
tag that is taken out leaves all others as they are.

## Main definitions

* `Registry.Bounded` : every tag once, and no more tags than there is room for.

## Main results

* `Registry.set_ok_iff` : what can be set.
* `Registry.get?_remove` : what is left after a tag is taken out.
* `Registry.Bounded.set`, `Registry.Bounded.remove` : registries stay within these bounds.
-/

namespace CellHost

namespace Registry

variable {ε : Type} {r r' : Registry ε} {tag : Tag} {entry : ε}

/-! ## Tags -/

theorem contains_iff_mem_tags : r.contains tag = true ↔ tag ∈ r.tags := by
  simp [contains, tags]

theorem isSome_get?_iff : (r.get? tag).isSome = true ↔ tag ∈ r.tags := by
  simp [get?, tags]

theorem length_tags (r : Registry ε) : r.tags.length = r.size := List.length_map _

theorem tags_replaced (tag : Tag) (entry : ε) (entries : List (Tag × ε)) :
    tags ⟨entries.map (replaced tag entry)⟩ = tags ⟨entries⟩ := by
  rw [tags, tags, List.map_map]
  refine List.map_congr_left fun old _ => ?_
  rw [Function.comp_apply, replaced]
  split
  next same => exact same.symm
  next => rfl

/-! ## Setting -/

theorem tags_set (h : r.set tag entry = .ok r') :
    r'.tags = if tag ∈ r.tags then r.tags else r.tags ++ [tag] := by
  rw [set] at h
  split at h
  next found =>
    cases h
    rw [if_pos (contains_iff_mem_tags.mp found)]
    exact tags_replaced tag entry r.entries
  next missing =>
    rw [if_neg fun found => missing (contains_iff_mem_tags.mpr found)]
    split at h
    · cases h
      exact List.map_append
    · cases h

/-- A tag can be set exactly if it is there or there is room for one more. -/
theorem set_ok_iff : (∃ r', r.set tag entry = .ok r') ↔ tag ∈ r.tags ∨ r.size < slots := by
  rw [set, ← contains_iff_mem_tags]
  by_cases hFound : r.contains tag = true
  · simp [hFound]
  · by_cases hRoom : r.size < slots <;> simp [hFound, hRoom]

/-- The only way to be refused is for want of room. -/
theorem set_error {e : MachineError} (h : r.set tag entry = .error e) : e = .userDataFull := by
  rw [set] at h
  split at h
  · cases h
  · split at h
    · cases h
    · cases h
      rfl

theorem size_set_le (h : r.set tag entry = .ok r') : r'.size ≤ r.size + 1 := by
  rw [← length_tags, ← length_tags, tags_set h]
  split
  · exact Nat.le_succ _
  · exact Nat.le_of_eq List.length_append

/-! ## Taking out -/

theorem get?_remove (r : Registry ε) (tag other : Tag) :
    (r.remove tag).get? other = if tag = other then none else r.get? other := by
  obtain ⟨entries⟩ := r
  induction entries with
  | nil => simp [remove, get?]
  | cons head rest ih =>
    have hRest : get? ⟨rest.filter fun old => old.1 != tag⟩ other =
        if tag = other then none else get? ⟨rest⟩ other := ih
    rw [remove, List.filter_cons]
    split
    next kept =>
      rw [get?_cons, get?_cons, hRest]
      have hDifferent : head.1 ≠ tag := by simpa using kept
      by_cases hHead : head.1 = other
      · rw [if_pos hHead, if_pos hHead, if_neg fun same => hDifferent (hHead.trans same.symm)]
      · rw [if_neg hHead, if_neg hHead]
    next gone =>
      have hSame : head.1 = tag := by simpa using gone
      rw [hRest, get?_cons, hSame]
      split <;> rfl

theorem tags_remove (r : Registry ε) (tag : Tag) :
    (r.remove tag).tags = r.tags.filter fun other => other != tag := by
  rw [tags, tags, remove, List.filter_map]
  rfl

/-! ## Bounds -/

/-- Every tag is there once, and there are no more of them than there is room for. -/
structure Bounded (r : Registry ε) : Prop where
  once : r.tags.Nodup
  room : r.size ≤ slots

theorem Bounded.empty : (Registry.empty : Registry ε).Bounded :=
  ⟨List.nodup_nil, Nat.zero_le _⟩

theorem Bounded.set (hBounded : r.Bounded) (h : r.set tag entry = .ok r') : r'.Bounded := by
  refine ⟨?_, size_le_of_set h hBounded.room⟩
  rw [tags_set h]
  split
  next => exact hBounded.once
  next missing =>
    refine List.nodup_append.mpr ⟨hBounded.once, List.pairwise_singleton _ _, ?_⟩
    intro old hOld new hNew same
    exact missing (List.mem_singleton.mp hNew ▸ same ▸ hOld)

theorem Bounded.remove (hBounded : r.Bounded) (tag : Tag) : (r.remove tag).Bounded := by
  refine ⟨?_, ?_⟩
  · rw [tags_remove]
    exact hBounded.once.filter _
  · exact Nat.le_trans (List.length_filter_le _ _) hBounded.room

end Registry

end CellHost

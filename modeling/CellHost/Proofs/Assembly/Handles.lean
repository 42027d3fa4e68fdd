import CellHost.Proofs.Assembly.Saving
import CellHost.Proofs.Host.Layout
import CellHost.Proofs.Machine.Frames

/-!
# What an assembler answers stays true

An author is told the index of a public or of a native and the address of a global as soon as they are
asked for, and writes them into instructions while the tables still grow. The tables grow at their
ends only, and the names of publics, as those of natives, are kept apart; so what was handed out names
the same thing in the program that is built. A refused directive is as good as none.

Indices of natives and addresses of globals are handed out in cells, as the low 32 bits of the number.
The cell names the number exactly as far as a cell can hold it: from two gibibytes of data on, globals
are handed out under cells that do not denote where they are.

## Main definitions

* `Assembler.Extends` : one assembler goes on from another.
* `globalsOf` : the values of the globals that directives ask for.
* `HandlesHold` : what the answers to directives promise of a program.

## Main results

* `public_holds`, `native_holds`, `global_holds`, `label_holds` : what one answer promises.
* `handles_hold` : the program that directives build keeps these promises.
-/

namespace CellHost

namespace Assembler

/-! ## The answers to directives -/

theorem foldl_apply (ds : List Directive) (a : Assembler) (answers : List Reply) :
    ds.foldl (fun acc d => ((acc.1.apply d).1, (acc.1.apply d).2 :: acc.2)) (a, answers) =
      ((a.applyAll ds).1, (a.applyAll ds).2.reverse ++ answers) := by
  induction ds generalizing a answers with
  | nil => rfl
  | cons d ds ih =>
      have hNext := ih (a.apply d).1 [(a.apply d).2]
      simp only [applyAll, List.foldl_cons, List.reverse_reverse] at ih hNext ⊢
      rw [ih, hNext, List.append_assoc, List.singleton_append]

theorem applyAll_cons (a : Assembler) (d : Directive) (ds : List Directive) :
    a.applyAll (d :: ds) =
      (((a.apply d).1.applyAll ds).1, (a.apply d).2 :: ((a.apply d).1.applyAll ds).2) := by
  have hRest := foldl_apply ds (a.apply d).1 [(a.apply d).2]
  unfold applyAll at hRest ⊢
  simp only [List.foldl_cons, List.reverse_reverse] at hRest ⊢
  rw [hRest]
  simp

theorem applyAll_append (a : Assembler) (ds es : List Directive) :
    a.applyAll (ds ++ es) =
      (((a.applyAll ds).1.applyAll es).1, (a.applyAll ds).2 ++ ((a.applyAll ds).1.applyAll es).2) := by
  induction ds generalizing a with
  | nil => rfl
  | cons d ds ih =>
      rw [List.cons_append, applyAll_cons, applyAll_cons, ih]
      rfl

theorem length_answers (a : Assembler) (ds : List Directive) :
    (a.applyAll ds).2.length = ds.length := by
  induction ds generalizing a with
  | nil => rfl
  | cons d ds ih => rw [applyAll_cons, List.length_cons, List.length_cons, ih]

/-- A refused directive leaves the assembler as it was. -/
theorem apply_refused {a : Assembler} {d : Directive} {e : AssemblyError}
    (h : (a.apply d).2 = .refused e) : (a.apply d).1 = a := by
  cases d with
  | declarePublic name =>
      simp only [apply] at h ⊢
      split at h
      · cases h
      · rfl
  | bind label =>
      simp only [apply] at h ⊢
      split at h
      · cases h
      · rfl
  | importNative name => cases h
  | _ => cases h

/-! ## Tables grow at their ends -/

/-- One assembler goes on from another: its tables begin with those of the other. -/
structure Extends (a a' : Assembler) : Prop where
  publics : a.publics <+: a'.publics
  natives : a.natives <+: a'.natives
  data : a.data.toList <+: a'.data.toList

theorem Extends.rfl {a : Assembler} : a.Extends a :=
  ⟨List.prefix_rfl, List.prefix_rfl, List.prefix_rfl⟩

theorem Extends.trans {a₁ a₂ a₃ : Assembler} (h : a₁.Extends a₂) (h' : a₂.Extends a₃) :
    a₁.Extends a₃ :=
  ⟨h.publics.trans h'.publics, h.natives.trans h'.natives, h.data.trans h'.data⟩

theorem Extends.of_tables {a a' a₁ : Assembler} (h : a.Extends a') (hPublics : a₁.publics = a'.publics)
    (hNatives : a₁.natives = a'.natives) (hData : a₁.data = a'.data) : a.Extends a₁ :=
  ⟨hPublics ▸ h.publics, hNatives ▸ h.natives, hData ▸ h.data⟩

/-- Emitting touches none of the tables. -/
theorem emit_tables (a : Assembler) (i : Instr) :
    (a.emit i).publics = a.publics ∧ (a.emit i).natives = a.natives ∧ (a.emit i).data = a.data := by
  obtain ⟨code, fixups, hEmit⟩ := emit_eq a i
  rw [hEmit]
  exact ⟨rfl, rfl, rfl⟩

/-- A directive adds at the end of a table, or nothing. -/
theorem Applied.extends {a a' : Assembler} {d : Directive} (h : Applied a d a') : a.Extends a' := by
  cases h with
  | offered => exact ⟨List.prefix_append _ _, List.prefix_rfl, List.prefix_rfl⟩
  | imported => exact ⟨List.prefix_rfl, List.prefix_append _ _, List.prefix_rfl⟩
  | global =>
      refine ⟨List.prefix_rfl, List.prefix_rfl, ?_⟩
      rw [Array.toList_push]
      exact List.prefix_append _ _
  | @line file number =>
      obtain ⟨hPublics, hNatives, hData⟩ := emit_tables (a.withRow file number) ⟨.brk, ()⟩
      exact Extends.rfl.of_tables hPublics hNatives hData
  | @emit i =>
      obtain ⟨hPublics, hNatives, hData⟩ := emit_tables a i
      exact Extends.rfl.of_tables hPublics hNatives hData
  | _ => exact Extends.rfl.of_tables rfl rfl rfl

/-- **The tables of an assembler begin with those that it had before.** -/
theorem extends_applyAll (a : Assembler) (ds : List Directive) : a.Extends (a.applyAll ds).1 := by
  induction ds generalizing a with
  | nil => exact .rfl
  | cons d ds ih =>
      rw [applyAll_cons]
      exact (applied a d).extends.trans (ih _)

/-! ## Names are kept apart -/

/-- No two publics and no two natives have the same name. -/
structure Distinct (a : Assembler) : Prop where
  publics : (a.publics.map Public.name).Nodup
  natives : a.natives.Nodup

theorem Distinct.of_tables {a a' : Assembler} (h : a.Distinct) (hPublics : a'.publics = a.publics)
    (hNatives : a'.natives = a.natives) : a'.Distinct :=
  ⟨hPublics ▸ h.publics, hNatives ▸ h.natives⟩

/-- Names are added only where they are new. -/
theorem Distinct.step {a a' : Assembler} {d : Directive} (h : a.Distinct) (hApplied : Applied a d a') :
    a'.Distinct := by
  cases hApplied with
  | @offered name hNew =>
      refine ⟨?_, h.natives⟩
      rw [List.map_append, List.nodup_append]
      refine ⟨h.publics, List.pairwise_singleton _ _, ?_⟩
      intro taken hTaken last hLast
      obtain ⟨entry, hEntry, rfl⟩ := List.mem_map.mp hTaken
      rw [List.mem_singleton.mp hLast]
      exact hNew entry hEntry
  | @imported name hNew =>
      refine ⟨h.publics, List.nodup_append.mpr ⟨h.natives, List.pairwise_singleton _ _, ?_⟩⟩
      intro known hKnown last hLast hSame
      rw [hSame, List.mem_singleton.mp hLast] at hKnown
      exact hNew hKnown
  | @line file number =>
      obtain ⟨hPublics, hNatives, -⟩ := emit_tables (a.withRow file number) ⟨.brk, ()⟩
      exact h.of_tables hPublics hNatives
  | @emit i =>
      obtain ⟨hPublics, hNatives, -⟩ := emit_tables a i
      exact h.of_tables hPublics hNatives
  | _ => exact h.of_tables rfl rfl

theorem distinct_after (ds : List Directive) : (after ds).Distinct := by
  refine after_induction (P := fun _ a => a.Distinct) ⟨List.nodup_nil, List.nodup_nil⟩ ?_ ds
  exact fun _ _ hBefore => hBefore.step (applied _ _)

/-! ## Globals stand in the order in which they were asked for -/

end Assembler

/-- The value of the global that a directive asks for, if it asks for one. -/
def Directive.global? : Directive → Option Cell
  | .global value => some value
  | _ => none

/-- The values of the globals that directives ask for, in order. -/
def globalsOf (ds : List Directive) : List Cell := ds.filterMap Directive.global?

theorem globalsOf_append_global (before rest : List Directive) (value : Cell) :
    globalsOf (before ++ .global value :: rest) = globalsOf before ++ value :: globalsOf rest :=
  List.filterMap_append

namespace Assembler

theorem Applied.data {a a' : Assembler} {d : Directive} (h : Applied a d a') :
    a'.data.toList = a.data.toList ++ d.global?.toList := by
  cases h with
  | global => exact Array.toList_push
  | @line file number =>
      obtain ⟨-, -, hData⟩ := emit_tables (a.withRow file number) ⟨.brk, ()⟩
      exact (congrArg Array.toList hData).trans (List.append_nil _).symm
  | @emit i =>
      obtain ⟨-, -, hData⟩ := emit_tables a i
      exact (congrArg Array.toList hData).trans (List.append_nil _).symm
  | _ => exact (List.append_nil _).symm

/-- **The data of a program are its globals**, in the order in which they were asked for. -/
theorem data_after (ds : List Directive) : (after ds).data.toList = globalsOf ds := by
  refine after_induction (P := fun ds a => a.data.toList = globalsOf ds) rfl ?_ ds
  intro ds d hBefore
  rw [(applied _ d).data, hBefore, globalsOf, globalsOf, List.filterMap_append]
  cases d <;> rfl

theorem data_of_assemble {ds : List Directive} {p : Program} (h : (assemble ds).2 = .ok p) :
    p.data = (after ds).data := by
  obtain ⟨code, -, rfl⟩ := exists_program h
  rfl

/-! ## Where names and labels come from -/

/-- A name of a public was noted before, or is noted by the directive. -/
theorem Applied.mem_publics {a a' : Assembler} {d : Directive} (h : Applied a d a') {entry : Public}
    (hEntry : entry ∈ a'.publics) : entry ∈ a.publics ∨ d = .declarePublic entry.name := by
  cases h with
  | @offered name _ =>
      rcases List.mem_append.mp hEntry with hOld | hLast
      · exact .inl hOld
      · rw [List.mem_singleton.mp hLast]
        exact .inr rfl
  | @line file number => exact .inl ((emit_tables (a.withRow file number) _).1 ▸ hEntry)
  | @emit i => exact .inl ((emit_tables a i).1 ▸ hEntry)
  | _ => exact .inl hEntry

/-- A label that has an address had one before, or is bound by the directive. -/
theorem Applied.isSome_addressOf? {a a' : Assembler} {d : Directive} (h : Applied a d a')
    {label : Label} (hBound : (a'.addressOf? label).isSome) :
    (a.addressOf? label).isSome ∨ d = .bind label := by
  unfold Assembler.addressOf? at hBound ⊢
  cases h with
  | @bound bound _ =>
      by_cases hSame : bound = label
      · exact .inr (congrArg _ hSame)
      · have hOther : bound.number ≠ label.number := fun hEq => hSame (congrArg Label.mk hEq)
        rw [Array.getElem?_setIfInBounds_ne hOther] at hBound
        exact .inl hBound
  | label =>
      rw [Array.getElem?_push] at hBound
      split at hBound
      · cases hBound
      · exact .inl hBound
  | @line file number => exact .inl (emit_labels (a.withRow file number) _ ▸ hBound)
  | @emit i => exact .inl (emit_labels a i ▸ hBound)
  | _ => exact .inl hBound

theorem declarePublic_mem (ds : List Directive) :
    ∀ entry ∈ (after ds).publics, Directive.declarePublic entry.name ∈ ds := by
  refine after_induction
    (P := fun ds a => ∀ entry ∈ a.publics, Directive.declarePublic entry.name ∈ ds) nofun ?_ ds
  intro ds d hBefore entry hEntry
  rcases (applied _ _).mem_publics hEntry with hOld | rfl
  · exact List.mem_append_left _ (hBefore entry hOld)
  · exact List.mem_append_right _ (List.mem_singleton_self _)

theorem bind_mem (ds : List Directive) :
    ∀ label, ((after ds).addressOf? label).isSome → Directive.bind label ∈ ds := by
  refine after_induction
    (P := fun ds a => ∀ label, (a.addressOf? label).isSome → Directive.bind label ∈ ds) nofun ?_ ds
  intro ds d hBefore label hBound
  rcases (applied _ _).isSome_addressOf? hBound with hOld | rfl
  · exact List.mem_append_left _ (hBefore label hOld)
  · exact List.mem_append_right _ (List.mem_singleton_self _)

/-! ## One directive and its answer -/

theorem getElem?_of_prefix {α : Type} {l l' : List α} (h : l <+: l') {i : Nat} {x : α}
    (hAt : l[i]? = some x) : l'[i]? = some x := by
  obtain ⟨rest, rfl⟩ := h
  obtain ⟨hInside, -⟩ := List.getElem?_eq_some_iff.mp hAt
  rw [List.getElem?_append_left hInside, hAt]

/-- A public is offered at the current address, or was offered before. -/
theorem apply_declarePublic (a : Assembler) (name : String) :
    ((a.apply (.declarePublic name)).2 = .index a.publics.length ∧
      (a.apply (.declarePublic name)).1.publics[a.publics.length]? = some ⟨name, a.here⟩) ∨
    ((a.apply (.declarePublic name)).2 = .refused (.duplicatePublic name) ∧
      ∃ entry ∈ a.publics, entry.name = name) := by
  simp only [apply, declarePublic]
  by_cases hTaken : (a.publics.any fun entry => entry.name == name) = true
  · rw [if_pos hTaken]
    obtain ⟨entry, hEntry, hName⟩ := List.any_eq_true.mp hTaken
    exact .inr ⟨rfl, entry, hEntry, eq_of_beq hName⟩
  · rw [if_neg hTaken]
    exact .inl ⟨rfl, List.getElem?_concat_length ..⟩

/-- A native is imported under the next index, or has one. -/
theorem apply_importNative (a : Assembler) (name : String) :
    ∃ i, (a.apply (.importNative name)).2 = .cell (Int32.ofNat i) ∧
      (a.apply (.importNative name)).1.natives[i]? = some name := by
  simp only [apply, importNative]
  cases hIndex : a.natives.idxOf? name with
  | none => exact ⟨a.natives.length, rfl, List.getElem?_concat_length ..⟩
  | some i =>
      obtain ⟨hInside, hName, -⟩ := List.idxOf?_eq_some_iff.mp hIndex
      exact ⟨i, rfl, List.getElem?_eq_some_iff.mpr ⟨hInside, hName⟩⟩

/-- A label is bound, or was bound before. -/
theorem apply_bind (a : Assembler) (label : Label) :
    (a.apply (.bind label)).2 = .bound ∨
    ((a.apply (.bind label)).2 = .refused (.labelBoundTwice label) ∧
      (a.addressOf? label).isSome) := by
  simp only [apply, bind]
  cases a.addressOf? label with
  | none => exact .inl rfl
  | some address => exact .inr ⟨rfl, rfl⟩

/-- An assembly, seen from one of its directives. -/
theorem assemble_append_cons (before rest : List Directive) (d : Directive) :
    assemble (before ++ d :: rest) =
      ((initial.applyAll before).2 ++
          ((after before).apply d).2 :: (((after before).apply d).1.applyAll rest).2,
        (((after before).apply d).1.applyAll rest).1.build) := by
  simp only [assemble, applyAll_append, applyAll_cons]
  rfl

theorem answer_at (before rest : List Directive) (d : Directive) :
    (assemble (before ++ d :: rest)).1[before.length]? = some ((after before).apply d).2 := by
  rw [assemble_append_cons, List.getElem?_append_right (Nat.le_of_eq (length_answers _ _)),
    length_answers, Nat.sub_self, List.getElem?_cons_zero]

/-- What a directive has added to the tables is where it was added in the end. -/
theorem extends_after (before rest : List Directive) (d : Directive) :
    ((after before).apply d).1.Extends (after (before ++ d :: rest)) := by
  have hAfter : after (before ++ d :: rest) = (((after before).apply d).1.applyAll rest).1 := by
    rw [after, applyAll_append, applyAll_cons]
    rfl
  rw [hAfter]
  exact extends_applyAll _ rest

/-- Without a directive that is refused the assembly is the same, but for the answer. -/
theorem assemble_refused {before rest : List Directive} {d : Directive} {e : AssemblyError}
    (h : ((after before).apply d).2 = .refused e) :
    assemble (before ++ rest) =
      ((assemble (before ++ d :: rest)).1.eraseIdx before.length,
        (assemble (before ++ d :: rest)).2) := by
  rw [assemble_append_cons, apply_refused h]
  simp only [assemble, applyAll_append]
  rw [List.eraseIdx_append_of_length_le (Nat.le_of_eq (length_answers _ _)), length_answers,
    Nat.sub_self, List.eraseIdx_cons_zero]
  rfl

end Assembler

/-! ## What the program makes of handles -/

/-- A name that publics do not share is found where it stands. -/
theorem Program.findPublic?_of_nodup {p : Program} (hDistinct : (p.publics.map Public.name).Nodup)
    {i : Nat} {entry : Public} (h : p.publics[i]? = some entry) :
    p.findPublic? entry.name = some i := by
  obtain ⟨hInside, hAt⟩ := List.getElem?_eq_some_iff.mp h
  refine List.findIdx?_eq_some_iff_getElem.mpr ⟨hInside, ?_, ?_⟩
  · rw [hAt]
    exact beq_self_eq_true _
  · intro j hBefore hSame
    have hApart := List.pairwise_iff_getElem.mp hDistinct j i (by
      rw [List.length_map]
      omega) (by rwa [List.length_map]) hBefore
    rw [List.getElem_map, List.getElem_map, hAt] at hApart
    exact hApart (eq_of_beq hSame)

/-- A new context reads its initial data. -/
theorem read_of_create {p : Program} {bytes : Nat} {c : Context} {m : Memory}
    (h : Context.create p bytes = .ok (c, m)) {i : Nat} {value : Cell}
    (hAt : p.data[i]? = some value) : c.read m (i * cellSize) = .ok value := by
  obtain ⟨hInside, -⟩ := Array.getElem?_eq_some_iff.mp hAt
  obtain ⟨hRoom, -, hLaidOut⟩ := Context.create_eq_ok h
  obtain ⟨rfl, rfl⟩ := Prod.mk.inj hLaidOut
  have hBelow : i * cellSize < p.dataSize := Nat.mul_lt_mul_of_pos_right hInside (by decide)
  have hAccessible : Registers.accessible ⟨p.dataSize, bytes / cellSize * cellSize⟩
      { frm := bytes / cellSize * cellSize, stk := bytes / cellSize * cellSize, hea := p.dataSize }
      (i * cellSize) = true := by
    simp only [Registers.accessible, Nat.mul_mod_left, beq_self_eq_true, Bool.true_and,
      Bool.and_eq_true, decide_eq_true_eq, Bool.not_eq_true', Bool.and_eq_false_iff,
      decide_eq_false_iff_not]
    omega
  unfold Context.read Registers.load
  dsimp only
  rw [if_pos hAccessible, Memory.cellAt, Nat.mul_div_cancel _ (by decide),
    ofData_eq (Program.data_le hRoom), Array.getD_eq_getD_getElem?,
    Array.getElem?_append_left hInside, hAt]
  rfl

/-! ## The promises -/

section Promises

variable {p : Program} (before rest : List Directive)

/-- The index of a public stays that of its entry, and is the one found for its name. -/
theorem public_holds (name : String)
    (hPublics : p.publics = (Assembler.after (before ++ .declarePublic name :: rest)).publics) :
    (∃ i, (assemble (before ++ .declarePublic name :: rest)).1[before.length]? = some (.index i) ∧
      p.publics[i]? = some ⟨name, widthOf (listing before)⟩ ∧ p.findPublic? name = some i) ∨
    ((assemble (before ++ .declarePublic name :: rest)).1[before.length]? =
        some (.refused (.duplicatePublic name)) ∧ .declarePublic name ∈ before) := by
  rw [Assembler.answer_at, ← (Assembler.lists_after before).here]
  rcases (Assembler.after before).apply_declarePublic name with
    ⟨hAnswer, hEntry⟩ | ⟨hAnswer, entry, hTaken, rfl⟩
  · have hAt : p.publics[(Assembler.after before).publics.length]? =
        some ⟨name, (Assembler.after before).here⟩ := by
      rw [hPublics]
      exact Assembler.getElem?_of_prefix (Assembler.extends_after before rest _).publics hEntry
    have hNames : (p.publics.map Public.name).Nodup :=
      hPublics ▸ (Assembler.distinct_after _).publics
    exact .inl ⟨_, congrArg some hAnswer, hAt, Program.findPublic?_of_nodup hNames hAt⟩
  · exact .inr ⟨congrArg some hAnswer, Assembler.declarePublic_mem before entry hTaken⟩

/-- The index of a native stays that of its name. -/
theorem native_holds (name : String)
    (hNatives : p.natives = (Assembler.after (before ++ .importNative name :: rest)).natives) :
    ∃ i, p.natives[i]? = some name ∧
      (assemble (before ++ .importNative name :: rest)).1[before.length]? =
        some (.cell (Int32.ofNat i)) ∧
      (Cell.toAddress? (Int32.ofNat i) = some i ↔ i ≤ Cell.maxValue) := by
  obtain ⟨i, hAnswer, hName⟩ := (Assembler.after before).apply_importNative name
  refine ⟨i, ?_, (Assembler.answer_at ..).trans (congrArg some hAnswer),
    Cell.toAddress?_ofAddress_iff⟩
  rw [hNatives]
  exact Assembler.getElem?_of_prefix (Assembler.extends_after before rest _).natives hName

/-- The cell that is handed out for a global is the address behind the globals before it. -/
theorem global_answer (value : Cell) :
    (assemble (before ++ .global value :: rest)).1[before.length]? =
      some (.cell (Cell.ofAddress ((globalsOf before).length * cellSize))) := by
  rw [Assembler.answer_at, ← Assembler.data_after, Array.length_toList]
  rfl

/-- A global is read in every new context at the address behind the globals before it. -/
theorem global_holds (value : Cell)
    (hData : p.data = (Assembler.after (before ++ .global value :: rest)).data) {bytes : Nat}
    {c : Context} {m : Memory} (hCreate : Context.create p bytes = .ok (c, m)) :
    c.read m ((globalsOf before).length * cellSize) = .ok value := by
  refine read_of_create hCreate ?_
  rw [hData, ← Array.getElem?_toList, Assembler.data_after, globalsOf_append_global,
    List.getElem?_append_right (Nat.le_refl _), Nat.sub_self, List.getElem?_cons_zero]

/-- A global stands inside the data. -/
theorem address_le_dataSize (value : Cell)
    (hData : p.data = (Assembler.after (before ++ .global value :: rest)).data) :
    (globalsOf before).length * cellSize ≤ p.dataSize := by
  unfold Program.dataSize
  rw [hData, ← Array.length_toList, Assembler.data_after, globalsOf_append_global,
    List.length_append]
  exact Nat.mul_le_mul_right _ (Nat.le_add_right _ _)

/-- A label is bound, unless it was before. -/
theorem label_holds (label : Label) :
    (assemble (before ++ .bind label :: rest)).1[before.length]? = some .bound ∨
    ((assemble (before ++ .bind label :: rest)).1[before.length]? =
        some (.refused (.labelBoundTwice label)) ∧ .bind label ∈ before) := by
  rw [Assembler.answer_at]
  rcases (Assembler.after before).apply_bind label with hAnswer | ⟨hAnswer, hBound⟩
  · exact .inl (congrArg some hAnswer)
  · exact .inr ⟨congrArg some hAnswer, Assembler.bind_mem before label hBound⟩

end Promises

/-- What the answers to directives promise of the program that they build. -/
structure HandlesHold (ds : List Directive) (p : Program) : Prop where
  /-- The index of a public is that of an entry with its name, at the address that was current, and
  the index that is found for the name; only a name that was taken is refused. -/
  publics : ∀ before name rest, ds = before ++ .declarePublic name :: rest →
    (∃ i, (assemble ds).1[before.length]? = some (.index i) ∧
      p.publics[i]? = some ⟨name, widthOf (listing before)⟩ ∧ p.findPublic? name = some i) ∨
    ((assemble ds).1[before.length]? = some (.refused (.duplicatePublic name)) ∧
      .declarePublic name ∈ before)
  /-- The cell for a native stores the index of its name in the table, and denotes it as far as a
  cell can hold it. -/
  natives : ∀ before name rest, ds = before ++ .importNative name :: rest →
    ∃ i, p.natives[i]? = some name ∧
      (assemble ds).1[before.length]? = some (.cell (Int32.ofNat i)) ∧
      (Cell.toAddress? (Int32.ofNat i) = some i ↔ i ≤ Cell.maxValue)
  distinct : p.natives.Nodup
  /-- The cell for a global stores the address behind the globals before it, at which its value is
  read in every new context, and denotes that address as far as a cell can hold it. -/
  globals : ∀ before value rest, ds = before ++ .global value :: rest →
    (∀ bytes c m, Context.create p bytes = .ok (c, m) →
      c.read m ((globalsOf before).length * cellSize) = .ok value) ∧
    ∃ reply, (assemble ds).1[before.length]? = some (.cell reply) ∧
      reply = Cell.ofAddress ((globalsOf before).length * cellSize) ∧
      (Cell.toAddress? reply = some ((globalsOf before).length * cellSize) ↔
        (globalsOf before).length * cellSize ≤ Cell.maxValue)
  /-- In a program with less than two gibibytes of data, the cell for a global denotes an address at
  which its value is read in every new context. -/
  readable : p.dataSize ≤ Cell.maxValue → ∀ before value rest, ds = before ++ .global value :: rest →
    ∃ reply address, (assemble ds).1[before.length]? = some (.cell reply) ∧
      Cell.toAddress? reply = some address ∧
      ∀ bytes c m, Context.create p bytes = .ok (c, m) → c.read m address = .ok value
  /-- A label is bound, unless it was before. -/
  labels : ∀ before label rest, ds = before ++ .bind label :: rest →
    (assemble ds).1[before.length]? = some .bound ∨
    ((assemble ds).1[before.length]? = some (.refused (.labelBoundTwice label)) ∧
      .bind label ∈ before)
  /-- Without a refused directive all else is the same: the program, and the other answers. -/
  refusals : ∀ before d rest e, ds = before ++ d :: rest →
    (assemble ds).1[before.length]? = some (.refused e) →
    assemble (before ++ rest) = ((assemble ds).1.eraseIdx before.length, .ok p)

/-- **Main theorem.** Whatever directives stand around it and however they are answered, what an
assembler hands out holds of the program that is built, and what it refuses leaves no trace. -/
theorem handles_hold {ds : List Directive} {p : Program} (h : (assemble ds).2 = .ok p) :
    HandlesHold ds p := by
  obtain ⟨code, -, hProgram⟩ := Assembler.exists_program h
  have hPublics : p.publics = (Assembler.after ds).publics := by rw [hProgram]; rfl
  have hNatives : p.natives = (Assembler.after ds).natives := by rw [hProgram]; rfl
  have hData := Assembler.data_of_assemble h
  refine ⟨?_, ?_, hNatives ▸ (Assembler.distinct_after ds).natives, ?_, ?_, ?_, ?_⟩
  · rintro before name rest rfl
    exact public_holds before rest name hPublics
  · rintro before name rest rfl
    exact native_holds before rest name hNatives
  · rintro before value rest rfl
    exact ⟨fun bytes c m hCreate => global_holds before rest value hData hCreate, _,
      global_answer before rest value, rfl, Cell.toAddress?_ofAddress_iff⟩
  · rintro hSmall before value rest rfl
    have hFits : (globalsOf before).length * cellSize ≤ Cell.maxValue :=
      Nat.le_trans (address_le_dataSize before rest value hData) hSmall
    exact ⟨_, _, global_answer before rest value, Cell.toAddress?_ofAddress hFits,
      fun bytes c m hCreate => global_holds before rest value hData hCreate⟩
  · rintro before label rest rfl
    exact label_holds before rest label
  · rintro before d rest e rfl hRefused
    rw [Assembler.answer_at] at hRefused
    rw [Assembler.assemble_refused (Option.some.inj hRefused), h]

/-- Publics, natives, globals and a label, some of them asked for twice. -/
def catalogue : List Directive :=
  [.importNative "printc", .global 5, .declarePublic "@a", .label, .bind ⟨0⟩, .emit ⟨.nop, ()⟩,
   .declarePublic "@a", .importNative "print", .bind ⟨0⟩, .importNative "printc", .global 7,
   .declarePublic "@b", .emit ⟨.ret, ()⟩]

/-- The program that they make. -/
def catalogueProgram : Program where
  flags := 0x0002
  code := #[Opcode.halt.toCell, 0, Opcode.nop.toCell, Opcode.ret.toCell]
  data := #[5, 7]
  publics := [⟨"@a", 8⟩, ⟨"@b", 12⟩]
  natives := ["printc", "print"]

/-- Two directives are refused, a native is found again, and what is handed out after that holds: the
second public is found, the second global is read in a block of sixteen cells, and the first refusal
leaves no trace. -/
theorem handles_hold_catalogue :
    (assemble catalogue).2 = .ok catalogueProgram ∧
    (assemble catalogue).1 =
      [.cell 0, .cell 0, .index 0, .index 0, .bound, .done, .refused (.duplicatePublic "@a"), .cell 1,
       .refused (.labelBoundTwice ⟨0⟩), .cell 0, .cell 4, .index 1, .done] ∧
    HandlesHold catalogue catalogueProgram ∧
    (∃ c m, Context.create catalogueProgram 64 = .ok (c, m) ∧ c.read m 4 = .ok 7) ∧
    (assemble (catalogue.eraseIdx 6)).2 = .ok catalogueProgram := by
  have hBuilt : (assemble catalogue).2 = .ok catalogueProgram := by rfl
  have hHolds := handles_hold hBuilt
  refine ⟨hBuilt, by rfl, hHolds, ⟨_, _, rfl, ?_⟩, ?_⟩
  · exact (hHolds.globals (catalogue.take 10) 7 (catalogue.drop 11) (by rfl)).1 64 _ _ rfl
  · exact congrArg Prod.snd
      (hHolds.refusals (catalogue.take 6) _ (catalogue.drop 7) _ (by rfl) (by rfl))

/-- So many globals that hold zero, and a last one that holds a seven. -/
def sprawling (count : Nat) : List Directive :=
  List.replicate count (.global 0) ++ [.global 7]

theorem length_globalsOf_zeros (count : Nat) :
    (globalsOf (List.replicate count (.global 0))).length = count := by
  rw [globalsOf, List.filterMap_replicate_of_some (f := Directive.global?) rfl,
    List.length_replicate]

theorem dataSize_sprawling {count : Nat} {p : Program}
    (hData : p.data = (Assembler.after (sprawling count)).data) :
    p.dataSize = (count + 1) * cellSize := by
  unfold Program.dataSize
  rw [hData, ← Array.length_toList, Assembler.data_after, sprawling, globalsOf_append_global,
    List.length_append, length_globalsOf_zeros]
  rfl

/-- Directives that ask for nothing but globals emit nothing, and are built. -/
theorem exists_program_sprawling (count : Nat) : ∃ p, (assemble (sprawling count)).2 = .ok p := by
  have hNone : emitted (sprawling count) = [] := by
    refine List.flatMap_eq_nil_iff.mpr fun d hd => ?_
    rcases List.mem_append.mp hd with hZero | hLast
    · rw [List.eq_of_mem_replicate hZero]
      rfl
    · rw [List.mem_singleton.mp hLast]
      rfl
  have hFixups : (Assembler.after (sprawling count)).fixups.toList = [] := by
    rw [(Assembler.lists_after _).fixups, listing, hNone]
    rfl
  refine ⟨(Assembler.after (sprawling count)).program (Assembler.after (sprawling count)).code, ?_⟩
  rw [Assembler.assemble_eq, Assembler.build_eq, hFixups]
  rfl

/-- Behind two gibibytes of globals, the next is handed out under a cell that denotes no address. -/
theorem sprawling_wraps :
    ∃ p, (assemble (sprawling (2 ^ 29))).2 = .ok p ∧
      (assemble (sprawling (2 ^ 29))).1[2 ^ 29]? = some (.cell Int32.minValue) ∧
      Cell.toAddress? Int32.minValue = none ∧
      ∃ c m, Context.create p (2 ^ 31 + 12) = .ok (c, m) ∧ c.read m (2 ^ 31) = .ok 7 := by
  obtain ⟨p, hBuilt⟩ := exists_program_sprawling (2 ^ 29)
  have hData := Assembler.data_of_assemble hBuilt
  obtain ⟨c, m, hCreate⟩ : ∃ c m, Context.create p (2 ^ 31 + 12) = .ok (c, m) := by
    unfold Context.create Context.create?
    dsimp only
    rw [dataSize_sprawling hData, if_neg (by decide), if_neg (by decide)]
    exact ⟨_, _, rfl⟩
  have hAnswer := global_answer (List.replicate (2 ^ 29) (.global 0)) [] 7
  have hRead := global_holds (List.replicate (2 ^ 29) (.global 0)) [] 7 hData hCreate
  rw [List.length_replicate, length_globalsOf_zeros] at hAnswer
  rw [length_globalsOf_zeros] at hRead
  exact ⟨p, hBuilt, hAnswer, by decide, c, m, hCreate, hRead⟩

end CellHost

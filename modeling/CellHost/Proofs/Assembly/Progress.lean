import CellHost.Proofs.Assembly.Listing

/-!
# What an assembler has done

After some directives an assembler holds the cells of their listing, with a zero for every label;
the places of these zeros, in order; and the addresses of the labels placed so far. What each
directive adds is said once for each part of an assembler, and whatever all directives keep holds
after any list of them.

## Main definitions

* `Assembler.after` : the assembler that has followed some directives.
* `Assembler.Applied` : what one directive can do.
* `Assembler.Lists` : an assembler that holds a listing.
* `Assembler.program` : the program of an assembler whose labels are resolved.

## Main results

* `Assembler.after_induction` : what holds at the start and is kept by directives holds after them.
* `Assembler.lists_after`, `Assembler.after_addressOf?` : the assembler in terms of its listing.
-/

namespace CellHost.Assembler

/-- The assembler that has followed some directives. -/
def after (ds : List Directive) : Assembler := (initial.applyAll ds).1

theorem applyAll_fst (a : Assembler) (ds : List Directive) :
    (a.applyAll ds).1 = ds.foldl (fun a d => (a.apply d).1) a := by
  suffices h : ∀ (acc : Assembler × List Reply),
      (ds.foldl (fun acc d => ((acc.1.apply d).1, (acc.1.apply d).2 :: acc.2)) acc).1 =
        ds.foldl (fun a d => (a.apply d).1) acc.1 from h (a, [])
  induction ds with
  | nil => exact fun _ => rfl
  | cons d ds ih => exact fun _ => ih _

theorem after_append (ds : List Directive) (d : Directive) :
    after (ds ++ [d]) = ((after ds).apply d).1 := by
  rw [after, after, applyAll_fst, applyAll_fst, List.foldl_append]
  rfl

/-- **What holds at the start and is kept by every directive holds after any of them.** -/
theorem after_induction {P : List Directive → Assembler → Prop} (hStart : P [] initial)
    (hStep : ∀ ds d, P ds (after ds) → P (ds ++ [d]) ((after ds).apply d).1) (ds : List Directive) :
    P ds (after ds) := by
  suffices h : ∀ more done, P done (after done) → P (done ++ more) (after (done ++ more)) from
    h ds [] hStart
  intro more
  induction more with
  | nil =>
      intro done hDone
      rwa [List.append_nil]
  | cons d more ih =>
      intro done hDone
      have hNext := ih (done ++ [d]) (by
        rw [after_append]
        exact hStep done d hDone)
      rwa [List.append_assoc] at hNext

/-! ## Emitting an instruction -/

theorem emit_code (a : Assembler) (i : Instr) :
    (a.emit i).code.toList = a.code.toList ++ i.encode fun _ => 0 := by
  obtain ⟨op, operand⟩ := i
  unfold emit Instr.encode Instr.operands
  dsimp only
  generalize op.operandKind = kind at operand
  cases kind with
  | absent => exact Array.toList_push
  | value =>
      change Cell at operand
      simp
  | target => simp

theorem emit_fixups (a : Assembler) (i : Instr) :
    (a.emit i).fixups.toList =
      a.fixups.toList ++ (i.target?.map fun label => (a.code.size + 1, label)).toList := by
  obtain ⟨op, operand⟩ := i
  unfold emit Instr.target?
  dsimp only
  generalize op.operandKind = kind at operand
  cases kind with
  | absent => exact (List.append_nil _).symm
  | value => exact (List.append_nil _).symm
  | target =>
      change Label at operand
      simp

/-- Emitting touches the code, the places of its labels and the note of checkpoints. -/
theorem emit_eq (a : Assembler) (i : Instr) :
    ∃ code fixups, a.emit i = { a with code, fixups, checks := a.checks || i.op == .brk } := by
  obtain ⟨op, operand⟩ := i
  unfold emit
  dsimp only
  generalize op.operandKind = kind at operand
  cases kind with
  | absent => exact ⟨_, _, rfl⟩
  | value => exact ⟨_, _, rfl⟩
  | target => exact ⟨_, _, rfl⟩

theorem emit_checks (a : Assembler) (i : Instr) :
    (a.emit i).checks = (a.checks || i.op == .brk) := by
  obtain ⟨code, fixups, h⟩ := emit_eq a i
  rw [h]

theorem emit_labels (a : Assembler) (i : Instr) : (a.emit i).labels = a.labels := by
  obtain ⟨code, fixups, h⟩ := emit_eq a i
  rw [h]

/-! ## Following a directive -/

/-- What a directive can do to an assembler. A refused directive leaves it as it was. -/
inductive Applied (a : Assembler) : Directive → Assembler → Prop
  | main : Applied a .main { a with main := some a.here }
  | offered {name : String} :
      (∀ entry ∈ a.publics, entry.name ≠ name) →
      Applied a (.declarePublic name) { a with publics := a.publics ++ [⟨name, a.here⟩] }
  | taken {name : String} {entry : Public} :
      entry ∈ a.publics → entry.name = name → Applied a (.declarePublic name) a
  | imported {name : String} :
      name ∉ a.natives →
      Applied a (.importNative name) { a with natives := a.natives ++ [name] }
  | known {name : String} : name ∈ a.natives → Applied a (.importNative name) a
  | global {value : Cell} : Applied a (.global value) { a with data := a.data.push value }
  | label : Applied a .label { a with labels := a.labels.push none }
  | bound {label : Label} :
      a.addressOf? label = none →
      Applied a (.bind label)
        { a with labels := a.labels.setIfInBounds label.number (some a.here) }
  | boundTwice {label : Label} {address : Nat} :
      a.addressOf? label = some address → Applied a (.bind label) a
  | line {file : String} {number : Nat} : Applied a (.line file number) (a.line file number)
  | here : Applied a .here a
  | emit {i : Instr} : Applied a (.emit i) (a.emit i)

/-- **Every directive does one of the things listed.** -/
theorem applied (a : Assembler) (d : Directive) : Applied a d (a.apply d).1 := by
  cases d with
  | declarePublic name =>
      simp only [apply, declarePublic]
      by_cases hTaken : (a.publics.any fun entry => entry.name == name) = true
      · rw [if_pos hTaken]
        obtain ⟨entry, hEntry, hName⟩ := List.any_eq_true.mp hTaken
        exact .taken hEntry (eq_of_beq hName)
      · rw [if_neg hTaken]
        refine .offered fun entry hEntry hName => hTaken ?_
        exact List.any_eq_true.mpr ⟨entry, hEntry, beq_iff_eq.mpr hName⟩
  | importNative name =>
      simp only [apply, importNative]
      cases hIndex : a.natives.idxOf? name with
      | none => exact .imported (List.idxOf?_eq_none_iff.mp hIndex)
      | some index =>
          refine .known (Classical.byContradiction fun hNew => ?_)
          rw [List.idxOf?_eq_none_iff.mpr hNew] at hIndex
          cases hIndex
  | bind bound =>
      simp only [apply, bind]
      cases hAddress : a.addressOf? bound with
      | none => exact .bound hAddress
      | some address => exact .boundTwice hAddress
  | main => exact .main
  | global value => exact .global
  | label => exact .label
  | line file number => exact .line
  | here => exact .here
  | emit i => exact .emit

namespace Applied

variable {a a' : Assembler} {d : Directive}

theorem code (h : Applied a d a') :
    a'.code.toList = a.code.toList ++ codeOf (fun _ => 0) d.instrs := by
  cases h with
  | line => rw [Assembler.line, emit_code, Directive.instrs, codeOf, List.flatMap_singleton]
  | emit => rw [emit_code, Directive.instrs, codeOf, List.flatMap_singleton]
  | _ => exact (List.append_nil _).symm

theorem fixups (h : Applied a d a') :
    a'.fixups.toList = a.fixups.toList ++ slotsFrom a.code.size d.instrs := by
  cases h with
  | line =>
      rw [Assembler.line, emit_fixups, Directive.instrs, slotsFrom, slotsFrom, List.append_nil]
  | emit => rw [emit_fixups, Directive.instrs, slotsFrom, slotsFrom, List.append_nil]
  | _ => exact (List.append_nil _).symm

theorem checks (h : Applied a d a') :
    a'.checks = (a.checks || d.instrs.any fun i => i.op == .brk) := by
  cases h with
  | line => simp [Assembler.line, emit_checks, Directive.instrs]
  | emit => simp [emit_checks, Directive.instrs]
  | _ => exact (Bool.or_false _).symm

theorem labelCount (h : Applied a d a') : a'.labels.size = a.labels.size + d.newLabels := by
  cases h with
  | line => exact congrArg Array.size (emit_labels _ _)
  | emit => exact congrArg Array.size (emit_labels _ _)
  | label => exact Array.size_push none
  | bound hNew => exact Array.size_setIfInBounds
  | _ => rfl

/-- A label gets the current address where it is bound first, if it was handed out. -/
theorem addressOf? (h : Applied a d a') (hOwn : ∀ used ∈ d.uses, used.number < a.labels.size)
    (wanted : Label) :
    a'.addressOf? wanted =
      (a.addressOf? wanted).or (if d.binds wanted then some a.here else none) := by
  have hKept : a'.labels = a.labels → d.binds wanted = false →
      a'.addressOf? wanted = (a.addressOf? wanted).or (if d.binds wanted then some a.here else none) := by
    intro hLabels hBinds
    rw [Assembler.addressOf?, hLabels, hBinds]
    exact Option.or_none.symm
  cases h with
  | line => exact hKept (emit_labels _ _) rfl
  | emit => exact hKept (emit_labels a _) rfl
  | label =>
      have hPush : (a.labels.push none)[wanted.number]?.join = a.labels[wanted.number]?.join := by
        rw [Array.getElem?_push]
        split
        · next hLast =>
            rw [hLast, Array.getElem?_eq_none (Nat.le_refl _)]
            rfl
        · rfl
      rw [Assembler.addressOf?, hPush]
      exact Option.or_none.symm
  | @bound bound hNew =>
      have hInside : bound.number < a.labels.size := hOwn bound (List.mem_singleton_self bound)
      by_cases hSame : bound = wanted
      · subst hSame
        rw [hNew, Assembler.addressOf?, Array.getElem?_setIfInBounds_self_of_lt hInside]
        simp [Directive.binds]
      · have hOther : bound.number ≠ wanted.number := fun hEq => hSame (congrArg Label.mk hEq)
        rw [Assembler.addressOf?, Array.getElem?_setIfInBounds_ne hOther]
        simp [Directive.binds, hSame, Assembler.addressOf?]
  | @boundTwice bound address hOld =>
      by_cases hSame : bound = wanted
      · subst hSame
        rw [hOld]
        rfl
      · simp [Directive.binds, hSame]
  | _ => exact hKept rfl rfl

end Applied

/-! ## After all directives -/

/-- What an assembler holds of a listing: its cells, the places of its labels, whether it has a
checkpoint; and the number of labels handed out. -/
structure Lists (ds : List Directive) (a : Assembler) : Prop where
  code : a.code.toList = codeOf (fun _ => 0) (listing ds)
  fixups : a.fixups.toList = slotsFrom 0 (listing ds)
  checks : a.checks = (listing ds).any fun i => i.op == .brk
  labelCount : a.labels.size = labelCount ds

theorem Lists.step {ds : List Directive} {a a' : Assembler} {d : Directive} (h : Lists ds a)
    (hApplied : Applied a d a') : Lists (ds ++ [d]) a' where
  code := by rw [hApplied.code, h.code, listing_append, codeOf_append]
  fixups := by
    rw [hApplied.fixups, h.fixups, listing_append, slotsFrom_append, ← Array.length_toList, h.code,
      Nat.zero_add]
  checks := by rw [hApplied.checks, h.checks, listing_append, List.any_append]
  labelCount := by rw [hApplied.labelCount, h.labelCount, labelCount_append]

/-- **After any directives an assembler holds their listing.** -/
theorem lists_after (ds : List Directive) : Lists ds (after ds) :=
  after_induction ⟨rfl, rfl, rfl, rfl⟩ (fun _ _ hBefore => hBefore.step (applied _ _)) ds

theorem Lists.here {ds : List Directive} {a : Assembler} (h : Lists ds a) :
    a.here = widthOf (listing ds) := by
  rw [Assembler.here, ← Array.length_toList, h.code, length_codeOf]

/-- **Labels that were handed out have the addresses of the listing.** -/
theorem after_addressOf? {ds : List Directive} (hOwn : OwnLabels ds) (wanted : Label) :
    (after ds).addressOf? wanted = placeOf? ds wanted := by
  -- Binding a label that was not handed out yet does nothing, so the labels' origin is assumed of
  -- every list of directives on the way.
  refine after_induction
    (P := fun ds a => OwnLabels ds → a.addressOf? wanted = placeOf? ds wanted) ?_ ?_ ds hOwn
  · intro _
    rfl
  · intro ds d hBefore hOwn
    obtain ⟨hBeforeOwn, hUses⟩ := (ownLabels_append ds d).mp hOwn
    rw [← (lists_after ds).labelCount] at hUses
    rw [(applied (after ds) d).addressOf? hUses, hBefore hBeforeOwn, (lists_after ds).here,
      placeOf?_append]

/-! ## The program -/

/-- The program of an assembly, with code in which no label awaits its address. -/
def program (a : Assembler) (code : Array Cell) : Program where
  flags := (if a.checks then 0 else Program.uncheckedFlag) |||
    (if a.lines.isEmpty then 0 else Program.linesFlag)
  main := a.main
  code := code
  data := a.data
  publics := a.publics
  natives := a.natives
  lines := if a.lines.isEmpty then none else some a.lines

theorem build_eq (a : Assembler) :
    a.build = (a.resolve a.fixups.toList a.code).map a.program := by
  unfold build
  cases a.resolve a.fixups.toList a.code <;> rfl

theorem assemble_eq (ds : List Directive) : (assemble ds).2 = (after ds).build := rfl

theorem hasChecks_program (a : Assembler) (code : Array Cell) :
    (a.program code).hasChecks = a.checks := by
  have hFlag : ∀ checks empty : Bool, (((if checks then 0 else Program.uncheckedFlag) |||
      (if empty then 0 else Program.linesFlag)) &&& Program.uncheckedFlag == 0) = checks := by
    decide
  exact hFlag a.checks a.lines.isEmpty

theorem hasLines_program (a : Assembler) (code : Array Cell) :
    (a.program code).hasLines = (a.program code).lines.isSome := by
  have hFlag : ∀ checks empty : Bool, (((if checks then 0 else Program.uncheckedFlag) |||
      (if empty then 0 else Program.linesFlag)) &&& Program.linesFlag != 0) = !empty := by
    decide
  refine (hFlag a.checks a.lines.isEmpty).trans ?_
  unfold program
  cases a.lines.isEmpty <;> rfl

end CellHost.Assembler

import CellHost.Proofs.Machine.Parking

/-!
# Calls that suspend on a parked context

A call on a parked context may itself suspend, and be resumed until it returns. Entering the context
takes new marks, so the call gives back the stack and the heap whatever happens; but its parking
place is known only to the execution that entered the context. An execution that was resumed has
none to go back to. Once a call has been suspended, nothing that was parked under it is ever found
again: when it returns, the context is awake, and resuming it is refused.

Calls can be nested to any depth, each made while the one before is suspended. The induction is
therefore on whole calls, and not on the executions that they consist of.

## Main definitions

* `Completes` : a call, with the suspensions and the nested calls up to its return.

## Main results

* `Completes.parked_or_awake` : a call gives the parking place back if it never suspended, and leaves
  the context awake if it did.
-/

namespace CellHost.Machine

variable {σ : Type} {emb : Embedder σ}

/-- A call on a context: an entry is executed, and resumed after each of so many suspensions, until
it returns. While it is suspended, other calls are made on the context in the same way, and the
world changes. A call that is under way is one that starts with `resume`. -/
inductive Completes (emb : Embedder σ) : EntryPoint → Nat → Point σ → Point σ → Prop
  | returns {fuel : Nat} {entry : EntryPoint} {c c' : Context} {w w' : World σ} {v : Cell} :
      exec emb fuel entry c w = some (.success v, c', w') →
      Completes emb entry 0 (c, w) (c', w')
  | suspends {fuel n : Nat} {entry : EntryPoint} {c c' : Context} {w w' : World σ} {d : Cell}
      {t : Point σ} :
      exec emb fuel entry c w = some (.sleeping d, c', w') → Completes emb .resume n (c', w') t →
      Completes emb entry (n + 1) (c, w) t
  | nests {k n : Nat} {entry : EntryPoint} {s u t : Point σ} :
      entry ≠ .resume → Completes emb entry k s u → Completes emb .resume n u t →
      Completes emb .resume n s t
  | waits {n : Nat} {c : Context} {w w' : World σ} {t : Point σ} :
      Completes emb .resume n (c, w') t → Completes emb .resume n (c, w) t

/-! ## Executions -/

section Executions

variable {fuel : Nat} {entry : EntryPoint} {c c' : Context} {w w' : World σ}

/-- Only a sleeping context is resumed, and it keeps its marks. -/
theorem start?_resume_eq_some {s : Point σ} (h : start? .resume c w = some s) :
    c.sleeping = true ∧ s = ({ c with sleeping := false }, w) := by
  rcases start?_eq_some h with ⟨-, hAsleep, hStart⟩ | ⟨hEntry, -⟩
  · exact ⟨hAsleep, hStart⟩
  · exact absurd rfl hEntry

/-- A resumed execution that returns gives back the marked stack and heap, and stays awake. -/
theorem resume_success (hEmb : emb.LeavesMarks) (hAwake : emb.KeepsAwake) {v : Cell}
    (h : exec emb fuel .resume c w = some (.success v, c', w')) :
    c.sleeping = true ∧ c'.sleeping = false ∧ c'.regs.stk = c.resetStk ∧
      c'.regs.hea = c.resetHea ∧ c'.resetStk = c.resetStk ∧ c'.resetHea = c.resetHea := by
  obtain ⟨s, c₁, hStart, hTrail, rfl⟩ := returned_of_exec h
  obtain ⟨hAsleep, rfl⟩ := start?_resume_eq_some hStart
  obtain ⟨hStk, hHea⟩ := hTrail.marks hEmb trivial
  have hEnd := hTrail.awake hAwake trivial rfl
  exact ⟨hAsleep, hEnd, hStk, hHea, hStk, hHea⟩

/-- A resumed execution that suspends again keeps its marks. -/
theorem resume_suspended (hEmb : emb.LeavesMarks) {d : Cell}
    (h : exec emb fuel .resume c w = some (.sleeping d, c', w')) :
    c.sleeping = true ∧ c'.resetStk = c.resetStk ∧ c'.resetHea = c.resetHea := by
  obtain ⟨s, c₁, hStart, hTrail, rfl⟩ := slept_of_exec h
  obtain ⟨hAsleep, rfl⟩ := start?_resume_eq_some hStart
  obtain ⟨hStk, hHea⟩ := hTrail.marks hEmb trivial
  exact ⟨hAsleep, hStk, hHea⟩

/-- An entry that suspends has its caller's stack and heap for marks. -/
theorem entry_suspended (hEmb : emb.LeavesMarks) (hEntry : entry ≠ .resume) {d : Cell}
    (h : exec emb fuel entry c w = some (.sleeping d, c', w')) :
    c'.resetStk = c.regs.stk ∧ c'.resetHea = c.regs.hea := by
  obtain ⟨s, c₁, hStart, hTrail, rfl⟩ := slept_of_exec h
  obtain ⟨hStk, hHea, -⟩ := start?_marks hStart hEntry
  obtain ⟨hStk', hHea'⟩ := hTrail.marks hEmb trivial
  exact ⟨hStk'.trans hStk, hHea'.trans hHea⟩

/-- Resuming a context that is awake is refused, and changes nothing. -/
theorem exec_resume_awake (h : c.sleeping = false) (fuel : Nat) (w : World σ) :
    exec emb fuel .resume c w = some (.fatal .invalidState, c, w) := by
  have hStart : start? .resume c w = none := by
    unfold start?
    dsimp only
    rw [h]
    rfl
  exact execWith_of_refusal hStart

end Executions

/-! ## Whole calls -/

/-- What a call leaves that was suspended before: it gives back the stack and heap that are marked,
and leaves the context awake. -/
structure Unparked (c c' : Context) : Prop where
  asleep : c.sleeping = true
  awake : c'.sleeping = false
  stk : c'.regs.stk = c.resetStk
  hea : c'.regs.hea = c.resetHea
  markStk : c'.resetStk = c.resetStk
  markHea : c'.resetHea = c.resetHea

/-- What a call leaves: it gives back the stack and heap of its caller, and the parking place if it
never suspended; if it did, the context is awake and its marks are those of the call. -/
structure GivesBack (n : Nat) (c c' : Context) : Prop where
  stk : c'.regs.stk = c.regs.stk
  hea : c'.regs.hea = c.regs.hea
  parked : n = 0 → parking c' = parking c
  lost : 0 < n → c'.sleeping = false ∧ c'.resetStk = c.regs.stk ∧ c'.resetHea = c.regs.hea

/-- A context on which a nested call has returned can only be resumed if that call never suspended,
and then it stands where it stood. -/
theorem Unparked.of_nested {k : Nat} {c u t : Context} (hNested : GivesBack k c u)
    (h : Unparked u t) : Unparked c t := by
  -- a nested call that suspended leaves the context awake, and then it cannot be resumed
  have hNever : k = 0 := by
    refine Nat.eq_zero_of_not_pos fun hSome => ?_
    have hAwake : u.sleeping = false := (hNested.lost hSome).1
    rw [h.asleep] at hAwake
    cases hAwake
  have hParking := hNested.parked hNever
  have hMarkStk : u.resetStk = c.resetStk := congrArg Parking.resetStk hParking
  have hMarkHea : u.resetHea = c.resetHea := congrArg Parking.resetHea hParking
  have hAsleep : u.sleeping = c.sleeping := congrArg Parking.sleeping hParking
  exact {
    asleep := hAsleep ▸ h.asleep
    awake := h.awake
    stk := h.stk.trans hMarkStk
    hea := h.hea.trans hMarkHea
    markStk := h.markStk.trans hMarkStk
    markHea := h.markHea.trans hMarkHea }

/-- What becomes of a context in a call, from its start and from a suspension on. -/
theorem Completes.leaves (hEmb : emb.LeavesMarks) (hAwake : emb.KeepsAwake) {entry : EntryPoint}
    {n : Nat} {s t : Point σ} (h : Completes emb entry n s t) :
    (entry = .resume → Unparked s.1 t.1) ∧ (entry ≠ .resume → GivesBack n s.1 t.1) := by
  induction h with
  | @returns fuel entry c c' w w' v hExec =>
      constructor
      · rintro rfl
        obtain ⟨hAsleep, hEnd, hStk, hHea, hMarkStk, hMarkHea⟩ :=
          resume_success hEmb hAwake hExec
        exact ⟨hAsleep, hEnd, hStk, hHea, hMarkStk, hMarkHea⟩
      · intro hEntry
        obtain ⟨hParking, hStk, hHea⟩ := parking_of_success hEmb hEntry hExec
        exact ⟨hStk, hHea, fun _ => hParking, fun hSome => absurd hSome (Nat.lt_irrefl 0)⟩
  | @suspends fuel n entry c c' w w' d t hExec _ ih =>
      have hRest : Unparked c' t.1 := ih.1 rfl
      constructor
      · rintro rfl
        obtain ⟨hAsleep, hStk, hHea⟩ := resume_suspended hEmb hExec
        exact {
          asleep := hAsleep
          awake := hRest.awake
          stk := hRest.stk.trans hStk
          hea := hRest.hea.trans hHea
          markStk := hRest.markStk.trans hStk
          markHea := hRest.markHea.trans hHea }
      · intro hEntry
        obtain ⟨hStk, hHea⟩ := entry_suspended hEmb hEntry hExec
        exact {
          stk := hRest.stk.trans hStk
          hea := hRest.hea.trans hHea
          parked := fun hNone => absurd hNone (Nat.succ_ne_zero n)
          lost := fun _ => ⟨hRest.awake, hRest.markStk.trans hStk, hRest.markHea.trans hHea⟩ }
  | nests hEntry _ _ ihNested ihRest =>
      have hNested := ihNested.2 hEntry
      have hRest := ihRest.1 rfl
      exact ⟨fun _ => hRest.of_nested hNested, fun hNot => absurd rfl hNot⟩
  | waits _ ih => exact ⟨fun _ => ih.1 rfl, fun hNot => absurd rfl hNot⟩

/-- **Main theorem.** A call on a context, however deep other calls are nested in it, gives back the
stack and the heap of its caller. If it never suspended, the context is parked again where it was;
if it suspended even once, the context is awake, and whatever was parked on it cannot be resumed. -/
theorem Completes.parked_or_awake (hEmb : emb.LeavesMarks) (hAwake : emb.KeepsAwake)
    {entry : EntryPoint} {n : Nat} {c c' : Context} {w w' : World σ} (hEntry : entry ≠ .resume)
    (h : Completes emb entry n (c, w) (c', w')) :
    c'.regs.stk = c.regs.stk ∧ c'.regs.hea = c.regs.hea ∧
    (n = 0 → parking c' = parking c) ∧
    (0 < n → c'.sleeping = false ∧ c'.resetStk = c.regs.stk ∧ c'.resetHea = c.regs.hea ∧
      ∀ fuel (w₂ : World σ), exec emb fuel .resume c' w₂ = some (.fatal .invalidState, c', w₂)) := by
  have hBack := (h.leaves hEmb hAwake).2 hEntry
  refine ⟨hBack.stk, hBack.hea, hBack.parked, fun hSome => ?_⟩
  obtain ⟨hEnd, hStk, hHea⟩ := hBack.lost hSome
  exact ⟨hEnd, hStk, hHea, exec_resume_awake hEnd⟩

/-- A program that sleeps and returns a seven, and a public that sleeps and returns its delay. -/
def lightSleeper : Program where
  main := some 8
  code :=
    #[Opcode.halt.toCell, 0, Opcode.proc.toCell, Opcode.constPri.toCell, 100,
      Opcode.sleep.toCell, Opcode.constPri.toCell, 7, Opcode.ret.toCell,
      Opcode.proc.toCell, Opcode.constPri.toCell, 50, Opcode.sleep.toCell, Opcode.ret.toCell]
  publics := [⟨"@nap", 36⟩]

/-- The program in a block of sixteen cells, parked at the sleep of its `main`. -/
def lightSleeperParked : Context where
  program := lightSleeper
  natives := []
  layout := ⟨0, 64⟩
  regs := { pri := 100, cip := 24, frm := 56, stk := 56, hea := 0 }
  resetStk := 64
  resetHea := 0
  sleeping := true

/-- The program parked at the sleep of its public. -/
def lightSleeperNapping : Context :=
  { lightSleeperParked with
    regs := { pri := 50, cip := 52, frm := 48, stk := 48, hea := 0 }, resetStk := 56 }

/-- The program when its public has returned. -/
def lightSleeperWoken : Context :=
  { lightSleeperParked with
    regs := { pri := 50, cip := 0, frm := 56, stk := 56, hea := 0 }, resetStk := 56,
    sleeping := false }

/-- The world of the program after so many instructions, with the cells on top of its memory. -/
def lightSleeperWorld (started : Nat) (top : Array Cell) : World Unit where
  region := { memory := Array.replicate 12 0 ++ top }
  clock := .steady
  interrupts := { started }
  host := ()

/-- The public is suspended and resumed. -/
theorem lightSleeper_completes :
    Completes .plain (.function 0) 1 (lightSleeperParked, lightSleeperWorld 3 #[0, 0, 64, 0])
      (lightSleeperWoken, lightSleeperWorld 8 #[56, 0, 64, 0]) := by
  have hNap : exec .plain 8 (.function 0) lightSleeperParked (lightSleeperWorld 3 #[0, 0, 64, 0]) =
      some (.sleeping 50, lightSleeperNapping, lightSleeperWorld 6 #[56, 0, 64, 0]) := rfl
  have hWake : exec .plain 8 .resume lightSleeperNapping (lightSleeperWorld 6 #[56, 0, 64, 0]) =
      some (.success 50, lightSleeperWoken, lightSleeperWorld 8 #[56, 0, 64, 0]) := rfl
  exact .suspends hNap (.returns hWake)

/-- The program is parked, and would return the seven. After the call of the public it is awake, with
its instruction pointer where the public halted, and resuming it is refused. -/
theorem lightSleeper_loses_main :
    exec .plain 8 .main
        { lightSleeperParked with regs := { frm := 64, stk := 64, hea := 0 }, sleeping := false }
        (lightSleeperWorld 0 #[0, 0, 0, 0]) =
      some (.sleeping 100, lightSleeperParked, lightSleeperWorld 3 #[0, 0, 64, 0]) ∧
    (exec .plain 8 .resume lightSleeperParked (lightSleeperWorld 3 #[0, 0, 64, 0])).map (·.1) =
      some (.success 7) ∧
    Completes .plain (.function 0) 1 (lightSleeperParked, lightSleeperWorld 3 #[0, 0, 64, 0])
      (lightSleeperWoken, lightSleeperWorld 8 #[56, 0, 64, 0]) ∧
    lightSleeperWoken.sleeping = false ∧
    lightSleeperWoken.regs.cip ≠ lightSleeperParked.regs.cip ∧
    (exec .plain 8 .resume lightSleeperWoken (lightSleeperWorld 8 #[56, 0, 64, 0])).map (·.1) =
      some (.fatal .invalidState) :=
  ⟨rfl, rfl, lightSleeper_completes, rfl, by decide, rfl⟩

/-- What the call of the public gives back all the same. -/
theorem Completes.parked_or_awake_lightSleeper :
    (Embedder.plain : Embedder Unit).LeavesMarks ∧ (Embedder.plain : Embedder Unit).KeepsAwake ∧
    EntryPoint.function 0 ≠ .resume ∧
    lightSleeperWoken.regs.stk = lightSleeperParked.regs.stk ∧
    lightSleeperWoken.regs.hea = lightSleeperParked.regs.hea ∧
    lightSleeperWoken.sleeping = false := by
  have hEntry : EntryPoint.function 0 ≠ .resume := by decide
  obtain ⟨hStk, hHea, -, hLost⟩ := Completes.parked_or_awake Embedder.plain_leavesMarks
    Embedder.plain_keepsAwake hEntry lightSleeper_completes
  exact ⟨Embedder.plain_leavesMarks, Embedder.plain_keepsAwake, hEntry, hStk, hHea,
    (hLost Nat.one_pos).1⟩

end CellHost.Machine

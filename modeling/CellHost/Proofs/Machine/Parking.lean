import CellHost.Proofs.Machine.Execution

/-!
# What a call on a parked context leaves

An entry that is called on a parked context and returns takes the context back to its parking place:
the instruction pointer, the two pointers with their marks, and whether it sleeps. It does so
however the code ends, because nothing but entering a context sets the marks, and the rest is kept
by the caller.

The frame pointer is not part of the parking place. It stays where the code that was called left it,
which is where it was if the code closes the frames that it opens: a `halt` inside a frame, or a
return that gives back some other frame pointer, leaves the parked code in a frame that is not its
own.

## Main definitions

* `Embedder.LeavesMarks` : callbacks that answer leave the marks as they were.
* `Balanced` : the frames of a run are closed as they were opened.

## Main results

* `exec_returnsMarks` : an entry that returns gives the marks back.
* `exec_success_parked` : what is restored by a call that returns, and what is not.
-/

namespace CellHost

variable {σ : Type}

/-- Two contexts with the same marks. -/
structure Context.SameMarks (c c' : Context) : Prop where
  stk : c'.resetStk = c.resetStk
  hea : c'.resetHea = c.resetHea

theorem Context.SameMarks.rfl {c : Context} : c.SameMarks c := ⟨Eq.refl _, Eq.refl _⟩

theorem Context.SameMarks.trans {c c₁ c₂ : Context} (h : c.SameMarks c₁) (h' : c₁.SameMarks c₂) :
    c.SameMarks c₂ :=
  ⟨h'.stk.trans h.stk, h'.hea.trans h.hea⟩

/-- Entries that return give the marks back. -/
def Engine.ReturnsMarks (e : Engine σ) : Prop :=
  ∀ entry c w v c' w', entry ≠ .resume → e entry c w = some (.success v, c', w') → c.SameMarks c'

/-- A callback that answers leaves the marks that the running entry goes back to. A native may run
code on the context of its caller; code that suspends keeps marks of its own, and a native that is
left with them has to fail. -/
structure Embedder.LeavesMarks (emb : Embedder σ) : Prop where
  native : ∀ id (e : Engine σ) c w v c' w', e.ReturnsMarks →
    emb.native id e c w = some (.ok v, c', w') → c.SameMarks c'
  hook : ∀ id c w v c' w', emb.hook id c w = (v, c', w') → c.SameMarks c'

theorem Embedder.plain_leavesMarks : (Embedder.plain : Embedder σ).LeavesMarks where
  native := by
    intro id e c w v c' w' _ h
    cases h
  hook := by
    intro id c w v c' w' h
    cases h
    exact .rfl

theorem Embedder.calling_leavesMarks : (Embedder.calling : Embedder σ).LeavesMarks where
  native := by
    intro index e c w v c' w' hEngine h
    have hReturned := Embedder.success_of_calling h
    exact hEngine _ _ _ _ _ _ (by simp) hReturned
  hook := Embedder.plain_leavesMarks.hook

namespace Machine

variable {emb : Embedder σ}

/-! ## Marks -/

theorem settle_returned_marks (c c₁ : Context) (v : Cell) :
    c.SameMarks (settle (some (parking c)) (.returned v) c₁).2 := ⟨rfl, rfl⟩

/-- **An entry that returns gives the marks back**, whatever its code has done with them. -/
theorem returnsMarks_execWith (go : Runner σ) : (execWith go).ReturnsMarks := by
  intro entry c w v c' w' hEntry h
  obtain ⟨s, c₁, -, -, rfl⟩ := returned_of_execWith h
  rw [place_of_ne_resume hEntry]
  exact settle_returned_marks c c₁ v

theorem exec_returnsMarks (fuel : Nat) : (exec emb fuel).ReturnsMarks :=
  returnsMarks_execWith (run emb fuel)

theorem nativeAnswer_marks (hEmb : emb.LeavesMarks) {engine : Engine σ}
    (hEngine : engine.ReturnsMarks) {native : Native} {c c' : Context} {w w' : World σ} {v : Cell}
    (h : nativeAnswer emb engine native c w = some (.ok v, c', w')) : c.SameMarks c' := by
  unfold nativeAnswer at h
  split at h
  · exact hEmb.native _ _ _ _ _ _ _ hEngine h
  · have hSame : c' = c := (congrArg (fun r => r.2.1) (Option.some.inj h)).symm
    rw [hSame]
    exact .rfl

theorem askHook_marks (hEmb : emb.LeavesMarks) {c c' : Context} {w w' : World σ}
    {a : AbortState} {verdict : Checkpoint}
    (h : askHook emb (withAbortHook c a) w = (verdict, c', w')) : c.SameMarks c' := by
  obtain ⟨hook, hWith⟩ := withAbortHook_eq c a
  rw [hWith] at h
  unfold askHook at h
  split at h
  · cases h
    exact ⟨rfl, rfl⟩
  · cases h
    exact ⟨rfl, rfl⟩
  · have hSame := hEmb.hook _ _ _ _ _ _ h
    exact ⟨hSame.stk, hSame.hea⟩

/-- A step that does not fail leaves the marks alone. -/
theorem step_marks (hEmb : emb.LeavesMarks) {engine : Engine σ} (hEngine : engine.ReturnsMarks)
    {s : Point σ} {p : Progress σ} (h : step emb engine s.1 s.2 = some p) (hSound : p.Sound) :
    s.1.SameMarks p.point.1 := by
  cases stepped_of_step h with
  | next _ => exact ⟨rfl, rfl⟩
  | halt _ => exact ⟨rfl, rfl⟩
  | sleep _ => exact ⟨rfl, rfl⟩
  | fault _ => exact hSound.elim
  | unbound _ _ => exact hSound.elim
  | @native _ _ _ answer _ _ _ _ hAnswer =>
      cases answer with
      | ok value =>
          have hSame := nativeAnswer_marks hEmb hEngine hAnswer
          exact ⟨hSame.stk, hSame.hea⟩
      | error error => exact hSound.elim
  | proceed _ hAsk =>
      have hSame := askHook_marks hEmb hAsk
      exact ⟨hSame.stk, hSame.hea⟩
  | abort _ _ => exact hSound.elim

/-- A run that is no fault leaves the marks alone. -/
theorem Trail.marks (hEmb : emb.LeavesMarks) {s : Point σ} {seen : List (Point σ)}
    {r : Pause × Context × World σ} (h : Trail (stepper emb) s seen r) (hSound : r.1.Sound) :
    s.1.SameMarks r.2.1 := by
  induction h with
  | pause hStep =>
      obtain ⟨fuel, hStep⟩ := hStep
      exact step_marks hEmb (exec_returnsMarks fuel) hStep hSound
  | next hStep _ ih =>
      obtain ⟨fuel, hStep⟩ := hStep
      have hNext := step_marks hEmb (exec_returnsMarks fuel) hStep trivial
      exact hNext.trans (ih hSound)

/-! ## Frames -/

/-- A step that goes on leaves the frame pointer alone, unless it is one of the two operations that
move it, or one that calls back the host. -/
theorem step_frm {engine : Engine σ} {s : Point σ} {c : Context} {w : World σ}
    (h : step emb engine s.1 s.2 = some (.continues c w)) (hProc : operation? s ≠ some .proc)
    (hRet : operation? s ≠ some .ret) (hNative : operation? s ≠ some .sysreq)
    (hHook : operation? s ≠ some .brk) : c.regs.frm = s.1.regs.frm := by
  generalize hp : Progress.continues c w = p at h
  cases stepped_of_step h with
  | next hEffect =>
      cases hp
      obtain ⟨op, operand, hOp, hOf⟩ := operation?_of_effect hEffect (fun _ h => by cases h)
      have hNotProc : op ≠ .proc := fun hEq => hProc (hEq ▸ hOp)
      have hNotRet : op ≠ .ret := fun hEq => hRet (hEq ▸ hOp)
      exact Instruction.effectOf_frm hOf hNotProc hNotRet
  | native hEffect _ _ => exact absurd (sysreq_of_native hEffect).1 hNative
  | proceed hEffect _ => exact absurd (brk_of_checkpoint hEffect).1 hHook
  | halt _ => cases hp
  | sleep _ => cases hp
  | fault _ => cases hp
  | unbound _ _ => cases hp
  | abort _ _ => cases hp

/-- The frames of a run are closed as they were opened, and callbacks come back in the frame in which
they were called. The frame pointers that open frames were found with stand in `saved`, the last one
first: every return gives back the first of them, and none is left where the run halts. -/
def Balanced : List Nat → List (Point σ) → Prop
  | saved, s :: t :: rest =>
    match operation? s with
    | some .proc => Balanced (s.1.regs.frm :: saved) (t :: rest)
    | some .ret => saved.head? = some t.1.regs.frm ∧ Balanced saved.tail (t :: rest)
    | some .sysreq | some .brk => t.1.regs.frm = s.1.regs.frm ∧ Balanced saved (t :: rest)
    | _ => Balanced saved (t :: rest)
  | saved, _ => saved = []

theorem Trail.starts {move : Stepper σ} {s : Point σ} {seen : List (Point σ)}
    {r : Pause × Context × World σ} (h : Trail move s seen r) : ∃ rest, seen = s :: rest := by
  cases h with
  | pause _ => exact ⟨[], rfl⟩
  | next _ _ => exact ⟨_, rfl⟩

/-- **A run with balanced frames ends in the frame in which it began.** The induction is on the run;
while frames are open, the frame pointer to come back to is the last of those that are saved. -/
theorem Trail.frm_of_balanced {s : Point σ} {seen : List (Point σ)}
    {r : Pause × Context × World σ} (h : Trail (stepper emb) s seen r) {saved : List Nat}
    (hBalanced : Balanced saved seen) {t : Point σ} (hLast : seen.getLast? = some t) :
    t.1.regs.frm = saved.getLast?.getD s.1.regs.frm := by
  induction h generalizing saved with
  | pause _ =>
      have hNone : saved = [] := hBalanced
      cases hLast
      rw [hNone]
      rfl
  | @next s c w states r hStep hRest ih =>
      obtain ⟨rest, rfl⟩ := hRest.starts
      rw [List.getLast?_cons_cons] at hLast
      unfold Balanced at hBalanced
      split at hBalanced
      · -- a frame is opened: the frame pointer found here is saved on top of the others
        have hEnd := ih hBalanced hLast
        rwa [List.getLast?_cons, Option.getD_some] at hEnd
      · -- a frame is closed: what is given back is the last that was saved
        obtain ⟨hBack, hBalanced⟩ := hBalanced
        have hEnd := ih hBalanced hLast
        obtain ⟨saved, rfl⟩ := List.head?_eq_some_iff.mp hBack
        rw [List.getLast?_cons, Option.getD_some]
        exact hEnd
      · obtain ⟨hSame, hBalanced⟩ := hBalanced
        have hEnd := ih hBalanced hLast
        exact hSame ▸ hEnd
      · obtain ⟨hSame, hBalanced⟩ := hBalanced
        have hEnd := ih hBalanced hLast
        exact hSame ▸ hEnd
      next hProc hRet hNative hHook =>
        have hEnd := ih hBalanced hLast
        obtain ⟨fuel, hStep⟩ := hStep
        have hSame : c.regs.frm = s.1.regs.frm := step_frm hStep hProc hRet hNative hHook
        rw [hEnd, hSame]

/-! ## Calls that return -/

section Success

variable {fuel : Nat} {entry : EntryPoint} {c c' : Context} {w w' : World σ} {v : Cell}

/-- An entry starts with the stack and heap pointers as its marks, and in the frame it finds. -/
theorem start?_marks {s : Point σ} (h : start? entry c w = some s) (hEntry : entry ≠ .resume) :
    s.1.resetStk = c.regs.stk ∧ s.1.resetHea = c.regs.hea ∧ s.1.regs.frm = c.regs.frm := by
  rcases start?_eq_some h with ⟨hResume, -⟩ | ⟨-, address, hAt⟩
  · exact absurd hResume hEntry
  · obtain ⟨-, rfl⟩ := enterAt?_eq_some hAt
    exact ⟨rfl, rfl, rfl⟩

/-- A call that returns goes back to the parking place, with the stack and heap of its caller. -/
theorem parking_of_success (hEmb : emb.LeavesMarks) (hEntry : entry ≠ .resume)
    (h : exec emb fuel entry c w = some (.success v, c', w')) :
    parking c' = parking c ∧ c'.regs.stk = c.regs.stk ∧ c'.regs.hea = c.regs.hea := by
  obtain ⟨s, c₁, hStart, hTrail, rfl⟩ := returned_of_exec h
  obtain ⟨hStk, hHea, -⟩ := start?_marks hStart hEntry
  obtain ⟨hStk', hHea'⟩ := hTrail.marks hEmb trivial
  rw [place_of_ne_resume hEntry]
  exact ⟨rfl, hStk'.trans hStk, hHea'.trans hHea⟩

/-- A call that returns leaves the frame pointer where its code halted. -/
theorem frm_of_success (h : exec emb fuel entry c w = some (.success v, c', w')) :
    ∃ s, (states (stepper emb) fuel entry c w).getLast? = some s ∧ effectAt s = .halt v ∧
      c'.regs.frm = s.1.regs.frm := by
  obtain ⟨s, c₁, -, hTrail, rfl⟩ := returned_of_exec h
  obtain ⟨t, hLast, n, hStep⟩ := hTrail.last
  obtain ⟨hHalt, rfl⟩ := halt_of_returned hStep
  refine ⟨t, hLast, hHalt, ?_⟩
  cases entry <;> rfl

/-- A call with balanced frames returns to the frame of its caller. -/
theorem frm_of_success_balanced (hEntry : entry ≠ .resume)
    (h : exec emb fuel entry c w = some (.success v, c', w'))
    (hBalanced : Balanced [] (states (stepper emb) fuel entry c w)) :
    c'.regs.frm = c.regs.frm := by
  obtain ⟨t, hLast, -, hFrm⟩ := frm_of_success h
  obtain ⟨s, c₁, hStart, hTrail, -⟩ := returned_of_exec h
  obtain ⟨-, -, hFirst⟩ := start?_marks hStart hEntry
  have hEnd : t.1.regs.frm = s.1.regs.frm := hTrail.frm_of_balanced hBalanced hLast
  exact hFrm.trans (hEnd.trans hFirst)

/-- **Main theorem.** However the code of an entry ends, a call of it that returns leaves the
context parked where it was, with the same stack, heap and marks, and a parked context is resumed
there. The frame pointer alone is left where the code halted; it is the caller's if the frames of
the code are balanced. -/
theorem exec_success_parked (hEmb : emb.LeavesMarks) (hEntry : entry ≠ .resume)
    (h : exec emb fuel entry c w = some (.success v, c', w')) :
    (parking c' = parking c ∧ c'.regs.stk = c.regs.stk ∧ c'.regs.hea = c.regs.hea) ∧
    (∃ s, (states (stepper emb) fuel entry c w).getLast? = some s ∧ effectAt s = .halt v ∧
      c'.regs.frm = s.1.regs.frm) ∧
    (Balanced [] (states (stepper emb) fuel entry c w) → c'.regs.frm = c.regs.frm) ∧
    (c.sleeping = true → ∀ w₂ : World σ, ∃ s, start? .resume c' w₂ = some (s, w₂) ∧
      s.regs = { c.regs with pri := c'.regs.pri, alt := c'.regs.alt, frm := c'.regs.frm } ∧
      s.resetStk = c.resetStk ∧ s.resetHea = c.resetHea) := by
  obtain ⟨hParking, hStk, hHea⟩ := parking_of_success hEmb hEntry h
  refine ⟨⟨hParking, hStk, hHea⟩, frm_of_success h, frm_of_success_balanced hEntry h, ?_⟩
  intro hAsleep w₂
  have hCip : c'.regs.cip = c.regs.cip := congrArg Parking.cip hParking
  have hMarkStk : c'.resetStk = c.resetStk := congrArg Parking.resetStk hParking
  have hMarkHea : c'.resetHea = c.resetHea := congrArg Parking.resetHea hParking
  have hAsleep' : c'.sleeping = true := (congrArg Parking.sleeping hParking).trans hAsleep
  refine ⟨{ c' with sleeping := false }, if_pos hAsleep', ?_, hMarkStk, hMarkHea⟩
  dsimp only
  rw [← hCip, ← hStk, ← hHea]

end Success

/-- A program that sleeps with a five in its frame and returns it, and a public that halts in a frame
of its own. -/
def frameTaker : Program where
  main := some 8
  code :=
    #[Opcode.halt.toCell, 0, Opcode.proc.toCell, Opcode.pushC.toCell, 5, Opcode.constPri.toCell,
      100, Opcode.sleep.toCell, Opcode.loadSPri.toCell, -4, Opcode.stack.toCell, 4,
      Opcode.ret.toCell, Opcode.proc.toCell, Opcode.halt.toCell, 0]
  publics := [⟨"@halt", 52⟩]

/-- The program in a block of sixteen cells, parked at its sleep. -/
def frameTakerParked : Context where
  program := frameTaker
  natives := []
  layout := ⟨0, 64⟩
  regs := { pri := 100, cip := 32, frm := 56, stk := 52, hea := 0 }
  resetStk := 64
  resetHea := 0
  sleeping := true

/-- The world of the program: its frame holds the five. -/
def frameTakerWorld : World Unit where
  region := { memory := #[0, 0, 0, 0, 0, 0, 0, 0, 0, 0, 0, 0, 0, 5, 64, 0] }
  clock := .steady
  host := ()

/-- The public returns and leaves the frame pointer in its own frame; the parked program, which
would have returned the five, then fails to find it. -/
theorem frameTaker_loses_frame :
    (∃ c w, exec .plain 8 .main
        { frameTakerParked with
          regs := { frm := 64, stk := 64, hea := 0 }, sleeping := false }
        { frameTakerWorld with region := { memory := Array.replicate 16 0 } } =
      some (.sleeping 100, c, w) ∧ c.regs = frameTakerParked.regs ∧ c.sleeping = true ∧
        parking c = parking frameTakerParked ∧ w.region.memory = frameTakerWorld.region.memory) ∧
    (∃ c w, exec .plain 8 .resume frameTakerParked frameTakerWorld = some (.success 5, c, w)) ∧
    ∃ c w, exec .plain 8 (.function 0) frameTakerParked frameTakerWorld =
        some (.success 100, c, w) ∧ c.regs.frm ≠ frameTakerParked.regs.frm ∧
      ∃ c' w', exec .plain 8 .resume c w = some (.fatal .memoryAccess, c', w') :=
  ⟨⟨_, _, rfl, rfl, rfl, rfl, rfl⟩, ⟨_, _, rfl⟩, _, _, rfl, by decide, _, _, rfl⟩

/-- What the call of the public restores all the same. -/
theorem exec_success_parked_frameTaker :
    (Embedder.plain : Embedder Unit).LeavesMarks ∧ EntryPoint.function 0 ≠ .resume ∧
    ∃ c w, exec .plain 8 (.function 0) frameTakerParked frameTakerWorld =
        some (.success 100, c, w) ∧
      parking c = parking frameTakerParked ∧ c.regs.stk = 52 ∧ c.regs.hea = 0 := by
  have hEntry : EntryPoint.function 0 ≠ .resume := by decide
  refine ⟨Embedder.plain_leavesMarks, hEntry, _, _, rfl, ?_⟩
  exact (exec_success_parked Embedder.plain_leavesMarks hEntry
    (show exec .plain 8 (.function 0) frameTakerParked frameTakerWorld = some _ from rfl)).1

end Machine

end CellHost

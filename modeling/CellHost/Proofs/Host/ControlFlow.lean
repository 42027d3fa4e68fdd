import CellHost.Proofs.Assembly.Boundaries
import CellHost.Proofs.Host.Interface
import CellHost.Proofs.Machine.Frames

/-!
# Control flow stays on instruction boundaries

An instruction leads behind itself, to the code address that its operand names, or to the one that a
return pops. In an assembled program the first is a boundary, and so is every address that an
operand names; what a return pops is one if a call or an entry pushed it. So a run that starts at a
boundary fetches its instructions at boundaries only, whatever natives and hooks do through the
interface of the context, as long as none of its returns goes astray.

A native may execute the context that it is given, and may go on after such an execution has failed,
from where it stopped. The returns in what natives execute therefore count as well. They are taken
in by a machine that gives no result where a return goes astray: an execution in which none does is
one that this machine makes as well.

## Main definitions

* `Instruction.Leads` : where an instruction that completes can lead.
* `Machine.Astray` : a return that takes what neither a call nor an entry pushes.
* `Machine.homing` : the machine on which no return goes astray.
* `Machine.AtBoundary` : a context that stands at a boundary of its program.

## Main results

* `Instruction.leads_of_next` : the three ways on from an instruction.
* `Machine.states_homing` : what it takes for no return to go astray if natives execute nothing.
* `Machine.AtBoundary.stepped` : what one step keeps.
* `Machine.states_homing_atBoundary` : where executions come on which no return goes astray.
* `Machine.built_stays_on_boundaries` : the executions of a built program.
-/

namespace CellHost

open Machine

variable {σ : Type}

/-! ## Where instructions lead -/

namespace Instr

theorem isSome_target? {i : Instr} (h : i.op.operandKind = .target) : i.target?.isSome := by
  obtain ⟨op, operand⟩ := i
  unfold target?
  dsimp only at h ⊢
  generalize op.operandKind = kind at operand h
  subst h
  rfl

end Instr

namespace Instruction

variable {p : Program} {l : Layout} {m : Memory} {r r' : Registers} {op : Opcode} {operand : Cell}
  {store : Option Store}

theorem codeTarget_ok {cell : Cell} {target : Nat} (h : codeTarget p cell = .ok target) :
    p.target? cell = some target := by
  unfold codeTarget at h
  split at h
  next hTarget =>
    cases h
    exact hTarget
  · cases h

/-- Where an instruction that completes leads: behind itself, to the code address that its operand
names, or to the one that a return pops. -/
inductive Leads (p : Program) (l : Layout) (m : Memory) (r : Registers) (op : Opcode)
    (operand : Cell) (target : Nat) : Prop
  | behind : target = r.cip + op.width → Leads p l m r op operand target
  | named : op.operandKind = .target → p.target? operand = some target →
      Leads p l m r op operand target
  | popped : op = .ret → r.stk + cellSize < l.stp →
      p.target? (m.cellAt (r.stk + cellSize)) = some target → Leads p l m r op operand target

theorem lt_codeSize_of_target? {cell : Cell} {target : Nat} (h : p.target? cell = some target) :
    target < p.codeSize := by
  obtain ⟨-, hCode⟩ := Option.filter_eq_some_iff.mp h
  unfold Program.isCodeAddress at hCode
  rw [Bool.and_eq_true, decide_eq_true_eq] at hCode
  exact hCode.1

theorem leads_jump {s : Option Store} (hKind : op.operandKind = .target)
    (h : jump p r operand = .next r' s) : Leads p l m r op operand r'.cip := by
  obtain ⟨target, hTarget, h⟩ := guarded_eq_next h
  cases h
  exact .named hKind (codeTarget_ok hTarget)

/-- There is no instruction at the end of the code. -/
theorem decode_codeSize (p : Program) : decode p p.codeSize = .error .memoryAccess := by
  have hOutside : p.fetch? p.codeSize = none := by
    rw [← Option.not_isSome_iff_eq_none, Program.fetch?_isSome_iff, Program.isCodeAddress]
    simp
  unfold decode
  rw [hOutside]

/-- **An instruction that completes leads to one of three places.** -/
theorem leads_of_next (h : effectOf p l m r op operand = .next r' store) :
    Leads p l m r op operand r'.cip := by
  cases op
  case nop | constPri | constAlt | add | sub | smul | eq | less | incPri =>
    cases h
    exact .behind rfl
  case halt =>
    unfold effectOf at h
    dsimp only at h
    split at h <;> cases h
  case sysreq | sleep | brk => cases h
  case loadPri | loadAlt | loadSPri | storPri | storSPri =>
    obtain ⟨a, -, h⟩ := guarded_eq_next h
    obtain ⟨x, -, h⟩ := guarded_eq_next h
    cases h
    exact .behind rfl
  case pushPri | pushAlt | pushC | proc | popPri | popAlt =>
    obtain ⟨moved, -, h⟩ := guarded_eq_next h
    cases h
    exact .behind rfl
  case stack | heap =>
    obtain ⟨moved, -, h⟩ := guarded_eq_next h
    split at h
    · cases h
    · split at h
      · cases h
      · cases h
        exact .behind rfl
  case sdiv =>
    unfold effectOf divide at h
    dsimp only at h
    split at h
    · cases h
    · cases h
      exact .behind rfl
  case bounds =>
    unfold effectOf at h
    dsimp only at h
    split at h
    · cases h
    · cases h
      exact .behind rfl
  case jump => exact leads_jump rfl h
  case jzer | jnz =>
    unfold effectOf at h
    dsimp only at h
    split at h
    · exact leads_jump rfl h
    · cases h
      exact .behind rfl
  case call =>
    obtain ⟨target, hTarget, h⟩ := guarded_eq_next h
    obtain ⟨pushed, -, h⟩ := guarded_eq_next h
    cases h
    exact .named rfl (codeTarget_ok hTarget)
  case ret =>
    obtain ⟨⟨frm, r₁⟩, hPop, h⟩ := guarded_eq_next h
    obtain ⟨⟨back, r₂⟩, hPop', h⟩ := guarded_eq_next h
    obtain ⟨-, -, rfl⟩ := pop_ok hPop
    obtain ⟨hBelow, rfl, rfl⟩ := pop_ok hPop'
    dsimp only at h
    split at h
    · cases h
    · obtain ⟨target, hTarget, h⟩ := guarded_eq_next h
      cases h
      exact .popped rfl hBelow (codeTarget_ok hTarget)

end Instruction

/-! ## Returns that go astray -/

/-- The natives of the host execute nothing. -/
def Embedder.ExecutesNothing (emb : Embedder σ) : Prop :=
  ∀ id (e e' : Engine σ) c w, emb.native id e c w = emb.native id e' c w

theorem Embedder.plain_executesNothing : (Embedder.plain : Embedder σ).ExecutesNothing :=
  fun _ _ _ _ _ => rfl

namespace Machine

/-- The instruction of the state is a return that takes an address which neither calls nor entries
push. -/
def Astray (ds : List Directive) (s : Point σ) : Prop :=
  operation? s = some .ret ∧ s.1.regs.stk + cellSize < s.1.layout.stp ∧
    s.2.region.memory.cellAt (s.1.regs.stk + cellSize) ∉ returnCells ds

instance (ds : List Directive) (s : Point σ) : Decidable (Astray ds s) :=
  inferInstanceAs (Decidable (_ ∧ _ ∧ _))

/-- Execute instructions until one pauses, and give no result where a return goes astray, also in
what callbacks execute. -/
def homingRun (emb : Embedder σ) (ds : List Directive) : Nat → Runner σ
  | 0, _, _ => none
  | fuel + 1, c, w =>
    if Astray ds (c, w) then none
    else
      match step emb (execWith (homingRun emb ds fuel)) c w with
      | none => none
      | some (.pauses pause c' w') => some (pause, c', w')
      | some (.continues c' w') => homingRun emb ds fuel c' w'

/-- The machine on which no return goes astray. -/
def homing (emb : Embedder σ) (ds : List Directive) : Stepper σ := fun fuel s =>
  if Astray ds s then none else step emb (execWith (homingRun emb ds fuel)) s.1 s.2

theorem homingRun_succ (emb : Embedder σ) (ds : List Directive) (fuel : Nat) (c : Context)
    (w : World σ) :
    homingRun emb ds (fuel + 1) c w =
      match homing emb ds fuel (c, w) with
      | none => none
      | some (.pauses pause c' w') => some (pause, c', w')
      | some (.continues c' w') => homingRun emb ds fuel c' w' := by
  unfold homing
  rw [homingRun]
  split <;> rfl

theorem step_engine {emb : Embedder σ} (hEmb : emb.ExecutesNothing) (e e' : Engine σ) (c : Context)
    (w : World σ) : step emb e c w = step emb e' c w := by
  unfold step callNative
  simp only [hEmb _ e e']

/-- Where natives execute nothing, no return goes astray if none of the returns of the run does. -/
theorem visited_homing {emb : Embedder σ} (hEmb : emb.ExecutesNothing) {ds : List Directive}
    {fuel : Nat} {s : Point σ} (h : ∀ t ∈ visited (stepper emb) fuel s, ¬ Astray ds t) :
    visited (homing emb ds) fuel s = visited (stepper emb) fuel s := by
  induction fuel generalizing s with
  | zero => rfl
  | succ fuel ih =>
      have hFirst : s ∈ visited (stepper emb) (fuel + 1) s := by
        unfold visited
        split
        · exact List.mem_cons_self
        · exact List.mem_singleton_self s
      have hMove : homing emb ds fuel s = stepper emb fuel s := by
        rw [homing, if_neg (h s hFirst)]
        exact step_engine hEmb _ _ _ _
      unfold visited at h ⊢
      rw [hMove]
      cases hStep : stepper emb fuel s with
      | none => rfl
      | some progress =>
          cases progress with
          | pauses pause c w => rfl
          | continues c w =>
              rw [hStep] at h
              exact congrArg (s :: ·) (ih fun t ht => h t (List.mem_cons_of_mem s ht))

theorem states_homing {emb : Embedder σ} (hEmb : emb.ExecutesNothing) {ds : List Directive}
    {fuel : Nat} {entry : EntryPoint} {c : Context} {w : World σ}
    (h : ∀ t ∈ states (stepper emb) fuel entry c w, ¬ Astray ds t) :
    states (homing emb ds) fuel entry c w = states (stepper emb) fuel entry c w := by
  unfold states at h ⊢
  cases hStart : start? entry c w with
  | none => rfl
  | some s =>
      rw [hStart] at h
      exact visited_homing hEmb h

/-- The context runs a program and stands at a boundary. -/
structure AtBoundary (ds : List Directive) (p : Program) (s : Point σ) : Prop where
  program : s.1.program = p
  cip : Boundary ds s.1.regs.cip

/-- The boundary at which a context stands is nothing that a host can do anything about. -/
theorem atBoundary_stable (ds : List Directive) (p : Program) :
    Stable (AtBoundary ds p : Point σ → Prop) where
  assigns := fun _ _ _ _ h => ⟨h.program, h.cip⟩
  equips := fun _ _ _ _ _ h => ⟨h.program, h.cip⟩
  world := fun _ _ _ _ h => ⟨h.program, h.cip⟩
  aside := fun _ _ _ _ h _ => ⟨h.program, h.cip⟩

section Steps

variable {ds : List Directive} {p : Program} (hBounded : Bounded ds p)
  (hFits : widthOf (listing ds) ≤ Cell.maxValue)
include hBounded

/-- At a boundary an instruction is decoded, or the code ends. -/
theorem decode_at_boundary {address : Nat} (h : Boundary ds address) :
    (∃ i operand, (address, i) ∈ placed ds ∧
      Instruction.decode p address = .ok (i.op, operand) ∧
      (i.target?.isSome → NamesBoundary ds operand)) ∨
    (address = p.codeSize ∧ Instruction.decode p address = .error .memoryAccess) := by
  rcases h with ⟨i, hPlaced⟩ | rfl
  · obtain ⟨operand, hDecode, hTarget⟩ := hBounded.decodes address i hPlaced
    exact .inl ⟨i, operand, hPlaced, hDecode, hTarget⟩
  · refine .inr ⟨hBounded.codeSize.symm, ?_⟩
    rw [← hBounded.codeSize]
    exact Instruction.decode_codeSize p

/-- What is decoded in a state at a boundary is an emitted instruction. -/
theorem AtBoundary.emits {s : Point σ} (h : AtBoundary ds p s) {op : Opcode} {operand : Cell}
    (hDecode : Instruction.decode s.1.program s.1.regs.cip = .ok (op, operand)) :
    ∃ i, (s.1.regs.cip, i) ∈ placed ds ∧ i.op = op ∧
      (i.target?.isSome → NamesBoundary ds operand) := by
  rw [h.program] at hDecode
  rcases decode_at_boundary hBounded h.cip with ⟨i, operand', hPlaced, hFound, hTarget⟩ | ⟨-, hEnd⟩
  · cases hDecode.symm.trans hFound
    exact ⟨i, hPlaced, rfl, hTarget⟩
  · cases hDecode.symm.trans hEnd

/-- Behind an instruction that starts in a state at a boundary there is a boundary. -/
theorem AtBoundary.behind {s : Point σ} (h : AtBoundary ds p s) {op : Opcode}
    (hOp : operation? s = some op) (w : World σ) :
    AtBoundary ds p ({ s.1 with regs := Instruction.advanced s.1.regs op }, w) := by
  obtain ⟨operand, hDecode⟩ := decode_of_operation? hOp
  obtain ⟨i, hPlaced, rfl, -⟩ := h.emits hBounded hDecode
  exact ⟨h.program, boundary_next hPlaced⟩

theorem AtBoundary.sleeps {s : Point σ} (h : AtBoundary ds p s) {regs : Registers}
    (hEffect : effectAt s = .sleep regs) (w : World σ) :
    AtBoundary ds p ({ s.1 with regs }, w) := by
  obtain ⟨op, operand, hOp, hOf⟩ := operation?_of_effect hEffect fun _ h => by cases h
  obtain ⟨-, rfl⟩ := Instruction.effectOf_sleep hOf
  exact h.behind hBounded hOp w

include hFits

/-- **An instruction that completes leads from a boundary to a boundary**, unless it is a return
that goes astray. -/
theorem AtBoundary.next {s : Point σ} (h : AtBoundary ds p s) (hHome : ¬ Astray ds s)
    {regs : Registers} {store : Option Store} (hEffect : effectAt s = .next regs store) :
    Boundary ds regs.cip := by
  obtain ⟨op, operand, hDecode, hOf⟩ :=
    Instruction.decode_of_effect hEffect fun _ h => by cases h
  rw [beginInstruction_memory] at hOf
  cases Instruction.leads_of_next hOf with
  | behind hNext =>
      rw [hNext]
      exact (h.behind hBounded (operation?_of_decode hDecode) s.2).cip
  | named hKind hTarget =>
      obtain ⟨i, -, rfl, hOperand⟩ := h.emits hBounded hDecode
      exact (hOperand (Instr.isSome_target? hKind)).target hTarget
  | popped hRet hBelow hTarget =>
      subst hRet
      have hReturn : s.2.region.memory.cellAt (s.1.regs.stk + cellSize) ∈ returnCells ds :=
        Classical.not_not.mp fun hOther =>
          hHome ⟨operation?_of_decode hDecode, hBelow, hOther⟩
      exact (namesBoundary_of_returnCell hReturn hFits).target hTarget

variable {emb : Embedder σ} (hEmb : emb.UsesInterface)
include hEmb

/-- **A step that is no return gone astray leads from a boundary to a boundary**, if what callbacks
execute does. -/
theorem AtBoundary.stepped {engine : Engine σ} (hEngine : engine.Keeps (AtBoundary ds p))
    {s : Point σ} (h : AtBoundary ds p s) (hHome : ¬ Astray ds s) {r : Progress σ}
    (hStep : step emb engine s.1 s.2 = some r) : AtBoundary ds p r.point := by
  have hStable : Stable (AtBoundary ds p : Point σ → Prop) := atBoundary_stable ds p
  cases stepped_of_step hStep with
  | next hEffect => exact ⟨h.program, h.next hBounded hFits hHome hEffect⟩
  | halt _ => exact ⟨h.program, h.cip⟩
  | sleep hEffect => exact h.sleeps hBounded hEffect _
  | @fault e regs hEffect =>
      have hCip : regs.cip = s.1.regs.cip := Instruction.cip_of_fault hEffect
      exact ⟨h.program, hCip.symm ▸ h.cip⟩
  | unbound _ _ => exact ⟨h.program, h.cip⟩
  | @native regs index native answer c w hEffect _ hAnswer =>
      obtain ⟨hOp, rfl⟩ := sysreq_of_native hEffect
      have hBack := nativeAnswer_keeps hEmb hStable hEngine hAnswer (h.behind hBounded hOp _)
      cases answer with
      | ok value => exact ⟨hBack.program, hBack.cip⟩
      | error e => exact ⟨hBack.program, h.cip⟩
  | proceed hEffect hAsk =>
      obtain ⟨hOp, rfl⟩ := brk_of_checkpoint hEffect
      exact askHook_keeps hEmb hStable hAsk (h.behind hBounded hOp _)
  | abort hEffect hAsk =>
      obtain ⟨hOp, rfl⟩ := brk_of_checkpoint hEffect
      have hAsked := askHook_keeps hEmb hStable hAsk (h.behind hBounded hOp _)
      exact ⟨hAsked.program, h.cip⟩

/-! ## Runs -/

omit hFits hEmb in
/-- An execution starts at a boundary: at `main`, at a public, or where the context stands. -/
theorem start?_atBoundary {entry : EntryPoint} {c : Context} {w : World σ} {s : Point σ}
    (hStart : start? entry c w = some s) (hProgram : c.program = p)
    (hResume : entry = .resume → Boundary ds c.regs.cip) : AtBoundary ds p s := by
  have hEntered : ∀ address, Boundary ds address → enterAt? address c w = some s →
      AtBoundary ds p s := by
    intro address hAddress hAt
    obtain ⟨-, rfl⟩ := enterAt?_eq_some hAt
    exact ⟨hProgram, hAddress⟩
  cases entry with
  | resume =>
      rcases start?_eq_some hStart with ⟨-, -, rfl⟩ | ⟨hEntry, -⟩
      · exact ⟨hProgram, hResume rfl⟩
      · exact absurd rfl hEntry
  | main =>
      obtain ⟨address, hMain, hAt⟩ := Option.bind_eq_some_iff.mp hStart
      exact hEntered address (hBounded.main address (hProgram ▸ hMain)) hAt
  | function index =>
      obtain ⟨address, hPublic, hAt⟩ := Option.bind_eq_some_iff.mp hStart
      obtain ⟨entry, hEntry, rfl⟩ := Option.map_eq_some_iff.mp hPublic
      exact hEntered _ (hBounded.publics entry (List.mem_of_getElem? (hProgram ▸ hEntry))) hAt

omit hBounded hFits hEmb in
theorem refusal_atBoundary {entry : EntryPoint} {c : Context} {w : World σ}
    (h : AtBoundary ds p (c, w)) : AtBoundary ds p ((refusal entry c).2, w) := by
  rcases refusal_eq entry c with hSame | hMarked
  · rw [hSame]
    exact h
  · rw [hMarked]
    exact ⟨h.program, h.cip⟩

omit hBounded hFits hEmb in
/-- A pause settles at a boundary: where the context stands, or where it stood before. -/
theorem settle_atBoundary {entry : EntryPoint} {c c' : Context} {w w' : World σ} (pause : Pause)
    (h : AtBoundary ds p (c, w)) (hEnd : AtBoundary ds p (c', w')) :
    AtBoundary ds p ((settle (place entry c) pause c').2, w') := by
  cases pause with
  | returned value =>
      cases entry with
      | resume => exact ⟨hEnd.program, hEnd.cip⟩
      | main => exact ⟨hEnd.program, h.cip⟩
      | function index => exact ⟨hEnd.program, h.cip⟩
  | slept delay => exact ⟨hEnd.program, hEnd.cip⟩
  | faulted e => exact hEnd

omit hFits hEmb in
theorem execWith_atBoundary {go : Runner σ}
    (hGo : ∀ c w r, go c w = some r → AtBoundary ds p (c, w) → AtBoundary ds p r.2) :
    (execWith go).Keeps (AtBoundary ds p) :=
  keeps_execWith
    (fun _ _ _ _ hStart h => start?_atBoundary hBounded hStart h.program fun _ => h.cip)
    (fun _ _ _ h => refusal_atBoundary h)
    (fun _ _ _ pause _ _ h hEnd => settle_atBoundary pause h hEnd) hGo

/-- Where no return goes astray, a step leads from a boundary to a boundary. -/
theorem homing_atBoundary {fuel : Nat}
    (hRun : ∀ c w r, homingRun emb ds fuel c w = some r →
      AtBoundary ds p (c, w) → AtBoundary ds p r.2)
    {s : Point σ} {r : Progress σ} (h : homing emb ds fuel s = some r) (hs : AtBoundary ds p s) :
    AtBoundary ds p r.point := by
  unfold homing at h
  split at h
  · cases h
  next hHome => exact hs.stepped hBounded hFits hEmb (execWith_atBoundary hBounded hRun) hHome h

/-- **Where no return goes astray, a run leads from a boundary to a boundary.** The induction is on
the fuel, which bounds both the rest of the run and what callbacks execute. -/
theorem homingRun_atBoundary (fuel : Nat) :
    ∀ c w r, homingRun emb ds fuel c w = some r →
      AtBoundary ds p (c, w) → AtBoundary ds p r.2 := by
  induction fuel with
  | zero =>
      intro c w r h
      cases h
  | succ fuel ih =>
      intro c w r h hBefore
      rw [homingRun_succ] at h
      cases hStep : homing emb ds fuel (c, w) with
      | none =>
          rw [hStep] at h
          cases h
      | some progress =>
          have hNext := homing_atBoundary hBounded hFits hEmb ih hStep hBefore
          rw [hStep] at h
          cases progress with
          | continues c' w' => exact ih c' w' r h hNext
          | pauses pause c' w' =>
              cases h
              exact hNext

/-- Wherever an execution comes on which no return goes astray, there is a boundary. -/
theorem states_homing_atBoundary {fuel : Nat} {entry : EntryPoint} {c : Context} {w : World σ}
    (hProgram : c.program = p) (hResume : entry = .resume → Boundary ds c.regs.cip) :
    ∀ t ∈ states (homing emb ds) fuel entry c w, AtBoundary ds p t := by
  unfold states
  cases hStart : start? entry c w with
  | none => exact fun t ht => absurd ht List.not_mem_nil
  | some s =>
      have hFirst := start?_atBoundary hBounded hStart hProgram hResume
      exact visited_keeps
        (fun fuel _ _ => homing_atBoundary hBounded hFits hEmb
          (homingRun_atBoundary hBounded hFits hEmb fuel)) hFirst

end Steps

/-! ## Built programs -/

section Built

variable {ds : List Directive} {p : Program} (hBounded : Bounded ds p) {s : Point σ}
  (h : AtBoundary ds p s)
include hBounded h

/-- At a boundary an emitted instruction is decoded whole, or the code ends and the fetch fails. -/
theorem AtBoundary.decodes {emb : Embedder σ} :
    (∃ i operand, (s.1.regs.cip, i) ∈ placed ds ∧
      Instruction.decode p s.1.regs.cip = .ok (i.op, operand)) ∨
    (s.1.regs.cip = p.codeSize ∧ ∀ engine, step emb engine s.1 s.2 =
      some (.pauses (.faulted .memoryAccess) s.1 s.2.beginInstruction)) := by
  rcases decode_at_boundary hBounded h.cip with ⟨i, operand, hPlaced, hDecode, -⟩ | ⟨hEnd, hDecode⟩
  · exact .inl ⟨i, operand, hPlaced, hDecode⟩
  · refine .inr ⟨hEnd, fun engine => ?_⟩
    have hEffect : effectAt s = .fault .memoryAccess s.1.regs := by
      unfold effectAt Context.effect Instruction.effect
      rw [h.program, hDecode]
    exact step_of_fault hEffect

omit hBounded in
/-- Only by completing its last instruction does a program come to the end of its code. -/
theorem AtBoundary.leaves {regs : Registers} {store : Option Store}
    (hEffect : effectAt s = .next regs store) (hEnd : regs.cip = p.codeSize) :
    ∃ op, operation? s = some op ∧ s.1.regs.cip + op.width = p.codeSize := by
  have hInside : ∀ cell, s.1.program.target? cell ≠ some regs.cip := by
    intro cell hTarget
    have hLt := Instruction.lt_codeSize_of_target? hTarget
    rw [hEnd, h.program] at hLt
    exact Nat.lt_irrefl _ hLt
  obtain ⟨op, operand, hOp, hOf⟩ := operation?_of_effect hEffect fun _ h => by cases h
  cases Instruction.leads_of_next hOf with
  | behind hNext => exact ⟨op, hOp, hNext.symm.trans hEnd⟩
  | named _ hTarget => exact absurd hTarget (hInside _)
  | popped _ _ hTarget => exact absurd hTarget (hInside _)

/-- A call at a boundary pushes a return address. -/
theorem AtBoundary.pushes (hOp : operation? s = some .call) {regs : Registers} {store : Store}
    (hEffect : effectAt s = .next regs (some store)) : store.value ∈ returnCells ds := by
  obtain ⟨operand, hDecode⟩ := decode_of_operation? hOp
  obtain ⟨i, hPlaced, hCall, -⟩ := h.emits hBounded hDecode
  rw [effectAt_of_decode hDecode] at hEffect
  obtain ⟨-, -, hStore⟩ := Instruction.effectOf_call hEffect
  rw [Option.some.inj hStore]
  exact returnCell_of_call hPlaced hCall

/-- A `sleep` at a boundary stops at a boundary. -/
theorem AtBoundary.slept {emb : Embedder σ} {engine : Engine σ} {delay : Cell} {c : Context}
    {w : World σ} (hStep : step emb engine s.1 s.2 = some (.pauses (.slept delay) c w)) :
    AtBoundary ds p (c, w) := by
  obtain ⟨regs, hEffect⟩ := sleep_of_slept hStep
  cases hStep.symm.trans (step_of_sleep hEffect)
  exact h.sleeps hBounded hEffect _

end Built

/-- **Control flow of built programs stays on instruction boundaries.** In an execution in which
every return, also in what callbacks execute, takes an address that a call or an entry pushes, every
instruction is fetched at the start of an emitted one, where it is decoded whole, or at the end of
the code, where the fetch fails with `memoryAccess` and the instruction pointer stays. Of the
instructions only the last leads to the end, by completing: a jump, a call or a return to the end
fails where it stands. The calls of such an execution push return addresses, and where it is
suspended it can be resumed as one of its kind. -/
theorem built_stays_on_boundaries {emb : Embedder σ} (hEmb : emb.UsesInterface)
    {ds : List Directive} {p : Program} (hBuilt : (assemble ds).2 = .ok p)
    (hFits : p.codeSize ≤ Cell.maxValue) {fuel : Nat} {entry : EntryPoint} {c : Context}
    {w : World σ} (hProgram : c.program = p)
    (hResume : entry = .resume → Boundary ds c.regs.cip)
    (hHome : states (homing emb ds) fuel entry c w = states (stepper emb) fuel entry c w) :
    (∀ t ∈ states (stepper emb) fuel entry c w, t.1.program = p ∧
      ((∃ i operand, (t.1.regs.cip, i) ∈ placed ds ∧
          Instruction.decode p t.1.regs.cip = .ok (i.op, operand)) ∨
        (t.1.regs.cip = p.codeSize ∧ ∀ engine, step emb engine t.1 t.2 =
          some (.pauses (.faulted .memoryAccess) t.1 t.2.beginInstruction)))) ∧
    (∀ t ∈ states (stepper emb) fuel entry c w, ∀ regs store,
      effectAt t = .next regs store → regs.cip = p.codeSize →
        ∃ op, operation? t = some op ∧ t.1.regs.cip + op.width = p.codeSize) ∧
    (∀ t ∈ states (stepper emb) fuel entry c w, operation? t = some .call →
      ∀ regs store, effectAt t = .next regs (some store) → store.value ∈ returnCells ds) ∧
    ∀ delay c' w', exec emb fuel entry c w = some (.sleeping delay, c', w') →
      c'.program = p ∧ Boundary ds c'.regs.cip := by
  have hBounded := bounded_of_assemble hBuilt hFits
  rw [hBounded.codeSize] at hFits
  have hAt : ∀ t ∈ states (homing emb ds) fuel entry c w, AtBoundary ds p t :=
    states_homing_atBoundary hBounded hFits hEmb hProgram hResume
  rw [hHome] at hAt
  refine ⟨fun t ht => ⟨(hAt t ht).program, (hAt t ht).decodes hBounded⟩,
    fun t ht regs store hEffect hEnd => (hAt t ht).leaves hEffect hEnd,
    fun t ht hOp regs store hEffect => (hAt t ht).pushes hBounded hOp hEffect,
    fun delay c' w' hExec => ?_⟩
  obtain ⟨s, c₁, hStart, hTrail, rfl⟩ := slept_of_exec hExec
  obtain ⟨t, hLast, fuel', hSleep⟩ := hTrail.last
  have hStopped := (hAt t (List.mem_of_getLast? hLast)).slept hBounded hSleep
  exact ⟨hStopped.program, hStopped.cip⟩

/-- A program whose `main` calls a function, passes a jump to the end of its code, and runs off the
end. -/
def overrunning : List Directive :=
  [.label, .label, .bind ⟨0⟩, .emit ⟨.proc, ()⟩, .emit ⟨.ret, ()⟩,
   .main, .emit ⟨.call, (⟨0⟩ : Label)⟩, .emit ⟨.jnz, (⟨1⟩ : Label)⟩, .bind ⟨1⟩]

/-- What the directives are assembled to. -/
def overrun : Program where
  flags := Program.uncheckedFlag
  main := some 16
  code :=
    #[Opcode.halt.toCell, 0, Opcode.proc.toCell, Opcode.ret.toCell, Opcode.call.toCell, 8,
      Opcode.jnz.toCell, 32]

/-- The program in a block of sixteen cells. -/
def overrunner : Context where
  program := overrun
  natives := []
  layout := ⟨0, 64⟩
  regs := { frm := 64, stk := 64, hea := 0 }
  resetStk := 64
  resetHea := 0

/-- The program fetches at 16, 8, 12 and 24, and fails at 32, which is the end of its code. -/
theorem built_stays_on_boundaries_overrunner :
    (assemble overrunning).2 = .ok overrun ∧ overrun.codeSize ≤ Cell.maxValue ∧
    (Embedder.plain : Embedder Unit).UsesInterface ∧
    (states (stepper .plain) 9 .main overrunner napperWorld).map (·.1.regs.cip) =
      [16, 8, 12, 24, 32] ∧
    states (homing .plain overrunning) 9 .main overrunner napperWorld =
      states (stepper .plain) 9 .main overrunner napperWorld ∧
    ∀ t ∈ states (stepper .plain) 9 .main overrunner napperWorld,
      (∃ i operand, (t.1.regs.cip, i) ∈ placed overrunning ∧
        Instruction.decode overrun t.1.regs.cip = .ok (i.op, operand)) ∨
      (t.1.regs.cip = overrun.codeSize ∧ ∀ engine, step .plain engine t.1 t.2 =
        some (.pauses (.faulted .memoryAccess) t.1 t.2.beginInstruction)) := by
  have hBuilt : (assemble overrunning).2 = .ok overrun := rfl
  have hFits : overrun.codeSize ≤ Cell.maxValue := by decide
  have hHome : states (homing .plain overrunning) 9 .main overrunner napperWorld =
      states (stepper .plain) 9 .main overrunner napperWorld :=
    states_homing Embedder.plain_executesNothing (by decide)
  obtain ⟨hStates, -, -, -⟩ := built_stays_on_boundaries Embedder.plain_usesInterface hBuilt hFits
    (c := overrunner) rfl (fun h => by cases h) hHome
  exact ⟨hBuilt, hFits, Embedder.plain_usesInterface, rfl, hHome, fun t ht => (hStates t ht).2⟩

end Machine

end CellHost

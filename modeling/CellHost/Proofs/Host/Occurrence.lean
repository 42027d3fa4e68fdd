import CellHost.Proofs.Host.Containment

/-!
# Invariants of the states that occur

Some properties of contexts are kept by the instructions that occur, but not by every instruction in
every state: they need to know that the context is laid out, or something about the code that is
executed. Such a property cannot be proved of executions first and of histories afterwards. The
induction is on what occurs, and an execution is asked to keep the property of the contexts that
occur and of no others.

## Main definitions

* `Inherited` : what has to be shown of a property of contexts.

## Main results

* `Inherited.run`, `Inherited.exec_passesOn` : runs and executions that occur keep such a property.
* `Inherited.occurs` : it holds in every state that occurs.
-/

namespace CellHost

open Machine Instruction

variable {σ : Type}

/-- What has to be shown of a property of contexts for it to hold in every state that occurs: that
it holds of a new context, that instructions that occur keep it, and that the interface, starting,
refusing and settling an execution do. -/
structure Inherited (emb : Embedder σ) (p : Program) (bytes : Nat) (Q : Context → Prop) : Prop where
  creates : ∀ c m, Context.create p bytes = .ok (c, m) → Q c
  stable : Stable (fun s : Point σ => Q s.1)
  rewinds : ∀ c cip, Q c → Q { c with regs.cip := cip }
  effect : ∀ s regs, Occurs emb p bytes s → Q s.1 → (effectAt s).regs? = some regs →
    Q { s.1 with regs }
  starts : ∀ entry c (w : World σ) s, start? entry c w = some s → Q c → Q s.1
  refuses : ∀ entry c, Q c → Q (refusal entry c).2
  settles : ∀ entry c pause c', Q c → Q c' → Q (settle (place entry c) pause c').2

/-- An engine keeps a property of the contexts that occur. -/
def Engine.PassesOn (emb : Embedder σ) (p : Program) (bytes : Nat) (Q : Context → Prop)
    (engine : Engine σ) : Prop :=
  ∀ entry s outcome c w, Occurs emb p bytes s → Q s.1 →
    engine entry s.1 s.2 = some (outcome, c, w) → Q c

section Inherited

variable {emb : Embedder σ} {p : Program} {bytes : Nat} {Q : Context → Prop}
  (hQ : Inherited emb p bytes Q)
include hQ

/-- What is done through the interface of a context that occurs keeps the property. -/
theorem Inherited.acts {fuel : Nat} (hEngine : (exec emb fuel).PassesOn emb p bytes Q)
    {s t : Point σ} (h : Acts (exec emb fuel) s t) (hOccurs : Occurs emb p bytes s) (hs : Q s.1) :
    Q t.1 := by
  induction h with
  | rests s => exact hs
  | follows hFirst _ ih ih' => exact ih' (hOccurs.acts hFirst) (ih hOccurs hs)
  | assigns c w pri alt => exact hQ.stable.assigns c w pri alt hs
  | equips c w natives registry hook => exact hQ.stable.equips c w natives registry hook hs
  | writes _ => exact hs
  | elsewhere _ => exact hs
  | executes hExec => exact hEngine _ _ _ _ _ hOccurs hs hExec
  | aside _ _ => exact hs

theorem Inherited.withAbortHook {c : Context} (a : AbortState) (w : World σ) (h : Q c) :
    Q (withAbortHook c a) := by
  obtain ⟨hook, hWith⟩ := withAbortHook_eq c a
  rw [hWith]
  exact hQ.stable.equips c w c.natives c.registry hook h

theorem Inherited.askHook (hEmb : emb.UsesInterface) {a : AbortState} {c c' : Context}
    {w w' : World σ} {verdict : Checkpoint}
    (h : askHook emb (Machine.withAbortHook c a) w = (verdict, c', w')) (hc : Q c) : Q c' :=
  askHook_keeps hEmb hQ.stable h hc

/-- **A step that occurs keeps the property**, if the executions that its native makes do. -/
theorem Inherited.step (hEmb : emb.UsesInterface) {fuel : Nat}
    (hEngine : (exec emb fuel).PassesOn emb p bytes Q) {s : Point σ} {r : Progress σ}
    (hOccurs : Occurs emb p bytes s) (hs : Q s.1)
    (h : step emb (exec emb fuel) s.1 s.2 = some r) : Q r.point.1 := by
  cases stepped_of_step h with
  | next hEffect => exact hQ.effect _ _ hOccurs hs (by rw [hEffect]; rfl)
  | halt _ => exact hs
  | sleep hEffect => exact hQ.effect _ _ hOccurs hs (by rw [hEffect]; rfl)
  | fault hEffect => exact hQ.effect _ _ hOccurs hs (by rw [hEffect]; rfl)
  | unbound hEffect _ =>
      have hLeft := hQ.effect _ _ hOccurs hs (by rw [hEffect]; rfl)
      exact hQ.rewinds _ _ hLeft
  | @native regs index native answer c w hEffect _ hAnswer =>
      have hLeft := hQ.effect _ _ hOccurs hs (by rw [hEffect]; rfl)
      have hBack : Q c := by
        unfold nativeAnswer at hAnswer
        split at hAnswer
        · have hActs := hEmb.native _ _ _ _ _ _ _ hAnswer
          exact hQ.acts hEngine hActs (hOccurs.handed hEffect) hLeft
        · cases hAnswer
          exact hLeft
      cases answer with
      | ok value => exact hQ.stable.assigns c w value c.regs.alt hBack
      | error e => exact hQ.rewinds _ _ hBack
  | proceed hEffect hAsk =>
      have hLeft := hQ.effect _ _ hOccurs hs (by rw [hEffect]; rfl)
      exact hQ.askHook hEmb hAsk hLeft
  | abort hEffect hAsk =>
      have hLeft := hQ.effect _ _ hOccurs hs (by rw [hEffect]; rfl)
      exact hQ.rewinds _ _ (hQ.askHook hEmb hAsk hLeft)

/-- Executions that occur keep the property if runs do. -/
theorem Inherited.passesOn_of_run {fuel : Nat}
    (hRun : ∀ s r, Occurs emb p bytes s → Q s.1 → run emb fuel s.1 s.2 = some r → Q r.2.1) :
    (exec emb fuel).PassesOn emb p bytes Q := by
  intro entry s outcome c' w' hOccurs hs h
  have hExec : execWith (run emb fuel) entry s.1 s.2 = some (outcome, c', w') := h
  rw [execWith_eq] at hExec
  cases hStart : start? entry s.1 s.2 with
  | none =>
      rw [hStart] at hExec
      cases hExec
      exact hQ.refuses entry s.1 hs
  | some t =>
      rw [hStart] at hExec
      obtain ⟨⟨pause, c₁, w₁⟩, hRan, hSettle⟩ := Option.map_eq_some_iff.mp hExec
      cases hSettle
      have hEnd := hRun t _ (hOccurs.starts hStart) (hQ.starts _ _ _ _ hStart hs) hRan
      exact hQ.settles entry s.1 pause c₁ hs hEnd

variable (hEmb : emb.UsesInterface)
include hEmb

/-- **A run that occurs keeps the property.** The induction is on the fuel, which bounds both the
rest of the run and what callbacks execute. -/
theorem Inherited.run (fuel : Nat) {s : Point σ} {r : Pause × Context × World σ}
    (hOccurs : Occurs emb p bytes s) (hs : Q s.1) (h : run emb fuel s.1 s.2 = some r) :
    Q r.2.1 := by
  induction fuel generalizing s r with
  | zero => cases h
  | succ fuel ih =>
      have hEngine : (exec emb fuel).PassesOn emb p bytes Q :=
        hQ.passesOn_of_run fun s r hOccurs hs hRun => ih hOccurs hs hRun
      simp only [Machine.run] at h
      cases hStep : Machine.step emb (execWith (Machine.run emb fuel)) s.1 s.2 with
      | none => rw [hStep] at h; cases h
      | some progress =>
          have hNext := hQ.step hEmb hEngine hOccurs hs hStep
          rw [hStep] at h
          cases progress with
          | continues c w => exact ih (hOccurs.next hStep) hNext h
          | pauses pause c w => cases h; exact hNext

theorem Inherited.exec_passesOn (fuel : Nat) : (exec emb fuel).PassesOn emb p bytes Q :=
  hQ.passesOn_of_run fun _ _ hOccurs hs h => hQ.run hEmb fuel hOccurs hs h

/-- The contexts that a host comes to hold have the property. -/
theorem Inherited.reaches {held : List Context} {w : World σ} (h : Reaches emb p bytes held w) :
    ∀ c ∈ held, Q c := by
  induction h with
  | creates hCreate _ =>
      intro c hc
      rw [List.mem_singleton.mp hc]
      exact hQ.creates _ _ hCreate
  | snapshots _ hMem ih =>
      intro c hc
      rcases List.mem_cons.mp hc with rfl | hc
      · exact ih _ hMem
      · exact ih c hc
  | @acts held w w' i fuel c₀ c₁ hReaches hAt hActs ih =>
      have hMem := List.mem_of_getElem? hAt
      intro c hc
      rcases List.mem_or_eq_of_mem_set hc with hc | rfl
      · exact ih c hc
      · exact hQ.acts (hQ.exec_passesOn hEmb fuel) hActs (.held hReaches hMem) (ih c₀ hMem)

/-- **An inherited property holds in every state that occurs.** -/
theorem Inherited.occurs {s : Point σ} (h : Occurs emb p bytes s) : Q s.1 := by
  induction h with
  | held hReaches hMem => exact hQ.reaches hEmb hReaches _ hMem
  | starts _ hStart ih => exact hQ.starts _ _ _ _ hStart ih
  | next hBefore hStep ih => exact hQ.step hEmb (hQ.exec_passesOn hEmb _) hBefore ih hStep
  | handed hBefore hEffect ih => exact hQ.effect _ _ hBefore ih (by rw [hEffect]; rfl)
  | @watched s regs hBefore hEffect ih =>
      have hLeft := hQ.effect _ _ hBefore ih (by rw [hEffect]; rfl)
      exact hQ.withAbortHook _ s.2 hLeft
  | acts hBefore hActs ih => exact hQ.acts (hQ.exec_passesOn hEmb _) hActs hBefore ih

end Inherited

end CellHost

import CellHost.Proofs.Machine.Fuel
import CellHost.Proofs.Machine.Step

/-!
# Trails

A trail is a run with its fuel forgotten and its states kept: the states in which its instructions
start, in order, up to the pause. Trails are taken over any way of moving from state to state, so
that two machines that differ in a single instruction can be compared instruction by instruction.

A *stepper* moves by an engine with so much fuel; running it is `runWith`, and the machine's own
`run` is `runWith` of the machine's own stepper.

## Main results

* `runWith_iff_trail` : a run comes to an end exactly along the trail that ends there.
* `Trail.unique` : and there is only one.
-/

namespace CellHost.Machine

variable {σ : Type}

/-- A way of executing one instruction, with fuel for the code that callbacks run. -/
abbrev Stepper (σ : Type) := Nat → Point σ → Option (Progress σ)

/-- The machine's own stepper. -/
def stepper (emb : Embedder σ) : Stepper σ := fun fuel s => step emb (exec emb fuel) s.1 s.2

/-- Execute instructions until one pauses, at most so many of them. -/
def runWith (move : Stepper σ) : Nat → Runner σ
  | 0, _, _ => none
  | fuel + 1, c, w =>
    match move fuel (c, w) with
    | none => none
    | some (.pauses pause c' w') => some (pause, c', w')
    | some (.continues c' w') => runWith move fuel c' w'

/-- The states in which the instructions of a run start. -/
def visited (move : Stepper σ) : Nat → Point σ → List (Point σ)
  | 0, _ => []
  | fuel + 1, s =>
    match move fuel s with
    | some (.continues c w) => s :: visited move fuel (c, w)
    | _ => [s]

/-- An instruction leads somewhere with some fuel. -/
def Stepper.Moves (move : Stepper σ) (s : Point σ) (p : Progress σ) : Prop :=
  ∃ fuel, move fuel s = some p

/-- What a stepper does with some fuel it does with more. -/
def Stepper.Monotone (move : Stepper σ) : Prop :=
  ∀ ⦃n m : Nat⦄, n ≤ m → ∀ s p, move n s = some p → move m s = some p

/-- The instructions from a state up to a pause: the states in which they start, and what the last
one leads to. -/
inductive Trail (move : Stepper σ) :
    Point σ → List (Point σ) → Pause × Context × World σ → Prop
  | pause {s : Point σ} {pause : Pause} {c : Context} {w : World σ} :
      move.Moves s (.pauses pause c w) → Trail move s [s] (pause, c, w)
  | next {s : Point σ} {c : Context} {w : World σ} {states : List (Point σ)}
      {r : Pause × Context × World σ} :
      move.Moves s (.continues c w) → Trail move (c, w) states r → Trail move s (s :: states) r

theorem run_eq_runWith (emb : Embedder σ) : run emb = runWith (stepper emb) := by
  funext fuel
  induction fuel with
  | zero => rfl
  | succ fuel ih =>
      funext c w
      have hMove : stepper emb fuel (c, w) = step emb (execWith (run emb fuel)) c w := rfl
      simp only [run, runWith, hMove]
      cases step emb (execWith (run emb fuel)) c w with
      | none => rfl
      | some p =>
          cases p with
          | pauses pause c' w' => rfl
          | continues c' w' => exact congrFun (congrFun ih c') w'

section Monotone

variable {move : Stepper σ}

theorem Stepper.Moves.unique (hMove : move.Monotone) {s : Point σ} {p q : Progress σ}
    (hp : move.Moves s p) (hq : move.Moves s q) : p = q := by
  obtain ⟨n, hn⟩ := hp
  obtain ⟨m, hm⟩ := hq
  have hn' := hMove (Nat.le_max_left n m) s p hn
  have hm' := hMove (Nat.le_max_right n m) s q hm
  exact Option.some.inj (hn'.symm.trans hm')

theorem trail_of_runWith {fuel : Nat} {s : Point σ} {r : Pause × Context × World σ}
    (h : runWith move fuel s.1 s.2 = some r) : Trail move s (visited move fuel s) r := by
  induction fuel generalizing s with
  | zero => cases h
  | succ fuel ih =>
      simp only [runWith] at h
      simp only [visited]
      cases hStep : move fuel s with
      | none => simp only [hStep, reduceCtorEq] at h
      | some p =>
          simp only [hStep] at h
          cases p with
          | pauses pause c w => cases h; exact .pause ⟨fuel, hStep⟩
          | continues c w => exact .next ⟨fuel, hStep⟩ (ih h)

theorem runWith_of_trail (hMove : move.Monotone) {s : Point σ} {states : List (Point σ)}
    {r : Pause × Context × World σ} (h : Trail move s states r) :
    ∃ fuel, ∀ m, fuel ≤ m → runWith move m s.1 s.2 = some r ∧ visited move m s = states := by
  induction h with
  | @pause s pause c w hStep =>
      obtain ⟨n, hn⟩ := hStep
      refine ⟨n + 1, fun m hm => ?_⟩
      obtain ⟨m, rfl⟩ := Nat.exists_eq_add_one_of_ne_zero (show m ≠ 0 by omega)
      have hStep := hMove (Nat.le_of_succ_le_succ hm) s _ hn
      simp only [runWith, visited, hStep, and_self]
  | @next s c w states r hStep _ ih =>
      obtain ⟨n, hn⟩ := hStep
      obtain ⟨k, hk⟩ := ih
      refine ⟨max n k + 1, fun m hm => ?_⟩
      obtain ⟨m, rfl⟩ := Nat.exists_eq_add_one_of_ne_zero (show m ≠ 0 by omega)
      have hStep := hMove (show n ≤ m by omega) s _ hn
      obtain ⟨hRun, hVisited⟩ := hk m (by omega)
      simp only [runWith, visited, hStep, hRun, hVisited, and_self]

/-- **A run comes to an end exactly along a trail.** -/
theorem runWith_iff_trail (hMove : move.Monotone) {s : Point σ} {r : Pause × Context × World σ} :
    (∃ fuel, runWith move fuel s.1 s.2 = some r) ↔ ∃ states, Trail move s states r := by
  constructor
  · rintro ⟨fuel, h⟩
    exact ⟨_, trail_of_runWith h⟩
  · rintro ⟨states, h⟩
    obtain ⟨fuel, hFuel⟩ := runWith_of_trail hMove h
    exact ⟨fuel, (hFuel fuel (Nat.le_refl _)).1⟩

/-- A state has at most one trail. -/
theorem Trail.unique (hMove : move.Monotone) {s : Point σ} {l l' : List (Point σ)}
    {r r' : Pause × Context × World σ} (h : Trail move s l r) (h' : Trail move s l' r') :
    l = l' ∧ r = r' := by
  induction h generalizing l' with
  | pause hStep =>
      cases h' with
      | pause hStep' => cases hStep.unique hMove hStep'; exact ⟨rfl, rfl⟩
      | next hStep' _ => cases hStep.unique hMove hStep'
  | next hStep _ ih =>
      cases h' with
      | pause hStep' => cases hStep.unique hMove hStep'
      | next hStep' hRest' =>
          cases hStep.unique hMove hStep'
          obtain ⟨rfl, rfl⟩ := ih hRest'
          exact ⟨rfl, rfl⟩

end Monotone

end CellHost.Machine

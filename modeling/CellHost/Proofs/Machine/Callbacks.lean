import CellHost.Machine.Run

/-!
# What built-in callbacks leave alone

The built-in natives and the built-in hook act on the clock, the console and the objects that
registry entries refer to. Of the region that a context shares with its snapshots they leave the
rest as it is: data memory, and the abort state.

## Main results

* `call_spares`, `monitor_spares` : built-in callbacks change only the objects of the region.
-/

namespace CellHost

variable {σ : Type}

/-- Of the region, two worlds differ at most in the objects. -/
structure World.Spares (w w' : World σ) : Prop where
  memory : w'.region.memory = w.region.memory
  abort : w'.region.abort = w.region.abort

theorem World.Spares.rfl {w : World σ} : w.Spares w := ⟨Eq.refl _, Eq.refl _⟩

theorem World.Spares.trans {w w₁ w₂ : World σ} (h : w.Spares w₁) (h' : w₁.Spares w₂) :
    w.Spares w₂ :=
  ⟨h'.memory.trans h.memory, h'.abort.trans h.abort⟩

theorem readClock_spares (w : World σ) : w.Spares w.readClock.2 := ⟨rfl, rfl⟩

theorem wait_spares (w : World σ) (nanos : Nat) : w.Spares (w.wait nanos) := ⟨rfl, rfl⟩

theorem print_spares (w : World σ) (text : String) : w.Spares (w.print text) := ⟨rfl, rfl⟩

theorem setTimer_spares (w : World σ) (ref : Nat) (timer : Timer) :
    w.Spares (w.setTimer ref timer) := ⟨rfl, rfl⟩

theorem withTimer_spares (c : Context) (w : World σ)
    (step : Nat → Except MachineError Cell × World σ) (h : ∀ ref, w.Spares (step ref).2) :
    w.Spares (Native.withTimer c w step).2 := by
  unfold Native.withTimer
  split
  · exact .rfl
  · exact h _

/-- The built-in natives change only the objects of the region. -/
theorem call_spares (native : Native) (c : Context) (w : World σ) :
    w.Spares (native.call c w).2 := by
  cases native with
  | print => exact print_spares w _
  | printChar =>
      simp only [Native.call]
      split
      · exact print_spares w _
      · exact .rfl
  | tickCount => exact readClock_spares w
  | delay =>
      simp only [Native.call]
      split
      · exact wait_spares w _
      · exact .rfl
  | argumentCount => exact .rfl
  | argument => exact .rfl
  | setTimer =>
      simp only [Native.call, Native.callSetTimer]
      split
      · exact .rfl
      · refine withTimer_spares c w _ fun ref => ?_
        split
        · exact setTimer_spares w ref _
        · exact (readClock_spares w).trans (setTimer_spares w.readClock.2 ref _)
  | getTimer => exact withTimer_spares c w _ fun ref => .rfl
  | killTimer => exact withTimer_spares c w _ fun ref => setTimer_spares w ref _
  | custom id => exact .rfl

/-- The built-in hook changes only the objects of the region. -/
theorem monitor_spares (c : Context) (w : World σ) : w.Spares (monitor c w).2 := by
  unfold monitor
  dsimp only
  split
  · exact ⟨rfl, rfl⟩
  · exact .rfl

end CellHost

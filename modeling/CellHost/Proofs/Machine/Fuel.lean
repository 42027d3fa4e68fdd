import CellHost.Proofs.Machine.Start

/-!
# Fuel is only a bound

A run is granted fuel, and the code that a callback runs is granted what is left of it. A callback
is therefore handed a different engine on every call, and nothing in its type stops it from looking
at how much that engine can do. No host can: a callback that gets an answer from an engine goes on
with that answer, whatever it cost. `Embedder.FuelBlind` says so, and everything here follows from
it.

## Main results

* `run_mono`, `exec_mono` : what comes out with some fuel comes out with more.
* `exec_unique` : an execution has one result, whatever fuel it was found with.
-/

namespace CellHost

variable {σ : Type}

/-- Whatever the first engine answers, the second answers too. -/
def Engine.Below (e e' : Engine σ) : Prop :=
  ∀ entry c w r, e entry c w = some r → e' entry c w = some r

/-- What a native gives with one engine it gives with every engine that answers more. -/
def Embedder.FuelBlind (emb : Embedder σ) : Prop :=
  ∀ id (e e' : Engine σ), e.Below e' →
    ∀ c w r, emb.native id e c w = some r → emb.native id e' c w = some r

theorem Embedder.plain_fuelBlind : (Embedder.plain : Embedder σ).FuelBlind :=
  fun _ _ _ _ _ _ _ h => h

namespace Machine

variable {emb : Embedder σ}

theorem callNative_mono (hEmb : emb.FuelBlind) {e e' : Engine σ} (hBelow : e.Below e')
    {start : Nat} {index : Cell} {c : Context} {w : World σ} {p : Progress σ}
    (h : callNative emb e start index c w = some p) :
    callNative emb e' start index c w = some p := by
  unfold callNative at h ⊢
  split at h
  · exact h
  · obtain ⟨r, hr, hp⟩ := Option.map_eq_some_iff.mp h
    rw [hEmb _ e e' hBelow _ _ r hr]
    exact congrArg some hp
  · exact h

theorem step_mono (hEmb : emb.FuelBlind) {e e' : Engine σ} (hBelow : e.Below e')
    {c : Context} {w : World σ} {p : Progress σ} (h : step emb e c w = some p) :
    step emb e' c w = some p := by
  unfold step at h ⊢
  dsimp only at h ⊢
  split at h
  case h_5 => exact callNative_mono hEmb hBelow h
  all_goals exact h

/-- A runner that gives more makes an engine that gives more. -/
theorem execWith_below {go go' : Runner σ}
    (hGo : ∀ c w r, go c w = some r → go' c w = some r) :
    (execWith go).Below (execWith go') := by
  intro entry c w r h
  rw [execWith_eq] at h ⊢
  cases hStart : start? entry c w with
  | none => rw [hStart] at h; exact h
  | some s =>
      rw [hStart] at h
      obtain ⟨x, hx, hr⟩ := Option.map_eq_some_iff.mp h
      exact Option.map_eq_some_iff.mpr ⟨x, hGo s.1 s.2 x hx, hr⟩

/-- **More fuel, same result.** -/
theorem run_mono (hEmb : emb.FuelBlind) {n m : Nat} (hle : n ≤ m) {c : Context} {w : World σ}
    {r : Pause × Context × World σ} (h : run emb n c w = some r) : run emb m c w = some r := by
  induction n generalizing m c w r with
  | zero => cases h
  | succ n ih =>
      obtain ⟨m, rfl⟩ := Nat.exists_eq_add_one_of_ne_zero (show m ≠ 0 by omega)
      have hnm : n ≤ m := Nat.le_of_succ_le_succ hle
      have hBelow : (execWith (run emb n)).Below (execWith (run emb m)) :=
        execWith_below fun c w r hr => ih hnm hr
      simp only [run] at h ⊢
      cases hStep : step emb (execWith (run emb n)) c w with
      | none => rw [hStep] at h; cases h
      | some p =>
          rw [step_mono hEmb hBelow hStep]
          rw [hStep] at h
          cases p with
          | continues c' w' => exact ih hnm h
          | pauses pause c' w' => exact h

theorem exec_below (hEmb : emb.FuelBlind) {n m : Nat} (hle : n ≤ m) :
    (exec emb n).Below (exec emb m) :=
  execWith_below fun _ _ _ h => run_mono hEmb hle h

theorem exec_mono (hEmb : emb.FuelBlind) {n m : Nat} (hle : n ≤ m) {entry : EntryPoint}
    {c : Context} {w : World σ} {r : Outcome × Context × World σ}
    (h : exec emb n entry c w = some r) : exec emb m entry c w = some r :=
  exec_below hEmb hle entry c w r h

theorem exec_unique (hEmb : emb.FuelBlind) {n m : Nat} {entry : EntryPoint} {c : Context}
    {w : World σ} {r r' : Outcome × Context × World σ}
    (h : exec emb n entry c w = some r) (h' : exec emb m entry c w = some r') : r = r' := by
  have hn := exec_mono hEmb (Nat.le_max_left n m) h
  have hm := exec_mono hEmb (Nat.le_max_right n m) h'
  exact Option.some.inj (hn.symm.trans hm)

end Machine

end CellHost

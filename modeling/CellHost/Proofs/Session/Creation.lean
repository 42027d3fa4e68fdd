import CellHost.Proofs.Host.Layout
import CellHost.Session

/-!
# What a session begins with

Setting up extensions changes a context in three of its parts: the natives, the registry and, where
high-water marks are kept, the hook. What it files in the registry lies under tags of its own, so that
nothing that is filed first is lost by what comes later. A session therefore begins with its program
freshly laid out, with a timer and the idle function that serves it, and, if it was asked to keep
high-water marks, with an empty record of them and the hook that writes it.

## Main definitions

* `Context.Timed` : a context on which the time extension was set up.
* `Session.Begins` : what a session begins with.

## Main results

* `Session.create_begins` : a session that was made begins so.
-/

namespace CellHost

variable {σ : Type}

/-- A context has a timer registered, as it has once the time extension is set up on it. -/
def Context.Timed (c : Context) : Prop := ∃ ref, c.timerRef? = some ref

namespace Extension

variable {c c' : Context} {w w' : World σ}

/-- What is filed is found under its tag, and nothing else has changed. -/
theorem file_ok {tag : Tag} {entry : Entry} (h : file c tag entry = (.ok (), c')) :
    ∃ registry, c' = { c with registry } ∧
      ∀ other, registry.get? other = if tag = other then some entry else c.registry.get? other := by
  unfold file Context.setEntry at h
  cases hSet : c.registry.set tag entry with
  | error e => rw [hSet] at h; cases h
  | ok registry =>
      rw [hSet] at h
      cases h
      exact ⟨registry, rfl, Registry.get?_set hSet⟩

/-- The core extension binds natives and files the arguments of the program. -/
theorem init_core {arguments : List String}
    (h : (core arguments).init c w = (.ok (), c', w')) :
    ∃ natives registry, c' = { c with natives, registry } ∧ w' = w := by
  unfold init at h
  cases arguments with
  | nil =>
      cases h
      exact ⟨_, _, rfl, rfl⟩
  | cons argument arguments =>
      obtain ⟨hOk, hRest⟩ := Prod.mk.inj h
      obtain ⟨hContext, hWorld⟩ := Prod.mk.inj hRest
      obtain ⟨registry, rfl, -⟩ := file_ok (Prod.ext hOk hContext)
      exact ⟨_, registry, rfl, hWorld.symm⟩

/-- The time extension binds natives, and registers a fresh timer with the idle function that serves
it. -/
theorem init_time (h : time.init c w = (.ok (), c', w')) :
    ∃ natives registry, c' = { c with natives, registry } ∧ c'.Timed ∧
      c'.idleFunction? = some .timer ∧ w' = w.newTimer.2 := by
  unfold init at h
  dsimp only at h
  split at h
  · cases h
  next c₁ hTimer =>
    obtain ⟨hOk, hRest⟩ := Prod.mk.inj h
    obtain ⟨hContext, hWorld⟩ := Prod.mk.inj hRest
    obtain ⟨first, rfl, hFirst⟩ := file_ok hTimer
    obtain ⟨second, rfl, hSecond⟩ := file_ok (Prod.ext hOk hContext)
    have hApart : Tag.idle ≠ Tag.timer := by decide
    refine ⟨_, second, rfl, ⟨w.newTimer.1, ?_⟩, ?_, hWorld.symm⟩
    · unfold Context.timerRef? Registry.find?
      rw [hSecond, if_neg hApart]
      dsimp only
      rw [hFirst, if_pos rfl]
      rfl
    · unfold Context.idleFunction? Registry.find?
      rw [hSecond, if_pos rfl]
      rfl

/-- The built-in extensions leave a context with bound natives, a timer and its idle function. -/
theorem initAll_builtin {arguments : List String}
    (h : initAll (builtin arguments) c w = (.ok (), c', w')) :
    ∃ natives registry, c' = { c with natives, registry } ∧ c'.Timed ∧
      c'.idleFunction? = some .timer ∧ w' = w.newTimer.2 := by
  unfold builtin initAll at h
  split at h
  next c₁ w₁ hCore =>
    obtain ⟨natives, registry, rfl, rfl⟩ := init_core hCore
    unfold initAll at h
    split at h
    next c₂ w₂ hTime =>
      unfold initAll at h
      obtain ⟨rfl, rfl⟩ := Prod.mk.inj (Prod.mk.inj h).2
      obtain ⟨natives', registry', hContext, hTimed, hIdle, hWorld⟩ := init_time hTime
      exact ⟨natives', registry', hContext, hTimed, hIdle, hWorld⟩
    · cases h
  · cases h

end Extension

/-- Keeping high-water marks takes an empty record of them, and the hook that writes it. -/
theorem enableUsage_ok {c c' : Context} {w w' : World σ} {ref : Nat}
    (h : enableUsage c w = (.ok ref, c', w')) :
    ∃ registry, c' = { c with registry, hook := some .monitor } ∧ c'.usageRef? = some ref ∧
      c'.timerRef? = c.timerRef? ∧ c'.idleFunction? = c.idleFunction? ∧
      (ref, w') = w.newUsage := by
  unfold enableUsage at h
  dsimp only at h
  split at h
  next c₁ hFile =>
    cases h
    obtain ⟨registry, rfl, hGet⟩ := Extension.file_ok hFile
    have hTimer : Tag.usage ≠ Tag.timer := by decide
    have hIdle : Tag.usage ≠ Tag.idle := by decide
    refine ⟨registry, rfl, ?_, ?_, ?_, rfl⟩
    · unfold Context.usageRef? Registry.find?
      rw [hGet, if_pos rfl]
      rfl
    · unfold Context.timerRef? Registry.find?
      rw [hGet, if_neg hTimer]
    · unfold Context.idleFunction? Registry.find?
      rw [hGet, if_neg hIdle]
  · cases h

/-- High-water marks are kept on a context: its hook is the built-in one, and it has a record
registered. -/
structure Context.Monitored (ref : Nat) (c : Context) : Prop where
  hook : c.hook = some .monitor
  record : c.usageRef? = some ref

/-- A context that was laid out is laid out whatever it is equipped with. -/
theorem Fresh.equip {p : Program} {bytes : Nat} {c : Context} {m : Memory} (h : Fresh p bytes c m)
    (natives : List (Option Native)) (registry : Registry Entry) (hook : Option Hook) :
    Fresh p bytes { c with natives, registry, hook } m :=
  ⟨h.program, h.layout, h.stk, h.hea, h.markStk, h.markHea, h.awake, h.size, h.room⟩

namespace Session

/-- A session that is made is one that is made short of the end of the process. -/
theorem create?_eq_some_ok_iff {p : Program} {options : RunOptions} {abort : AbortState}
    {clock : Clock} {s : Session} :
    create? p options abort clock = some (.ok s) ↔ create p options abort clock = .ok s := by
  unfold create? create Context.create
  cases Context.create? p options.memorySize with
  | none => exact ⟨nofun, nofun⟩
  | some laidOut => exact Option.some_inj

/-- What a session begins with. -/
structure Begins (p : Program) (options : RunOptions) (s : Session) : Prop where
  fresh : Fresh p options.memorySize s.context s.world.region.memory
  timed : s.context.Timed
  idle : s.context.idleFunction? = some .timer
  monitored : options.monitorStack = true →
    ∃ ref, s.usageRef = some ref ∧ s.context.Monitored ref ∧
      s.world.region.objects.usages[ref]? = some {}

/-- **A session that was made begins with its program laid out**, with a timer and its idle function,
and with an empty record of high-water marks if they are to be kept. -/
theorem create_begins {p : Program} {options : RunOptions} {abort : AbortState} {clock : Clock}
    {s : Session} (h : create p options abort clock = .ok s) : s.Begins p options := by
  unfold create equip at h
  split at h
  · cases h
  next c memory hCreate =>
    have hFresh := create_fresh hCreate
    dsimp only at h
    split at h
    · cases h
    next c₁ w₁ hInit =>
      obtain ⟨natives, registry, rfl, hTimed, hIdle, rfl⟩ := Extension.initAll_builtin hInit
      split at h
      next hMonitor =>
        split at h
        · cases h
        next ref c₂ w₂ hUsage =>
          cases h
          obtain ⟨registry', hEq, hRecord, hTimer', hIdle', hWorld⟩ := enableUsage_ok hUsage
          obtain ⟨rfl, rfl⟩ := Prod.mk.inj hWorld
          subst hEq
          obtain ⟨timer, hTimer⟩ := hTimed
          -- the record is the first that the world of the session has
          exact ⟨hFresh.equip _ _ _, ⟨timer, hTimer'.trans hTimer⟩, hIdle'.trans hIdle,
            fun _ => ⟨0, rfl, ⟨rfl, hRecord⟩, rfl⟩⟩
      next hNone =>
        cases h
        exact ⟨hFresh.equip _ _ _, hTimed, hIdle, fun hMonitor => absurd hMonitor hNone⟩

end Session

end CellHost

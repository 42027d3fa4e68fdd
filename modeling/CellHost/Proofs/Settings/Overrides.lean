import CellHost.Proofs.Settings.Spellings

/-!
# What environment variables change

Environment variables are applied one after the other, each to one setting. If every variable that
is set has a value that it can have, exactly their settings are replaced, by what the values say. If
not, the first one with another value is named, and the settings in front of it stay replaced. So
applying them is not all or nothing, but loading settings is: it gives the settings with all
variables applied, or only the error.

## Main definitions

* `Settings.Overridden` : what the variables make of settings.
* `Settings.Unreadable` : the values that a variable cannot have.
* `Settings.ahead` : the variables in front of one.

## Main results

* `Settings.applyAll_append`, `Settings.applyAll_stopped_iff` : a run over variables, and where it
  stops.
* `Settings.applyOverrides_done_iff` : the runs that go through.
* `Settings.applyOverrides_exact` : what is left of settings, with an error and without.
-/

namespace CellHost.Settings

variable {lookup lookup' : Lookup} {o : Override} {first rest os : List Override}
  {s s' s'' : Settings} {e : SettingsError} {key value : String}

/-! ## One variable after the other -/

/-- What one variable makes of settings: they stay if it is not set, and have its value if that can
be. -/
def Override.step (o : Override) (lookup : Lookup) (s : Settings) : Except SettingsError Settings :=
  match lookup o.key with
  | none => .ok s
  | some value =>
    match o.set? s value with
    | some s' => .ok s'
    | none => .error (.invalidValue o.key value)

theorem Override.step_eq_error : o.step lookup s = .error e ↔
    ∃ value, lookup o.key = some value ∧ o.set? s value = none ∧ e = .invalidValue o.key value := by
  unfold Override.step
  cases lookup o.key with
  | none => simp
  | some value => cases hSet : o.set? s value <;> simp [hSet, eq_comm]

theorem Override.step_unset (h : lookup o.key = none) : o.step lookup s = .ok s := by
  rw [Override.step, h]

theorem applyAll_cons (lookup : Lookup) (o : Override) (rest : List Override) (s : Settings) :
    applyAll lookup (o :: rest) s =
      match o.step lookup s with
      | .ok s' => applyAll lookup rest s'
      | .error e => (s, some e) := by
  rw [applyAll, Override.step]
  cases lookup o.key with
  | none => rfl
  | some value =>
      dsimp only
      cases o.set? s value <;> rfl

theorem applyAll_cons_done : applyAll lookup (o :: rest) s = (s'', none) ↔
    ∃ s', o.step lookup s = .ok s' ∧ applyAll lookup rest s' = (s'', none) := by
  rw [applyAll_cons]
  cases o.step lookup s <;> simp

/-- Variables in two parts: the second part is looked at if the first has gone through. -/
theorem applyAll_append (lookup : Lookup) (first rest : List Override) (s : Settings) :
    applyAll lookup (first ++ rest) s =
      match applyAll lookup first s with
      | (s', none) => applyAll lookup rest s'
      | (s', some e) => (s', some e) := by
  induction first generalizing s with
  | nil => rfl
  | cons o others ih =>
      rw [List.cons_append, applyAll_cons, applyAll_cons]
      cases o.step lookup s with
      | error e => rfl
      | ok s' => exact ih s'

/-- **Where a run over variables stops**: at the first value that its variable cannot have, with the
settings that the variables in front of it have made. -/
theorem applyAll_stopped_iff : applyAll lookup os s = (s', some e) ↔
    ∃ first o rest, os = first ++ o :: rest ∧ applyAll lookup first s = (s', none) ∧
      o.step lookup s' = .error e := by
  constructor
  · intro h
    induction os generalizing s with
    | nil => cases h
    | cons o others ih =>
        rw [applyAll_cons] at h
        cases hStep : o.step lookup s with
        | error e' =>
            rw [hStep] at h
            cases h
            exact ⟨[], o, others, rfl, rfl, hStep⟩
        | ok mid =>
            rw [hStep] at h
            obtain ⟨first, o', rest, rfl, hFirst, hStop⟩ := ih h
            exact ⟨o :: first, o', rest, rfl, applyAll_cons_done.mpr ⟨mid, hStep, hFirst⟩, hStop⟩
  · rintro ⟨first, o, rest, rfl, hFirst, hStop⟩
    rw [applyAll_append, hFirst]
    dsimp only
    rw [applyAll_cons, hStop]

/-- A run looks at no other variables than those in the list. -/
theorem applyAll_congr (h : ∀ o ∈ os, lookup o.key = lookup' o.key) :
    applyAll lookup os s = applyAll lookup' os s := by
  induction os generalizing s with
  | nil => rfl
  | cons o others ih =>
      have hStep : o.step lookup s = o.step lookup' s := by
        rw [Override.step, Override.step, h o List.mem_cons_self]
      rw [applyAll_cons, applyAll_cons, hStep]
      cases o.step lookup' s with
      | error e => rfl
      | ok s' => exact ih fun o' ho' => h o' (List.mem_cons_of_mem o ho')

theorem applyAll_unset (h : ∀ o ∈ os, lookup o.key = none) : applyAll lookup os s = (s, none) := by
  induction os with
  | nil => rfl
  | cons o others ih =>
      rw [applyAll_cons, Override.step_unset (h o List.mem_cons_self)]
      exact ih fun o' ho' => h o' (List.mem_cons_of_mem o ho')

/-! ## Variables in front of one -/

/-- The values of the variables that are looked at in front of one. -/
def ahead (key : String) (lookup : Lookup) : Lookup := fun other =>
  if other ∈ (overrides.map (·.key)).takeWhile (· != key) then lookup other else none

theorem keys_nodup : (overrides.map (·.key)).Nodup := by decide

section Split

variable {o' : Override} (hSplit : overrides = first ++ o :: rest)

include hSplit

theorem key_not_mem_first (h : o' ∈ o :: rest) : o'.key ∉ first.map (·.key) := by
  have hNodup := keys_nodup
  rw [hSplit, List.map_append, List.nodup_append] at hNodup
  exact fun hFirst => hNodup.2.2 _ hFirst _ (List.mem_map_of_mem h) rfl

theorem takeWhile_keys : (overrides.map (·.key)).takeWhile (· != o.key) = first.map (·.key) := by
  rw [hSplit, List.map_append, List.takeWhile_append_of_pos, List.map_cons, List.takeWhile_cons]
  · simp
  · intro key hKey
    have hOther : key ≠ o.key := by
      rintro rfl
      exact key_not_mem_first hSplit List.mem_cons_self hKey
    simpa using hOther

theorem ahead_of_mem (h : o' ∈ first) : ahead o.key lookup o'.key = lookup o'.key := by
  rw [ahead, takeWhile_keys hSplit]
  exact if_pos (List.mem_map_of_mem h)

theorem ahead_of_mem_cons (h : o' ∈ o :: rest) : ahead o.key lookup o'.key = none := by
  rw [ahead, takeWhile_keys hSplit]
  exact if_neg (key_not_mem_first hSplit h)

/-- What the variables in front of one make is what all make if only those are set. -/
theorem applyAll_first : applyAll lookup first s = applyAll (ahead o.key lookup) overrides s := by
  have hFirst : applyAll lookup first s = applyAll (ahead o.key lookup) first s :=
    applyAll_congr fun o' ho' => (ahead_of_mem hSplit ho').symm
  have hRest : ∀ s, applyAll (ahead o.key lookup) (o :: rest) s = (s, none) :=
    fun _ => applyAll_unset fun o' ho' => ahead_of_mem_cons hSplit ho'
  calc applyAll lookup first s
      = applyAll (ahead o.key lookup) first s := hFirst
    _ = applyAll (ahead o.key lookup) (first ++ o :: rest) s := by
        rw [applyAll_append]
        simp only [hRest]
        split
        next hDone => exact hDone
        next hStopped => exact hStopped
    _ = applyAll (ahead o.key lookup) overrides s := by rw [hSplit]

end Split

/-! ## Each variable and its setting -/

/-- What a variable makes of its setting: what its value says, and nothing if it is not set. -/
def Replaced {α : Type} (means : String → α → Prop) (value : Option String) (old new : α) : Prop :=
  match value with
  | none => new = old
  | some text => means text new

/-- The settings with exactly those replaced whose variable is set, by what its value says. -/
structure Overridden (lookup : Lookup) (s s' : Settings) : Prop where
  memorySize : Replaced MemoryText (lookup "COOPVM_MEMORY_SIZE") s.memorySize s'.memorySize
  extension : Replaced ExtensionText (lookup "COOPVM_DEFAULT_EXTENSION") s.extension s'.extension
  snapshotPolicy :
    Replaced PolicyText (lookup "COOPVM_SNAPSHOT_POLICY") s.snapshotPolicy s'.snapshotPolicy
  logLevel : Replaced LevelText (lookup "COOPVM_LOG") s.logLevel s'.logLevel

/-- The values that a variable cannot have. The extension can have any. -/
def Unreadable (key value : String) : Prop :=
  key = "COOPVM_MEMORY_SIZE" ∧ (∀ n, ¬ MemoryText value n) ∨
    key = "COOPVM_SNAPSHOT_POLICY" ∧ (∀ policy, ¬ PolicyText value policy) ∨
    key = "COOPVM_LOG" ∧ ∀ level, ¬ LevelText value level

/-- A variable replaces one setting by what its value is read as, and the others follow. -/
theorem applyAll_cons_field {α : Type} {read : String → Option α} {means : String → α → Prop}
    (get : Settings → α) (put : Settings → α → Settings)
    (hRead : ∀ value a, read value = some a ↔ means value a) (hSame : ∀ s, put s (get s) = s) :
    applyAll lookup (⟨key, fun s value => (read value).map (put s)⟩ :: rest) s = (s', none) ↔
      ∃ a, Replaced means (lookup key) (get s) a ∧ applyAll lookup rest (put s a) = (s', none) := by
  rw [applyAll_cons_done]
  unfold Override.step Replaced
  dsimp only
  cases lookup key with
  | none => simp [hSame]
  | some value => cases hValue : read value <;> simp [← hRead, hValue]

/-- **The runs that go through** replace exactly the settings whose variables are set. -/
theorem applyOverrides_done_iff :
    s.applyOverrides lookup = (s', none) ↔ Overridden lookup s s' := by
  have hFields : s.applyOverrides lookup = (s', none) ↔
      ∃ n, Replaced MemoryText (lookup "COOPVM_MEMORY_SIZE") s.memorySize n ∧
      ∃ name, Replaced ExtensionText (lookup "COOPVM_DEFAULT_EXTENSION") s.extension name ∧
      ∃ policy, Replaced PolicyText (lookup "COOPVM_SNAPSHOT_POLICY") s.snapshotPolicy policy ∧
      ∃ level, Replaced LevelText (lookup "COOPVM_LOG") s.logLevel level ∧
        ((⟨n, name, policy, level⟩ : Settings), (none : Option SettingsError)) = (s', none) := by
    have hDots : ∀ value name, some (dropDots value) = some name ↔ ExtensionText value name :=
      fun _ _ => Option.some_inj.trans dropDots_eq_iff
    refine (applyAll_cons_field memorySize (fun s n => { s with memorySize := n })
      (fun _ _ => parseMemory?_eq_some_iff) fun _ => rfl).trans ?_
    refine exists_congr fun n => and_congr_right fun _ => ?_
    refine (applyAll_cons_field extension (fun s name => { s with extension := name }) hDots
      fun _ => rfl).trans ?_
    refine exists_congr fun name => and_congr_right fun _ => ?_
    refine (applyAll_cons_field snapshotPolicy (fun s policy => { s with snapshotPolicy := policy })
      (fun _ _ => policy_eq_some_iff) fun _ => rfl).trans ?_
    refine exists_congr fun policy => and_congr_right fun _ => ?_
    exact applyAll_cons_field logLevel (fun s level => { s with logLevel := level })
      (fun _ _ => level_eq_some_iff) fun _ => rfl
  rw [hFields]
  constructor
  · rintro ⟨n, hMemory, name, hExtension, policy, hPolicy, level, hLevel, hSettings⟩
    cases hSettings
    exact ⟨hMemory, hExtension, hPolicy, hLevel⟩
  · rintro ⟨hMemory, hExtension, hPolicy, hLevel⟩
    exact ⟨_, hMemory, _, hExtension, _, hPolicy, _, hLevel, rfl⟩

/-- A value is refused exactly if it says nothing about the setting of its variable. -/
theorem set?_eq_none_iff (h : o ∈ overrides) : o.set? s value = none ↔ Unreadable o.key value := by
  have hNone : ∀ {α : Type} {x : Option α} {P : α → Prop}, (∀ a, x = some a ↔ P a) →
      (x = none ↔ ∀ a, ¬ P a) := by
    intro α x P hSome
    simp only [Option.eq_none_iff_forall_ne_some, ne_eq, hSome]
  unfold overrides at h
  simp only [List.mem_cons, List.not_mem_nil, or_false] at h
  rcases h with rfl | rfl | rfl | rfl
  · simpa [Unreadable] using hNone fun _ => parseMemory?_eq_some_iff
  · simp [Unreadable]
  · simpa [Unreadable] using hNone fun _ => policy_eq_some_iff
  · simpa [Unreadable] using hNone fun _ => level_eq_some_iff

theorem exists_override (h : Unreadable key value) : ∃ o ∈ overrides, o.key = key := by
  rcases h with ⟨rfl, -⟩ | ⟨rfl, -⟩ | ⟨rfl, -⟩ <;> simp [overrides]

/-! ## All variables -/

/-- **The runs that stop** name the first variable with a value it cannot have, and leave the
settings that the variables in front of it have made. -/
theorem applyOverrides_stopped_iff : s.applyOverrides lookup = (s', some e) ↔
    ∃ key value, e = .invalidValue key value ∧ lookup key = some value ∧ Unreadable key value ∧
      Overridden (ahead key lookup) s s' := by
  rw [applyOverrides, applyAll_stopped_iff]
  constructor
  · rintro ⟨first, o, rest, hSplit, hFirst, hStop⟩
    obtain ⟨value, hValue, hSet, rfl⟩ := Override.step_eq_error.mp hStop
    have hMem : o ∈ overrides := hSplit ▸ List.mem_append_cons_self
    rw [applyAll_first hSplit] at hFirst
    exact ⟨o.key, value, rfl, hValue, (set?_eq_none_iff hMem).mp hSet,
      applyOverrides_done_iff.mp hFirst⟩
  · rintro ⟨key, value, rfl, hValue, hUnreadable, hAhead⟩
    obtain ⟨o, hMem, rfl⟩ := exists_override hUnreadable
    obtain ⟨first, rest, hSplit⟩ := List.append_of_mem hMem
    refine ⟨first, o, rest, hSplit, ?_, ?_⟩
    · rw [applyAll_first hSplit]
      exact applyOverrides_done_iff.mpr hAhead
    · exact Override.step_eq_error.mpr ⟨value, hValue, (set?_eq_none_iff hMem).mpr hUnreadable, rfl⟩

/-- Settings are loaded with all variables applied, or not at all. -/
theorem withOverrides_eq_ok {loaded : Except SettingsError Settings} :
    withOverrides lookup loaded = .ok s' ↔ ∃ s, loaded = .ok s ∧ Overridden lookup s s' := by
  have hLoad : withOverrides lookup loaded = loaded.bind fun s =>
      match s.applyOverrides lookup with
      | (s, none) => .ok s
      | (_, some e) => .error e := rfl
  rw [hLoad]
  cases loaded with
  | error e => simp [Except.bind]
  | ok s =>
      simp only [← applyOverrides_done_iff, Except.bind, Except.ok.injEq, exists_eq_left']
      split
      next hDone => simp [hDone]
      next hStopped => simp [hStopped]

/-- **What environment variables leave of settings.** Either exactly the settings whose variables
are set are replaced by what the values say; or the first variable with a value that it cannot have
is named, and exactly the settings whose variables stand in front of it are replaced. Settings that
have been loaded, from whatever file and by whatever reader, have all variables applied. -/
theorem applyOverrides_exact (lookup : Lookup) :
    (∀ s s', s.applyOverrides lookup = (s', none) ↔ Overridden lookup s s') ∧
      (∀ s s' e, s.applyOverrides lookup = (s', some e) ↔
        ∃ key value, e = .invalidValue key value ∧ lookup key = some value ∧ Unreadable key value ∧
          Overridden (ahead key lookup) s s') ∧
      ∀ loaded s', withOverrides lookup loaded = .ok s' ↔
        ∃ s, loaded = .ok s ∧ Overridden lookup s s' :=
  ⟨fun _ _ => applyOverrides_done_iff, fun _ _ _ => applyOverrides_stopped_iff,
    fun _ _ => withOverrides_eq_ok⟩

/-- Variables of which the last has a value that it cannot have. -/
def lateFault : Lookup := fun key =>
  [("COOPVM_MEMORY_SIZE", "8192"), ("COOPVM_LOG", "loud")].lookup key

/-- The memory stays replaced although the level of messages is refused. -/
theorem lateFault_changes :
    applyOverrides lateFault {} =
        ({ memorySize := 8192 }, some (.invalidValue "COOPVM_LOG" "loud")) ∧
      ({ memorySize := 8192 } : Settings) ≠ {} :=
  ⟨by decide +kernel, by decide⟩

end CellHost.Settings

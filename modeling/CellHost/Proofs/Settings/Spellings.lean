import CellHost.Settings

/-!
# What the values of settings say

The spellings in which a user writes a setting into an environment variable, each said by what the
text is made of: blanks around a numeral, dots in front of a name, a name in letters of any size.

## Main definitions

* `Blank.Trims` : a text without the blanks at its ends.
* `Numeral.Writes` : the numerals of a number.
* `Settings.MemoryText`, `Settings.ExtensionText`, `Settings.PolicyText`, `Settings.LevelText` :
  what a value says about a setting.

## Main results

* `Settings.parseMemory?_eq_some_iff`, `Settings.dropDots_eq_iff`, `Settings.policy_eq_some_iff`,
  `Settings.level_eq_some_iff` : a value is read as exactly what it says.
-/

namespace CellHost

variable {text core : String} {cs rest : List Char} {p : Char → Bool}

/-! ## Characters at the ends -/

/-- What is left without the characters of a kind in front begins with none of them. -/
theorem dropWhile_eq_iff : cs.dropWhile p = rest ↔
    ∃ front, cs = front ++ rest ∧ (∀ c ∈ front, p c = true) ∧ ∀ c ∈ rest.head?, p c = false := by
  constructor
  · rintro rfl
    refine ⟨cs.takeWhile p, List.takeWhile_append_dropWhile.symm,
      List.all_eq_true.mp List.all_takeWhile, fun c hHead => ?_⟩
    have hOther := List.head?_dropWhile_not p cs
    rw [Option.mem_def.mp hHead] at hOther
    exact hOther
  · rintro ⟨front, rfl, hFront, hRest⟩
    rw [List.dropWhile_append_of_pos hFront]
    cases rest with
    | nil => rfl
    | cons c others =>
        have hOther : p c = false := hRest c rfl
        rw [List.dropWhile_cons, hOther]
        rfl

namespace Blank

/-- `core` is the text without the blanks at its ends. -/
def Trims (text core : String) : Prop :=
  ∃ front back : List Char, text.toList = front ++ core.toList ++ back ∧
    (∀ c ∈ front, isBlank c = true) ∧ (∀ c ∈ back, isBlank c = true) ∧
    (∀ c ∈ core.toList.head?, isBlank c = false) ∧ ∀ c ∈ core.toList.getLast?, isBlank c = false

theorem trimEnd_eq_iff : trimEnd cs = rest ↔
    ∃ back, cs = rest ++ back ∧ (∀ c ∈ back, isBlank c = true) ∧
      ∀ c ∈ rest.getLast?, isBlank c = false := by
  have hReverse : trimEnd cs = rest ↔ cs.reverse.dropWhile isBlank = rest.reverse := by
    rw [trimEnd, List.reverse_eq_iff]
  rw [hReverse, dropWhile_eq_iff, List.head?_reverse]
  constructor
  · rintro ⟨front, hFront, hBlank, hLast⟩
    refine ⟨front.reverse, ?_, fun c hc => hBlank c (List.mem_reverse.mp hc), hLast⟩
    rw [← List.reverse_reverse cs, hFront, List.reverse_append, List.reverse_reverse]
  · rintro ⟨back, rfl, hBlank, hLast⟩
    exact ⟨back.reverse, List.reverse_append, fun c hc => hBlank c (List.mem_reverse.mp hc), hLast⟩

theorem trimText_eq_iff : trimText text = core ↔ Trims text core := by
  have hText : trimText text = core ↔ trim text.toList = core.toList := by
    rw [trimText, ← String.toList_inj, String.toList_ofList]
  rw [hText, trim, trimEnd_eq_iff]
  constructor
  · rintro ⟨back, hMiddle, hBack, hLast⟩
    obtain ⟨front, hAll, hFront, hHead⟩ := dropWhile_eq_iff.mp hMiddle
    refine ⟨front, back, hAll.trans (List.append_assoc _ _ _).symm, hFront, hBack, ?_, hLast⟩
    cases hCore : core.toList with
    | nil => exact fun _ h => nomatch h
    | cons c others => exact fun d hd => hHead d (by rw [hCore]; exact hd)
  · rintro ⟨front, back, hAll, hFront, hBack, hHead, hLast⟩
    rw [List.append_assoc] at hAll
    cases hCore : core.toList with
    | nil =>
        -- Between blanks only there is nothing to keep: all of them are in front.
        refine ⟨[], dropWhile_eq_iff.mpr ⟨front ++ back, ?_, ?_, fun _ h => nomatch h⟩,
          fun _ h => (nomatch h), fun _ h => nomatch h⟩
        · rw [hAll, hCore, List.nil_append, List.append_nil, List.append_nil]
        · exact fun c hc => (List.mem_append.mp hc).elim (hFront c) (hBack c)
    | cons c others =>
        refine ⟨back, dropWhile_eq_iff.mpr ⟨front, ?_, hFront, ?_⟩, hBack, ?_⟩
        · rw [hAll, hCore]
        · exact fun d hd => hHead d (by rw [hCore]; exact hd)
        · exact fun d hd => hLast d (by rw [hCore]; exact hd)

end Blank

namespace Numeral

variable {max n : Nat} {digits : List Char}

/-- The text is decimal digits for a number, perhaps with a plus sign. -/
def Writes (text : String) (n : Nat) : Prop :=
  ∃ digits : List Char, (text.toList = digits ∨ text.toList = '+' :: digits) ∧ digits ≠ [] ∧
    (∀ c ∈ digits, c.isDigit = true) ∧ n = valueFrom 0 digits

theorem digits?_eq_some_iff : digits? digits = some n ↔
    digits ≠ [] ∧ (∀ c ∈ digits, c.isDigit = true) ∧ n = valueFrom 0 digits := by
  rw [digits?, ← List.all_eq_true]
  by_cases hDigits : digits ≠ [] ∧ digits.all Char.isDigit = true
  · rw [if_pos hDigits, Option.some_inj, eq_comm]
    exact ⟨fun h => ⟨hDigits.1, hDigits.2, h⟩, fun h => h.2.2⟩
  · rw [if_neg hDigits]
    exact ⟨fun h => absurd h (Option.some_ne_none n).symm, fun h => absurd ⟨h.1, h.2.1⟩ hDigits⟩

theorem unsigned?_eq_some_iff : unsigned? max text = some n ↔ Writes text n ∧ n ≤ max := by
  have hSigned : ∀ digits, (∀ c ∈ digits, c.isDigit = true) → ∀ rest, digits ≠ '+' :: rest := by
    rintro _ hDigits rest rfl
    exact absurd (hDigits '+' List.mem_cons_self) (by decide)
  unfold unsigned? Writes
  rw [Option.filter_eq_some_iff, decide_eq_true_iff]
  refine and_congr_left fun _ => ?_
  split
  next rest hText =>
    rw [digits?_eq_some_iff, hText]
    constructor
    · exact fun h => ⟨rest, .inr rfl, h⟩
    · rintro ⟨digits, hPlain | hPlus, h⟩
      · exact absurd hPlain.symm (hSigned digits h.2.1 rest)
      · cases hPlus
        exact h
  next hText =>
    rw [digits?_eq_some_iff]
    constructor
    · exact fun h => ⟨text.toList, .inl rfl, h⟩
    · rintro ⟨digits, hPlain | hPlus, h⟩
      · rw [hPlain]
        exact h
      · exact absurd hPlus (hText digits)

end Numeral

/-! ## Names -/

/-- Where every choice is found by its name, a text chooses exactly what it is the name of. -/
theorem find?_name_eq_some_iff {α : Type} {all : List α} {name : α → String} {a : α}
    (hAll : ∀ a, (all.find? fun b => name b == name a) = some a) :
    (all.find? fun b => name b == text) = some a ↔ text = name a := by
  constructor
  · intro h
    have hName := List.find?_some h
    exact (eq_of_beq hName).symm
  · rintro rfl
    exact hAll a

theorem LogLevel.ofName?_eq_some_iff {level : LogLevel} :
    ofName? text = some level ↔ text = level.name :=
  find?_name_eq_some_iff fun a => by cases a <;> rfl

theorem SnapshotPolicy.ofName?_eq_some_iff {policy : SnapshotPolicy} :
    ofName? text = some policy ↔ text = policy.name :=
  find?_name_eq_some_iff fun a => by cases a <;> rfl

namespace Settings

variable {value extension : String} {n : Nat} {policy : SnapshotPolicy} {level : LogLevel}

/-! ## What values say -/

/-- A number of bytes that there can be, with any blanks around. -/
def MemoryText (value : String) (n : Nat) : Prop :=
  ∃ core, Blank.Trims value core ∧ Numeral.Writes core n ∧ n ≤ maxMemory

/-- A name behind any dots. -/
def ExtensionText (value extension : String) : Prop :=
  ∃ dots : List Char, value.toList = dots ++ extension.toList ∧ (∀ c ∈ dots, c = '.') ∧
    ∀ c ∈ extension.toList.head?, c ≠ '.'

/-- The name of a policy, with any blanks around. -/
def PolicyText (value : String) (policy : SnapshotPolicy) : Prop := Blank.Trims value policy.name

/-- The name of a level in letters of any size, or `warning`. -/
def LevelText (value : String) (level : LogLevel) : Prop :=
  LogLevel.toLower value = level.name ∨ level = .warn ∧ LogLevel.toLower value = "warning"

theorem parseMemory?_eq_some_iff : parseMemory? value = some n ↔ MemoryText value n := by
  rw [parseMemory?, Numeral.unsigned?_eq_some_iff]
  constructor
  · exact fun h => ⟨_, Blank.trimText_eq_iff.mp rfl, h⟩
  · rintro ⟨core, hTrims, h⟩
    rw [Blank.trimText_eq_iff.mpr hTrims]
    exact h

theorem dropDots_eq_iff : dropDots value = extension ↔ ExtensionText value extension := by
  rw [dropDots, ← String.toList_inj, String.toList_ofList, dropWhile_eq_iff]
  simp [ExtensionText]

theorem policy_eq_some_iff :
    SnapshotPolicy.ofName? (Blank.trimText value) = some policy ↔ PolicyText value policy := by
  rw [SnapshotPolicy.ofName?_eq_some_iff, Blank.trimText_eq_iff]
  rfl

theorem level_eq_some_iff :
    (LogLevel.parse? value).toOption = some level ↔ LevelText value level := by
  have hParse : (LogLevel.parse? value).toOption = LogLevel.ofName?
      (if LogLevel.toLower value = "warning" then "warn" else LogLevel.toLower value) := by
    rw [LogLevel.parse?]
    split
    next hName => exact hName.symm
    next hName => exact hName.symm
  rw [hParse, LogLevel.ofName?_eq_some_iff, LevelText]
  by_cases hLong : LogLevel.toLower value = "warning"
  · rw [if_pos hLong, hLong]
    cases level <;> decide
  · rw [if_neg hLong]
    exact ⟨.inl, fun h => h.elim id fun hWarn => absurd hWarn.2 hLong⟩

end Settings

end CellHost

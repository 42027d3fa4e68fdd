import CellHost.Proofs.CommandLine.Usage
import Mathlib.Data.List.Nodup

/-!
# The reader follows the usage

The reader that the program is run with is a documented option parser: it takes options together if
none is given twice and none asks for help or for the version, and every word but the empty one is a
path.

## Main results

* `Scan.take_scan`, `Scan.takeAll_scan` : a word, and a line, is read as the usage has it.
* `CommandLine.documented_readOptions` : the reader is documented.
-/

namespace CellHost.CommandLine

variable {i : Invocation} {s : Scan} {p q r : Reading} {flag : Flag} {flags more : List Flag}
  {word : String} {words : List String}

/-- Two steps of reading succeed exactly if both do. -/
theorem bind_eq_ok {α β : Type} {x : Except Stop α} {f : α → Except Stop β} {b : β} :
    x.bind f = .ok b ↔ ∃ a, x = .ok a ∧ f a = .ok b := by
  cases x with
  | error stop => simp [Except.bind]
  | ok a => simp [Except.bind]

theorem map_eq_ok {α β : Type} {x : Except Stop α} {f : α → β} {b : β} :
    x.map f = .ok b ↔ ∃ a, x = .ok a ∧ f a = b := by
  cases x with
  | error stop => simp [Except.map]
  | ok a => simp [Except.map]

/-- Options that the reader takes together. -/
def Together (flags : List Flag) : Prop :=
  flags.Nodup ∧ .help ∉ flags ∧ .version ∉ flags

theorem Together.front (h : Together (flags ++ more)) : Together flags :=
  ⟨h.1.of_append_left, fun hMem => h.2.1 (List.mem_append_left _ hMem),
    fun hMem => h.2.2 (List.mem_append_left _ hMem)⟩

theorem together_insert_stack {before after : List Flag} (hNew : .stack ∉ before ++ after)
    (h : Together (before ++ after)) : Together (before ++ .stack :: after) := by
  obtain ⟨hNodup, hHelp, hVersion⟩ := h
  refine ⟨List.nodup_middle.mpr (List.nodup_cons.mpr ⟨hNew, hNodup⟩), ?_, ?_⟩
  · simpa using hHelp
  · simpa using hVersion

theorem together_concat :
    Together (flags ++ [flag]) ↔
      Together flags ∧ flag ∉ flags ∧ flag ≠ .help ∧ flag ≠ .version := by
  have hNodup : (flags ++ [flag]).Nodup ↔ flag ∉ flags ∧ flags.Nodup := by
    rw [← List.concat_eq_append, List.nodup_concat]
  simp only [Together, hNodup, List.mem_append, List.mem_singleton, not_or, ne_eq,
    @eq_comm _ flag]
  tauto

/-! ## Options -/

namespace Reading

/-- What the reader accepts. -/
abbrev Accepted (r : Reading) : Prop := r.Admitted Together (· ≠ "")

/-- Where the reader is when it has read that. -/
def scan (r : Reading) : Scan := ⟨r.asks, r.ended⟩

end Reading

/-- An option is taken if it goes together with those in front of it. -/
theorem raise_eq_ok (ended : Bool) (operands : List String) (h : Together flags) :
    (Reading.asks ⟨ended, flags, operands⟩).raise flag = .ok i ↔
      Together (flags ++ [flag]) ∧ Reading.asks ⟨ended, flags ++ [flag], operands⟩ = i := by
  rw [together_concat]
  cases flag with
  | help | version => simp [Invocation.raise]
  | stack =>
      by_cases hGiven : .stack ∈ flags <;> simp [Invocation.raise, Reading.asks, h, hGiven]
  | verbose =>
      by_cases hGiven : .verbose ∈ flags <;> simp [Invocation.raise, Reading.asks, h, hGiven]

/-- Options are taken if they go together with those in front of them. -/
theorem raiseAll_eq_ok (ended : Bool) (operands : List String) (h : Together flags) :
    (Reading.asks ⟨ended, flags, operands⟩).raiseAll more = .ok i ↔
      Together (flags ++ more) ∧ Reading.asks ⟨ended, flags ++ more, operands⟩ = i := by
  induction more generalizing flags with
  | nil =>
      rw [List.append_nil, Invocation.raiseAll, Except.ok.injEq]
      exact ⟨fun hSame => ⟨h, hSame⟩, And.right⟩
  | cons flag others ih =>
      rw [Invocation.raiseAll, bind_eq_ok, List.append_cons]
      constructor
      · rintro ⟨mid, hFlag, hOthers⟩
        obtain ⟨hAll, rfl⟩ := (raise_eq_ok ended operands h).mp hFlag
        exact (ih hAll).mp hOthers
      · intro hBoth
        have hAll : Together (flags ++ [flag]) := Together.front hBoth.1
        exact ⟨_, (raise_eq_ok ended operands h).mpr ⟨hAll, rfl⟩, (ih hAll).mpr hBoth⟩

/-! ## Words -/

variable {ended : Bool} {operands : List String}

/-- A word that is passed on stands behind the operands. -/
theorem pass_scan (h : operands ≠ []) :
    (Reading.scan ⟨ended, flags, operands⟩).pass word =
      Reading.scan ⟨true, flags, operands ++ [word]⟩ := by
  obtain ⟨path, rest, rfl⟩ := List.exists_cons_of_ne_nil h
  rfl

/-- What a word is decides how it is taken as long as options are recognised. -/
theorem take_open :
    (Reading.scan ⟨false, flags, operands⟩).take word =
      match Kind.ofWord word with
      | .options more => (Reading.scan ⟨false, flags, operands⟩).raiseAll more
      | .misused => .error .invalid
      | .unknown known =>
        if operands.head?.isSome then .ok ((Reading.scan ⟨false, flags, operands⟩).pass word)
        else ((Reading.scan ⟨false, flags, operands⟩).raiseAll known).bind fun _ =>
          .error .invalid
      | .dashes => .ok (Reading.scan ⟨true, flags, operands⟩)
      | .operand => (Reading.scan ⟨false, flags, operands⟩).place word := rfl

/-- A word that is no option is FILE if there is none, and passed on else. -/
theorem place_scan :
    (Reading.scan ⟨ended, flags, operands⟩).place word =
      if operands = [] then
        if word = "" then .error .invalid else .ok (Reading.scan ⟨ended, flags, [word]⟩)
      else .ok (Reading.scan ⟨true, flags, operands ++ [word]⟩) := by
  cases operands with
  | nil => rfl
  | cons path rest => exact congrArg Except.ok (pass_scan (List.cons_ne_nil path rest))

namespace Reading

/-- What goes beyond a line that is not accepted is not accepted. -/
theorem Takes.accepted {kind : String → Kind} (h : Takes kind word p q) (hq : q.Accepted) :
    p.Accepted := by
  obtain ⟨hTogether, hPath⟩ := hq
  cases h with
  | options => exact ⟨hTogether.front, hPath⟩
  | file => exact ⟨hTogether, nofun⟩
  | dashes => exact ⟨hTogether, hPath⟩
  | argument | positional =>
      refine ⟨hTogether, fun path hHead => hPath path ?_⟩
      exact List.mem_head?_append_of_mem_head? hHead

/-- A word of the usage is read. -/
theorem Takes.take_scan (h : Takes Kind.ofWord word p q) (hq : q.Accepted) :
    p.scan.take word = .ok q.scan := by
  have hp := h.accepted hq
  cases h with
  | @options flags more operands hKind =>
      have hRaise := (raiseAll_eq_ok false operands hp.together).mpr ⟨hq.together, rfl⟩
      simp only [Scan.take, scan, hKind, Scan.raiseAll, hRaise]
      rfl
  | file hKind =>
      have hWord : word ≠ "" := hq.isPath word rfl
      simp only [take_open, hKind, place_scan, if_neg hWord, if_true]
  | dashes hKind =>
      rw [take_open, hKind]
  | argument hKind hFile =>
      rw [take_open]
      cases hWord : Kind.ofWord word with
      | options | misused | dashes => simp [hWord, Kind.StartsArguments] at hKind
      | operand => exact place_scan.trans (if_neg hFile)
      | unknown known =>
          exact (if_pos (List.isSome_head?.mpr hFile)).trans (congrArg Except.ok (pass_scan hFile))
  | @positional flags operands =>
      refine place_scan.trans ?_
      by_cases hFile : operands = []
      · subst hFile
        have hWord : word ≠ "" := hq.isPath word rfl
        rw [if_pos rfl, if_neg hWord]
        rfl
      · rw [if_neg hFile]

theorem Accepted.concat (h : Accepted ⟨ended, flags, operands⟩) (hFile : operands ≠ []) :
    Accepted ⟨true, flags, operands ++ [word]⟩ := by
  refine ⟨h.together, fun path hPath => h.isPath path ?_⟩
  rwa [List.head?_append_of_ne_nil operands hFile] at hPath

/-- A word that is placed is FILE or an argument. -/
theorem Takes.of_place_scan (hp : Accepted ⟨ended, flags, operands⟩)
    (hWord : ended = false → Kind.ofWord word = .operand)
    (h : (scan ⟨ended, flags, operands⟩).place word = .ok s) :
    ∃ q, Takes Kind.ofWord word ⟨ended, flags, operands⟩ q ∧ q.Accepted ∧ q.scan = s := by
  rw [place_scan] at h
  split at h
  next hFile =>
    subst hFile
    split at h
    · cases h
    next hName =>
      cases h
      refine ⟨⟨ended, flags, [word]⟩, ?_, ⟨hp.together, ?_⟩, rfl⟩
      · cases ended with
        | false => exact .file (hWord rfl)
        | true => exact .positional
      · rintro path ⟨⟩
        exact hName
  next hFile =>
    cases h
    refine ⟨⟨true, flags, operands ++ [word]⟩, ?_, hp.concat hFile, rfl⟩
    cases ended with
    | false =>
        have hStarts : (Kind.ofWord word).StartsArguments := by rw [hWord rfl]; trivial
        exact .argument hStarts hFile
    | true => exact .positional

/-- What is read for a word is what the usage has. -/
theorem Takes.of_take_scan (hp : p.Accepted) (h : p.scan.take word = .ok s) :
    ∃ q, Takes Kind.ofWord word p q ∧ q.Accepted ∧ q.scan = s := by
  obtain ⟨ended, flags, operands⟩ := p
  cases ended with
  | true => exact of_place_scan hp nofun h
  | false =>
      rw [take_open] at h
      cases hKind : Kind.ofWord word with
      | options more =>
          simp only [hKind] at h
          obtain ⟨i, hRaise, rfl⟩ := map_eq_ok.mp h
          obtain ⟨hTogether, rfl⟩ := (raiseAll_eq_ok false operands hp.together).mp hRaise
          exact ⟨⟨false, flags ++ more, operands⟩, .options hKind, ⟨hTogether, hp.isPath⟩, rfl⟩
      | misused =>
          simp only [hKind] at h
          cases h
      | unknown known =>
          simp only [hKind] at h
          split at h
          next hGiven =>
            cases h
            have hFile : operands ≠ [] := List.isSome_head?.mp hGiven
            have hStarts : (Kind.ofWord word).StartsArguments := by rw [hKind]; trivial
            exact ⟨_, .argument hStarts hFile, hp.concat hFile, (pass_scan hFile).symm⟩
          · obtain ⟨_, _, hRefused⟩ := bind_eq_ok.mp h
            cases hRefused
      | dashes =>
          simp only [hKind] at h
          cases h
          exact ⟨⟨true, flags, operands⟩, .dashes hKind, ⟨hp.together, hp.isPath⟩, rfl⟩
      | operand =>
          simp only [hKind] at h
          exact of_place_scan hp (fun _ => hKind) h

/-! ## Lines -/

theorem TakesAll.accepted {kind : String → Kind} (h : TakesAll kind words p q) (hq : q.Accepted) :
    p.Accepted := by
  induction words generalizing p with
  | nil => exact h ▸ hq
  | cons word rest ih =>
      obtain ⟨mid, hWord, hRest⟩ := h
      exact hWord.accepted (ih hRest)

/-- **A line is read as the usage has it.** -/
theorem takeAll_scan (hp : p.Accepted) :
    p.scan.takeAll words = .ok s ↔
      ∃ q, TakesAll Kind.ofWord words p q ∧ q.Accepted ∧ q.scan = s := by
  induction words generalizing p with
  | nil =>
      rw [Scan.takeAll, Except.ok.injEq]
      exact ⟨fun h => ⟨p, rfl, hp, h⟩, fun ⟨_, hSame, _, h⟩ => hSame ▸ h⟩
  | cons word rest ih =>
      rw [Scan.takeAll, bind_eq_ok]
      constructor
      · rintro ⟨_, hWord, hRest⟩
        obtain ⟨mid, hTakes, hMid, rfl⟩ := Takes.of_take_scan hp hWord
        obtain ⟨q, hTakesAll, hq⟩ := (ih hMid).mp hRest
        exact ⟨q, ⟨mid, hTakes, hTakesAll⟩, hq⟩
      · rintro ⟨q, ⟨mid, hTakes, hTakesAll⟩, hq, hScan⟩
        have hMid : mid.Accepted := hTakesAll.accepted hq
        exact ⟨_, hTakes.take_scan hMid, (ih hMid).mpr ⟨q, hTakesAll, hq, hScan⟩⟩

end Reading

/-- The `--` is the only word that is taken for it. -/
theorem ofWord_eq_dashes : Kind.ofWord word = .dashes ↔ word = "--" := by
  constructor
  · intro h
    unfold Kind.ofWord at h
    split at h
    next hDashes => exact String.toList_inj.mp hDashes
    next =>
      unfold Kind.long at h
      split at h
      · cases h
      · split at h <;> cases h
    next => cases h
    next =>
      unfold Kind.short at h
      dsimp only at h
      split at h <;> cases h
    next => cases h
  · rintro rfl
    rfl

/-- **The reader follows the usage.** -/
theorem documented_readOptions :
    Documented readOptions Kind.ofWord Together (· ≠ "") where
  reads := by
    intro words i
    have hStart : Reading.Accepted {} := ⟨⟨List.nodup_nil, nofun, nofun⟩, nofun⟩
    rw [readOptions, map_eq_ok]
    constructor
    · rintro ⟨_, hLine, rfl⟩
      obtain ⟨r, hTakesAll, hAccepted, rfl⟩ := (Reading.takeAll_scan hStart).mp hLine
      exact ⟨r, hTakesAll, hAccepted, rfl⟩
    · rintro ⟨r, hTakesAll, hAccepted, rfl⟩
      exact ⟨r.scan, (Reading.takeAll_scan hStart).mpr ⟨r, hTakesAll, hAccepted, rfl⟩, rfl⟩
  stack_kind := by decide +kernel
  dashes_kind := ofWord_eq_dashes
  insert_stack := together_insert_stack
  isPath_of_ne := id

/-- This reader takes an option once: a second one among the options is refused. -/
example : readOptions ["--stack", "--stack", "u"] = .error .invalid := rfl

end CellHost.CommandLine

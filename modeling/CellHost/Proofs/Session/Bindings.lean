import CellHost.Proofs.Machine.Bindings
import CellHost.Proofs.Registry.Bounded
import CellHost.Session
import Mathlib.Data.List.Nodup

/-!
# When a session can be made

Making a session can fail in two ways only: its program does not fit into memory, or it imports what
no extension offers. Beyond that it comes to nothing if no block can have the bytes that are asked
for. There is always room in the registry, since the extensions and the record of high-water marks
file four entries at most, under tags of their own. In a session that was made every import, however
often it is repeated, is bound to the native offered under its name, and stays bound.

## Main definitions

* `Context.Wired` : the imports of a context are bound by a function of their names.
* `Extension.offered` : what extensions offer.

## Main results

* `Extension.initAll_of_room` : setting extensions up comes down to whether every import is bound.
* `Session.create_exact` : which sessions can be made, and how they are bound.
-/

namespace CellHost

open Machine

variable {σ : Type}

/-! ## Binding by name -/

namespace Context

/-- Every import is bound to what `f` gives for its name. -/
def Wired (c : Context) (f : String → Option Native) : Prop :=
  c.natives = c.program.natives.map f

variable {c : Context} {f : String → Option Native}

/-- A table is asked first, and the names that it does not have are bound as before. -/
theorem Wired.bindNatives (h : c.Wired f) (table : List (String × Native)) :
    (c.bindNatives table).Wired fun name => (table.lookup name).or (f name) := by
  have hNatives : c.natives = c.program.natives.map f := h
  unfold Wired Context.bindNatives
  rw [hNatives, List.zipWith_map_left, List.zipWith_self]

/-- The bindings are complete exactly if every import has a name that `f` knows. -/
theorem Wired.verifyNatives (h : c.Wired f) :
    c.verifyNatives = if ∀ name ∈ c.program.natives, (f name).isSome then .ok ()
      else .error .notFound := by
  have hNatives : c.natives = c.program.natives.map f := h
  unfold Context.verifyNatives
  simp [hNatives, List.all_eq_true]

end Context

/-! ## Room for what extensions file -/

namespace Extension

variable {c : Context} {f : String → Option Native}

/-- What extensions offer. -/
def offered (es : List Extension) : List Export := es.flatMap exports

/-- The tags under which an extension may file entries. -/
def tags : Extension → List Tag
  | core _ => [.arguments]
  | time => [.timer, .idle]

/-- The names that a further extension offers are bound to its natives. -/
def wire (f : String → Option Native) (e : Extension) (name : String) : Option Native :=
  (e.table.lookup name).or (f name)

/-- With room in the registry an entry is filed, and takes at most one slot. -/
theorem file_of_room (tag : Tag) (entry : Entry) (hRoom : c.registry.size < Registry.slots) :
    ∃ registry, file c tag entry = (.ok (), { c with registry }) ∧
      registry.size ≤ c.registry.size + 1 := by
  have hOk : ∃ registry, c.registry.set tag entry = .ok registry :=
    Registry.set_ok_iff.mpr (.inr hRoom)
  obtain ⟨registry, hSet⟩ := hOk
  refine ⟨registry, ?_, Registry.size_set_le hSet⟩
  rw [file, Context.setEntry, hSet]
  rfl

/-- With room in the registry an extension is set up. -/
theorem init_of_room (e : Extension) (w : World σ)
    (hRoom : c.registry.size + e.tags.length ≤ Registry.slots) (hWired : c.Wired f) :
    ∃ c' w', e.init c w = (.ok (), c', w') ∧ c'.program = c.program ∧ c'.Wired (wire f e) ∧
      c'.registry.size ≤ c.registry.size + e.tags.length := by
  have hBound : (c.bindNatives e.table).Wired (wire f e) := hWired.bindNatives e.table
  cases e with
  | core arguments =>
      cases arguments with
      | nil => exact ⟨_, w, rfl, rfl, hBound, Nat.le_succ _⟩
      | cons argument rest =>
          obtain ⟨registry, hFile, hSize⟩ := file_of_room (c := c.bindNatives _) .arguments
            (.arguments (argument :: rest)) hRoom
          refine ⟨{ c.bindNatives _ with registry }, w, ?_, rfl, hBound, hSize⟩
          unfold init
          dsimp only
          rw [hFile]
  | time =>
      obtain ⟨registry, hTimer, hSize⟩ := file_of_room (c := c.bindNatives _) .timer
        (.timer w.newTimer.1) (Nat.lt_of_succ_lt hRoom)
      obtain ⟨registry', hIdle, hSize'⟩ := file_of_room
        (c := { c.bindNatives time.table with registry }) .idle (.idle .timer)
        (Nat.lt_of_le_of_lt hSize hRoom)
      refine ⟨{ c.bindNatives time.table with registry := registry' }, w.newTimer.2, ?_, rfl, hBound,
        Nat.le_trans hSize' (Nat.succ_le_succ hSize)⟩
      unfold init
      dsimp only
      rw [hTimer]
      dsimp only
      rw [hIdle]

/-- **With room in the registry, setting extensions up fails exactly if an import stays unbound.** -/
theorem initAll_of_room (es : List Extension) (w : World σ)
    (hRoom : c.registry.size + (es.flatMap tags).length ≤ Registry.slots) (hWired : c.Wired f) :
    ∃ c' w', initAll es c w = (c'.verifyNatives, c', w') ∧ c'.program = c.program ∧
      c'.Wired (es.foldl wire f) ∧ c'.registry.size ≤ c.registry.size + (es.flatMap tags).length := by
  induction es generalizing c w f with
  | nil => exact ⟨c, w, rfl, rfl, hWired, Nat.le_refl _⟩
  | cons e rest ih =>
      rw [List.flatMap_cons, List.length_append, ← Nat.add_assoc] at hRoom ⊢
      obtain ⟨c₁, w₁, hInit, hProgram₁, hWired₁, hSize₁⟩ :=
        init_of_room e w (Nat.le_trans (Nat.le_add_right _ _) hRoom) hWired
      obtain ⟨c₂, w₂, hRest, hProgram₂, hWired₂, hSize₂⟩ :=
        ih w₁ (Nat.le_trans (Nat.add_le_add_right hSize₁ _) hRoom) hWired₁
      refine ⟨c₂, w₂, ?_, hProgram₂.trans hProgram₁, hWired₂,
        Nat.le_trans hSize₂ (Nat.add_le_add_right hSize₁ _)⟩
      rw [initAll, hInit]
      exact hRest

/-! ## What extensions offer -/

section Offered

variable {es : List Extension} {name : String} {native : Native}

theorem lookup_table_eq_some {e : Extension} (h : e.table.lookup name = some native) :
    ∃ x ∈ e.exports, x.name = name ∧ x.native = native := by
  obtain ⟨before, after, hSplit, -⟩ := List.lookup_eq_some_iff.mp h
  have hMem : (name, native) ∈ e.table := hSplit ▸ List.mem_append_right _ List.mem_cons_self
  obtain ⟨x, hx, hPair⟩ := List.mem_map.mp hMem
  obtain ⟨hName, hNative⟩ := Prod.mk.inj hPair
  exact ⟨x, hx, hName, hNative⟩

theorem isSome_lookup_table {e : Extension} {x : Export} (hx : x ∈ e.exports) :
    (e.table.lookup x.name).isSome = true :=
  List.lookup_isSome_iff.mpr ⟨(x.name, x.native), List.mem_map_of_mem hx, beq_self_eq_true _⟩

/-- A name is bound to what was bound to it before, or to what an extension offers under it. -/
theorem foldl_wire_eq_some (h : es.foldl wire f name = some native) :
    f name = some native ∨ ∃ x ∈ offered es, x.name = name ∧ x.native = native := by
  induction es generalizing f with
  | nil => exact .inl h
  | cons e rest ih =>
      rcases ih h with hWired | ⟨x, hx, hOffers⟩
      · rcases Option.or_eq_some_iff.mp hWired with hTable | ⟨-, hBefore⟩
        · obtain ⟨x, hx, hOffers⟩ := lookup_table_eq_some hTable
          exact .inr ⟨x, List.mem_append_left _ hx, hOffers⟩
        · exact .inl hBefore
      · exact .inr ⟨x, List.mem_append_right _ hx, hOffers⟩

/-- Names stay bound when further extensions are set up. -/
theorem isSome_foldl_wire (h : (f name).isSome = true) : (es.foldl wire f name).isSome = true := by
  induction es generalizing f with
  | nil => exact h
  | cons e rest ih =>
      have hStill : (wire f e name).isSome = true := by
        unfold wire
        rw [Option.isSome_or, h, Bool.or_true]
      exact ih hStill

theorem isSome_foldl_wire_of_mem {x : Export} (hx : x ∈ offered es) :
    (es.foldl wire f x.name).isSome = true := by
  induction es generalizing f with
  | nil => cases hx
  | cons e rest ih =>
      rcases List.mem_append.mp hx with hHere | hLater
      · have hBound : (wire f e x.name).isSome = true := by
          unfold wire
          rw [Option.isSome_or, isSome_lookup_table hHere, Bool.true_or]
        have hStill : (rest.foldl wire (wire f e) x.name).isSome = true := isSome_foldl_wire hBound
        exact hStill
      · exact ih hLater

/-- The extensions of a session offer everything under names of its own. -/
theorem offered_builtin_distinct (arguments : List String) :
    ((offered (builtin arguments)).map Export.name).Nodup := by
  have hSame : offered (builtin arguments) = offered (builtin []) := rfl
  rw [hSame]
  decide

/-- Every name is bound to what is offered under it. -/
theorem foldl_wire_of_mem (hDistinct : ((offered es).map Export.name).Nodup) {x : Export}
    (hx : x ∈ offered es) : es.foldl wire (fun _ => none) x.name = some x.native := by
  obtain ⟨native, hBound⟩ := Option.isSome_iff_exists.mp
    (isSome_foldl_wire_of_mem (f := fun _ => none) hx)
  rcases foldl_wire_eq_some hBound with hBefore | ⟨y, hy, hName, rfl⟩
  · cases hBefore
  · rw [hBound, List.inj_on_of_nodup_map hDistinct hy hx hName]

/-- A slot of the import table is bound to what is offered under its name. -/
theorem slot_of_wired (hWired : c.Wired (es.foldl wire fun _ => none))
    (hDistinct : ((offered es).map Export.name).Nodup) {i : Nat} {x : Export} (hx : x ∈ offered es)
    (hName : c.program.natives[i]? = some x.name) : c.natives[i]? = some (some x.native) := by
  have hNatives : c.natives = c.program.natives.map (es.foldl wire fun _ => none) := hWired
  rw [hNatives, List.getElem?_map, hName, Option.map_some, foldl_wire_of_mem hDistinct hx]

theorem binds_of_wired (hWired : c.Wired (es.foldl wire fun _ => none))
    (hDistinct : ((offered es).map Export.name).Nodup)
    (hOffered : ∀ name ∈ c.program.natives, ∃ x ∈ offered es, x.name = name) :
    c.Binds c.program := by
  refine ⟨rfl, fun i hi => ?_⟩
  obtain ⟨x, hx, hName⟩ := hOffered c.program.natives[i] (List.getElem_mem hi)
  have hSlot : c.program.natives[i]? = some x.name := hName ▸ List.getElem?_eq_getElem hi
  exact ⟨x.native, slot_of_wired hWired hDistinct hx hSlot⟩

end Offered

end Extension

/-! ## Sessions -/

/-- The program fits into a block of so many bytes, of which whole cells are used: its data, and two
cells for an entry frame. -/
def Program.FitsIn (p : Program) (bytes : Nat) : Prop :=
  p.dataSize + 2 * cellSize ≤ bytes / cellSize * cellSize

section Create

variable {p : Program} {bytes : Nat}

theorem Context.create?_of_not_fitsIn (h : ¬ p.FitsIn bytes) :
    Context.create? p bytes = some (.error .outOfMemory) :=
  if_pos (Nat.lt_of_not_le h)

/-- Rounding down to whole cells does not bring a number of bytes back into a block. -/
theorem Context.maxBlock_lt_iff : Context.maxBlock < bytes / cellSize * cellSize ↔
    Context.maxBlock < bytes := by
  rw [show cellSize = 4 from rfl, show Context.maxBlock = 0x7fffffffffffffff from rfl]
  omega

theorem Context.create?_of_over (h : p.FitsIn bytes) (hOver : Context.maxBlock < bytes) :
    Context.create? p bytes = none := by
  unfold Context.create?
  dsimp only
  rw [if_neg (Nat.not_lt_of_le h), if_pos (Context.maxBlock_lt_iff.mpr hOver)]

theorem Context.create?_of_fitsIn (h : p.FitsIn bytes) (hBlock : bytes ≤ Context.maxBlock) :
    Context.create? p bytes = some (.ok (Context.layOut p bytes)) := by
  have hNot : ¬ Context.maxBlock < bytes := Nat.not_lt_of_le hBlock
  unfold Context.create?
  dsimp only
  rw [if_neg (Nat.not_lt_of_le h), if_neg fun hOver => hNot (Context.maxBlock_lt_iff.mp hOver)]

end Create

/-- With room in the registry, high-water marks can be kept. -/
theorem enableUsage_of_room {c : Context} (w : World σ)
    (hRoom : c.registry.size < Registry.slots) :
    ∃ ref c' w', enableUsage c w = (.ok ref, c', w') ∧ c'.program = c.program ∧
      c'.natives = c.natives := by
  obtain ⟨registry, hFile, -⟩ := Extension.file_of_room .usage (.usage w.newUsage.1) hRoom
  refine ⟨w.newUsage.1, { c with registry, hook := some .monitor }, w.newUsage.2, ?_, rfl, rfl⟩
  unfold enableUsage
  dsimp only
  rw [hFile]

namespace Session

open Extension

/-- An extension of the session offers a native under the name. -/
def Offers (options : RunOptions) (name : String) : Prop :=
  ∃ x ∈ offered (builtin options.arguments), x.name = name

variable {p : Program} {options : RunOptions} {abort : AbortState} {clock : Clock}

theorem isSome_bound_iff {name : String} :
    ((builtin options.arguments).foldl wire (fun _ => none) name).isSome = true ↔
      Offers options name := by
  constructor
  · intro hSome
    obtain ⟨native, hBound⟩ := Option.isSome_iff_exists.mp hSome
    rcases foldl_wire_eq_some hBound with hBefore | ⟨x, hx, hName, -⟩
    · cases hBefore
    · exact ⟨x, hx, hName⟩
  · rintro ⟨x, hx, rfl⟩
    exact isSome_foldl_wire_of_mem hx

/-- How making a session comes out. -/
inductive Created (p : Program) (options : RunOptions) : Option (Except Fault Session) → Prop
  | outOfMemory : ¬ p.FitsIn options.memorySize → Created p options (some (.error ⟨.outOfMemory, 0⟩))
  | overlarge : p.FitsIn options.memorySize → Context.maxBlock < options.memorySize →
      Created p options none
  | notFound {name : String} : p.FitsIn options.memorySize →
      options.memorySize ≤ Context.maxBlock → name ∈ p.natives → ¬ Offers options name →
      Created p options (some (.error ⟨.notFound, 0⟩))
  | made {s : Session} : p.FitsIn options.memorySize → options.memorySize ≤ Context.maxBlock →
      (∀ name ∈ p.natives, Offers options name) → s.context.program = p →
      s.context.Wired ((builtin options.arguments).foldl wire fun _ => none) →
      Created p options (some (.ok s))

theorem created (p : Program) (options : RunOptions) (abort : AbortState) (clock : Clock) :
    Created p options (create? p options abort clock) := by
  unfold create?
  by_cases hFits : p.FitsIn options.memorySize
  · by_cases hOver : Context.maxBlock < options.memorySize
    · rw [Context.create?_of_over hFits hOver]
      exact .overlarge hFits hOver
    have hBlock := Nat.le_of_not_lt hOver
    rw [Context.create?_of_fitsIn hFits hBlock, Option.map_some]
    have hProgram : (Context.layOut p options.memorySize).1.program = p := rfl
    have hWired : (Context.layOut p options.memorySize).1.Wired fun _ => none := rfl
    have hSize : (Context.layOut p options.memorySize).1.registry.size = 0 := rfl
    generalize Context.layOut p options.memorySize = laidOut at hProgram hWired hSize ⊢
    obtain ⟨c, m⟩ := laidOut
    unfold equip
    dsimp only at hProgram hWired hSize ⊢
    have hRoom : c.registry.size + ((builtin options.arguments).flatMap tags).length ≤
        Registry.slots := by
      rw [hSize]
      exact (by decide : 0 + 3 ≤ Registry.slots)
    obtain ⟨c₁, w₁, hInit, hProgram₁, hWired₁, hSize₁⟩ :=
      initAll_of_room (builtin options.arguments)
        ({ region := { memory := m, abort }, clock, host := () } : World Unit) hRoom hWired
    have hOne : c₁.program = p := hProgram₁.trans hProgram
    rw [hInit, hWired₁.verifyNatives, hOne]
    split
    next hFailed =>
      split at hFailed
      · cases hFailed
      next hUnknown =>
        cases hFailed
        obtain ⟨name, hName, hOffers⟩ : ∃ name ∈ p.natives, ¬ Offers options name := by
          simpa [isSome_bound_iff] using hUnknown
        exact .notFound hFits hBlock hName hOffers
    next hOk =>
      split at hOk
      next hKnown =>
        cases hOk
        have hOffers : ∀ name ∈ p.natives, Offers options name :=
          fun name hName => isSome_bound_iff.mp (hKnown name hName)
        split
        · -- the extensions have left a slot for the record of high-water marks
          have hSlot : c₁.registry.size < Registry.slots := by
            refine Nat.lt_of_le_of_lt hSize₁ ?_
            rw [hSize]
            exact (by decide : 0 + 3 < Registry.slots)
          obtain ⟨ref, c₂, w₂, hUsage, hProgram₂, hNatives₂⟩ := enableUsage_of_room w₁ hSlot
          rw [hUsage]
          refine .made hFits hBlock hOffers (hProgram₂.trans hOne) ?_
          unfold Context.Wired
          dsimp only
          rw [hNatives₂, hProgram₂]
          exact hWired₁
        · exact .made hFits hBlock hOffers hOne hWired₁
      · cases hOk
  · rw [Context.create?_of_not_fitsIn hFits]
    exact .outOfMemory hFits

/-- **Main theorem.** Making a session fails for want of memory exactly if the program's data and two
cells do not fit into the whole cells of memory; otherwise it ends the process exactly if no block can
have the bytes that are asked for; otherwise it fails exactly if an import is not among the names that
extensions offer; and otherwise it succeeds, whatever arguments and monitoring are asked for. Each
slot of the import table is then bound to the native offered under its name. Whatever becomes of the
context or a snapshot of it in the hands of a host, a native call with an index inside the import
table finds a native; one of an extension does not fail as one does that is missing. -/
theorem create_exact (p : Program) (options : RunOptions) (abort : AbortState) (clock : Clock) :
    (create? p options abort clock = some (.error ⟨.outOfMemory, 0⟩) ↔
      ¬ p.FitsIn options.memorySize) ∧
    (create? p options abort clock = none ↔
      p.FitsIn options.memorySize ∧ Context.maxBlock < options.memorySize) ∧
    (create? p options abort clock = some (.error ⟨.notFound, 0⟩) ↔
      p.FitsIn options.memorySize ∧ options.memorySize ≤ Context.maxBlock ∧
        ∃ name ∈ p.natives, ¬ Offers options name) ∧
    ((∃ s, create? p options abort clock = some (.ok s)) ↔
      p.FitsIn options.memorySize ∧ options.memorySize ≤ Context.maxBlock ∧
        ∀ name ∈ p.natives, Offers options name) ∧
    ∀ s, create? p options abort clock = some (.ok s) →
      s.program = p ∧
      s.context.natives.length = p.natives.length ∧
      (∀ (i : Nat) (name : String), p.natives[i]? = some name →
        ∀ x ∈ offered (builtin options.arguments), x.name = name →
          s.context.natives[i]? = some (some x.native)) ∧
      ∀ {σ : Type} (emb : Embedder σ), emb.UsesContexts →
        ∀ c, s.context.Becomes (Yields emb) c →
          ∀ fuel entry w, ∀ t ∈ states (stepper emb) fuel entry c w, ∀ regs index i,
            effectAt t = .native regs index → Cell.toAddress? index = some i →
            i < p.natives.length →
            ∃ native, t.1.native? index = some native ∧
              ((∀ id, native ≠ .custom id) → ∀ engine progress,
                step emb engine t.1 t.2 = some progress →
                ∀ c' w', progress ≠ .pauses (.faulted .noCallback) c' w') := by
  have hCreated := created p options abort clock
  generalize create? p options abort clock = result at hCreated ⊢
  cases hCreated with
  | outOfMemory hTight => simp [hTight]
  | overlarge hFits hOver => simp [hFits, hOver, Nat.not_le_of_lt hOver]
  | notFound hFits hBlock hName hUnknown =>
      have hSome : ∃ name ∈ p.natives, ¬ Offers options name := ⟨_, hName, hUnknown⟩
      have hNotAll : ¬ ∀ name ∈ p.natives, Offers options name :=
        fun hAll => hUnknown (hAll _ hName)
      simp [hFits, hBlock, hSome, hNotAll]
  | @made s hFits hBlock hOffers hProgram hWired =>
      have hNone : ¬ ∃ name ∈ p.natives, ¬ Offers options name :=
        fun ⟨name, hName, hUnknown⟩ => hUnknown (hOffers name hName)
      refine ⟨⟨nofun, fun hTight => absurd hFits hTight⟩,
        ⟨nofun, fun hOver => absurd hOver.2 (Nat.not_lt_of_le hBlock)⟩,
        ⟨nofun, fun hFailed => absurd hFailed.2.2 hNone⟩,
        ⟨fun _ => ⟨hFits, hBlock, hOffers⟩, fun _ => ⟨s, rfl⟩⟩, fun s' hMade => ?_⟩
      cases hMade
      subst hProgram
      have hDistinct := offered_builtin_distinct options.arguments
      have hBinds : s.context.Binds s.context.program := binds_of_wired hWired hDistinct hOffers
      refine ⟨rfl, ?_, fun i name hi x hx hName => ?_, ?_⟩
      · exact (congrArg List.length hWired).trans (List.length_map _)
      · exact slot_of_wired hWired hDistinct hx (hName ▸ hi)
      · intro σ emb hEmb c hBecomes fuel entry w t ht regs index i hEffect hIndex hi
        have hState : t.1.Binds s.context.program :=
          states_leave hEmb (binds_firm _) (hBinds.becomes hEmb hBecomes) t ht
        obtain ⟨native, hFound⟩ := hState.native? hIndex hi
        exact ⟨native, hFound, fun hBuiltIn engine progress hStep =>
          step_ne_noCallback hEffect hFound hBuiltIn hStep⟩

/-- A program that imports a native twice, and calls it by the second import. -/
def repeating : Program where
  main := some 8
  code := #[Opcode.halt.toCell, 0, Opcode.sysreq.toCell, 1, Opcode.halt.toCell, 0]
  data := #[]
  natives := ["print", "print"]

/-- With arguments and monitoring the registry is full, and the session is made all the same. Both
imports are bound, on whatever a host without callbacks makes of the context. -/
theorem create_exact_repeating :
    ∃ s, create? repeating { memorySize := 64, monitorStack := true, arguments := ["1"] } {} .steady =
        some (.ok s) ∧
      s.context.registry.size = Registry.slots ∧
      s.context.natives[0]? = some (some .print) ∧ s.context.natives[1]? = some (some .print) ∧
      ∀ c, s.context.Becomes (Yields (.plain : Embedder Unit)) c →
        ∀ fuel entry (w : World Unit), ∀ t ∈ states (stepper .plain) fuel entry c w, ∀ regs,
          effectAt t = .native regs 1 → ∃ native, t.1.native? 1 = some native := by
  obtain ⟨-, -, -, hMade, hBound⟩ := create_exact repeating
    { memorySize := 64, monitorStack := true, arguments := ["1"] } {} .steady
  have hPrint : ⟨"print", "(value) -> 0", .print⟩ ∈ offered (builtin ["1"]) := List.mem_cons_self
  have hOffers : ∀ name ∈ repeating.natives, Offers { memorySize := 64, arguments := ["1"] } name := by
    intro name hName
    have hSame : name = "print" := by simpa [repeating] using hName
    exact ⟨_, hPrint, hSame.symm⟩
  have hFits : repeating.FitsIn 64 := by
    unfold Program.FitsIn
    decide
  obtain ⟨s, hCreate⟩ := hMade.mpr ⟨hFits, by decide, hOffers⟩
  obtain ⟨-, -, hSlots, hCalls⟩ := hBound s hCreate
  refine ⟨s, hCreate, ?_, hSlots 0 _ rfl _ hPrint rfl, hSlots 1 _ rfl _ hPrint rfl, ?_⟩
  · cases hCreate
    rfl
  · intro c hBecomes fuel entry w t ht regs hEffect
    obtain ⟨native, hFound, -⟩ := hCalls .plain Embedder.plain_usesContexts c hBecomes fuel entry w t
      ht regs 1 1 hEffect rfl (by decide)
    exact ⟨native, hFound⟩

/-- In the largest memory that can be asked for the program fits, and all that it imports is offered;
but no session is made. -/
theorem overlarge_repeating :
    repeating.FitsIn 0xffffffffffffffff ∧
    (∀ name ∈ repeating.natives, Offers { memorySize := 0xffffffffffffffff } name) ∧
    create? repeating { memorySize := 0xffffffffffffffff } {} .steady = none := by
  have hFits : repeating.FitsIn 0xffffffffffffffff := by
    unfold Program.FitsIn
    decide
  have hPrint : ⟨"print", "(value) -> 0", .print⟩ ∈ offered (builtin []) := List.mem_cons_self
  refine ⟨hFits, fun name hName => ?_, ?_⟩
  · have hSame : name = "print" := by simpa [repeating] using hName
    exact ⟨_, hPrint, hSame.symm⟩
  · unfold create?
    rw [Context.create?_of_over hFits (by decide)]
    rfl

end Session

end CellHost

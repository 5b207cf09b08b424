import Kolas.Di.Moves

/-!
# Cells and runs

What holds of the cells in every state of every run (`Sound`).  A set cell holds
what a run that ended well built, and keeps it; a cell that is being initialised
is so by a call that is building; a slot belongs to one key of one scope, for
good.  Runs for one cell do not overlap, and none starts after one that ended
well.

* `sound_of_reach`: every state that the machine can reach is sound.
* `later_of_reach`: slots, set cells and runs that ended well are kept.
-/

namespace Kolas.Di

open Kolas.Lib

variable {τ υ φ : Type}

/-- `x` is the cell of the registration for a call with the given scope. -/
inductive CellFor (C : Container τ υ φ) (cache : Nat → ServiceKey τ → Option Nat)
    (r : EntryRef τ) (scope : Option Nat) : CellId τ → Prop
  | entry {f : φ} (he : C.entryOf r = some (.singleton f)) : CellFor C cache r scope (.entry r)
  | slot {f : φ} {sc n : Nat} (he : C.entryOf r = some (.scoped f)) (hs : scope = some sc)
      (hn : cache sc r.slotKey = some n) : CellFor C cache r scope (.slot n)

/-- The cell, if any, that a run for the registration initialises. -/
inductive RunFor (C : Container τ υ φ) (cache : Nat → ServiceKey τ → Option Nat)
    (r : EntryRef τ) (scope : Option Nat) : Option (CellId τ) → Prop
  | transient {f : φ} (he : C.entryOf r = some (.transient f)) : RunFor C cache r scope none
  | cell {x : CellId τ} (hx : CellFor C cache r scope x) : RunFor C cache r scope (some x)

/-- `inst` may be what resolving the registration gave. -/
inductive InstFor (C : Container τ υ φ) (s : State τ υ) (r : EntryRef τ) (scope : Option Nat) :
    Inst υ → Prop
  | given {v : υ} (he : C.entryOf r = some (.value v)) : InstFor C s r scope (.given v)
  | cell {x : CellId τ} {run : Nat} (hx : CellFor C s.cache r scope x)
      (hset : s.cells x = .set run) : InstFor C s r scope (.built run)
  | transient {c run : Nat} {f : φ} (he : C.entryOf r = some (.transient f))
      (hrun : s.runs[run]? = some ⟨c, r, scope, none, .ok⟩) : InstFor C s r scope (.built run)

/-- What holds of a call in its phase. -/
def PhaseOk (C : Container τ υ φ) (s : State τ υ) (c : Nat) (call : Call τ υ) : Prop :=
  match call.phase with
  | .entered => call.resolved = []
  | .entry j => call.resolved.length = j ∧ (C.entryAt call.node j).isSome
  | .slotMiss j =>
    call.resolved.length = j ∧ call.scope.isSome ∧ ∃ f, C.entryOf (call.ref j) = some (.scoped f)
  | .cell j x => call.resolved.length = j ∧ CellFor C s.cache (call.ref j) call.scope x
  | .building j x run =>
    call.resolved.length = j ∧ RunFor C s.cache (call.ref j) call.scope x ∧
      s.runs[run]? = some ⟨c, call.ref j, call.scope, x, .running⟩ ∧
      ∀ y, x = some y → s.cells y = .init c
  | .done result => ∀ l, result = .ok l → l = call.resolved
  | .dropped => True

structure Sound (C : Container τ υ φ) (s : State τ υ) : Prop where
  phase : ∀ (c : Nat) (call : Call τ υ), s.calls[c]? = some call → PhaseOk C s c call
  resolved : ∀ (c : Nat) (call : Call τ υ), s.calls[c]? = some call →
    ∀ (j : Nat) (inst : Inst υ), call.resolved[j]? = some inst →
      InstFor C s (call.ref j) call.scope inst
  ran : ∀ (n : Nat) (run : FactoryRun τ), s.runs[n]? = some run →
    RunFor C s.cache run.ref run.scope run.cell
  running : ∀ (n : Nat) (run : FactoryRun τ), s.runs[n]? = some run → run.outcome = .running →
    ∃ (call : Call τ υ) (j : Nat), s.calls[run.call]? = some call ∧
      call.phase = .building j run.cell n
  stored : ∀ (n : Nat) (run : FactoryRun τ) (x : CellId τ), s.runs[n]? = some run →
    run.outcome = .ok → run.cell = some x → s.cells x = .set n
  kept : ∀ (x : CellId τ) (n : Nat), s.cells x = .set n →
    ∃ run : FactoryRun τ, s.runs[n]? = some run ∧ run.outcome = .ok ∧ run.cell = some x
  held : ∀ (x : CellId τ) (c : Nat), s.cells x = .init c →
    ∃ (call : Call τ υ) (j n : Nat), s.calls[c]? = some call ∧
      call.phase = .building j (some x) n
  slot : ∀ (scope : Nat) (key : ServiceKey τ) (n : Nat), s.cache scope key = some n → n < s.slots
  owned : ∀ (scope : Nat) (key : ServiceKey τ) (scope' : Nat) (key' : ServiceKey τ) (n : Nat),
    s.cache scope key = some n → s.cache scope' key' = some n → scope = scope' ∧ key = key'
  order : ∀ (m n : Nat) (run run' : FactoryRun τ) (x : CellId τ), m < n → s.runs[m]? = some run →
    s.runs[n]? = some run' → run.cell = some x → run'.cell = some x →
    run.outcome = .failed ∨ run.outcome = .dropped

theorem sound_start (C : Container τ υ φ) : Sound C (State.start τ υ) where
  phase := by simp [State.start]
  resolved := by simp [State.start]
  ran := by simp [State.start]
  running := by simp [State.start]
  stored := by simp [State.start]
  kept := by simp [State.start]
  held := by simp [State.start]
  slot := by simp [State.start]
  owned := by simp [State.start]
  order := by simp [State.start]

/-! ### What every move keeps -/

/-- `t` comes after `s`: slots, set cells and runs that ended well are kept. -/
structure Later (s t : State τ υ) : Prop where
  cache : ∀ scope key n, s.cache scope key = some n → t.cache scope key = some n
  cells : ∀ x n, s.cells x = .set n → t.cells x = .set n
  runs : ∀ (n : Nat) (run : FactoryRun τ), s.runs[n]? = some run → run.outcome = .ok →
    t.runs[n]? = some run

theorem Later.of_eq {s t : State τ υ} (hcache : t.cache = s.cache) (hcells : t.cells = s.cells)
    (hruns : t.runs = s.runs) : Later s t := by
  refine ⟨fun _ _ _ h => ?_, fun _ _ h => ?_, fun _ _ h _ => ?_⟩
  · rw [hcache, h]
  · rw [hcells, h]
  · rw [hruns, h]

theorem Later.trans {s t u : State τ υ} (h : Later s t) (g : Later t u) : Later s u where
  cache _ _ _ hn := g.cache _ _ _ (h.cache _ _ _ hn)
  cells _ _ hx := g.cells _ _ (h.cells _ _ hx)
  runs _ _ hn hr := g.runs _ _ (h.runs _ _ hn hr) hr

theorem CellFor.mono {C : Container τ υ φ} {cache cache' : Nat → ServiceKey τ → Option Nat}
    (h : ∀ scope key n, cache scope key = some n → cache' scope key = some n) {r : EntryRef τ}
    {scope : Option Nat} {x : CellId τ} (hx : CellFor C cache r scope x) :
    CellFor C cache' r scope x := by
  cases hx with
  | entry he => exact .entry he
  | slot he hs hn => exact .slot he hs (h _ _ _ hn)

theorem RunFor.mono {C : Container τ υ φ} {cache cache' : Nat → ServiceKey τ → Option Nat}
    (h : ∀ scope key n, cache scope key = some n → cache' scope key = some n) {r : EntryRef τ}
    {scope : Option Nat} {x : Option (CellId τ)} (hx : RunFor C cache r scope x) :
    RunFor C cache' r scope x := by
  cases hx with
  | transient he => exact .transient he
  | cell hx => exact .cell (hx.mono h)

theorem InstFor.mono {C : Container τ υ φ} {s t : State τ υ} (h : Later s t) {r : EntryRef τ}
    {scope : Option Nat} {inst : Inst υ} (hi : InstFor C s r scope inst) :
    InstFor C t r scope inst := by
  cases hi with
  | given he => exact .given he
  | cell hx hset => exact .cell (hx.mono h.cache) (h.cells _ _ hset)
  | transient he hrun => exact .transient he (h.runs _ _ hrun rfl)

theorem PhaseOk.mono {C : Container τ υ φ} {s t : State τ υ} {c : Nat} {call : Call τ υ}
    (h : PhaseOk C s c call)
    (hcache : ∀ scope key n, s.cache scope key = some n → t.cache scope key = some n)
    (hruns : ∀ (n : Nat) (run : FactoryRun τ), s.runs[n]? = some run → run.call = c →
      t.runs[n]? = some run)
    (hcells : ∀ y, s.cells y = .init c → t.cells y = .init c) : PhaseOk C t c call := by
  unfold PhaseOk at h ⊢
  cases hphase : call.phase with
  | entered => simpa only [hphase] using h
  | entry j => simpa only [hphase] using h
  | slotMiss j => simpa only [hphase] using h
  | cell j x =>
    simp only [hphase] at h ⊢
    exact ⟨h.1, h.2.mono hcache⟩
  | building j x run =>
    simp only [hphase] at h ⊢
    obtain ⟨hlen, hrun, hat, hx⟩ := h
    exact ⟨hlen, hrun.mono hcache, hruns _ _ hat rfl, fun y hy => hcells y (hx y hy)⟩
  | done result => simpa only [hphase] using h
  | dropped => trivial

variable {C : Container τ υ φ} {s t : State τ υ} {c j : Nat} {call call' : Call τ υ}
  {x : Option (CellId τ)} {run : Nat} {e : RunEnd}

theorem phaseOk_next {l : List (Inst υ)} (hphase : call.phase = C.next call.node j l)
    (h : call.resolved = l) (hj : l.length = j) : PhaseOk C s c call := by
  unfold PhaseOk
  rw [hphase, Container.next]
  by_cases hsome : (C.entryAt call.node j).isSome
  · rw [if_pos hsome]
    exact ⟨(congrArg List.length h).trans hj, hsome⟩
  · rw [if_neg hsome]
    intro l' hl'
    obtain rfl := Except.ok.inj hl'
    exact h.symm

/-- The result of a registration joins the ones before it. -/
theorem resolved_advance {inst : Inst υ} (hlen : call.resolved.length = j)
    (hold : ∀ (k : Nat) (i : Inst υ), call.resolved[k]? = some i →
      InstFor C s (call.ref k) call.scope i)
    (hnew : InstFor C s (call.ref j) call.scope inst) (k : Nat) (i : Inst υ)
    (h : (C.advance call j inst).resolved[k]? = some i) : InstFor C s (call.ref k) call.scope i := by
  rcases getElem?_concat_some h with h | ⟨hk, rfl⟩
  · exact hold k i h
  · obtain rfl : k = j := hk.trans hlen
    exact hnew

theorem phaseOk_advance {inst : Inst υ} (hlen : call.resolved.length = j) :
    PhaseOk C s c (C.advance call j inst) := by
  refine phaseOk_next rfl rfl ?_
  rw [List.length_append, hlen, List.length_singleton]

theorem Starts.not_building (h : Starts C s call j x) (k : Nat)
    (y : Option (CellId τ)) (run : Nat) : call.phase ≠ .building k y run := by
  cases h <;> simp_all

theorem Starts.empty (h : Starts C s call j x) {y : CellId τ} (hy : x = some y) :
    s.cells y = .empty := by
  cases h with
  | transient h he => cases hy
  | cell h hx =>
    obtain rfl := Option.some.inj hy
    exact hx

theorem Starts.runFor (hs : Sound C s) (hc : s.calls[c]? = some call) (h : Starts C s call j x) :
    call.resolved.length = j ∧ RunFor C s.cache (call.ref j) call.scope x := by
  have hold := hs.phase c call hc
  unfold PhaseOk at hold
  cases h with
  | transient h he =>
    rw [h] at hold
    exact ⟨hold.1, .transient (Container.entryOf_ref he)⟩
  | cell h hx =>
    rw [h] at hold
    exact ⟨hold.1, .cell hold.2⟩

/-- A call that is building: its run, and the cell it initialises. -/
theorem Sound.building (hs : Sound C s) (hc : s.calls[c]? = some call)
    (hphase : call.phase = .building j x run) :
    call.resolved.length = j ∧ RunFor C s.cache (call.ref j) call.scope x ∧
      s.runs[run]? = some ⟨c, call.ref j, call.scope, x, .running⟩ ∧
      ∀ y, x = some y → s.cells y = .init c := by
  have hold := hs.phase c call hc
  unfold PhaseOk at hold
  rw [hphase] at hold
  exact hold

/-- The runs for an empty cell have failed or were dropped. -/
theorem Sound.failed_of_empty (hs : Sound C s) {y : CellId τ} (hempty : s.cells y = .empty)
    {n : Nat} {r : FactoryRun τ} (hn : s.runs[n]? = some r) (hy : r.cell = some y) :
    r.outcome = .failed ∨ r.outcome = .dropped := by
  cases hr : r.outcome with
  | running =>
    obtain ⟨called, k, hcall, hbuild⟩ := hs.running n r hn hr
    have hinit := (hs.building hcall hbuild).2.2.2 y hy
    rw [hempty] at hinit
    cases hinit
  | ok =>
    have hset := hs.stored n r y hn hr hy
    rw [hempty] at hset
    cases hset
  | failed => exact .inl rfl
  | dropped => exact .inr rfl

/-! ### Calls and slots -/

theorem Sound.addCall (hs : Sound C s) (hnew : call.resolved = []) (hphase : call.phase = .entered) :
    Sound C (s.addCall call) where
  phase d called h := by
    rcases getElem?_concat_some h with h | ⟨-, rfl⟩
    · exact (hs.phase d called h).mono (fun _ _ _ h => h) (fun _ _ h _ => h) fun _ h => h
    · unfold PhaseOk
      rw [hphase]
      exact hnew
  resolved d called h k inst hk := by
    rcases getElem?_concat_some h with h | ⟨-, rfl⟩
    · have hlater : Later s (s.addCall call) := .of_eq rfl rfl rfl
      exact (hs.resolved d called h k inst hk).mono hlater
    · rw [hnew] at hk
      cases hk
  ran := hs.ran
  running n run hn hrun := by
    obtain ⟨called, k, hcall, hbuild⟩ := hs.running n run hn hrun
    exact ⟨called, k, getElem?_concat_of_some hcall, hbuild⟩
  stored := hs.stored
  kept := hs.kept
  held x d hx := by
    obtain ⟨called, k, n, hcall, hbuild⟩ := hs.held x d hx
    exact ⟨called, k, n, getElem?_concat_of_some hcall, hbuild⟩
  slot := hs.slot
  owned := hs.owned
  order := hs.order

/-- A call that is not building changes. -/
theorem Sound.setCall (hs : Sound C s) (hc : s.calls[c]? = some call)
    (hphase : PhaseOk C s c call')
    (hres : ∀ (k : Nat) (inst : Inst υ), call'.resolved[k]? = some inst →
      InstFor C s (call'.ref k) call'.scope inst)
    (hb : ∀ j x run, call.phase ≠ .building j x run) : Sound C (s.setCall c call') where
  phase d called h := by
    have hmono {d : Nat} {called : Call τ υ} (h : PhaseOk C s d called) :
        PhaseOk C (s.setCall c call') d called :=
      h.mono (fun _ _ _ h => h) (fun _ _ h _ => h) fun _ h => h
    rcases getElem?_set_some h with ⟨rfl, rfl⟩ | ⟨-, h⟩
    · exact hmono hphase
    · exact hmono (hs.phase d called h)
  resolved d called h k inst hk := by
    have hlater : Later s (s.setCall c call') := .of_eq rfl rfl rfl
    rcases getElem?_set_some h with ⟨rfl, rfl⟩ | ⟨-, h⟩
    · exact (hres k inst hk).mono hlater
    · exact (hs.resolved d called h k inst hk).mono hlater
  ran := hs.ran
  running n run hn hrun := by
    obtain ⟨called, k, hcall, hbuild⟩ := hs.running n run hn hrun
    refine ⟨called, k, getElem?_set_of_ne hc hcall ?_, hbuild⟩
    rintro rfl
    exact hb _ _ _ hbuild
  stored := hs.stored
  kept := hs.kept
  held x d hx := by
    obtain ⟨called, k, n, hcall, hbuild⟩ := hs.held x d hx
    refine ⟨called, k, n, getElem?_set_of_ne hc hcall ?_, hbuild⟩
    rintro rfl
    exact hb _ _ _ hbuild
  slot := hs.slot
  owned := hs.owned
  order := hs.order

variable [DecidableEq τ]

theorem addSlot_cache {scope scope' : Nat} {key key' : ServiceKey τ} {n : Nat}
    (h : (s.addSlot scope key).cache scope' key' = some n) :
    scope' = scope ∧ key' = key ∧ n = s.slots ∨ s.cache scope' key' = some n := by
  simp only [State.addSlot, Function.update_apply] at h
  split at h
  · rename_i hscope
    subst hscope
    simp only [Function.update_apply] at h
    split at h
    · rename_i hkey
      exact .inl ⟨rfl, hkey, (Option.some.inj h).symm⟩
    · exact .inr h
  · exact .inr h

theorem addSlot_later {scope : Nat} {key : ServiceKey τ} (hn : s.cache scope key = none) :
    Later s (s.addSlot scope key) where
  cache scope' key' n h := by
    simp only [State.addSlot, Function.update_apply]
    split
    · rename_i hscope
      subst hscope
      rw [Function.update_of_ne ?_, h]
      rintro rfl
      rw [hn] at h
      cases h
    · exact h
  cells _ _ h := h
  runs _ _ h _ := h

theorem Sound.addSlot (hs : Sound C s) {scope : Nat} {key : ServiceKey τ}
    (hn : s.cache scope key = none) : Sound C (s.addSlot scope key) where
  phase d called h :=
    (hs.phase d called h).mono (addSlot_later hn).cache (fun _ _ h _ => h) fun _ h => h
  resolved d called h k inst hk := (hs.resolved d called h k inst hk).mono (addSlot_later hn)
  ran n run h := (hs.ran n run h).mono (addSlot_later hn).cache
  running := hs.running
  stored := hs.stored
  kept := hs.kept
  held := hs.held
  slot scope' key' n h := by
    show n < s.slots + 1
    rcases addSlot_cache h with ⟨-, -, rfl⟩ | h
    · omega
    · have := hs.slot scope' key' n h
      omega
  owned scope₁ key₁ scope₂ key₂ n h₁ h₂ := by
    rcases addSlot_cache h₁ with ⟨e₁, k₁, n₁⟩ | old₁
    · rcases addSlot_cache h₂ with ⟨e₂, k₂, -⟩ | old₂
      · exact ⟨e₁.trans e₂.symm, k₁.trans k₂.symm⟩
      · have := hs.slot _ _ _ old₂
        omega
    · rcases addSlot_cache h₂ with ⟨-, -, n₂⟩ | old₂
      · have := hs.slot _ _ _ old₁
        omega
      · exact hs.owned _ _ _ _ _ old₁ old₂
  order := hs.order

/-! ### Runs -/

/-- What starting a run does to the cells: its own is now being initialised. -/
theorem startRun_cells (y : CellId τ) :
    (s.startRun c call j x).cells y = if x = some y then .init c else s.cells y := fillCell_eq

/-- A run starts in an empty cell, and no other cell changes. -/
theorem Starts.cells_of_ne (h : Starts C s call j x) {y : CellId τ} (hy : s.cells y ≠ .empty) :
    (s.startRun c call j x).cells y = s.cells y := by
  rw [startRun_cells, if_neg]
  exact fun hx => hy (h.empty hx)

theorem startRun_later (h : Starts C s call j x) : Later s (s.startRun c call j x) where
  cache _ _ _ h := h
  cells y n hy := by
    rw [h.cells_of_ne, hy]
    rw [hy]
    exact nofun
  runs n r hn _ := getElem?_concat_of_some hn

theorem Sound.startRun (hs : Sound C s) (hc : s.calls[c]? = some call) (h : Starts C s call j x) :
    Sound C (s.startRun c call j x) where
  phase d called hd := by
    rcases getElem?_set_some hd with ⟨rfl, rfl⟩ | ⟨-, hd⟩
    · obtain ⟨hlen, hrun⟩ := h.runFor hs hc
      refine ⟨hlen, hrun, ?_, fun y hy => ?_⟩
      · exact List.getElem?_concat_length
      · rw [startRun_cells, if_pos hy]
    · refine (hs.phase d called hd).mono (fun _ _ _ h => h)
        (fun n r hn _ => getElem?_concat_of_some hn) fun y hy => ?_
      rw [h.cells_of_ne, hy]
      rw [hy]
      exact nofun
  resolved d called hd k inst hk := by
    rcases getElem?_set_some hd with ⟨rfl, rfl⟩ | ⟨-, hd⟩
    · exact (hs.resolved d call hc k inst hk).mono (startRun_later h)
    · exact (hs.resolved d called hd k inst hk).mono (startRun_later h)
  ran n r hn := by
    rcases getElem?_concat_some hn with hn | ⟨-, rfl⟩
    · exact hs.ran n r hn
    · exact (h.runFor hs hc).2
  running n r hn hr := by
    rcases getElem?_concat_some hn with hn | ⟨rfl, rfl⟩
    · obtain ⟨called, k, hcall, hbuild⟩ := hs.running n r hn hr
      refine ⟨called, k, getElem?_set_of_ne hc hcall ?_, hbuild⟩
      rintro rfl
      exact h.not_building _ _ _ hbuild
    · exact ⟨_, j, getElem?_set_of_some hc, rfl⟩
  stored n r y hn hr hy := by
    rcases getElem?_concat_some hn with hn | ⟨-, rfl⟩
    · exact (startRun_later h).cells y n (hs.stored n r y hn hr hy)
    · cases hr
  kept y n hy := by
    rw [startRun_cells] at hy
    split at hy
    · cases hy
    · obtain ⟨r, hn, hr, hcell⟩ := hs.kept y n hy
      exact ⟨r, getElem?_concat_of_some hn, hr, hcell⟩
  held y d hy := by
    rw [startRun_cells] at hy
    split at hy
    · rename_i hx
      obtain rfl := Cell.init.inj hy
      exact ⟨_, j, _, getElem?_set_of_some hc, by rw [hx]⟩
    · obtain ⟨called, k, n, hcall, hbuild⟩ := hs.held y d hy
      refine ⟨called, k, n, getElem?_set_of_ne hc hcall ?_, hbuild⟩
      rintro rfl
      exact h.not_building _ _ _ hbuild
  slot := hs.slot
  owned := hs.owned
  order m n r r' y hmn hm hn hry hry' := by
    rcases getElem?_concat_some hm with hm | ⟨rfl, -⟩
    · rcases getElem?_concat_some hn with hn | ⟨-, rfl⟩
      · exact hs.order m n r r' y hmn hm hn hry hry'
      · exact hs.failed_of_empty (h.empty hry') hm hry
    · have hlt := (List.getElem?_eq_some_iff.mp hn).1
      simp only [State.startRun, List.length_append, List.length_singleton] at hlt
      omega

theorem endRun_cells (y : CellId τ) :
    (s.endRun C c call j x run e).cells y = if x = some y then e.cell run else s.cells y :=
  fillCell_eq

/-- A run ends in the cell that its call initialises, and no other cell changes. -/
theorem Sound.endRun_cells_of_ne (hs : Sound C s) (hc : s.calls[c]? = some call)
    (hphase : call.phase = .building j x run) {y : CellId τ} (hy : s.cells y ≠ .init c) :
    (s.endRun C c call j x run e).cells y = s.cells y := by
  rw [endRun_cells, if_neg]
  exact fun hx => hy ((hs.building hc hphase).2.2.2 y hx)

theorem endRun_runs_of_ne {n : Nat} (h : n ≠ run) :
    (s.endRun C c call j x run e).runs[n]? = s.runs[n]? := by
  show (s.runs.modify run _)[n]? = s.runs[n]?
  rw [List.getElem?_modify_ne]
  exact Ne.symm h

theorem Sound.endRun_later (hs : Sound C s) (hc : s.calls[c]? = some call)
    (hphase : call.phase = .building j x run) : Later s (s.endRun C c call j x run e) where
  cache _ _ _ h := h
  cells y n hy := by
    rw [hs.endRun_cells_of_ne hc hphase, hy]
    rw [hy]
    exact nofun
  runs n r hn hr := by
    rw [endRun_runs_of_ne, hn]
    rintro rfl
    have hrun := (hs.building hc hphase).2.2.1
    rw [hn] at hrun
    obtain rfl := Option.some.inj hrun
    cases hr

/-- The instance that a run which ended well leaves. -/
theorem Sound.endRun_inst (hs : Sound C s) (hc : s.calls[c]? = some call)
    (hphase : call.phase = .building j x run) :
    InstFor C (s.endRun C c call j x run .ok) (call.ref j) call.scope (.built run) := by
  obtain ⟨hlen, hrun, hat, hcell⟩ := hs.building hc hphase
  cases hrun with
  | transient he => exact .transient he (getElem?_modify_of_some hat)
  | cell hx => exact .cell hx ((endRun_cells _).trans (if_pos rfl))

theorem Sound.endRun_phase (hs : Sound C s) (hc : s.calls[c]? = some call)
    (hphase : call.phase = .building j x run) {d : Nat} {called : Call τ υ}
    (hd : (s.endRun C c call j x run e).calls[d]? = some called) :
    PhaseOk C (s.endRun C c call j x run e) d called := by
  obtain ⟨hlen, -, hat, -⟩ := hs.building hc hphase
  rcases getElem?_set_some hd with ⟨rfl, rfl⟩ | ⟨hdc, hd⟩
  · cases e with
    | ok => exact phaseOk_advance hlen
    | error e =>
      intro l hl
      cases hl
    | dropped => trivial
  · -- another call has another run, and initialises another cell
    refine (hs.phase d called hd).mono (hs.endRun_later hc hphase).cache ?_ ?_
    · intro n r hn hr
      rw [endRun_runs_of_ne, hn]
      rintro rfl
      obtain rfl := Option.some.inj (hat.symm.trans hn)
      exact hdc hr.symm
    · intro y hy
      rw [hs.endRun_cells_of_ne hc hphase, hy]
      rw [hy]
      exact fun h => hdc (Cell.init.inj h)

theorem Sound.endRun_resolved (hs : Sound C s) (hc : s.calls[c]? = some call)
    (hphase : call.phase = .building j x run) {d k : Nat} {called : Call τ υ} {inst : Inst υ}
    (hd : (s.endRun C c call j x run e).calls[d]? = some called)
    (hk : called.resolved[k]? = some inst) :
    InstFor C (s.endRun C c call j x run e) (called.ref k) called.scope inst := by
  have hlater : Later s (s.endRun C c call j x run e) := hs.endRun_later hc hphase
  rcases getElem?_set_some hd with ⟨rfl, rfl⟩ | ⟨-, hd⟩
  · have hold k i hk := (hs.resolved d call hc k i hk).mono hlater
    cases e with
    | ok =>
      have hlen := (hs.building hc hphase).1
      exact resolved_advance hlen hold (hs.endRun_inst hc hphase) k inst hk
    | error e => exact hold k inst hk
    | dropped => exact hold k inst hk
  · exact (hs.resolved d called hd k inst hk).mono hlater

theorem Sound.endRun (hs : Sound C s) (hc : s.calls[c]? = some call)
    (hphase : call.phase = .building j x run) : Sound C (s.endRun C c call j x run e) where
  phase d called hd := hs.endRun_phase hc hphase hd
  resolved d called hd k inst hk := hs.endRun_resolved hc hphase hd hk
  ran n r hn := by
    rcases getElem?_modify_some hn with ⟨rfl, r', hr', rfl⟩ | ⟨-, hn⟩
    · exact hs.ran _ r' hr'
    · exact hs.ran n r hn
  running n r hn hr := by
    rcases getElem?_modify_some hn with ⟨rfl, r', hr', rfl⟩ | ⟨hne, hn⟩
    · cases e <;> cases hr
    · obtain ⟨called, k, hcall, hbuild⟩ := hs.running n r hn hr
      refine ⟨called, k, getElem?_set_of_ne hc hcall ?_, hbuild⟩
      rintro rfl
      rw [hphase] at hbuild
      cases hbuild
      exact hne rfl
  stored n r y hn hr hy := by
    rcases getElem?_modify_some hn with ⟨rfl, r', hr', rfl⟩ | ⟨-, hn⟩
    · obtain rfl := Option.some.inj ((hs.building hc hphase).2.2.1.symm.trans hr')
      rw [endRun_cells, if_pos hy]
      cases e with
      | ok => rfl
      | error e => cases hr
      | dropped => cases hr
    · exact (hs.endRun_later hc hphase).cells y n (hs.stored n r y hn hr hy)
  kept y n hy := by
    rw [endRun_cells] at hy
    split at hy
    · rename_i hx
      cases e with
      | ok =>
        obtain rfl := Cell.set.inj hy
        exact ⟨_, getElem?_modify_of_some (hs.building hc hphase).2.2.1, rfl, hx⟩
      | error e => cases hy
      | dropped => cases hy
    · obtain ⟨r, hn, hr, hry⟩ := hs.kept y n hy
      exact ⟨r, (hs.endRun_later hc hphase).runs n r hn hr, hr, hry⟩
  held y d hy := by
    rw [endRun_cells] at hy
    split at hy
    · cases e <;> cases hy
    · rename_i hx
      obtain ⟨called, k, n, hcall, hbuild⟩ := hs.held y d hy
      refine ⟨called, k, n, getElem?_set_of_ne hc hcall ?_, hbuild⟩
      rintro rfl
      rw [hphase] at hbuild
      cases hbuild
      exact hx rfl
  slot := hs.slot
  owned := hs.owned
  order m n r r' y hmn hm hn hry hry' := by
    have hold : ∃ r₀ : FactoryRun τ, s.runs[n]? = some r₀ ∧ r₀.cell = some y := by
      rcases getElem?_modify_some hn with ⟨-, r₀, hr₀, rfl⟩ | ⟨-, hn⟩
      · exact ⟨r₀, hr₀, hry'⟩
      · exact ⟨r', hn, hry'⟩
    obtain ⟨r₀, hr₀, hcell₀⟩ := hold
    rcases getElem?_modify_some hm with ⟨rfl, r₁, hr₁, rfl⟩ | ⟨-, hm⟩
    · -- no run for the cell has started while this one was running
      have hat := (hs.building hc hphase).2.2.1
      obtain rfl := Option.some.inj (hat.symm.trans hr₁)
      rcases hs.order _ _ _ _ y hmn hat hr₀ hry hcell₀ with h | h
      · cases h
      · cases h
    · exact hs.order m n r r₀ y hmn hm hr₀ hry hcell₀

/-! ### Steps of one call -/

variable [TypeName τ]

theorem phaseOk_enter (h : call.resolved = []) :
    PhaseOk C s c { call with phase := C.enter call } := by
  rcases enter_cases C call with ⟨cycle, -, -, he⟩ | ⟨tag, he⟩ | he | ⟨-, hsome, he⟩
  · rw [he]
    intro l hl
    cases hl
  · rw [he]
    intro l hl
    cases hl
  · rw [he]
    intro l hl
    obtain rfl := Except.ok.inj hl
    exact h.symm
  · rw [he]
    exact ⟨congrArg List.length h, hsome⟩

theorem Local.not_building (h : Local C s call call') (x : Option (CellId τ)) (run : Nat) :
    call.phase ≠ .building j x run := by
  cases h with
  | cancel h hb => exact hb j x run
  | _ => simp_all

/-- What a call on its own becomes fits its new phase. -/
theorem Sound.local_phase (hs : Sound C s) (hc : s.calls[c]? = some call)
    (h : Local C s call call') : PhaseOk C s c call' := by
  have hold := hs.phase c call hc
  unfold PhaseOk at hold
  cases h with
  | enter h =>
    rw [h] at hold
    exact phaseOk_enter hold
  | given h he =>
    rw [h] at hold
    exact phaseOk_advance hold.1
  | toCell h he =>
    rw [h] at hold
    exact ⟨hold.1, .entry (Container.entryOf_ref he)⟩
  | noScope h he hscope =>
    intro l hl
    cases hl
  | toSlot h he hscope hn =>
    rw [h] at hold
    exact ⟨hold.1, .slot (Container.entryOf_ref he) hscope hn⟩
  | slotMiss h he hscope =>
    rw [h] at hold
    exact ⟨hold.1, Option.isSome_iff_exists.mpr ⟨_, hscope⟩, _, Container.entryOf_ref he⟩
  | slotFound h hscope hn =>
    rw [h] at hold
    obtain ⟨hlen, -, f, he⟩ := hold
    exact ⟨hlen, .slot he hscope hn⟩
  | take h hx =>
    rw [h] at hold
    exact phaseOk_advance hold.1
  | cancel h hb => trivial

theorem Sound.local_resolved (hs : Sound C s) (hc : s.calls[c]? = some call)
    (h : Local C s call call') (k : Nat) (inst : Inst υ) (hk : call'.resolved[k]? = some inst) :
    InstFor C s (call'.ref k) call'.scope inst := by
  have hold := hs.phase c call hc
  have hres := hs.resolved c call hc
  unfold PhaseOk at hold
  cases h with
  | given h he =>
    rw [h] at hold
    exact resolved_advance hold.1 hres (.given (Container.entryOf_ref he)) k inst hk
  | take h hx =>
    rw [h] at hold
    exact resolved_advance hold.1 hres (.cell hold.2 hx) k inst hk
  | _ => exact hres k inst hk

/-! ### Every step keeps them -/

variable {resolves : φ → Node τ → Bool}

/-- **Every move keeps the cells and runs sound.** -/
theorem Sound.move (hs : Sound C s) (h : Move C resolves s t) : Sound C t := by
  cases h with
  | call node scope => exact hs.addCall rfl rfl
  | nested hp hphase he hf hr => exact hs.addCall rfl rfl
  | «local» hc h =>
    exact hs.setCall hc (hs.local_phase hc h) (hs.local_resolved hc h)
      fun j x run => h.not_building x run
  | @slotAdd c j scope call hc hphase hscope hn =>
    have hold := hs.phase c call hc
    unfold PhaseOk at hold
    rw [hphase] at hold
    obtain ⟨hlen, -, f, he⟩ := hold
    have hslot := hs.addSlot hn
    refine hslot.setCall hc ⟨hlen, .slot he hscope ?_⟩ (hslot.resolved c call hc) ?_
    · show Function.update s.cache scope _ scope (call.ref j).slotKey = some s.slots
      rw [Function.update_self, Function.update_self]
    · intro j x run hb
      rw [hphase] at hb
      cases hb
  | startRun hc h => exact hs.startRun hc h
  | endRun hc hphase hidle herror => exact hs.endRun hc hphase

theorem Sound.later (hs : Sound C s) (h : Move C resolves s t) : Later s t := by
  cases h with
  | call node scope => exact .of_eq rfl rfl rfl
  | nested hp hphase he hf hr => exact .of_eq rfl rfl rfl
  | «local» hc h => exact .of_eq rfl rfl rfl
  | slotAdd hc hphase hscope hn =>
    exact (addSlot_later hn).trans (.of_eq rfl rfl rfl)
  | startRun hc h => exact startRun_later h
  | endRun hc hphase hidle herror => exact hs.endRun_later hc hphase

/-- **Every reachable state is sound.** -/
theorem sound_of_reach (h : Reach (step C resolves) (State.start τ υ) s) : Sound C s :=
  h.invariant (sound_start C) fun _ _ _ hu _ hstep => hu.move (step_move hstep)

/-- **What is set stays set.** -/
theorem later_of_reach (hs : Sound C s) (h : Reach (step C resolves) s t) : Later s t := by
  refine (h.invariant (P := fun u => Sound C u ∧ Later s u) ⟨hs, .of_eq rfl rfl rfl⟩ ?_).2
  intro u v a hkept _ hstep
  obtain ⟨hu, hlater⟩ := hkept
  exact ⟨hu.move (step_move hstep), hlater.trans (hu.later (step_move hstep))⟩

end Kolas.Di

import Kolas.Di.Requests

/-!
# What a call needs

A call has to find registrations for its key, if it is not for a group, and a scope, if one of
its registrations is scoped.

* `registered_of_returned`, `scope_of_returned`: without these no call returns values.
* `Alone.returns`: with them a call can return, beside calls that are over.
-/

namespace Kolas.Di

open Kolas.Lib

variable {τ υ φ : Type} {C : Container τ υ φ} {s t u : State τ υ} {c j : Nat}
  {call call' call'' : Call τ υ}

/-- One of the registrations for the node is scoped. -/
def Container.NeedsScope (C : Container τ υ φ) (node : Node τ) : Prop :=
  ∃ j f, C.entryAt node j = some (.scoped f)

/-- A node has no registration after the last one. -/
theorem entryAt_eq_none_of_le {node : Node τ} {i : Nat} (h : C.entryAt node i = none)
    (hle : i ≤ j) : C.entryAt node j = none := by
  cases node with
  | single key =>
    cases j with
    | zero =>
      obtain rfl := Nat.le_zero.mp hle
      exact h
    | succ j => rfl
  | group key =>
    rw [entryAt_group] at h ⊢
    exact List.getElem?_eq_none ((List.getElem?_eq_none_iff.mp h).trans hle)

theorem exists_entryAt_none (C : Container τ υ φ) (node : Node τ) :
    ∃ n, C.entryAt node n = none := by
  cases node with
  | single key => exact ⟨1, rfl⟩
  | group key => exact ⟨_, (entryAt_group C key _).trans (List.getElem?_eq_none le_rfl)⟩

/-! ### Calls that have returned -/

section

variable [DecidableEq τ] [TypeName τ] {resolves : φ → Node τ → Bool}

/-- A call that returns at once is for a group without members. -/
theorem registered_of_enter {values : List (Inst υ)} (h : C.enter call = .done (.ok values)) :
    C.Registered call.node := by
  unfold Container.enter at h
  cases hnode : call.node with
  | group key => trivial
  | single key =>
    rw [hnode] at h
    dsimp only at h
    split at h
    · cases h
    · split at h
      · cases h
      · rename_i e he
        exact Option.isSome_of_eq_some he

/-- What a call resolves last is registered. -/
theorem registered_of_returns (ht : Sound C t) {d : Nat} (hd : t.calls[d]? = some call')
    {a : Action τ} {values : List (Inst υ)} (h : Returns C s a call call' (.ok values)) :
    C.Registered call'.node := by
  cases h with
  | enter hentered he => exact registered_of_enter he
  | @last j inst _ hlen hnone =>
    have hlast : (C.advance call j inst).resolved[call.resolved.length]? = some inst :=
      List.getElem?_concat_length
    have hentry := (ht.resolved d _ hd _ inst hlast).entry_isSome
    show C.Registered call.node
    cases hnode : call.node with
    | group key => trivial
    | single key =>
      have href : (C.advance call j inst).ref call.resolved.length = .single key := by
        show call.node.ref _ = _
        rw [hnode]
        rfl
      rwa [href] at hentry

/-- **No call returns without a registration.** -/
theorem registered_of_returned (hreach : Reach (freeStep C resolves) (State.start τ υ) s)
    (hc : s.calls[c]? = some call) {values : List (Inst υ)}
    (hdone : call.phase = .done (.ok values)) : C.Registered call.node := by
  have hall := hreach.invariant (P := fun s => Sound C s ∧ ∀ (d : Nat) (called : Call τ υ)
    (values : List (Inst υ)), s.calls[d]? = some called → called.phase = .done (.ok values) →
      C.Registered called.node) ⟨sound_start C, fun _ _ _ hd => by cases hd⟩ ?_
  · exact hall.2 c call values hc hdone
  · rintro s t a ⟨hs, hold⟩ - hstep
    have ht := (hs.free hstep).1
    refine ⟨ht, fun d called values hd hphase => ?_⟩
    rcases result_of_freeStep hs hstep hd hphase with hd' | ⟨old, -, hreturns⟩
    · exact hold d called values hd' hphase
    · exact registered_of_returns ht hd hreturns

/-- **No call returns without a scope that it needs.** -/
theorem scope_of_returned (hreach : Reach (freeStep C resolves) (State.start τ υ) s)
    (hc : s.calls[c]? = some call) {values : List (Inst υ)}
    (hdone : call.phase = .done (.ok values)) (hneeds : C.NeedsScope call.node) :
    call.scope.isSome := by
  obtain ⟨w, rfl, hw⟩ := watched_of_reach hreach
  obtain ⟨hs, ht⟩ := told_of_reach hw
  obtain ⟨j, f, hf⟩ := hneeds
  -- the registration has been resolved
  have hlt : j < call.resolved.length := by
    by_contra hge
    have hnone := entryAt_eq_none_of_le (ht.complete c call values hc hdone) (not_lt.mp hge)
    rw [hf] at hnone
    cases hnone
  have hinst := hs.resolved c call hc j _ (List.getElem?_eq_getElem hlt)
  have hentry : C.entryOf (call.ref j) = some (.scoped f) := Container.entryOf_ref hf
  obtain ⟨x, n, hx, -, -⟩ := hinst.inCell (.inr hentry)
  obtain ⟨sc, m, hscope, -, -⟩ := hx.eq_slot hentry
  rw [hscope]
  rfl

end

/-! ### A call that is alone -/

/-- All calls were made from outside, and those other than `c` are over. -/
structure Alone (C : Container τ υ φ) (s : State τ υ) (c : Nat) (call : Call τ υ) : Prop where
  sound : Sound C s
  here : s.calls[c]? = some call
  top : ∀ (d : Nat) (called : Call τ υ), s.calls[d]? = some called → called.parent = none
  ended : ∀ (d : Nat) (called : Call τ υ), s.calls[d]? = some called → d ≠ c →
    called.phase.finished = true

/-- All calls were made from outside, and are over. -/
structure Settled (C : Container τ υ φ) (s : State τ υ) : Prop where
  sound : Sound C s
  top : ∀ (d : Nat) (called : Call τ υ), s.calls[d]? = some called → called.parent = none
  ended : ∀ (d : Nat) (called : Call τ υ), s.calls[d]? = some called → called.phase.finished = true

theorem settled_start (C : Container τ υ φ) : Settled C (State.start τ υ) where
  sound := sound_start C
  top d called hd := by cases hd
  ended d called hd := by cases hd

theorem Settled.addCall (h : Settled C s) (node : Node τ) (scope : Option Nat) :
    Alone C (s.addCall (.top node scope)) s.calls.length (.top node scope) where
  sound := h.sound.addCall rfl rfl
  here := List.getElem?_concat_length
  top d called hd := by
    rcases getElem?_concat_some hd with hd | ⟨-, rfl⟩
    · exact h.top d called hd
    · rfl
  ended d called hd hne := by
    rcases getElem?_concat_some hd with hd | ⟨hlast, -⟩
    · exact h.ended d called hd
    · exact absurd hlast hne

theorem Alone.settled (h : Alone C s c call) (hdone : call.phase.finished = true) :
    Settled C s where
  sound := h.sound
  top := h.top
  ended d called hd := by
    by_cases hdc : d = c
    · subst hdc
      obtain rfl := Option.some.inj (h.here.symm.trans hd)
      exact hdone
    · exact h.ended d called hd hdc

theorem Alone.idle (h : Alone C s c call) : s.idle c = true := by
  refine List.all_eq_true.mpr fun called hmem => ?_
  obtain ⟨d, hd⟩ := List.getElem?_of_mem hmem
  rw [h.top d called hd]
  rfl

/-- No cell is being initialised by another call. -/
theorem Alone.cell_ne_init (h : Alone C s c call) {x : CellId τ}
    (hphase : ∀ j x run, call.phase ≠ .building j x run) (b : Nat) : s.cells x ≠ .init b := by
  intro hx
  obtain ⟨called, k, n, hb, hbuild⟩ := h.sound.held x b hx
  by_cases hbc : b = c
  · subst hbc
    obtain rfl := Option.some.inj (h.here.symm.trans hb)
    exact hphase _ _ _ hbuild
  · have hover := h.ended b called hb hbc
    rw [hbuild] at hover
    cases hover

variable [DecidableEq τ] [TypeName τ] {resolves : φ → Node τ → Bool}

/-- Without calls from outside, the call has become `call'`. -/
structure Becomes (C : Container τ υ φ) (resolves : φ → Node τ → Bool) (c : Nat) (s : State τ υ)
    (call : Call τ υ) (t : State τ υ) (call' : Call τ υ) : Prop where
  reach : Reaches (freeStep C resolves) (fun _ a => a.isCall = false) s t
  alone : Alone C t c call'
  same : SameCall call call'

theorem Becomes.trans (h : Becomes C resolves c s call t call')
    (g : Becomes C resolves c t call' u call'') : Becomes C resolves c s call u call'' :=
  ⟨h.reach.trans g.reach, g.alone, h.same.trans g.same⟩

theorem Alone.step {a : Action τ} (h : Alone C s c call) (ha : a.isCall = false)
    (hstep : freeStep C resolves s a = some t) (hcalls : t.calls = s.calls.set c call')
    (hsame : SameCall call call') : Becomes C resolves c s call t call' := by
  refine ⟨Reaches.single ha hstep, ⟨(h.sound.free hstep).1, ?_, ?_, ?_⟩, hsame⟩
  · rw [hcalls]
    exact getElem?_set_of_some h.here
  · intro d called hd
    rw [hcalls] at hd
    rcases getElem?_set_some hd with ⟨-, rfl⟩ | ⟨-, hd⟩
    · rw [hsame.parent]
      exact h.top c call h.here
    · exact h.top d called hd
  · intro d called hd hne
    rw [hcalls, List.getElem?_set_ne (Ne.symm hne)] at hd
    exact h.ended d called hd hne

theorem Alone.poll (h : Alone C s c call) (hpoll : pollCall C s c call = some t)
    (hcalls : t.calls = s.calls.set c call') (hsame : SameCall call call') :
    Becomes C resolves c s call t call' := by
  have hstep : freeStep C resolves s (.poll c) = some t := by
    simp only [freeStep, Di.step, h.here, hpoll]
  exact h.step rfl hstep hcalls hsame

/-! ### From one registration to the next -/

variable (resolves)

/-- A factory that is started can do well. -/
theorem Alone.build (h : Alone C s c call) {x : Option (CellId τ)}
    (hpoll : pollCall C s c call = some (s.startRun c call j x)) :
    ∃ t inst, Becomes C resolves c s call t (C.advance call j inst) := by
  have hstart : Becomes C resolves c s call (s.startRun c call j x)
      { call with phase := .building j x s.runs.length } :=
    h.poll hpoll rfl ⟨rfl, rfl, rfl, rfl⟩
  have hfinish : freeStep C resolves (s.startRun c call j x) (.finish c (.ok ())) =
      some ((s.startRun c call j x).endRun C c { call with phase := .building j x s.runs.length }
        j x s.runs.length .ok) := by
    simp only [freeStep, Di.step, hstart.alone.here, hstart.alone.idle, if_true]
  exact ⟨_, .built s.runs.length,
    hstart.trans (hstart.alone.step rfl hfinish rfl ⟨rfl, rfl, rfl, rfl⟩)⟩

theorem Alone.cell (h : Alone C s c call) {x : CellId τ} (hphase : call.phase = .cell j x) :
    ∃ t inst, Becomes C resolves c s call t (C.advance call j inst) := by
  have hnot : ∀ j x run, call.phase ≠ .building j x run := by
    intro j x run
    rw [hphase]
    exact nofun
  cases hx : s.cells x with
  | set run =>
    have hpoll : pollCall C s c call = some (s.setCall c (C.advance call j (.built run))) := by
      simp only [pollCall, hphase, hx]
    exact ⟨_, _, h.poll hpoll rfl ⟨rfl, rfl, rfl, rfl⟩⟩
  | empty =>
    refine h.build resolves (x := some x) ?_
    simp only [pollCall, hphase, hx]
  | init b => exact absurd hx (h.cell_ne_init hnot b)

/-- To a cell, and on from there. -/
theorem Becomes.cell {x : CellId τ}
    (h : Becomes C resolves c s call t { call with phase := .cell j x }) :
    ∃ t inst, Becomes C resolves c s call t (C.advance call j inst) := by
  obtain ⟨u, inst, hadvance⟩ := h.alone.cell resolves rfl
  exact ⟨u, inst, h.trans hadvance⟩

/-- Still there is no slot, and the call adds one. -/
theorem Alone.slotMiss (h : Alone C s c call) (hphase : call.phase = .slotMiss j) {scope : Nat}
    (hscope : call.scope = some scope) :
    ∃ t inst, Becomes C resolves c s call t (C.advance call j inst) := by
  cases hcache : s.cache scope (call.ref j).slotKey with
  | some n =>
    have hpoll : pollCall C s c call =
        some (s.setCall c { call with phase := .cell j (.slot n) }) := by
      simp only [pollCall, hphase, hscope, hcache]
    exact (h.poll hpoll rfl ⟨rfl, rfl, rfl, rfl⟩).cell resolves
  | none =>
    have hpoll : pollCall C s c call = some ((s.addSlot scope (call.ref j).slotKey).setCall c
        { call with phase := .cell j (.slot s.slots) }) := by
      simp only [pollCall, hphase, hscope, hcache]
    exact (h.poll hpoll rfl ⟨rfl, rfl, rfl, rfl⟩).cell resolves

/-- **One registration**, of any lifecycle. -/
theorem Alone.entry (h : Alone C s c call) (hphase : call.phase = .entry j) {e : Entry υ φ}
    (he : C.entryAt call.node j = some e) (hscope : C.NeedsScope call.node → call.scope.isSome) :
    ∃ t inst, Becomes C resolves c s call t (C.advance call j inst) := by
  cases e with
  | value v =>
    have hpoll : pollCall C s c call = some (s.setCall c (C.advance call j (.given v))) := by
      simp only [pollCall, hphase, pollEntry, he]
    exact ⟨_, _, h.poll hpoll rfl ⟨rfl, rfl, rfl, rfl⟩⟩
  | singleton f =>
    have hpoll : pollCall C s c call =
        some (s.setCall c { call with phase := .cell j (.entry (call.ref j)) }) := by
      simp only [pollCall, hphase, pollEntry, he]
    exact (h.poll hpoll rfl ⟨rfl, rfl, rfl, rfl⟩).cell resolves
  | transient f =>
    refine h.build resolves (x := none) ?_
    simp only [pollCall, hphase, pollEntry, he]
  | «scoped» f =>
    obtain ⟨scope, hsome⟩ := Option.isSome_iff_exists.mp (hscope ⟨j, f, he⟩)
    cases hcache : s.cache scope (call.ref j).slotKey with
    | some n =>
      have hpoll : pollCall C s c call =
          some (s.setCall c { call with phase := .cell j (.slot n) }) := by
        simp only [pollCall, hphase, pollEntry, he, hsome, hcache]
      exact (h.poll hpoll rfl ⟨rfl, rfl, rfl, rfl⟩).cell resolves
    | none =>
      have hpoll : pollCall C s c call =
          some (s.setCall c { call with phase := .slotMiss j }) := by
        simp only [pollCall, hphase, pollEntry, he, hsome, hcache]
      have hmiss : Becomes C resolves c s call _ { call with phase := .slotMiss j } :=
        h.poll hpoll rfl ⟨rfl, rfl, rfl, rfl⟩
      obtain ⟨t, inst, hadvance⟩ := hmiss.alone.slotMiss resolves rfl hsome
      exact ⟨t, inst, hmiss.trans hadvance⟩

/-- **All that are left.** -/
theorem Alone.next {n : Nat} (hn : C.entryAt call.node n = none)
    (h : Alone C s c call) (hphase : call.phase = C.next call.node j call.resolved)
    (hscope : C.NeedsScope call.node → call.scope.isSome) :
    ∃ t call' values, Becomes C resolves c s call t call' ∧ call'.phase = .done (.ok values) := by
  induction hleft : n - j generalizing s j call with
  | zero =>
    have hnone : C.entryAt call.node j = none := entryAt_eq_none_of_le hn (by omega)
    rw [Container.next, hnone] at hphase
    exact ⟨s, call, call.resolved, ⟨Reaches.refl s, h, ⟨rfl, rfl, rfl, rfl⟩⟩, hphase⟩
  | succ left ih =>
    cases he : C.entryAt call.node j with
    | none =>
      rw [Container.next, he] at hphase
      exact ⟨s, call, call.resolved, ⟨Reaches.refl s, h, ⟨rfl, rfl, rfl, rfl⟩⟩, hphase⟩
    | some e =>
      rw [Container.next, he] at hphase
      obtain ⟨t, inst, hadvance⟩ := h.entry resolves hphase he hscope
      have hsame : C.entryAt (C.advance call j inst).node n = none := hn
      obtain ⟨u, call', values, hbecomes, hdone⟩ :=
        ih hsame hadvance.alone rfl hscope (by omega)
      exact ⟨u, call', values, hadvance.trans hbecomes, hdone⟩

/-! ### A whole call -/

/-- **A call that is alone can return.** -/
theorem Alone.returns {node : Node τ} {scope : Option Nat} (h : Alone C s c (.top node scope))
    (hnode : C.Registered node) (hscope : C.NeedsScope node → scope.isSome) :
    ∃ t call' values, Becomes C resolves c s (.top node scope) t call' ∧
      call'.phase = .done (.ok values) := by
  obtain ⟨n, hn⟩ := exists_entryAt_none C node
  have henter : Becomes C resolves c s (.top node scope) _
      { Call.top node scope with phase := C.enter (.top node scope) } :=
    h.poll rfl rfl ⟨rfl, rfl, rfl, rfl⟩
  obtain ⟨t, call', values, hbecomes, hdone⟩ :=
    henter.alone.next resolves hn (enter_top hnode scope) hscope
  exact ⟨t, call', values, henter.trans hbecomes, hdone⟩

end Kolas.Di

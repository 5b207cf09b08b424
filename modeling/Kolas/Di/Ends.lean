import Kolas.Di.Callers

/-!
# How runs end

`freeStep` is the machine whose factories may end with any error: also with a
`CircularDependency` that none of their calls has returned.

* `freeStep_ends`: a run of a factory ends by the action that ends it, and by no
  other.
* `Sound.free`, `later_of_freeReach`: cells and runs stay sound, and what is set stays
  set.
* `call_kept`, `run_kept`: a call keeps what it is for and what it has resolved, and
  a run what it is for.
-/

namespace Kolas.Di

open Kolas.Lib

variable {τ υ φ : Type} [DecidableEq τ] [TypeName τ] {C : Container τ υ φ}
  {resolves : φ → Node τ → Bool} {s t : State τ υ}

/-- The call whose run the action ends, and how. -/
def Action.ends : Action τ → Option (Nat × RunEnd)
  | .finish c (.ok _) => some (c, .ok)
  | .finish c (.error e) => some (c, .error e)
  | .cancel c => some (c, .dropped)
  | _ => none

/-- The run that the action ends, and how. -/
def State.ended (s : State τ υ) (a : Action τ) : Option (Nat × RunEnd) :=
  a.ends.bind fun e =>
    match (s.calls[e.1]?).map Call.phase with
    | some (.building _ _ run) => some (run, e.2)
    | _ => none

omit [DecidableEq τ] [TypeName τ] in
theorem ended_of_building {a : Action τ} {c j run : Nat} {call : Call τ υ}
    {x : Option (CellId τ)} {e : RunEnd} (ha : a.ends = some (c, e)) (hc : s.calls[c]? = some call)
    (hphase : call.phase = .building j x run) : s.ended a = some (run, e) := by
  unfold State.ended
  rw [ha, Option.bind_some, hc, Option.map_some, hphase]

omit [DecidableEq τ] [TypeName τ] in
theorem ended_of_not_building {a : Action τ} {c : Nat} {call : Call τ υ}
    {e : RunEnd} (ha : a.ends = some (c, e)) (hc : s.calls[c]? = some call)
    (hphase : ∀ j x run, call.phase ≠ .building j x run) : s.ended a = none := by
  unfold State.ended
  rw [ha, Option.bind_some, hc, Option.map_some]
  split
  · rename_i j x run h
    exact absurd (Option.some.inj h) (hphase j x run)
  · rfl

/-- The calls that are building go on with it. -/
def KeepBuilding (s t : State τ υ) : Prop :=
  ∀ (d j run : Nat) (called : Call τ υ) (x : Option (CellId τ)), s.calls[d]? = some called →
    called.phase = .building j x run → t.calls[d]? = some called

omit [DecidableEq τ] [TypeName τ] in
theorem KeepBuilding.set {c : Nat} {call call' : Call τ υ} (hc : s.calls[c]? = some call)
    (hphase : ∀ j x run, call.phase ≠ .building j x run) (ht : t.calls = s.calls.set c call') :
    KeepBuilding s t := by
  intro d j run called x hd hbuild
  rw [ht]
  refine getElem?_set_of_ne hc hd ?_
  rintro rfl
  exact hphase j x run hbuild

/-- A call that is polled is not building, and no other call changes. -/
theorem pollCall_keeps {c : Nat} {call : Call τ υ} (hc : s.calls[c]? = some call)
    (h : pollCall C s c call = some t) : KeepBuilding s t := by
  have hphase : ∀ j x run, call.phase ≠ .building j x run := by
    intro j x run hbuild
    rw [pollCall, hbuild] at h
    cases h
  obtain ⟨call', ht⟩ : ∃ call', t.calls = s.calls.set c call' := by
    unfold pollCall pollEntry at h
    repeat' split at h
    all_goals first
      | obtain rfl := Option.some.inj h
        exact ⟨_, rfl⟩
      | cases h
  exact .set hc hphase ht

/-- `step`, except that a factory may end with any error, also with a
`CircularDependency` that it makes up. -/
def freeStep (C : Container τ υ φ) (resolves : φ → Node τ → Bool) (s : State τ υ) :
    Action τ → Option (State τ υ)
  | .finish c (.error e) =>
    match s.calls[c]? with
    | some call =>
      match call.phase with
      | .building j x run => if s.idle c then some (s.endRun C c call j x run (.error e)) else none
      | _ => none
    | none => none
  | a => step C resolves s a

theorem freeStep_finish {c : Nat} {result : Except DiError Unit}
    (h : freeStep C resolves s (.finish c result) = some t) :
    ∃ (j run : Nat) (call : Call τ υ) (x : Option (CellId τ)) (e : RunEnd),
      (Action.finish c result : Action τ).ends = some (c, e) ∧ s.calls[c]? = some call ∧
        call.phase = .building j x run ∧ t = s.endRun C c call j x run e := by
  cases result with
  | ok u =>
    simp only [freeStep, step] at h
    split at h
    · rename_i call hc
      split at h
      · rename_i j x run hphase
        split at h
        · exact ⟨j, run, call, x, _, rfl, hc, hphase, (Option.some.inj h).symm⟩
        · cases h
      · cases h
    · cases h
  | error e =>
    simp only [freeStep] at h
    split at h
    · rename_i call hc
      split at h
      · rename_i j x run hphase
        split at h
        · exact ⟨j, run, call, x, _, rfl, hc, hphase, (Option.some.inj h).symm⟩
        · cases h
      · cases h
    · cases h

/-- **A run ends by the action that ends it, and by no other.** -/
theorem freeStep_ends {a : Action τ} (h : freeStep C resolves s a = some t) :
    (∃ (c j run : Nat) (call : Call τ υ) (x : Option (CellId τ)) (e : RunEnd),
      s.calls[c]? = some call ∧ call.phase = .building j x run ∧ s.ended a = some (run, e) ∧
        t = s.endRun C c call j x run e) ∨
    s.ended a = none ∧ KeepBuilding s t ∧ Move C resolves s t := by
  cases a with
  | call node scope =>
    have hmove : Move C resolves s t := step_move (a := .call node scope) h
    obtain rfl := Option.some.inj h
    exact .inr ⟨rfl, fun d j run called x hd _ => getElem?_concat_of_some hd, hmove⟩
  | nested p node =>
    have hmove : Move C resolves s t := step_move (a := .nested p node) h
    obtain ⟨parent, -, -, -, -, -, -, -, -, -, -, rfl⟩ := step_nested h
    exact .inr ⟨rfl, fun d j run called x hd _ => getElem?_concat_of_some hd, hmove⟩
  | poll c =>
    have hmove : Move C resolves s t := step_move (a := .poll c) h
    simp only [freeStep, step] at h
    split at h
    · rename_i call hc
      exact .inr ⟨rfl, pollCall_keeps hc h, hmove⟩
    · cases h
  | finish c result =>
    obtain ⟨j, run, call, x, e, hends, hc, hphase, ht⟩ := freeStep_finish h
    exact .inl ⟨c, j, run, call, x, e, hc, hphase, ended_of_building hends hc hphase, ht⟩
  | cancel c =>
    have hmove : Move C resolves s t := step_move (a := .cancel c) h
    simp only [freeStep, step] at h
    split at h
    · rename_i call hc
      split at h
      · split at h
        · rename_i j x run hphase
          obtain rfl := Option.some.inj h
          exact .inl ⟨c, j, run, call, x, _, hc, hphase, ended_of_building rfl hc hphase, rfl⟩
        · cases h
        · cases h
        · rename_i hbuilding _ _
          obtain rfl := Option.some.inj h
          have hphase : ∀ j x run, call.phase ≠ .building j x run :=
            fun j x run hp => hbuilding j x run hp
          exact .inr ⟨ended_of_not_building rfl hc hphase, .set hc hphase rfl, hmove⟩
      · cases h
    · cases h

omit [TypeName τ] in
/-- A call whose run ends is not building any more. -/
theorem endRun_not_keeps {c j run : Nat} {call : Call τ υ} {x : Option (CellId τ)} {e : RunEnd}
    (hc : s.calls[c]? = some call) (hphase : call.phase = .building j x run) :
    ¬ KeepBuilding s (s.endRun C c call j x run e) := by
  intro h
  have hkept := h c j run call x hc hphase
  rw [State.endRun, getElem?_set_of_some hc] at hkept
  have hstill : (e.call C call j run).phase = .building j x run := by
    rw [Option.some.inj hkept, hphase]
  cases e with
  | ok => exact next_not_building hstill
  | error e => cases hstill
  | dropped => cases hstill

/-- A step that ends no run may start one. -/
theorem KeepBuilding.runs (hkeep : KeepBuilding s t) (h : Move C resolves s t) :
    t.runs = s.runs ∨ ∃ c j call x, s.calls[c]? = some call ∧ Starts C s call j x ∧
      t = s.startRun c call j x := by
  cases h with
  | call node scope => exact .inl rfl
  | nested hp hphase he hf hr => exact .inl rfl
  | «local» hc h => exact .inl rfl
  | slotAdd hc hphase hs hn => exact .inl rfl
  | startRun hc h => exact .inr ⟨_, _, _, _, hc, h, rfl⟩
  | endRun hc hphase hidle herror => exact absurd hkeep (endRun_not_keeps hc hphase)

/-- A run that has ended well did so in the step, or had before. -/
theorem ok_run_of_freeStep {a : Action τ} {n : Nat} {run : FactoryRun τ}
    (h : freeStep C resolves s a = some t) (hn : t.runs[n]? = some run)
    (hok : run.outcome = .ok) :
    s.runs[n]? = some run ∨
    s.ended a = some (n, .ok) ∧ ∃ old, s.runs[n]? = some old ∧ run.ref = old.ref := by
  rcases freeStep_ends h with ⟨c, j, m, call, x, e, -, -, hended, rfl⟩ | ⟨-, hkeep, hmove⟩
  · rcases getElem?_modify_some hn with ⟨rfl, old, hold, rfl⟩ | ⟨-, hn⟩
    · cases e with
      | ok => exact .inr ⟨hended, old, hold, rfl⟩
      | error e => cases hok
      | dropped => cases hok
    · exact .inl hn
  · rcases hkeep.runs hmove with hruns | ⟨c, j, call, x, -, -, rfl⟩
    · exact .inl (hruns ▸ hn)
    · rcases getElem?_concat_some hn with hn | ⟨-, rfl⟩
      · exact .inl hn
      · cases hok

/-! ### What they leave -/

theorem Sound.free {a : Action τ} (hs : Sound C s) (h : freeStep C resolves s a = some t) :
    Sound C t ∧ Later s t := by
  rcases freeStep_ends h with ⟨c, j, run, call, x, e, hc, hphase, -, rfl⟩ | ⟨-, -, hmove⟩
  · exact ⟨hs.endRun hc hphase, hs.endRun_later hc hphase⟩
  · exact ⟨hs.move hmove, hs.later hmove⟩

theorem later_of_freeReach (hs : Sound C s) (h : Reach (freeStep C resolves) s t) : Later s t := by
  refine (h.invariant (P := fun u => Sound C u ∧ Later s u) ⟨hs, .of_eq rfl rfl rfl⟩ ?_).2
  intro u v a hkept _ hstep
  obtain ⟨hu, hlater⟩ := hkept
  exact ⟨(hu.free hstep).1, hlater.trans (hu.free hstep).2⟩

/-! ### What calls and runs keep -/

/-- A call of `s` later on. -/
structure Grown (call call' : Call τ υ) : Prop where
  same : SameCall call call'
  resolved : call.resolved <+: call'.resolved

omit [DecidableEq τ] [TypeName τ] in
theorem Grown.refl (call : Call τ υ) : Grown call call :=
  ⟨⟨rfl, rfl, rfl, rfl⟩, List.prefix_rfl⟩

omit [DecidableEq τ] [TypeName τ] in
theorem Grown.trans {call call' call'' : Call τ υ} (h : Grown call call')
    (g : Grown call' call'') : Grown call call'' where
  same := ⟨g.same.node.trans h.same.node, g.same.parent.trans h.same.parent,
    g.same.scope.trans h.same.scope, g.same.ancestors.trans h.same.ancestors⟩
  resolved := h.resolved.trans g.resolved

omit [DecidableEq τ] [TypeName τ] in
theorem grown_advance (call : Call τ υ) (j : Nat) (inst : Inst υ) :
    Grown call (C.advance call j inst) :=
  ⟨⟨rfl, rfl, rfl, rfl⟩, List.prefix_append _ _⟩

theorem Local.grown {call call' : Call τ υ} (h : Local C s call call') : Grown call call' := by
  cases h with
  | given h he => exact grown_advance call _ _
  | take h hx => exact grown_advance call _ _
  | _ => exact ⟨⟨rfl, rfl, rfl, rfl⟩, List.prefix_rfl⟩

omit [DecidableEq τ] [TypeName τ] in
theorem endRun_grown (call : Call τ υ) (j run : Nat) (e : RunEnd) :
    Grown call (e.call C call j run) := by
  cases e with
  | ok => exact grown_advance call j _
  | error e => exact ⟨⟨rfl, rfl, rfl, rfl⟩, List.prefix_rfl⟩
  | dropped => exact ⟨⟨rfl, rfl, rfl, rfl⟩, List.prefix_rfl⟩

omit [DecidableEq τ] [TypeName τ] in
theorem set_grown {c d : Nat} {call call' called : Call τ υ} (hc : s.calls[c]? = some call)
    (h : Grown call call') (hd : s.calls[d]? = some called) :
    ∃ called', (s.calls.set c call')[d]? = some called' ∧ Grown called called' := by
  by_cases hdc : d = c
  · subst hdc
    obtain rfl := Option.some.inj (hc.symm.trans hd)
    exact ⟨call', getElem?_set_of_some hc, h⟩
  · exact ⟨called, by rw [List.getElem?_set_ne (Ne.symm hdc), hd], .refl called⟩

/-- **A call stays the call it is**, and keeps what it has resolved. -/
theorem call_kept {a : Action τ} (h : freeStep C resolves s a = some t) {d : Nat}
    {called : Call τ υ} (hd : s.calls[d]? = some called) :
    ∃ called', t.calls[d]? = some called' ∧ Grown called called' := by
  rcases freeStep_ends h with ⟨c, j, run, call, x, e, hc, hphase, -, rfl⟩ | ⟨-, -, hmove⟩
  · exact set_grown hc (endRun_grown call j run e) hd
  · cases hmove with
    | call node scope => exact ⟨called, getElem?_concat_of_some hd, .refl called⟩
    | nested hp hphase he hf hr => exact ⟨called, getElem?_concat_of_some hd, .refl called⟩
    | «local» hc hlocal => exact set_grown hc hlocal.grown hd
    | slotAdd hc hphase hs hn => exact set_grown hc ⟨⟨rfl, rfl, rfl, rfl⟩, List.prefix_rfl⟩ hd
    | startRun hc h => exact set_grown hc ⟨⟨rfl, rfl, rfl, rfl⟩, List.prefix_rfl⟩ hd
    | endRun hc hphase hidle herror => exact set_grown hc (endRun_grown _ _ _ _) hd

/-- A run of `s` later on. -/
structure SameRun (run run' : FactoryRun τ) : Prop where
  call : run'.call = run.call
  ref : run'.ref = run.ref
  scope : run'.scope = run.scope
  cell : run'.cell = run.cell

/-- **A run stays the run it is.** -/
theorem run_kept {a : Action τ} (h : freeStep C resolves s a = some t) {n : Nat}
    {run : FactoryRun τ} (hn : s.runs[n]? = some run) :
    ∃ run', t.runs[n]? = some run' ∧ SameRun run run' := by
  rcases freeStep_ends h with ⟨c, j, m, call, x, e, -, -, -, rfl⟩ | ⟨-, hkeep, hmove⟩
  · by_cases hnm : m = n
    · subst hnm
      exact ⟨_, getElem?_modify_of_some hn, rfl, rfl, rfl, rfl⟩
    · exact ⟨run, (List.getElem?_modify_ne _ _ hnm).trans hn, rfl, rfl, rfl, rfl⟩
  · rcases hkeep.runs hmove with hruns | ⟨c, j, call, x, -, -, rfl⟩
    · exact ⟨run, hruns ▸ hn, rfl, rfl, rfl, rfl⟩
    · exact ⟨run, getElem?_concat_of_some hn, rfl, rfl, rfl, rfl⟩

/-- A run of `t` is one of `s`, or one that was started. -/
theorem run_past {a : Action τ} (h : freeStep C resolves s a = some t) {n : Nat}
    {run : FactoryRun τ} (hn : t.runs[n]? = some run) :
    (∃ old, s.runs[n]? = some old ∧ SameRun old run) ∨
    ∃ c j call x, s.calls[c]? = some call ∧ Starts C s call j x ∧ n = s.runs.length ∧
      run = ⟨c, call.ref j, call.scope, x, .running⟩ := by
  rcases freeStep_ends h with ⟨c, j, m, call, x, e, -, -, -, rfl⟩ | ⟨-, hkeep, hmove⟩
  · rcases getElem?_modify_some hn with ⟨rfl, old, hold, rfl⟩ | ⟨-, hn⟩
    · exact .inl ⟨old, hold, rfl, rfl, rfl, rfl⟩
    · exact .inl ⟨run, hn, rfl, rfl, rfl, rfl⟩
  · rcases hkeep.runs hmove with hruns | ⟨c, j, call, x, hc, hstarts, rfl⟩
    · exact .inl ⟨run, hruns ▸ hn, rfl, rfl, rfl, rfl⟩
    · rcases getElem?_concat_some hn with hn | ⟨rfl, rfl⟩
      · exact .inl ⟨run, hn, rfl, rfl, rfl, rfl⟩
      · exact .inr ⟨c, j, call, x, hc, hstarts, rfl, rfl⟩

/-! ### Results -/

/-- How the call comes to return `result` in the step. -/
inductive Returns (C : Container τ υ φ) (s : State τ υ) (a : Action τ) (call : Call τ υ) :
    Call τ υ → Except DiError (List (Inst υ)) → Prop
  | enter {result : Except DiError (List (Inst υ))} (h : call.phase = .entered)
      (he : C.enter call = .done result) :
      Returns C s a call { call with phase := C.enter call } result
  | last {j : Nat} {inst : Inst υ} {values : List (Inst υ)} (hlen : call.resolved.length = j)
      (hnone : C.entryAt call.node (j + 1) = none) :
      Returns C s a call (C.advance call j inst) (.ok values)
  | noScope {j : Nat} {f : φ} (hlen : call.resolved.length = j)
      (he : C.entryAt call.node j = some (.scoped f)) (hs : call.scope = none) :
      Returns C s a call { call with
        phase := .done (.error (.scopeNotActive (TypeName.typeName call.node.key.typeId))) }
        (.error (.scopeNotActive (TypeName.typeName call.node.key.typeId)))
  | failed {j run : Nat} {x : Option (CellId τ)} {e : DiError}
      (h : call.phase = .building j x run) (hended : s.ended a = some (run, .error e)) :
      Returns C s a call { call with phase := .done (.error e) } (.error e)

theorem returns_advance {a : Action τ} {call : Call τ υ} {j : Nat} {inst : Inst υ}
    {result : Except DiError (List (Inst υ))} (hlen : call.resolved.length = j)
    (h : (C.advance call j inst).phase = .done result) :
    Returns C s a call (C.advance call j inst) result := by
  cases result with
  | ok values => exact .last hlen (next_done h)
  | error e => exact absurd h next_ne_error

/-- **How a call comes to its result.** -/
theorem result_of_freeStep {a : Action τ} (hs : Sound C s) (h : freeStep C resolves s a = some t)
    {d : Nat} {called : Call τ υ} {result : Except DiError (List (Inst υ))}
    (hd : t.calls[d]? = some called) (hphase : called.phase = .done result) :
    s.calls[d]? = some called ∨
    ∃ old, s.calls[d]? = some old ∧ Returns C s a old called result := by
  rcases freeStep_ends h with ⟨c, j, m, call, x, e, hc, hbuild, hended, rfl⟩ | ⟨-, hkeep, hmove⟩
  · rcases getElem?_set_some hd with ⟨rfl, rfl⟩ | ⟨-, hd⟩
    · refine .inr ⟨call, hc, ?_⟩
      cases e with
      | ok => exact returns_advance (hs.building hc hbuild).1 hphase
      | error e =>
        cases hphase
        exact .failed hbuild hended
      | dropped => cases hphase
    · exact .inl hd
  · cases hmove with
    | call node scope =>
      rcases getElem?_concat_some hd with hd | ⟨-, rfl⟩
      · exact .inl hd
      · cases hphase
    | nested hp hphase' he hf hr =>
      rcases getElem?_concat_some hd with hd | ⟨-, rfl⟩
      · exact .inl hd
      · cases hphase
    | @«local» c call call' hc hlocal =>
      rcases getElem?_set_some hd with ⟨rfl, rfl⟩ | ⟨-, hd⟩
      · refine .inr ⟨call, hc, ?_⟩
        have hold := hs.phase d call hc
        unfold PhaseOk at hold
        cases hlocal with
        | enter hentered => exact .enter hentered hphase
        | given hentry he =>
          rw [hentry] at hold
          exact returns_advance hold.1 hphase
        | take hcell hx =>
          rw [hcell] at hold
          exact returns_advance hold.1 hphase
        | noScope hentry he hscope =>
          rw [hentry] at hold
          cases hphase
          exact .noScope hold.1 he hscope
        | _ => cases hphase
      · exact .inl hd
    | slotAdd hc hphase' hscope hn =>
      rcases getElem?_set_some hd with ⟨rfl, rfl⟩ | ⟨-, hd⟩
      · cases hphase
      · exact .inl hd
    | startRun hc hstarts =>
      rcases getElem?_set_some hd with ⟨rfl, rfl⟩ | ⟨-, hd⟩
      · cases hphase
      · exact .inl hd
    | endRun hc hbuild hidle herror => exact absurd hkeep (endRun_not_keeps hc hbuild)

end Kolas.Di

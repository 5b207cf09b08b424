import Kolas.Schedule.Overlap

/-!
# Joined tasks

`work` joins its tasks through `reap`, before each wake-up, and after the shutdown
signal through the loop over `join_next`.  `joinedBy` are the tasks that a run of
the loop hands to `handle_join`, in order.

* `Worker.started_perm`: the tasks started are the ones joined and the ones in
  flight, so none is joined twice and, once the loop has stopped, none is left out.
* `Worker.drains`: after the shutdown signal nothing is started, the loop and the
  tasks have a bounded number of steps left, and until it has stopped the loop has a
  step to take unless a task is still running.
-/

namespace Kolas.Schedule

open Kolas.Lib

variable {ζ φ : Type} {C : Croner ζ} {schedule : Schedule ζ φ}

namespace Worker

/-- The task that a step hands to `handle_join`. -/
def joinedAt (s : Worker) : WorkAction → List Task
  | .joinNext => (s.finished.head?.map Prod.fst).toList
  | _ => []

/-- The tasks that a run hands to `handle_join`. -/
def joinedBy (C : Croner ζ) (schedule : Schedule ζ φ) (s : Worker) : List WorkAction → List Task
  | [] => []
  | a :: acts => s.joinedAt a ++
      match step C schedule s a with
      | some t => joinedBy C schedule t acts
      | none => []

/-- **One step**: what was in flight and what is started is joined or in flight. -/
theorem step_accounts {s s' : Worker} {a : WorkAction} (hstep : step C schedule s a = some s') :
    ∃ new, s'.started = s.started ++ new ∧
      (s.inFlight ++ new).Perm (s.joinedAt a ++ s'.inFlight) := by
  -- a step that neither starts nor joins
  have hnothing : ∀ u : Worker, u.started = s.started → s.inFlight.Perm u.inFlight →
      ∃ new, u.started = s.started ++ new ∧ (s.inFlight ++ new).Perm ([] ++ u.inFlight) := by
    intro u hstarted hperm
    refine ⟨[], ?_, ?_⟩
    · rw [hstarted, List.append_nil]
    · rwa [List.append_nil, List.nil_append]
  rcases step_cases hstep with ⟨rfl, rfl⟩ | ⟨t, taskEnd, rest, rfl, hfin, -, rfl⟩ | ⟨rfl, rfl⟩ |
    ⟨tick, rfl, rfl⟩ | ⟨rfl, rfl⟩ | ⟨rfl, -, rfl⟩ | ⟨i, t, taskEnd, rfl, hi, rfl⟩
  · exact hnothing _ rfl (.refl _)
  · refine ⟨[], ?_, ?_⟩
    · simp [joinedNext]
    · rw [List.append_nil, joinedAt, hfin]
      exact inFlight_joinedNext hfin
  · exact hnothing _ rfl (.refl _)
  · exact ⟨(dispatchDue C schedule tick s.store).2, rfl, s.inFlight_dispatched tick⟩
  · exact hnothing _ rfl (.refl _)
  · exact hnothing _ rfl (.refl _)
  · exact hnothing _ rfl (inFlight_ended hi taskEnd)

theorem run_accounts {acts : List WorkAction} {s s' : Worker}
    (hrun : run (step C schedule) s acts = some s') :
    ∃ new, s'.started = s.started ++ new ∧
      (s.inFlight ++ new).Perm (joinedBy C schedule s acts ++ s'.inFlight) := by
  induction acts generalizing s with
  | nil =>
    obtain rfl : s = s' := Option.some.inj hrun
    exact ⟨[], by simp, by simp [joinedBy]⟩
  | cons a acts ih =>
    obtain ⟨u, hu, hrest⟩ := Option.bind_eq_some_iff.mp hrun
    obtain ⟨new, hstarted, hperm⟩ := step_accounts hu
    obtain ⟨later, hstarted', hperm'⟩ := ih hrest
    refine ⟨new ++ later, ?_, ?_⟩
    · rw [hstarted', hstarted, List.append_assoc]
    · simp only [joinedBy, hu]
      have hhere : (s.inFlight ++ (new ++ later)).Perm
          (s.joinedAt a ++ (u.inFlight ++ later)) := by
        rw [← List.append_assoc, ← List.append_assoc]
        exact hperm.append_right later
      rw [List.append_assoc]
      exact hhere.trans (hperm'.append_left (s.joinedAt a))

/-- The loop returns with an empty `JoinSet`. -/
theorem stopped_step {s s' : Worker} {a : WorkAction} (h : s.phase = .stopped → s.inFlight = [])
    (hstep : step C schedule s a = some s') : s'.phase = .stopped → s'.inFlight = [] := by
  rcases step_cases hstep with ⟨-, rfl⟩ | ⟨t, taskEnd, rest, -, hfin, -, rfl⟩ | ⟨-, rfl⟩ |
    ⟨tick, -, rfl⟩ | ⟨-, rfl⟩ | ⟨-, hnone, rfl⟩ | ⟨i, t, taskEnd, -, hi, rfl⟩
  · intro hphase
    cases hphase
  · intro hphase
    have hnone := (List.append_eq_nil_iff.mp (h hphase)).2
    rw [hfin] at hnone
    cases hnone
  · intro hphase
    cases hphase
  · intro hphase
    cases hphase
  · intro hphase
    cases hphase
  · exact fun _ => hnone
  · intro hphase
    have hnone := (List.append_eq_nil_iff.mp (h hphase)).1
    rw [hnone] at hi
    cases hi

/-! ### Shutdown -/

/-- The shutdown signal has been received; `work` has returned only with an empty
`JoinSet`. -/
def Closing (s : Worker) : Prop := s.phase = .draining ∨ s.phase = .stopped ∧ s.inFlight = []

/-- The steps still to come: each running task ends and is joined, each finished one
is joined, and the loop returns. -/
def remaining (s : Worker) : Nat :=
  2 * s.running.length + s.finished.length + if s.phase = .stopped then 0 else 1

theorem remaining_draining {s : Worker} (h : s.phase = .draining) :
    s.remaining = 2 * s.running.length + s.finished.length + 1 := by
  simp [remaining, h]

/-- **One step after the signal**: nothing is started, and one step less remains. -/
theorem closing_step {s s' : Worker} {a : WorkAction} (h : s.Closing)
    (hstep : step C schedule s a = some s') :
    s'.Closing ∧ s'.started = s.started ∧ s'.remaining + 1 = s.remaining := by
  cases a with
  | timer =>
    simp only [step, Option.ite_none_right_eq_some] at hstep
    rcases h with h | ⟨h, -⟩ <;> rw [h] at hstep <;> cases hstep.1
  | joinNext =>
    simp only [step] at hstep
    split at hstep
    · rename_i t taskEnd rest hfin
      simp only [Option.ite_none_right_eq_some, Option.some.injEq] at hstep
      obtain ⟨-, rfl⟩ := hstep
      rcases h with h | ⟨-, hnone⟩
      · refine ⟨Or.inl h, rfl, ?_⟩
        rw [remaining_draining h, remaining_draining (s := s.joinedNext t taskEnd rest) h, hfin]
        simp only [joinedNext, List.length_cons]
        omega
      · rw [inFlight, hfin, List.append_eq_nil_iff] at hnone
        cases hnone.2
    · cases hstep
  | reaped =>
    simp only [step, Option.ite_none_right_eq_some] at hstep
    rcases h with h | ⟨h, -⟩ <;> rw [h] at hstep <;> cases hstep.1.1
  | dispatch tick =>
    simp only [step, Option.ite_none_right_eq_some] at hstep
    rcases h with h | ⟨h, -⟩ <;> rw [h] at hstep <;> cases hstep.1
  | shutdown =>
    simp only [step, Option.ite_none_right_eq_some] at hstep
    rcases h with h | ⟨h, -⟩ <;> rw [h] at hstep <;> cases hstep.1
  | stop =>
    simp only [step, Option.ite_none_right_eq_some, Option.some.injEq, List.isEmpty_iff] at hstep
    obtain ⟨⟨hphase, hnone⟩, rfl⟩ := hstep
    refine ⟨Or.inr ⟨rfl, hnone⟩, rfl, ?_⟩
    simp [remaining, hphase]
  | finish i taskEnd =>
    simp only [step] at hstep
    split at hstep
    · rename_i t hi
      obtain rfl := Option.some.inj hstep
      rcases h with h | ⟨-, hnone⟩
      · obtain ⟨hlt, -⟩ := List.getElem?_eq_some_iff.mp hi
        refine ⟨Or.inl h, rfl, ?_⟩
        rw [remaining_draining h, remaining_draining (s := s.ended i t taskEnd) h]
        simp only [ended, List.length_append, List.length_singleton,
          List.length_eraseIdx_of_lt hlt]
        omega
      · rw [(List.append_eq_nil_iff.mp hnone).1] at hi
        cases hi
    · cases hstep

theorem closing_run {acts : List WorkAction} {s s' : Worker} (h : s.Closing)
    (hrun : run (step C schedule) s acts = some s') :
    s'.Closing ∧ s'.started = s.started ∧ acts.length + s'.remaining = s.remaining := by
  induction acts generalizing s with
  | nil =>
    obtain rfl : s = s' := Option.some.inj hrun
    exact ⟨h, rfl, by simp⟩
  | cons a acts ih =>
    obtain ⟨u, hu, hrest⟩ := Option.bind_eq_some_iff.mp hrun
    obtain ⟨hclosing, hstarted, hless⟩ := closing_step h hu
    obtain ⟨hclosing', hstarted', hless'⟩ := ih hclosing hrest
    refine ⟨hclosing', hstarted'.trans hstarted, ?_⟩
    rw [List.length_cons]
    omega

/-- While it drains, the loop waits for nothing but a running task. -/
theorem closing_progress (C : Croner ζ) (schedule : Schedule ζ φ) {s : Worker} (h : s.Closing)
    (hrunning : s.running = []) :
    s.phase = .stopped ∨ ∃ a s', (a = .joinNext ∨ a = .stop) ∧ step C schedule s a = some s' := by
  rcases h with h | ⟨h, -⟩
  · cases hfin : s.finished with
    | nil =>
      have hnone : s.inFlight = [] := by simp [inFlight, hrunning, hfin]
      exact Or.inr ⟨.stop, _, Or.inr rfl, if_pos ⟨h, by rw [hnone]; rfl⟩⟩
    | cons entry rest =>
      obtain ⟨t, taskEnd⟩ := entry
      refine Or.inr ⟨.joinNext, s.joinedNext t taskEnd rest, Or.inl rfl, ?_⟩
      simp only [step, hfin]
      exact if_pos (Or.inr h)
  · exact Or.inl h

/-- **Every task is joined once.**  Along a run of the loop, the tasks started are the
ones joined and the ones in flight; when it has returned, they are the ones joined. -/
theorem started_perm {before : InMemoryLockStore} {now : Int} {acts : List WorkAction} {s : Worker}
    (hrun : run (step C schedule) (start C schedule before now) acts = some s) :
    s.started.Perm (joinedBy C schedule (start C schedule before now) acts ++ s.inFlight) ∧
      (s.phase = .stopped →
        s.started.Perm (joinedBy C schedule (start C schedule before now) acts)) := by
  obtain ⟨new, hstarted, hperm⟩ := run_accounts hrun
  have hall : s.started.Perm
      (joinedBy C schedule (start C schedule before now) acts ++ s.inFlight) := by
    rw [hstarted]
    exact hperm
  refine ⟨hall, ?_⟩
  intro hphase
  have hempty : s.phase = .stopped → s.inFlight = [] := by
    refine (reach_of_run hrun).invariant (P := fun s => s.phase = .stopped → s.inFlight = []) ?_ ?_
    · intro h
      cases h
    · exact fun _ _ _ hu _ hstep => stopped_step hu hstep
  rwa [hempty hphase, List.append_nil] at hall

theorem started_perm_oneReport : ∃ s,
    run (step periodic lockedReport) (start periodic lockedReport .new 0)
        (oneReport .panicked) = some s ∧
      s.started.map Task.id = ["report"] ∧
      (s.started.Perm (joinedBy periodic lockedReport (start periodic lockedReport .new 0)
          (oneReport .panicked) ++ s.inFlight) ∧
        (s.phase = .stopped → s.started.Perm (joinedBy periodic lockedReport
          (start periodic lockedReport .new 0) (oneReport .panicked)))) := by
  obtain ⟨s, hs, hstarted⟩ : ∃ s,
      run (step periodic lockedReport) (start periodic lockedReport .new 0)
        (oneReport .panicked) = some s ∧ s.started.map Task.id = ["report"] :=
    ⟨_, rfl, by decide⟩
  exact ⟨s, hs, hstarted, started_perm hs⟩

/-- **Shutdown.**  From the moment the signal has been received, whatever the tasks do:
nothing is started, at most `2 * running + finished + 1` steps are left, the loop has
a step to take unless it has returned or a task is running, and when it returns
it has joined each task that was in flight, once. -/
theorem drains {s s' : Worker} (hdraining : s.phase = .draining) {acts : List WorkAction}
    (hrun : run (step C schedule) s acts = some s') :
    s'.started = s.started ∧
      acts.length ≤ 2 * s.running.length + s.finished.length + 1 ∧
      (s'.running = [] → s'.phase = .stopped ∨
        ∃ a t, (a = .joinNext ∨ a = .stop) ∧ step C schedule s' a = some t) ∧
      (s'.phase = .stopped → s.inFlight.Perm (joinedBy C schedule s acts)) := by
  obtain ⟨hclosing, hstarted, hless⟩ := closing_run (Or.inl hdraining) hrun
  rw [remaining_draining hdraining] at hless
  refine ⟨hstarted, by omega, closing_progress C schedule hclosing, ?_⟩
  intro hphase
  obtain ⟨new, hnew, hperm⟩ := run_accounts hrun
  have hnone : new = [] := by
    rw [hstarted] at hnew
    exact List.self_eq_append_right.mp hnew
  have hempty : s'.inFlight = [] := by
    rcases hclosing with h | ⟨-, h⟩
    · rw [h] at hphase
      cases hphase
    · exact h
  rwa [hnone, hempty, List.append_nil, List.append_nil] at hperm

/-- The loop after the shutdown signal, one report running. -/
def drainingReport : Worker where
  store := InMemoryLockStore.new.insert "report" 0
  running := [⟨0, "report", true, 0, 60⟩]
  finished := []
  phase := .draining
  sleepFrom := 60
  sleep := 60000
  startedAt := 0
  lastWake := 60
  started := [⟨0, "report", true, 0, 60⟩]

theorem drains_report : ∃ s,
    run (step periodic lockedReport) drainingReport [.finish 0 .panicked, .joinNext, .stop] = some s ∧
      s.phase = .stopped ∧ s.started = drainingReport.started ∧
      drainingReport.inFlight.Perm
        (joinedBy periodic lockedReport drainingReport [.finish 0 .panicked, .joinNext, .stop]) := by
  obtain ⟨s, hs, hphase⟩ : ∃ s, run (step periodic lockedReport) drainingReport
      [.finish 0 .panicked, .joinNext, .stop] = some s ∧ s.phase = .stopped := ⟨_, rfl, rfl⟩
  obtain ⟨hstarted, -, -, hjoined⟩ := drains rfl hs
  exact ⟨s, hs, hphase, hstarted, hjoined hphase⟩

end Worker

end Kolas.Schedule

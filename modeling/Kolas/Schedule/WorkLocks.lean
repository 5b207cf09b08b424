import Kolas.Schedule.Scheduler

/-!
# Overlap locks of the work loop

`dispatch_due` takes the lock of a `without_overlapping` event when it spawns the
event's task, and `handle_join` releases it when the task has been joined.  The
task carries its id to the join in its outcome, so a task that panics, whose
outcome is a `JoinError`, leaves its lock behind.

* `GivenBack`: a joined task's lock is free, an event is only skipped on account
  of a run that has not ended, and a stopped loop holds no lock.
* `givenBack_of_unpanicked`: it holds in every state of every run in which no
  task of a `without_overlapping` event panics.
* `locked_of_panicked`: a panic of such a task leaves the lock in the store.
-/

namespace Kolas.Schedule

open Kolas.Lib

variable {ζ φ : Type} {C : Croner ζ} {schedule : Schedule ζ φ} {before : InMemoryLockStore}

/-- `t` is the run that took the lock `id` at the instant `a`. -/
def Task.Owns (t : Task) (id : EventId) (a : Nat) : Prop :=
  t.withoutOverlapping = true ∧ t.id = id ∧ t.lockedAt = a

/-- Every lock was in the store `before`, or is one of the tasks'. -/
def LocksLive (before store : InMemoryLockStore) (tasks : List Task) : Prop :=
  ∀ id a, store.locks id = some a → before.locks id = some a ∨ ∃ t ∈ tasks, t.Owns id a

namespace LocksLive

variable {store : InMemoryLockStore} {tasks tasks' : List Task}

theorem mono (h : LocksLive before store tasks) (hsub : ∀ t ∈ tasks, t ∈ tasks') :
    LocksLive before store tasks' := by
  intro id a hid
  rcases h id a hid with hb | ⟨t, ht, ho⟩
  · exact Or.inl hb
  · exact Or.inr ⟨t, hsub t ht, ho⟩

theorem insert (h : LocksLive before store tasks) {t : Task} {id : EventId} {now : Nat}
    (ht : t.Owns id now) : LocksLive before (store.insert id now) (tasks ++ [t]) := by
  intro id' a ha
  by_cases hid : id' = id
  · subst hid
    rw [InMemoryLockStore.locks_insert_self] at ha
    cases ha
    exact Or.inr ⟨t, by simp, ht⟩
  · rw [InMemoryLockStore.locks_insert_of_ne _ hid] at ha
    exact h.mono (fun u hu => List.mem_append_left _ hu) id' a ha

/-- Joining a task that did not panic with a lock takes it out of the tasks. -/
theorem handleJoin {t : Task} {taskEnd : TaskEnd} (h : LocksLive before store tasks)
    (hsub : ∀ u ∈ tasks, u = t ∨ u ∈ tasks')
    (hquiet : taskEnd = .panicked → t.withoutOverlapping = false) :
    LocksLive before (handleJoin store (t.joined taskEnd)) tasks' := by
  -- a lock that is still there is not one of `t`'s
  have hkeep : ∀ id a, store.locks id = some a → ¬ t.Owns id a →
      before.locks id = some a ∨ ∃ u ∈ tasks', u.Owns id a := by
    intro id a hid hnot
    rcases h id a hid with hb | ⟨u, hu, ho⟩
    · exact Or.inl hb
    · rcases hsub u hu with rfl | hu'
      · exact absurd ho hnot
      · exact Or.inr ⟨u, hu', ho⟩
  intro id a ha
  cases hwo : t.withoutOverlapping with
  | false =>
    have hnot : ¬ t.Owns id a := by
      intro g
      obtain ⟨hw, -⟩ := g
      rw [hwo] at hw
      cases hw
    refine hkeep id a ?_ hnot
    cases taskEnd <;> simpa [Schedule.handleJoin, Task.joined, hwo] using ha
  | true =>
    cases taskEnd with
    | panicked => exact absurd (hquiet rfl) (by simp [hwo])
    | returned result =>
      simp only [Schedule.handleJoin, Task.joined, hwo, if_true] at ha
      by_cases hid : id = t.id
      · rw [hid, InMemoryLockStore.locks_release_self] at ha
        cases ha
      · rw [InMemoryLockStore.locks_release_of_ne _ hid] at ha
        exact hkeep id a ha fun ho => hid ho.2.1.symm

/-! ### Dispatch -/

theorem dispatchEvent {tz : ζ} {tick : Tick} {acc : InMemoryLockStore × List Task}
    (h : LocksLive before acc.1 (tasks ++ acc.2)) (entry : Event ζ φ × Nat) :
    LocksLive before (dispatchEvent C tz tick acc entry).1
      (tasks ++ (dispatchEvent C tz tick acc entry).2) := by
  obtain ⟨e, i⟩ := entry
  rcases dispatchEvent_cases C tz tick acc e i with ⟨-, he⟩ | ⟨-, -, -, he⟩ | ⟨-, hwo, -, he⟩ |
    ⟨-, -, he⟩
  · rw [he]
    exact h
  · rw [he]
    exact h
  · rw [he, ← List.append_assoc]
    exact h.insert ⟨hwo, rfl, rfl⟩
  · rw [he, ← List.append_assoc]
    exact h.mono fun t ht => List.mem_append_left _ ht

end LocksLive

theorem dispatchEvent_spawned {tz : ζ} {tick : Tick} {acc : InMemoryLockStore × List Task}
    (entry : Event ζ φ × Nat) {t : Task} (ht : t ∈ acc.2) :
    t ∈ (dispatchEvent C tz tick acc entry).2 := by
  obtain ⟨e, i⟩ := entry
  rcases dispatchEvent_cases C tz tick acc e i with ⟨-, he⟩ | ⟨-, -, -, he⟩ | ⟨-, -, -, he⟩ |
    ⟨-, -, he⟩
  · rwa [he]
  · rwa [he]
  · rw [he]
    exact List.mem_append_left _ ht
  · rw [he]
    exact List.mem_append_left _ ht

/-- An event that is due and is not spawned has its lock taken: it was in the
store `before`, or a task holds it. -/
def SkipsHeld (C : Croner ζ) (tz : ζ) (tick : Tick) (before : InMemoryLockStore)
    (tasks spawned : List Task) (entry : Event ζ φ × Nat) : Prop :=
  entry.1.Chosen C tz tick entry.2 → (∀ t ∈ spawned, t.event ≠ entry.2) →
    ∃ a, before.locks entry.1.id = some a ∨ ∃ t ∈ tasks ++ spawned, t.Owns entry.1.id a

theorem dispatch_entries (tz : ζ) (tick : Tick) {tasks : List Task}
    (entries : List (Event ζ φ × Nat)) (acc : InMemoryLockStore × List Task)
    (h : LocksLive before acc.1 (tasks ++ acc.2)) :
    let after := entries.foldl (dispatchEvent C tz tick) acc
    LocksLive before after.1 (tasks ++ after.2) ∧ (∀ t ∈ acc.2, t ∈ after.2) ∧
      ∀ entry ∈ entries, SkipsHeld C tz tick before tasks after.2 entry := by
  induction entries generalizing acc with
  | nil => exact ⟨h, fun t ht => ht, by simp⟩
  | cons entry entries ih =>
    obtain ⟨hlive, hsub, hskip⟩ := ih (dispatchEvent C tz tick acc entry) (h.dispatchEvent entry)
    refine ⟨hlive, fun t ht => hsub t (dispatchEvent_spawned entry ht), ?_⟩
    intro entry' hmem
    rcases List.mem_cons.mp hmem with rfl | hmem'
    · obtain ⟨e, i⟩ := entry'
      intro hchosen hnone
      rcases dispatchEvent_cases C tz tick acc e i with ⟨hnot, -⟩ | ⟨-, -, hheld, he⟩ |
        ⟨-, -, -, he⟩ | ⟨-, -, he⟩
      · exact absurd hchosen hnot
      · obtain ⟨a, ha, -⟩ := hheld
        refine ⟨a, ?_⟩
        rcases h e.id a ha with hb | ⟨t, ht, ho⟩
        · exact Or.inl hb
        · rcases List.mem_append.mp ht with ht' | ht'
          · exact Or.inr ⟨t, List.mem_append_left _ ht', ho⟩
          · exact Or.inr ⟨t, List.mem_append_right _ (hsub t (by rwa [he])), ho⟩
      · exact absurd rfl (hnone (e.spawn tick i) (hsub _ (by simp [he])))
      · exact absurd rfl (hnone (e.spawn tick i) (hsub _ (by simp [he])))
    · exact hskip entry' hmem'

/-! ### Runs -/

namespace Worker

/-- No task of a `without_overlapping` event panics. -/
def Unpanicked (s : Worker) : WorkAction → Prop
  | .finish i .panicked => ∀ t, s.running[i]? = some t → t.withoutOverlapping = false
  | _ => True

/-- The invariant of unpanicked runs. -/
structure Locks (before : InMemoryLockStore) (s : Worker) : Prop where
  live : LocksLive before s.store s.inFlight
  quiet : ∀ t, (t, TaskEnd.panicked) ∈ s.finished → t.withoutOverlapping = false
  stopped : s.phase = .stopped → s.inFlight = []

/-- What the loop owes to the lock store: a joined task's lock is free, an event
is only skipped on account of a run that has not been joined, and a stopped loop
has left nothing behind. -/
structure GivenBack (C : Croner ζ) (schedule : Schedule ζ φ) (before : InMemoryLockStore)
    (s : Worker) : Prop where
  joined : ∀ s' t taskEnd, step C schedule s .joinNext = some s' →
    s.finished.head? = some (t, taskEnd) → t.withoutOverlapping = true →
      s'.store.locks t.id = none
  live : LocksLive before s.store s.inFlight
  skipped : ∀ tick s', step C schedule s (.dispatch tick) = some s' →
    ∀ entry ∈ schedule.events.zipIdx, SkipsHeld C schedule.defaultTimezone tick before s.inFlight
      (dispatchDue C schedule tick s.store).2 entry
  stopped : s.phase = .stopped → ∀ id a, s.store.locks id = some a → before.locks id = some a

theorem locks_start (now : Int) : (start C schedule before now).Locks before where
  live := fun id a ha => Or.inl ha
  quiet := by simp [start]
  stopped := by simp [start]

theorem dispatchDue_spec (schedule : Schedule ζ φ) (tick : Tick) {store : InMemoryLockStore} {tasks : List Task}
    (h : LocksLive before store tasks) :
    LocksLive before (dispatchDue C schedule tick store).1
        (tasks ++ (dispatchDue C schedule tick store).2) ∧
      ∀ entry ∈ schedule.events.zipIdx, SkipsHeld C schedule.defaultTimezone tick before tasks
        (dispatchDue C schedule tick store).2 entry := by
  obtain ⟨hlive, -, hskip⟩ :=
    dispatch_entries (C := C) schedule.defaultTimezone tick schedule.events.zipIdx (store, [])
      (by simpa using h)
  exact ⟨hlive, hskip⟩

theorem Locks.step {s s' : Worker} {a : WorkAction} (h : s.Locks before) (ha : s.Unpanicked a)
    (hstep : step C schedule s a = some s') : s'.Locks before := by
  rcases step_cases hstep with ⟨rfl, rfl⟩ | ⟨t, taskEnd, rest, rfl, hfin, hphase, rfl⟩ | ⟨rfl, rfl⟩ |
    ⟨tick, rfl, rfl⟩ | ⟨rfl, rfl⟩ | ⟨rfl, hnone, rfl⟩ | ⟨i, t, taskEnd, rfl, hi, rfl⟩
  · exact ⟨h.live, h.quiet, by simp⟩
  · have hquiet : taskEnd = .panicked → t.withoutOverlapping = false := by
      rintro rfl
      exact h.quiet t (by simp [hfin])
    refine ⟨h.live.handleJoin ?_ hquiet, ?_, ?_⟩
    · intro u hu
      simp only [inFlight, joinedNext, hfin, List.map_cons, List.mem_append, List.mem_cons] at hu ⊢
      tauto
    · intro u hu
      exact h.quiet u (by rw [hfin]; exact List.mem_cons_of_mem _ hu)
    · intro hs
      rw [show s.phase = .stopped from hs] at hphase
      rcases hphase with hp | hp <;> cases hp
  · exact ⟨h.live, h.quiet, by simp⟩
  · obtain ⟨hlive, -⟩ := dispatchDue_spec (C := C) schedule tick h.live
    refine ⟨hlive.mono ?_, h.quiet, by simp [dispatched]⟩
    intro u hu
    simp only [inFlight, dispatched, List.mem_append] at hu ⊢
    tauto
  · exact ⟨h.live, h.quiet, by simp⟩
  · exact ⟨h.live, h.quiet, fun _ => hnone⟩
  · have hmem : t ∈ s.running := List.mem_of_getElem? hi
    refine ⟨h.live.mono ?_, ?_, ?_⟩
    · intro u hu
      have hsplit : u ∈ s.running → u = t ∨ u ∈ s.running.eraseIdx i := by
        intro hu'
        obtain ⟨j, hj⟩ := List.mem_iff_getElem?.mp hu'
        by_cases hji : j = i
        · rw [hji, hi] at hj
          exact Or.inl (Option.some.inj hj).symm
        · exact Or.inr (List.mem_eraseIdx_iff_getElem?.mpr ⟨j, hji, hj⟩)
      simp only [inFlight, ended, List.map_append, List.map_cons, List.map_nil, List.mem_append,
        List.mem_singleton] at hu ⊢
      tauto
    · intro u hu
      rcases List.mem_append.mp hu with hu | hu
      · exact h.quiet u hu
      · simp only [List.mem_singleton, Prod.mk.injEq] at hu
        obtain ⟨rfl, rfl⟩ := hu
        exact ha u hi
    · intro hs
      have hnone : s.running = [] := (List.append_eq_nil_iff.mp (h.stopped hs)).1
      simp [hnone] at hmem

/-- **Locks are given back.**  In every run in which no task of a
`without_overlapping` event panics, the loop gives back every lock it takes. -/
theorem givenBack_of_unpanicked {now : Int} {s : Worker}
    (hrun : Reaches (step C schedule) Unpanicked (start C schedule before now) s) :
    s.GivenBack C schedule before := by
  have h : s.Locks before := hrun.invariant (locks_start now) fun _ _ _ hu ha hstep =>
    hu.step ha hstep
  refine ⟨?_, h.live, ?_, ?_⟩
  · intro s' t taskEnd hstep hhead hwo
    rcases step_cases hstep with ⟨hc, -⟩ | ⟨u, uEnd, rest, -, hfin, -, rfl⟩ | ⟨hc, -⟩ | ⟨_, hc, -⟩ |
      ⟨hc, -⟩ | ⟨hc, -⟩ | ⟨_, _, _, hc, -⟩
    · cases hc
    · rw [hfin, List.head?_cons, Option.some.injEq, Prod.mk.injEq] at hhead
      obtain ⟨rfl, rfl⟩ := hhead
      cases uEnd with
      | panicked => exact absurd (h.quiet u (by simp [hfin])) (by simp [hwo])
      | returned result => simp [joinedNext, handleJoin, Task.joined, hwo]
    all_goals cases hc
  · intro tick s' _
    exact (dispatchDue_spec schedule tick h.live).2
  · intro hs id a ha
    rcases h.live id a ha with hb | ⟨t, ht, -⟩
    · exact hb
    · rw [h.stopped hs] at ht
      cases ht

/-- **A panic keeps the lock.**  Joining a panicked task leaves the store as it is. -/
theorem locked_of_panicked {s s' : Worker} {t : Task} {rest : List (Task × TaskEnd)}
    (hfin : s.finished = (t, .panicked) :: rest) (hstep : step C schedule s .joinNext = some s') :
    s'.store = s.store := by
  rcases step_cases hstep with ⟨hc, -⟩ | ⟨u, uEnd, rest', -, hfin', -, rfl⟩ | ⟨hc, -⟩ | ⟨_, hc, -⟩ |
    ⟨hc, -⟩ | ⟨hc, -⟩ | ⟨_, _, _, hc, -⟩
  · cases hc
  · rw [hfin', List.cons.injEq, Prod.mk.injEq] at hfin
    obtain ⟨⟨rfl, rfl⟩, -⟩ := hfin
    rfl
  all_goals cases hc

/-- A command every minute, without overlapping. -/
def lockedReport : Schedule Unit Unit where
  events := [{ Event.new (.command "report" []) with withoutOverlapping := true }]
  defaultTimezone := ()

/-- The report is spawned and ends, and the loop is shut down and joins it. -/
def oneReport (taskEnd : TaskEnd) : List WorkAction :=
  [.timer, .reaped, .dispatch (tickAt 60), .finish 0 taskEnd, .shutdown, .joinNext, .stop]

theorem not_givenBack : ¬ ∀ s, Reach (step periodic lockedReport) (start periodic lockedReport .new 0) s →
    s.GivenBack periodic lockedReport .new := by
  intro hall
  obtain ⟨s, hs, hphase, hlock⟩ : ∃ s,
      run (step periodic lockedReport) (start periodic lockedReport .new 0) (oneReport .panicked) = some s ∧
        s.phase = .stopped ∧ s.store.locks "report" = some 0 := by
    refine ⟨_, rfl, rfl, rfl⟩
  have hb := (hall s (reach_of_run hs)).stopped hphase "report" 0 hlock
  rw [InMemoryLockStore.locks_new] at hb
  cases hb

theorem givenBack_oneReport : ∃ s,
    run (step periodic lockedReport) (start periodic lockedReport .new 0)
        (oneReport (.returned (.ok ()))) = some s ∧ s.GivenBack periodic lockedReport .new := by
  have hok : ∀ a ∈ oneReport (.returned (.ok ())), ∀ s, Unpanicked s a := by
    simp [oneReport, Unpanicked]
  obtain ⟨s, hs⟩ : ∃ s, run (step periodic lockedReport) (start periodic lockedReport .new 0)
      (oneReport (.returned (.ok ()))) = some s := ⟨_, rfl⟩
  exact ⟨s, hs, givenBack_of_unpanicked (reaches_of_run hs (runOk_of_forall hok _))⟩

end Worker

end Kolas.Schedule

import Kolas.Lib.Run
import Kolas.Schedule.Event
import Mathlib

/-!
# The work loop

`Scheduler::work` of `schedule/scheduler.rs` as a machine.  The loop sleeps until
the next occurrence of any event (`millisUntilNext`), reaps the tasks that have
finished, one `try_join_next` at a time, and spawns the events that are due
(`dispatchDue`); the shutdown signal ends it, after which it joins what is still
in flight.  A task may finish between any two of these steps, with a result or by
panicking.

The readings of the clocks and the answers of `is_leader` are part of the
`dispatch` action (`Tick`), so that a run fixes them and nothing else does.
`startedAt`, `lastWake` and `started` only record the run.
-/

set_option linter.dupNamespace false

namespace Kolas.Schedule

open Kolas.Lib

variable {ζ φ : Type}

/-- `Schedule` of `registry.rs`. -/
structure Schedule (ζ φ : Type) where
  events : List (Event ζ φ)
  defaultTimezone : ζ

/-- A spawned task: its event's place in the schedule, what it carries out, and
the readings at which it was spawned and at which its lock was taken. -/
structure Task where
  event : Nat
  id : EventId
  withoutOverlapping : Bool
  lockedAt : Nat
  spawnedAt : Int
  deriving DecidableEq, Repr

/-- How a spawned task ends. -/
inductive TaskEnd
  | returned (result : Except TaskError Unit)
  | panicked

inductive JoinError
  | panic

/-- `TaskOutcome`, less the handle on the store. -/
structure TaskOutcome where
  id : EventId
  result : Except TaskError Unit
  withoutOverlapping : Bool

/-- What joining the task gives. -/
def Task.joined (t : Task) : TaskEnd → Except JoinError TaskOutcome
  | .returned result => .ok ⟨t.id, result, t.withoutOverlapping⟩
  | .panicked => .error .panic

/-- `handle_join`, which otherwise only logs. -/
def handleJoin (store : InMemoryLockStore) : Except JoinError TaskOutcome → InMemoryLockStore
  | .ok outcome =>
    if outcome.withoutOverlapping then store.release outcome.id else store
  | .error _ => store

section Sleep

variable (C : Croner ζ)

/-- The occurrence `millis_until_next` finds for one event: none when it does not
compile or has no more. -/
def Event.nextOccurrence (e : Event ζ φ) (now : Int) (defaultTz : ζ) : Option Int :=
  match e.buildCron C with
  | .error _ => none
  | .ok cron =>
    match C.findNextOccurrence cron (e.timezone.getD defaultTz) now with
    | .ok next => some next
    | .error _ => none

/-- `(next - now).num_milliseconds().max(0)`, for instants in nanoseconds. -/
def millisFrom (now next : Int) : Nat := ((next - now).tdiv 1000000).toNat

/-- `earliest.map_or(x, |e| e.min(x))`. -/
def earliest {α : Type} [Min α] (best : Option α) (x : α) : α :=
  match best with
  | some e => min e x
  | none => x

def Schedule.millisUntilNext (schedule : Schedule ζ φ) (now : Int) : Nat :=
  (schedule.events.foldl (fun best e =>
    match e.nextOccurrence C now schedule.defaultTimezone with
    | some next => some (earliest best (millisFrom now next))
    | none => best) none).getD 60000

/-- The next occurrences of the events that have one. -/
def Schedule.nextOccurrences (schedule : Schedule ζ φ) (now : Int) : List Int :=
  schedule.events.filterMap fun e => e.nextOccurrence C now schedule.defaultTimezone

/-- The occurrence the loop waits for when it goes to sleep at `now`. -/
def Schedule.waitsFor (schedule : Schedule ζ φ) (now : Int) : Option Int :=
  (schedule.nextOccurrences C now).min?

end Sleep

/-! ### The sleep -/

section

variable {C : Croner ζ} {fires : C.Cron → ζ → Int → Prop}

theorem Event.nextOccurrence_isLeast (hC : C.Lawful fires) {e : Event ζ φ} {now next : Int}
    {tz : ζ} (h : e.nextOccurrence C now tz = some next) :
    IsLeast {o | now < o ∧ e.Occurs C fires tz o} next := by
  unfold nextOccurrence at h
  cases hb : e.buildCron C with
  | error err => simp [hb] at h
  | ok cron =>
    cases hn : C.findNextOccurrence cron (e.timezone.getD tz) now with
    | error message => simp [hb, hn] at h
    | ok m =>
      simp only [hb, hn, Option.some.injEq] at h
      subst h
      simpa [Occurs, hb] using hC.isLeast hn

theorem Event.nextOccurrence_none (hC : C.Lawful fires) {e : Event ζ φ} {now : Int} {tz : ζ}
    (h : e.nextOccurrence C now tz = none) {o : Int} (ho : now < o) :
    ¬ e.Occurs C fires tz o := by
  intro g
  obtain ⟨cron, hb, hf⟩ := g
  unfold nextOccurrence at h
  cases hn : C.findNextOccurrence cron (e.timezone.getD tz) now with
  | error message => exact hC.none hn o ho hf
  | ok m => simp [hb, hn] at h

theorem millisFrom_mono (now : Int) : Monotone (millisFrom now) := by
  intro o o' h
  unfold millisFrom
  exact Int.toNat_le_toNat (Int.tdiv_le_tdiv (by decide) (show o - now ≤ o' - now by omega))

theorem foldl_earliest {α : Type} [Min α] (xs : List α) (best : Option α) :
    xs.foldl (fun best x => some (earliest best x)) best = (best.toList ++ xs).min? := by
  induction xs generalizing best with
  | nil => cases best <;> rfl
  | cons x xs ih =>
    rw [List.foldl_cons, ih]
    cases best <;> rfl

theorem min?_map_of_monotone {f : Int → Nat} (hf : Monotone f) (xs : List Int) :
    (xs.map f).min? = xs.min?.map f := by
  induction xs with
  | nil => rfl
  | cons x xs ih =>
    rw [List.map_cons, List.min?_cons, List.min?_cons, ih]
    cases xs.min? with
    | none => rfl
    | some y => exact congrArg some hf.map_min.symm

/-- **The loop sleeps until the occurrence it waits for**, in whole milliseconds. -/
theorem Schedule.millisUntilNext_eq (schedule : Schedule ζ φ) (now : Int) :
    schedule.millisUntilNext C now =
      ((schedule.waitsFor C now).map (millisFrom now)).getD 60000 := by
  have hfold : schedule.millisUntilNext C now =
      ((((schedule.nextOccurrences C now).map (millisFrom now)).foldl
        (fun best x => some (earliest best x)) none).getD 60000) := by
    rw [List.foldl_map, Schedule.nextOccurrences, List.foldl_filterMap, millisUntilNext]
    congr 2
    funext best e
    cases e.nextOccurrence C now schedule.defaultTimezone <;> rfl
  rw [hfold, foldl_earliest]
  exact congrArg (·.getD 60000) (min?_map_of_monotone (millisFrom_mono now) _)

/-- The loop waits for the first occurrence of any event. -/
theorem Schedule.waitsFor_isLeast (hC : C.Lawful fires) (schedule : Schedule ζ φ) {now next : Int}
    (h : schedule.waitsFor C now = some next) :
    IsLeast {o | now < o ∧ ∃ e ∈ schedule.events, e.Occurs C fires schedule.defaultTimezone o}
      next := by
  obtain ⟨hmem, hle⟩ := List.min?_eq_some_iff.mp h
  obtain ⟨e, he, hnext⟩ := List.mem_filterMap.mp hmem
  obtain ⟨⟨hlt, hocc⟩, -⟩ := Event.nextOccurrence_isLeast hC hnext
  refine ⟨⟨hlt, e, he, hocc⟩, ?_⟩
  intro o g
  obtain ⟨ho, e', he', hocc'⟩ := g
  cases hn : e'.nextOccurrence C now schedule.defaultTimezone with
  | none => exact absurd hocc' (Event.nextOccurrence_none hC hn ho)
  | some m =>
    have hm : m ∈ schedule.nextOccurrences C now := List.mem_filterMap.mpr ⟨e', he', hn⟩
    exact le_trans (hle m hm) ((Event.nextOccurrence_isLeast hC hn).2 ⟨ho, hocc'⟩)

/-- When there is nothing to wait for, no event has an occurrence to come. -/
theorem Schedule.waitsFor_none (hC : C.Lawful fires) (schedule : Schedule ζ φ) {now : Int}
    (h : schedule.waitsFor C now = none) {e : Event ζ φ} (he : e ∈ schedule.events) {o : Int}
    (ho : now < o) : ¬ e.Occurs C fires schedule.defaultTimezone o := by
  have hnil : schedule.nextOccurrences C now = [] := List.min?_eq_none_iff.mp h
  exact Event.nextOccurrence_none hC (List.filterMap_eq_nil_iff.mp hnil e he) ho

end

/-- What one round reads: the clock on waking, the lock store's clock and the
selector's answer at each event's turn, and the clock before sleeping again. -/
structure Tick where
  now : Int
  instant : Nat → Nat
  leader : Nat → Bool
  next : Int

/-- All clocks at the second `t`, and every event led. -/
def tickAt (t : Int) : Tick := ⟨t * 1000000000, fun _ => 0, fun _ => true, t * 1000000000⟩

section Dispatch

variable (C : Croner ζ)

/-- The task spawned for an event. -/
def Event.spawn (e : Event ζ φ) (tick : Tick) (i : Nat) : Task :=
  ⟨i, e.id, e.withoutOverlapping, tick.instant i, tick.now⟩

/-- One iteration of `dispatch_due`. -/
def dispatchEvent (defaultTz : ζ) (tick : Tick) (acc : InMemoryLockStore × List Task)
    (entry : Event ζ φ × Nat) : InMemoryLockStore × List Task :=
  let (e, i) := entry
  match e.isDueWith C tick.now defaultTz with
  | .ok true =>
    if tick.leader i then
      if e.withoutOverlapping then
        match acc.1.tryLock e.id lockTtl (tick.instant i) with
        | (true, store) => (store, acc.2 ++ [e.spawn tick i])
        | (false, store) => (store, acc.2)
      else (acc.1, acc.2 ++ [e.spawn tick i])
    else acc
  | .ok false => acc
  | .error _ => acc

/-- The event is due and this process leads for it. -/
def Event.Chosen (e : Event ζ φ) (defaultTz : ζ) (tick : Tick) (i : Nat) : Prop :=
  e.isDueWith C tick.now defaultTz = .ok true ∧ tick.leader i = true

/-- **What `dispatch_due` does with one event**: pass it over, skip it because its
lock is held, or spawn it, with its lock or without. -/
theorem dispatchEvent_cases (defaultTz : ζ) (tick : Tick) (acc : InMemoryLockStore × List Task)
    (e : Event ζ φ) (i : Nat) :
    (¬ e.Chosen C defaultTz tick i ∧ dispatchEvent C defaultTz tick acc (e, i) = acc) ∨
      (e.Chosen C defaultTz tick i ∧ e.withoutOverlapping = true ∧
        acc.1.Held e.id lockTtl (tick.instant i) ∧
        dispatchEvent C defaultTz tick acc (e, i) = acc) ∨
      (e.Chosen C defaultTz tick i ∧ e.withoutOverlapping = true ∧
        ¬ acc.1.Held e.id lockTtl (tick.instant i) ∧
        dispatchEvent C defaultTz tick acc (e, i) =
          (acc.1.insert e.id (tick.instant i), acc.2 ++ [e.spawn tick i])) ∨
      (e.Chosen C defaultTz tick i ∧ e.withoutOverlapping = false ∧
        dispatchEvent C defaultTz tick acc (e, i) = (acc.1, acc.2 ++ [e.spawn tick i])) := by
  by_cases hc : e.Chosen C defaultTz tick i
  · obtain ⟨hdue, hlead⟩ := hc
    cases hwo : e.withoutOverlapping with
    | false =>
      refine Or.inr (Or.inr (Or.inr ⟨⟨hdue, hlead⟩, rfl, ?_⟩))
      simp [dispatchEvent, hdue, hlead, hwo]
    | true =>
      rcases acc.1.tryLock_cases e.id lockTtl (tick.instant i) with ⟨hheld, he⟩ | ⟨hnot, he⟩
      · refine Or.inr (Or.inl ⟨⟨hdue, hlead⟩, rfl, hheld, ?_⟩)
        simp [dispatchEvent, hdue, hlead, hwo, he]
      · refine Or.inr (Or.inr (Or.inl ⟨⟨hdue, hlead⟩, rfl, hnot, ?_⟩))
        simp [dispatchEvent, hdue, hlead, hwo, he]
  · refine Or.inl ⟨hc, ?_⟩
    cases hdue : e.isDueWith C tick.now defaultTz with
    | error err => simp [dispatchEvent, hdue]
    | ok due =>
      cases due with
      | false => simp [dispatchEvent, hdue]
      | true =>
        have hlead : tick.leader i = false := by
          cases hl : tick.leader i with
          | false => rfl
          | true => exact absurd ⟨hdue, hl⟩ hc
        simp [dispatchEvent, hdue, hlead]

/-- `dispatch_due`: the store afterwards, and the tasks spawned. -/
def dispatchDue (schedule : Schedule ζ φ) (tick : Tick) (store : InMemoryLockStore) :
    InMemoryLockStore × List Task :=
  schedule.events.zipIdx.foldl (dispatchEvent C schedule.defaultTimezone tick) (store, [])

end Dispatch

/-- Where `work` is: asleep, in `reap`, before `dispatch_due`, joining after the
shutdown signal, or returned. -/
inductive Phase
  | sleeping
  | reaping
  | dispatching
  | draining
  | stopped
  deriving DecidableEq, Repr

structure Worker where
  store : InMemoryLockStore
  running : List Task
  finished : List (Task × TaskEnd)
  phase : Phase
  sleepFrom : Int
  sleep : Nat
  startedAt : Int
  lastWake : Int
  started : List Task

/-- The steps of the loop, and a task's end. -/
inductive WorkAction
  | timer
  | joinNext
  | reaped
  | dispatch (tick : Tick)
  | shutdown
  | stop
  | finish (i : Nat) (taskEnd : TaskEnd)

namespace Worker

/-- The tasks in the `JoinSet`. -/
def inFlight (s : Worker) : List Task := s.running ++ s.finished.map Prod.fst

variable (C : Croner ζ)

/-- `work` is called at `now` with the lock store `store`. -/
def start (schedule : Schedule ζ φ) (store : InMemoryLockStore) (now : Int) : Worker where
  store := store
  running := []
  finished := []
  phase := .sleeping
  sleepFrom := now
  sleep := schedule.millisUntilNext C now
  startedAt := now
  lastWake := now
  started := []

/-- The state after `handle_join` of the first finished task. -/
def joinedNext (s : Worker) (t : Task) (taskEnd : TaskEnd) (rest : List (Task × TaskEnd)) :
    Worker :=
  { s with store := handleJoin s.store (t.joined taskEnd), finished := rest }

/-- The state after `dispatch_due`, asleep again. -/
def dispatched (schedule : Schedule ζ φ) (s : Worker) (tick : Tick) : Worker :=
  { s with
    store := (dispatchDue C schedule tick s.store).1
    running := s.running ++ (dispatchDue C schedule tick s.store).2
    phase := .sleeping
    sleepFrom := tick.next
    sleep := schedule.millisUntilNext C tick.next
    lastWake := tick.now
    started := s.started ++ (dispatchDue C schedule tick s.store).2 }

/-- The state after a task's end. -/
def ended (s : Worker) (i : Nat) (t : Task) (taskEnd : TaskEnd) : Worker :=
  { s with running := s.running.eraseIdx i, finished := s.finished ++ [(t, taskEnd)] }

def step (schedule : Schedule ζ φ) (s : Worker) : WorkAction → Option Worker
  | .timer => if s.phase = .sleeping then some { s with phase := .reaping } else none
  | .joinNext =>
    match s.finished with
    | (t, taskEnd) :: rest =>
      if s.phase = .reaping ∨ s.phase = .draining then some (s.joinedNext t taskEnd rest)
      else none
    | [] => none
  | .reaped =>
    if s.phase = .reaping ∧ s.finished.isEmpty then some { s with phase := .dispatching }
    else none
  | .dispatch tick =>
    if s.phase = .dispatching then some (s.dispatched C schedule tick) else none
  | .shutdown => if s.phase = .sleeping then some { s with phase := .draining } else none
  | .stop =>
    if s.phase = .draining ∧ s.inFlight.isEmpty then some { s with phase := .stopped } else none
  | .finish i taskEnd =>
    match s.running[i]? with
    | some t => some (s.ended i t taskEnd)
    | none => none

variable {C}

/-- **Every step of the loop**, with what it needs and what it leaves. -/
theorem step_cases {schedule : Schedule ζ φ} {s s' : Worker} {a : WorkAction}
    (h : step C schedule s a = some s') :
    (a = .timer ∧ s' = { s with phase := .reaping }) ∨
      (∃ t taskEnd rest, a = .joinNext ∧ s.finished = (t, taskEnd) :: rest ∧
        (s.phase = .reaping ∨ s.phase = .draining) ∧ s' = s.joinedNext t taskEnd rest) ∨
      (a = .reaped ∧ s' = { s with phase := .dispatching }) ∨
      (∃ tick, a = .dispatch tick ∧ s' = s.dispatched C schedule tick) ∨
      (a = .shutdown ∧ s' = { s with phase := .draining }) ∨
      (a = .stop ∧ s.inFlight = [] ∧ s' = { s with phase := .stopped }) ∨
      (∃ i t taskEnd, a = .finish i taskEnd ∧ s.running[i]? = some t ∧
        s' = s.ended i t taskEnd) := by
  cases a with
  | timer =>
    simp only [step, Option.ite_none_right_eq_some, Option.some.injEq] at h
    exact Or.inl ⟨rfl, h.2.symm⟩
  | joinNext =>
    simp only [step] at h
    split at h
    · rename_i t taskEnd rest hfin
      simp only [Option.ite_none_right_eq_some, Option.some.injEq] at h
      exact Or.inr (Or.inl ⟨t, taskEnd, rest, rfl, hfin, h.1, h.2.symm⟩)
    · cases h
  | reaped =>
    simp only [step, Option.ite_none_right_eq_some, Option.some.injEq] at h
    exact Or.inr (Or.inr (Or.inl ⟨rfl, h.2.symm⟩))
  | dispatch tick =>
    simp only [step, Option.ite_none_right_eq_some, Option.some.injEq] at h
    exact Or.inr (Or.inr (Or.inr (Or.inl ⟨tick, rfl, h.2.symm⟩)))
  | shutdown =>
    simp only [step, Option.ite_none_right_eq_some, Option.some.injEq] at h
    exact Or.inr (Or.inr (Or.inr (Or.inr (Or.inl ⟨rfl, h.2.symm⟩))))
  | stop =>
    simp only [step, Option.ite_none_right_eq_some, Option.some.injEq, List.isEmpty_iff] at h
    exact Or.inr (Or.inr (Or.inr (Or.inr (Or.inr (Or.inl ⟨rfl, h.1.2, h.2.symm⟩)))))
  | finish i taskEnd =>
    simp only [step] at h
    split at h
    · rename_i t ht
      exact Or.inr (Or.inr (Or.inr (Or.inr (Or.inr (Or.inr
        ⟨i, t, taskEnd, rfl, ht, (Option.some.inj h).symm⟩)))))
    · cases h

end Worker

end Kolas.Schedule

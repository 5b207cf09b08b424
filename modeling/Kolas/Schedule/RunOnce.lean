import Kolas.Lib.Lists
import Kolas.Schedule.Modifiers
import Kolas.Schedule.Scheduler

/-!
# One pass

`Scheduler::run_once` of `schedule/scheduler.rs`: the events that are due are
executed one after the other, each under its lock if it has one.  The readings of
the clocks, the answers of `is_leader`, the results of the tasks and the lock store
at its start belong to a pass (`Pass`).  A task that panics takes `run_once` with
it, so a pass is one in which every task returns.

* `runOnce_count`: what a pass executes.
* `runOnce_every_minute`: passes made once in every minute execute an event that
  fires at the full minute once for each of its occurrences.
* `Event.occurs_onMinute`: most frequencies are such.
-/

set_option linter.dupNamespace false

namespace Kolas.Schedule

open Kolas.Lib

variable {ζ φ : Type}

/-- `ScheduleError::to_string`. -/
def ScheduleError.text : ScheduleError → String
  | .invalidCron expr message => "invalid cron expression '" ++ expr ++ "': " ++ message
  | .invalidTimeFormat value =>
    "invalid time format '" ++ value ++ "': expected HH:MM (00:00–23:59)"
  | .invalidDay day => "invalid day value " ++ toString day ++ ": must be 1–31"
  | .invalidTimezone tz => "invalid timezone '" ++ tz ++ "'"
  | .nextOccurrence expr message =>
    "failed to compute next occurrence for '" ++ expr ++ "': " ++ message
  | .unknownCommand name => "unknown command '" ++ name ++ "' registered in schedule"

/-- What a pass is given: the time, the store, and at each event's turn the lock
store's clock, the selector's answer and the task's result. -/
structure Pass where
  now : Int
  store : InMemoryLockStore
  instant : Nat → Nat
  leader : Nat → Bool
  outcome : Nat → Except TaskError Unit

/-- What a pass has done so far: the store it leaves, the events it has executed,
by their places in the schedule, and the errors. -/
structure PassState where
  store : InMemoryLockStore
  executed : List Nat
  errors : List TaskError

/-- The task is executed, and its error kept. -/
def PassState.execute (s : PassState) (pass : Pass) (i : Nat) : PassState :=
  { s with
    executed := s.executed ++ [i]
    errors := match pass.outcome i with
      | .ok () => s.errors
      | .error err => s.errors ++ [err] }

section

variable (C : Croner ζ)

/-- One iteration of `run_once`. -/
def runEvent (defaultTz : ζ) (pass : Pass) (s : PassState) (entry : Event ζ φ × Nat) :
    PassState :=
  let (e, i) := entry
  match e.isDueWith C pass.now defaultTz with
  | .ok true =>
    if pass.leader i then
      if e.withoutOverlapping then
        match s.store.tryLock e.id lockTtl (pass.instant i) with
        | (true, store) => { s with store := store.release e.id }.execute pass i
        | (false, store) => { s with store := store }
      else s.execute pass i
    else s
  | .ok false => s
  | .error err => { s with errors := s.errors ++ [⟨e.id, err.text⟩] }

/-- `run_once`; without events it only logs. -/
def Schedule.runOnce (schedule : Schedule ζ φ) (pass : Pass) : PassState :=
  schedule.events.zipIdx.foldl (runEvent C schedule.defaultTimezone pass) ⟨pass.store, [], []⟩

/-- The event is due in the pass, and this process leads for it. -/
def Event.ChosenIn (e : Event ζ φ) (defaultTz : ζ) (pass : Pass) (i : Nat) : Prop :=
  e.isDueWith C pass.now defaultTz = .ok true ∧ pass.leader i = true

/-- The lock the event needs, if any, is free. -/
def Event.LockFree (e : Event ζ φ) (store : InMemoryLockStore) (pass : Pass) (i : Nat) : Prop :=
  e.withoutOverlapping = true → ¬ store.Held e.id lockTtl (pass.instant i)

end

/-! ### What a pass executes -/

section

variable {C : Croner ζ} {fires : C.Cron → ζ → Int → Prop} {tz : ζ} {pass : Pass}

/-- **What `run_once` does with one event**: its check fails; or it is passed over;
or its task is executed, without a lock, or under one that is given back. -/
theorem runEvent_turns (C : Croner ζ) (tz : ζ) (pass : Pass) (s : PassState) (e : Event ζ φ)
    (i : Nat) :
    (∃ err, e.isDueWith C pass.now tz = .error err ∧
      runEvent C tz pass s (e, i) = { s with errors := s.errors ++ [⟨e.id, err.text⟩] }) ∨
    (∃ due, e.isDueWith C pass.now tz = .ok due ∧
      ¬ (e.ChosenIn C tz pass i ∧ e.LockFree s.store pass i) ∧ runEvent C tz pass s (e, i) = s) ∨
    (e.ChosenIn C tz pass i ∧ e.LockFree s.store pass i ∧ e.withoutOverlapping = false ∧
      runEvent C tz pass s (e, i) = s.execute pass i) ∨
    (e.ChosenIn C tz pass i ∧ e.LockFree s.store pass i ∧ e.withoutOverlapping = true ∧
      runEvent C tz pass s (e, i) =
        { s with store := (s.store.insert e.id (pass.instant i)).release e.id }.execute pass i) := by
  unfold Event.ChosenIn Event.LockFree
  cases hdue : e.isDueWith C pass.now tz with
  | error err => exact .inl ⟨err, rfl, by simp [runEvent, hdue]⟩
  | ok due =>
    right
    cases due with
    | false => exact .inl ⟨false, rfl, by simp, by simp [runEvent, hdue]⟩
    | true =>
      cases hlead : pass.leader i with
      | false => exact .inl ⟨true, rfl, by simp, by simp [runEvent, hdue, hlead]⟩
      | true =>
        cases hwo : e.withoutOverlapping with
        | false => exact .inr (.inl (by simp [runEvent, hdue, hlead, hwo]))
        | true =>
          rcases s.store.tryLock_cases e.id lockTtl (pass.instant i) with
            ⟨hheld, htry⟩ | ⟨hnot, htry⟩
          · exact .inl ⟨true, rfl, by simpa using hheld,
              by simp [runEvent, hdue, hlead, hwo, htry]⟩
          · exact .inr (.inr (by simp [runEvent, hdue, hlead, hwo, htry, hnot]))

/-- The executed events after a turn. -/
theorem runEvent_executed (C : Croner ζ) (tz : ζ) (pass : Pass) (s : PassState) (e : Event ζ φ)
    (i : Nat) :
    (e.ChosenIn C tz pass i ∧ e.LockFree s.store pass i ∧
        (runEvent C tz pass s (e, i)).executed = s.executed ++ [i]) ∨
      (¬ (e.ChosenIn C tz pass i ∧ e.LockFree s.store pass i) ∧
        (runEvent C tz pass s (e, i)).executed = s.executed) := by
  rcases runEvent_turns C tz pass s e i with
    ⟨err, hdue, hrun⟩ | ⟨due, -, hnot, hrun⟩ | ⟨hchosen, hfree, -, hrun⟩ |
      ⟨hchosen, hfree, -, hrun⟩
  · refine .inr ⟨?_, by rw [hrun]⟩
    intro h
    rw [h.1.1] at hdue
    cases hdue
  · exact .inr ⟨hnot, by rw [hrun]⟩
  · exact .inl ⟨hchosen, hfree, by rw [hrun]; rfl⟩
  · exact .inl ⟨hchosen, hfree, by rw [hrun]; rfl⟩

/-- A turn removes no lock that holds, and adds none. -/
theorem runEvent_locks (C : Croner ζ) (tz : ζ) (pass : Pass) (s : PassState) (e : Event ζ φ)
    (i : Nat) (id : EventId) :
    (runEvent C tz pass s (e, i)).store.locks id = s.store.locks id ∨
      ((runEvent C tz pass s (e, i)).store.locks id = none ∧
        ¬ s.store.Held id lockTtl (pass.instant i)) := by
  rcases runEvent_turns C tz pass s e i with
    ⟨err, -, hrun⟩ | ⟨due, -, -, hrun⟩ | ⟨-, -, -, hrun⟩ | ⟨-, hfree, hwo, hrun⟩
  · exact .inl (by rw [hrun])
  · exact .inl (by rw [hrun])
  · exact .inl (by rw [hrun]; rfl)
  · rw [hrun]
    show ((s.store.insert e.id (pass.instant i)).release e.id).locks id = _ ∨
      ((s.store.insert e.id (pass.instant i)).release e.id).locks id = none ∧ _
    by_cases hid : id = e.id
    · subst hid
      exact .inr ⟨InMemoryLockStore.locks_release_self _ _, hfree hwo⟩
    · left
      rw [InMemoryLockStore.locks_release_of_ne _ hid, InMemoryLockStore.locks_insert_of_ne _ hid]

/-- A pass takes no lock that it does not release. -/
theorem runEvent_not_held {s : PassState} {e : Event ζ φ} {i : Nat} {id : EventId} {ttl now : Nat}
    (h : ¬ s.store.Held id ttl now) : ¬ (runEvent C tz pass s (e, i)).store.Held id ttl now := by
  intro hheld
  obtain ⟨acquiredAt, hlock, hyoung⟩ := hheld
  rcases runEvent_locks C tz pass s e i id with hsame | ⟨hnone, -⟩
  · exact h ⟨acquiredAt, hsame ▸ hlock, hyoung⟩
  · rw [hnone] at hlock
    cases hlock

theorem foldl_runEvent_not_held {id : EventId} {ttl now : Nat} (entries : List (Event ζ φ × Nat))
    {s : PassState} (h : ¬ s.store.Held id ttl now) :
    ¬ (entries.foldl (runEvent C tz pass) s).store.Held id ttl now := by
  induction entries generalizing s with
  | nil => exact h
  | cons entry entries ih =>
    rw [List.foldl_cons]
    exact ih (runEvent_not_held h)

/-- The events of other places do not count. -/
theorem foldl_runEvent_count_of_ne {i : Nat} (entries : List (Event ζ φ × Nat))
    (hne : ∀ entry ∈ entries, entry.2 ≠ i) (s : PassState) :
    (entries.foldl (runEvent C tz pass) s).executed.count i = s.executed.count i := by
  induction entries generalizing s with
  | nil => rfl
  | cons entry entries ih =>
    rw [List.foldl_cons, ih fun entry h => hne entry (List.mem_cons_of_mem _ h)]
    rcases runEvent_executed C tz pass s entry.1 entry.2 with
      ⟨-, -, hexecuted⟩ | ⟨-, hexecuted⟩
    · rw [hexecuted, List.count_append,
        List.count_singleton, if_neg (by simpa using hne entry List.mem_cons_self), Nat.add_zero]
    · rw [hexecuted]

/-- **What a pass executes**: an event whose lock is free, once if it is chosen, and
not if it is not. -/
theorem runOnce_count {schedule : Schedule ζ φ} {i : Nat} {e : Event ζ φ}
    (hi : schedule.events[i]? = some e) (hfree : e.LockFree pass.store pass i) :
    (e.ChosenIn C schedule.defaultTimezone pass i ∧
        (schedule.runOnce C pass).executed.count i = 1) ∨
      (¬ e.ChosenIn C schedule.defaultTimezone pass i ∧
        (schedule.runOnce C pass).executed.count i = 0) := by
  obtain ⟨pre, post, hsplit, hpre, hpost⟩ := exists_zipIdx_eq_append hi
  unfold Schedule.runOnce
  rw [hsplit, List.foldl_append, List.foldl_cons, foldl_runEvent_count_of_ne post hpost]
  have hbefore : (pre.foldl (runEvent C schedule.defaultTimezone pass)
      ⟨pass.store, [], []⟩).executed.count i = 0 := foldl_runEvent_count_of_ne pre hpre _
  have hturn : e.LockFree (pre.foldl (runEvent C schedule.defaultTimezone pass)
      ⟨pass.store, [], []⟩).store pass i :=
    fun hwo => foldl_runEvent_not_held pre (hfree hwo)
  rcases runEvent_executed C schedule.defaultTimezone pass
      (pre.foldl (runEvent C schedule.defaultTimezone pass) ⟨pass.store, [], []⟩) e i with
    ⟨hchosen, -, hexecuted⟩ | ⟨hnot, hexecuted⟩
  · refine .inl ⟨hchosen, ?_⟩
    rw [hexecuted, List.count_append, hbefore]
    simp
  · refine .inr ⟨fun hchosen => hnot ⟨hchosen, hturn⟩, ?_⟩
    rw [hexecuted, hbefore]

/-! ### A pass in every minute -/

/-- The event fires at full minutes only. -/
def Event.OnMinute (C : Croner ζ) (fires : C.Cron → ζ → Int → Prop) (e : Event ζ φ) (tz : ζ) :
    Prop := ∀ o, e.Occurs C fires tz o → minute ∣ o

/-- The k-th pass is made in the k-th minute from `first` on. -/
def EachMinute (first : Int) (passes : Nat → Pass) : Prop :=
  ∀ k : Nat, (first + k) * minute ≤ (passes k).now ∧ (passes k).now < (first + k + 1) * minute

/-- The pass executes the event for its occurrence `o`, one of the 60 seconds that
end at the pass. -/
structure Schedule.ExecutesFor (C : Croner ζ) (fires : C.Cron → ζ → Int → Prop)
    (schedule : Schedule ζ φ) (pass : Pass) (i : Nat) (e : Event ζ φ) (o : Int) : Prop where
  executed : i ∈ (schedule.runOnce C pass).executed
  young : pass.now - minute < o
  past : o ≤ pass.now
  occurs : e.Occurs C fires schedule.defaultTimezone o

/-- The full minute of the 60 seconds that end in the minute `m`. -/
theorem eq_of_window {m now o : Int} (hnow : m * minute ≤ now ∧ now < (m + 1) * minute)
    (ho : minute ∣ o) (hyoung : now - minute < o) (hpast : o ≤ now) : o = m * minute := by
  obtain ⟨n, rfl⟩ := ho
  unfold minute at *
  omega

/-- Of full minutes, an event that is due in the minute `m` has this one. -/
theorem isDueWith_onMinute (hC : C.Lawful fires) {e : Event ζ φ} (he : e.OnMinute C fires tz)
    {m now : Int} (hnow : m * minute ≤ now ∧ now < (m + 1) * minute) :
    e.isDueWith C now tz = .ok true ↔ e.Occurs C fires tz (m * minute) := by
  rw [Event.isDueWith_iff hC]
  constructor
  · intro h
    obtain ⟨o, hyoung, hpast, ho⟩ := h
    rwa [eq_of_window hnow (he o ho) hyoung hpast] at ho
  · intro h
    exact ⟨m * minute, show now - minute < m * minute by rw [add_mul] at hnow; omega, hnow.1, h⟩

/-- **Passes in every minute execute every occurrence once**: the k-th pass
executes the event, once, when it fires at the start of the k-th minute and not
otherwise; so one pass executes it for an occurrence, and none for an occurrence of
another minute. -/
theorem runOnce_every_minute (hC : C.Lawful fires) {schedule : Schedule ζ φ} {i : Nat}
    {e : Event ζ φ} (hi : schedule.events[i]? = some e)
    (he : e.OnMinute C fires schedule.defaultTimezone) {first : Int} {passes : Nat → Pass}
    (hpasses : EachMinute first passes) (hleader : ∀ k, (passes k).leader i = true)
    (hfree : ∀ k, e.LockFree (passes k).store (passes k) i) :
    (∀ k : Nat,
      (e.Occurs C fires schedule.defaultTimezone ((first + k) * minute) ∧
        (schedule.runOnce C (passes k)).executed.count i = 1) ∨
      (¬ e.Occurs C fires schedule.defaultTimezone ((first + k) * minute) ∧
        (schedule.runOnce C (passes k)).executed.count i = 0)) ∧
    (∀ o, e.Occurs C fires schedule.defaultTimezone o → first * minute ≤ o →
      ∃! k, schedule.ExecutesFor C fires (passes k) i e o) ∧
    ∀ k o, schedule.ExecutesFor C fires (passes k) i e o → o = (first + k) * minute := by
  have hcount : ∀ k : Nat,
      (e.Occurs C fires schedule.defaultTimezone ((first + k) * minute) ∧
        (schedule.runOnce C (passes k)).executed.count i = 1) ∨
      (¬ e.Occurs C fires schedule.defaultTimezone ((first + k) * minute) ∧
        (schedule.runOnce C (passes k)).executed.count i = 0) := by
    intro k
    have hdue := isDueWith_onMinute hC he (hpasses k)
    rcases runOnce_count (C := C) hi (hfree k) with ⟨hchosen, hone⟩ | ⟨hnot, hzero⟩
    · exact .inl ⟨hdue.mp hchosen.1, hone⟩
    · exact .inr ⟨fun ho => hnot ⟨hdue.mpr ho, hleader k⟩, hzero⟩
  have hminute : ∀ k o, schedule.ExecutesFor C fires (passes k) i e o →
      o = (first + k) * minute :=
    fun k o h => eq_of_window (hpasses k) (he o h.occurs) h.young h.past
  refine ⟨hcount, ?_, hminute⟩
  intro o ho hfirst
  obtain ⟨n, rfl⟩ := he o ho
  have hn : first ≤ n := by
    unfold minute at hfirst
    omega
  obtain ⟨k, hk⟩ : ∃ k : Nat, n = first + k := ⟨(n - first).toNat, by omega⟩
  have hstart : minute * n = (first + k) * minute := by rw [hk, Int.mul_comm]
  refine ⟨k, ⟨?_, ?_, ?_, ho⟩, ?_⟩
  · rcases hcount k with ⟨-, hone⟩ | ⟨hnot, -⟩
    · exact List.count_pos_iff.mp (by omega)
    · exact absurd (hstart ▸ ho) hnot
  · have hlt := (hpasses k).2
    rw [add_mul] at hlt
    omega
  · rw [hstart]
    exact (hpasses k).1
  · intro k' hk'
    have heq := hminute k' _ hk'
    unfold minute at heq
    omega

end

/-- A command that runs every minute. -/
def minuteReport : Event Unit Unit := Event.new (.command "report" [])

/-- Passes at the very start and the very end of their minutes in turn. -/
def jitteringPass (k : Nat) : Pass where
  now := k * minute + if k % 2 = 0 then 0 else minute - 1
  store := .new
  instant := fun _ => 0
  leader := fun _ => true
  outcome := fun _ => .ok ()

theorem existsUnique_jitteringPass : ∃! k, (⟨[minuteReport], ()⟩ : Schedule Unit Unit).ExecutesFor
    periodic onPeriod (jitteringPass k) 0 minuteReport (2 * minute) := by
  have honMinute : minuteReport.OnMinute periodic onPeriod () := by
    intro o ho
    obtain ⟨cron, hcron, hfires⟩ := ho
    obtain rfl : true = cron := Except.ok.inj hcron
    exact hfires
  have hpasses : EachMinute 0 jitteringPass := by
    intro k
    unfold jitteringPass minute
    dsimp only
    split
    · omega
    · omega
  have hoccurs : minuteReport.Occurs periodic onPeriod () (2 * minute) :=
    ⟨true, rfl, Int.dvd_mul_left 2 minute⟩
  refine (runOnce_every_minute periodic_lawful rfl honMinute hpasses (fun _ => rfl) ?_).2.1
    (2 * minute) hoccurs (by decide)
  intro k hwo
  cases hwo

/-! ### Frequencies of full minutes -/

/-- The frequency's pattern fires at second zero. -/
def Frequency.FullMinute (f : Frequency) : Prop :=
  ∃ p, Pattern.read f.toCronExpr = some p ∧ p.second = "0"

theorem fullMinute_of_join {f : Frequency} {minute hour day month weekday : String}
    (hminute : IsWord isWhitespace minute.toList) (hhour : IsWord isWhitespace hour.toList)
    (hday : IsWord isWhitespace day.toList) (hmonth : IsWord isWhitespace month.toList)
    (hweekday : IsWord isWhitespace weekday.toList)
    (hexpr : f.toCronExpr.toList =
      (" ".intercalate ["0", minute, hour, day, month, weekday]).toList) : f.FullMinute := by
  refine ⟨⟨"0", minute, hour, day, month, weekday⟩, Event.read_of_fields ?_, rfl⟩
  rw [String.toList_inj.mp hexpr]
  refine splitWhitespace_join ?_
  simp only [List.forall_mem_cons, List.not_mem_nil, false_implies, implies_true, and_true]
  exact ⟨isWord_text (by decide), hminute, hhour, hday, hmonth, hweekday⟩

/-- **All the builder's frequencies but one** fire at full minutes. -/
theorem Frequency.fullMinute {f : Frequency} (hsecond : f ≠ .everySecond)
    (hraw : ∀ expr, f ≠ .raw expr) : f.FullMinute := by
  have hany : IsWord isWhitespace "*".toList := isWord_text (by decide)
  have hzero : IsWord isWhitespace "0".toList := isWord_text (by decide)
  have hone : IsWord isWhitespace "1".toList := isWord_text (by decide)
  cases f with
  | raw expr => exact absurd rfl (hraw expr)
  | everySecond => exact absurd rfl hsecond
  | everyMinutes n =>
    by_cases hn : n = 1
    · exact fullMinute_of_join hany hany hany hany hany (by rw [hn]; rfl)
    · have hstep : IsWord isWhitespace ("*/" ++ toString n).toList := by
        rw [String.toList_append]
        exact isWord_append (isWord_text (by decide)) (isWord_toString n)
      exact fullMinute_of_join hstep hany hany hany hany (by simp [toCronExpr, hn])
  | hourlyAt minute =>
    exact fullMinute_of_join (isWord_toString minute) hany hany hany hany (by simp [toCronExpr])
  | dailyAt hour minute =>
    exact fullMinute_of_join (isWord_toString minute) (isWord_toString hour) hany hany hany
      (by simp [toCronExpr])
  | twiceDaily first second =>
    have hhours : IsWord isWhitespace (toString first ++ "," ++ toString second).toList := by
      rw [String.toList_append, String.toList_append]
      exact isWord_append (isWord_append (isWord_toString first) (isWord_text (by decide)))
        (isWord_toString second)
    exact fullMinute_of_join hzero hhours hany hany hany (by simp [toCronExpr])
  | weeklyOn day hour minute =>
    exact fullMinute_of_join (isWord_toString minute) (isWord_toString hour) hany hany
      (isWord_toString (weekdayNum day)) (by simp [toCronExpr])
  | monthlyOn day hour minute =>
    exact fullMinute_of_join (isWord_toString minute) (isWord_toString hour) (isWord_toString day)
      hany hany (by simp [toCronExpr])
  | quarterly =>
    exact fullMinute_of_join hzero hzero hone (isWord_text (s := "1,4,7,10") (by decide)) hany
      (by decide)
  | yearly => exact fullMinute_of_join hzero hzero hone hone hany (by decide)

/-- So do patterns of five fields. -/
theorem fullMinute_raw {expr : String} (h : (splitWhitespace expr).length = 5) :
    (Frequency.raw expr).FullMinute := by
  match hwords : splitWhitespace expr, h with
  | [minute, hour, day, month, weekday], _ =>
    refine ⟨⟨"0", minute, hour, day, month, weekday⟩, ?_, rfl⟩
    show Pattern.read expr = _
    unfold Pattern.read
    rw [hwords]

/-- The builder calls that choose a frequency of full minutes, or none. -/
def EventCall.FullMinute : EventCall → Prop
  | .everySecond => False
  | .cron expr => (splitWhitespace expr).length = 5
  | _ => True

theorem fullMinute_fail {e : Event ζ φ} (h : e.frequency.FullMinute) (error : ScheduleError) :
    (e.fail error).frequency.FullMinute := by
  unfold Event.fail
  split
  · exact h
  · exact h

theorem fullMinute_atTime {e : Event ζ φ} (h : e.frequency.FullMinute) {time : String}
    {frequency : Nat → Nat → Frequency} (hf : ∀ hour minute, (frequency hour minute).FullMinute) :
    (e.atTime time frequency).frequency.FullMinute := by
  unfold Event.atTime
  split
  · exact hf _ _
  · exact fullMinute_fail h _

theorem fullMinute_apply (parseTz : String → Option ζ) {e : Event ζ φ}
    (h : e.frequency.FullMinute) {call : EventCall} (hcall : call.FullMinute) :
    (call.apply parseTz e).frequency.FullMinute := by
  cases call with
  | everySecond => exact hcall.elim
  | cron expr => exact fullMinute_raw hcall
  | everyThirtyMinutes =>
    show (Frequency.raw "0 0,30 * * * *").FullMinute
    exact ⟨⟨"0", "0,30", "*", "*", "*", "*"⟩, by decide, rfl⟩
  | hourlyAt minute =>
    show (e.hourlyAt minute).frequency.FullMinute
    unfold Event.hourlyAt
    split
    · exact fullMinute_fail h _
    · exact Frequency.fullMinute nofun nofun
  | dailyAt time => exact fullMinute_atTime h fun _ _ => Frequency.fullMinute nofun nofun
  | twiceDaily first second =>
    show (e.twiceDaily first second).frequency.FullMinute
    unfold Event.twiceDaily
    split
    · exact fullMinute_fail h _
    · exact Frequency.fullMinute nofun nofun
  | weeklyOn day time => exact fullMinute_atTime h fun _ _ => Frequency.fullMinute nofun nofun
  | monthlyOn day time =>
    show (e.monthlyOn day time).frequency.FullMinute
    unfold Event.monthlyOn
    split
    · exact fullMinute_atTime h fun _ _ => Frequency.fullMinute nofun nofun
    · exact fullMinute_fail h _
  | between first last =>
    show (e.restrictBetween first last).frequency.FullMinute
    unfold Event.restrictBetween
    split
    · exact fullMinute_fail h _
    · split
      · exact fullMinute_fail h _
      · split
        · exact fullMinute_fail h _
        · exact h
  | timezone tz =>
    show (e.inTimezone parseTz tz).frequency.FullMinute
    unfold Event.inTimezone
    split
    · exact h
    · exact fullMinute_fail h _
  | weekdays | weekends | mondays | tuesdays | wednesdays | thursdays | fridays | saturdays
  | sundays => exact h
  | withoutOverlapping => exact h
  | onOneServer => exact h
  | _ => exact Frequency.fullMinute nofun nofun

/-- **The builder's frequencies are of full minutes**, unless it is asked for every
second or given a pattern of its own with a field for the second. -/
theorem configured_fullMinute (parseTz : String → Option ζ) (task : ScheduledTask φ)
    {calls : List EventCall} (h : ∀ call ∈ calls, call.FullMinute) :
    ((Event.new task : Event ζ φ).configured parseTz calls).frequency.FullMinute := by
  have hfold : ∀ e : Event ζ φ, e.frequency.FullMinute →
      (e.configured parseTz calls).frequency.FullMinute := by
    unfold Event.configured
    induction calls with
    | nil => exact fun e he => he
    | cons call calls ih =>
      intro e he
      obtain ⟨hcall, hcalls⟩ := List.forall_mem_cons.mp h
      exact ih hcalls _ (fullMinute_apply parseTz he hcall)
  exact hfold _ (Frequency.fullMinute nofun nofun)

/-- Modifiers leave the second alone. -/
theorem read_applyModifiers (e : Event ζ φ) {base : String} {p : Pattern}
    (h : Pattern.read base = some p) :
    ∃ p', Pattern.read (e.applyModifiers base) = some p' ∧ p'.second = p.second := by
  by_cases hlength : (splitWhitespace base).length = 6
  · have hfields : splitWhitespace base = p.fields := by
      unfold Pattern.read at h
      split at h
      · rename_i hwords
        rw [hwords, ← Option.some.inj h]
        rfl
      · rename_i hwords
        rw [hwords] at hlength
        cases hlength
      · cases h
    exact ⟨e.modify p, Event.read_of_fields (splitWhitespace_applyModifiers e hfields), rfl⟩
  · rw [e.applyModifiers_of_length hlength]
    exact ⟨p, h, rfl⟩

/-- **An event of such a frequency fires at full minutes**, when the time zones'
offsets are whole minutes. -/
theorem Event.onMinute {C : Croner ζ} {fires : C.Cron → ζ → Int → Prop} {S : FieldSyntax}
    {clock : ζ → Int → LocalTime} (hC : C.Reads fires S clock) (hS : S.Lawful)
    (hclock : ∀ tz o, ((clock tz o).second.val : Int) = o / 1000000000 % 60) {e : Event ζ φ}
    (he : e.frequency.FullMinute) (tz : ζ) : e.OnMinute C fires tz := by
  intro o ho
  obtain ⟨p, hp, hsecond⟩ := he
  obtain ⟨p', hp', hsame⟩ := read_applyModifiers e hp
  have herror : e.error = none := by
    cases herror : e.error with
    | none => rfl
    | some err =>
      obtain ⟨cron, hcron, -⟩ := ho
      simp [buildCron, expression, herror] at hcron
  obtain ⟨-, hwhole, hmatches⟩ := (occurs_iff hC herror hp' tz o).mp ho
  have hzero : (clock (e.timezone.getD tz) o).second.val = 0 := by
    have hmeans := hS.number .second 0 (by decide) (by decide)
    refine (hmeans.admits _).mp ?_
    have hadmits := hmatches.second
    rw [hsame, hsecond] at hadmits
    exact hadmits
  have hlaw := hclock (e.timezone.getD tz) o
  unfold minute
  omega

end Kolas.Schedule

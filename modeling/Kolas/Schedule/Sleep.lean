import Kolas.Schedule.RunOnce

/-!
# When the work loop wakes up

`millis_until_next` of `schedule/scheduler.rs` gives `croner` an instant that is finer than
a second, and what `croner` 3.0.1 finds has the same part below the second: it takes the start
a second on, moves it until the fields match, and leaves that part alone
(`Croner.KeepsFraction`).

* `Schedule.millisUntilNext_filter`: events that do not compile, or have no more
  occurrences, do not count.
* `Schedule.wakesAt_eq`: the loop wakes up after the next occurrence, by the part of `now` below
  the second.
* `wakesOnTime_iff`: so it is never early, and it is on time when that part is less than a
  millisecond.
-/

set_option linter.dupNamespace false

namespace Kolas.Schedule

open Kolas.Lib

variable {ζ φ : Type} {C : Croner ζ} {fires : C.Cron → ζ → Int → Prop}

/-! ### Starts inside a second -/

/-- What `find_next_occurrence(t, false)` of `croner` 3.0.1 gives: patterns match whole
seconds, and it returns the first one after `t` and adds the part of `t` below the second;
it fails when there is none. -/
structure Croner.KeepsFraction (C : Croner ζ) (fires : C.Cron → ζ → Int → Prop) (t : Int) :
    Prop where
  whole : ∀ {c tz o}, fires c tz o → 1000000000 ∣ o
  isLeast : ∀ {c tz n}, C.findNextOccurrence c tz t = .ok n →
    IsLeast {o | t < o ∧ fires c tz o} (n - t % 1000000000)
  none : ∀ {c tz msg}, C.findNextOccurrence c tz t = .error msg → ∀ o, t < o → ¬ fires c tz o

/-- A croner that finds whole seconds, with the part of the start below the second added. -/
def Croner.keeping (C : Croner ζ) : Croner ζ :=
  { C with findNextOccurrence := fun c tz t =>
      (C.findNextOccurrence c tz t).map (· + t % 1000000000) }

theorem Croner.Lawful.keeping (hC : C.Lawful fires)
    (hwhole : ∀ c tz o, fires c tz o → 1000000000 ∣ o) (t : Int) :
    C.keeping.KeepsFraction fires t where
  whole := fun {c tz o} => hwhole c tz o
  isLeast := by
    intro c tz n h
    cases hfound : C.findNextOccurrence c tz t with
    | error message =>
      simp only [Croner.keeping, hfound] at h
      cases h
    | ok m =>
      simp only [Croner.keeping, hfound] at h
      obtain rfl := Except.ok.inj h
      rw [Int.add_sub_cancel]
      exact hC.isLeast hfound
  none := by
    intro c tz msg h
    cases hfound : C.findNextOccurrence c tz t with
    | error message => exact hC.none hfound
    | ok m =>
      simp only [Croner.keeping, hfound] at h
      cases h

/-! ### Events that do not count -/

/-- The event has an occurrence after `now`. -/
def Event.OccursAfter (C : Croner ζ) (fires : C.Cron → ζ → Int → Prop) (e : Event ζ φ) (tz : ζ)
    (now : Int) : Prop := ∃ o, now < o ∧ e.Occurs C fires tz o

theorem Event.nextOccurrence_eq_none_iff {e : Event ζ φ} {now : Int} {tz : ζ}
    (hC : C.KeepsFraction fires now) :
    e.nextOccurrence C now tz = none ↔ ¬ e.OccursAfter C fires tz now := by
  unfold nextOccurrence OccursAfter Occurs
  cases hb : e.buildCron C with
  | error err => simp
  | ok cron =>
    cases hn : C.findNextOccurrence cron (e.timezone.getD tz) now with
    | error message =>
      simp only [hn, Except.ok.injEq, exists_eq_left', true_iff, not_exists, not_and]
      exact hC.none hn
    | ok n =>
      simp only [hn, reduceCtorEq, Except.ok.injEq, exists_eq_left', false_iff, not_not]
      exact ⟨_, (hC.isLeast hn).1⟩

/-- What is found for an event is its first occurrence, and the part of `now` below the
second. -/
theorem Event.nextOccurrence_keeps {e : Event ζ φ} {now next : Int} {tz : ζ}
    (hC : C.KeepsFraction fires now) (h : e.nextOccurrence C now tz = some next) :
    IsLeast {o | now < o ∧ e.Occurs C fires tz o} (next - now % 1000000000) := by
  unfold nextOccurrence at h
  cases hb : e.buildCron C with
  | error err => simp [hb] at h
  | ok cron =>
    cases hn : C.findNextOccurrence cron (e.timezone.getD tz) now with
    | error message => simp [hb, hn] at h
    | ok n =>
      simp only [hb, hn, Option.some.injEq] at h
      subst h
      simpa [Occurs, hb] using hC.isLeast hn

/-- **Events without an occurrence to come do not count.** -/
theorem Schedule.millisUntilNext_filter (schedule : Schedule ζ φ) {now : Int}
    (hC : C.KeepsFraction fires now) (keep : Event ζ φ → Bool)
    (hkeep : ∀ e ∈ schedule.events, keep e = false →
      ¬ e.OccursAfter C fires schedule.defaultTimezone now) :
    ({ schedule with events := schedule.events.filter keep }).millisUntilNext C now =
      schedule.millisUntilNext C now := by
  have hnext : ({ schedule with events := schedule.events.filter keep }).nextOccurrences C now =
      schedule.nextOccurrences C now :=
    filterMap_filter_of_none fun e he hdrop =>
      (Event.nextOccurrence_eq_none_iff hC).mpr (hkeep e he hdrop)
  rw [millisUntilNext_eq, millisUntilNext_eq, waitsFor, waitsFor, hnext]

/-! ### The moment of waking -/

/-- `now + millis_until_next(schedule, now)`. -/
def Schedule.wakesAt (C : Croner ζ) (schedule : Schedule ζ φ) (now : Int) : Int :=
  now + 1000000 * schedule.millisUntilNext C now

/-- `next` is the earliest occurrence of any event after `now`. -/
def Schedule.IsNext (C : Croner ζ) (fires : C.Cron → ζ → Int → Prop) (schedule : Schedule ζ φ)
    (now next : Int) : Prop :=
  IsLeast {o | now < o ∧ ∃ e ∈ schedule.events, e.Occurs C fires schedule.defaultTimezone o} next

theorem Schedule.IsNext.waitsFor {schedule : Schedule ζ φ} {now next : Int}
    (hC : C.KeepsFraction fires now) (h : schedule.IsNext C fires now next) :
    schedule.waitsFor C now = some (next + now % 1000000000) := by
  obtain ⟨⟨hlt, e, he, hocc⟩, hleast⟩ := h
  refine List.min?_eq_some_iff.mpr ⟨?_, ?_⟩
  · cases hnext : e.nextOccurrence C now schedule.defaultTimezone with
    | none => exact absurd ⟨next, hlt, hocc⟩ ((Event.nextOccurrence_eq_none_iff hC).mp hnext)
    | some n =>
      obtain ⟨⟨hafter, hfound⟩, hfirst⟩ := Event.nextOccurrence_keeps hC hnext
      have hle : n - now % 1000000000 ≤ next := hfirst ⟨hlt, hocc⟩
      have hge : next ≤ n - now % 1000000000 := hleast ⟨hafter, e, he, hfound⟩
      obtain rfl : n = next + now % 1000000000 := by omega
      exact List.mem_filterMap.mpr ⟨e, he, hnext⟩
  · intro n hn
    obtain ⟨e', he', hnext⟩ := List.mem_filterMap.mp hn
    obtain ⟨hafter, hfound⟩ := (Event.nextOccurrence_keeps hC hnext).1
    have hge : next ≤ n - now % 1000000000 := hleast ⟨hafter, e', he', hfound⟩
    omega

theorem Schedule.IsNext.whole {schedule : Schedule ζ φ} {now next : Int}
    (hC : C.KeepsFraction fires now) (h : schedule.IsNext C fires now next) :
    1000000000 ∣ next := by
  obtain ⟨-, e, -, cron, -, hfires⟩ := h.1
  exact hC.whole hfires

/-- **The loop wakes up after the next occurrence**, by the part of `now` below the second: it
sleeps for whole seconds. -/
theorem Schedule.wakesAt_eq {schedule : Schedule ζ φ} {now next : Int}
    (hC : C.KeepsFraction fires now) (h : schedule.IsNext C fires now next) :
    schedule.wakesAt C now = next + now % 1000000000 := by
  have hlt : now < next := h.1.1
  have hwhole : 1000000000 ∣ next := h.whole hC
  have hmillis : schedule.millisUntilNext C now = millisFrom now (next + now % 1000000000) := by
    rw [millisUntilNext_eq, h.waitsFor hC]
    rfl
  rw [wakesAt, hmillis, millisFrom, Int.tdiv_eq_ediv_of_nonneg (by omega)]
  omega

/-- The loop wakes up at `next`, or less than a millisecond later, and the events that
have nothing to come do not count. -/
structure Schedule.WakesOnTime (C : Croner ζ) (fires : C.Cron → ζ → Int → Prop)
    (schedule : Schedule ζ φ) (now next : Int) : Prop where
  notEarly : next ≤ schedule.wakesAt C now
  notLate : schedule.wakesAt C now < next + 1000000
  others : ∀ keep : Event ζ φ → Bool,
    (∀ e ∈ schedule.events, keep e = false →
      ¬ e.OccursAfter C fires schedule.defaultTimezone now) →
    ({ schedule with events := schedule.events.filter keep }).millisUntilNext C now =
      schedule.millisUntilNext C now

/-- **When the loop wakes up on time.** -/
theorem wakesOnTime_iff {schedule : Schedule ζ φ} {now next : Int}
    (hC : C.KeepsFraction fires now) (h : schedule.IsNext C fires now next) :
    schedule.WakesOnTime C fires now next ↔ now % 1000000000 < 1000000 := by
  have heq := Schedule.wakesAt_eq hC h
  constructor
  · intro hwakes
    have hlate := hwakes.notLate
    omega
  · intro hfraction
    exact ⟨by omega, by omega, schedule.millisUntilNext_filter hC⟩

/-- A schedule with one event, of every minute. -/
def minuteReports : Schedule Unit Unit := ⟨[minuteReport], ()⟩

theorem onPeriod_whole (everyMinute : Bool) (tz : Unit) (o : Int)
    (h : onPeriod everyMinute tz o) : 1000000000 ∣ o := by
  cases everyMinute with
  | false => exact h
  | true => exact Int.dvd_trans (by decide) h

theorem periodic_keeping (t : Int) : periodic.keeping.KeepsFraction onPeriod t :=
  periodic_lawful.keeping onPeriod_whole t

theorem minuteReports_isNext {m now : Int} (hm : minute ∣ m) (hlt : now < m)
    (hyoung : m - minute ≤ now) : minuteReports.IsNext periodic.keeping onPeriod now m := by
  refine ⟨⟨hlt, minuteReport, List.mem_singleton_self _, true, rfl, hm⟩, ?_⟩
  intro o ho
  obtain ⟨hafter, e, he, cron, hcron, hfires⟩ := ho
  obtain rfl : e = minuteReport := List.mem_singleton.mp he
  obtain rfl : true = cron := Except.ok.inj hcron
  have hdvd : minute ∣ o := hfires
  unfold minute at *
  omega

/-- Half a millisecond into the last second of a minute. -/
theorem minuteReports_wakesOnTime :
    minuteReports.WakesOnTime periodic.keeping onPeriod 59000500000 minute :=
  (wakesOnTime_iff (periodic_keeping _)
    (minuteReports_isNext (Int.dvd_refl minute) (by decide) (by decide))).mpr (by decide)

/-- A quarter of a second before the minute, the loop sleeps for a second. -/
theorem oversleeps_at_last_quarter :
    minuteReports.IsNext periodic.keeping onPeriod 59750000000 minute ∧
      minuteReports.millisUntilNext periodic.keeping 59750000000 = 1000 ∧
      ¬ minuteReports.WakesOnTime periodic.keeping onPeriod 59750000000 minute := by
  have hmillis : minuteReports.millisUntilNext periodic.keeping 59750000000 = 1000 := by decide
  refine ⟨minuteReports_isNext (Int.dvd_refl minute) (by decide) (by decide), hmillis, ?_⟩
  intro hwakes
  have hlate := hwakes.notLate
  rw [Schedule.wakesAt, hmillis] at hlate
  exact absurd hlate (by decide)

end Kolas.Schedule

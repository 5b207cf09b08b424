import Kolas.Lib.Lists
import Kolas.Schedule.Builder

/-!
# Invalid builder calls

A builder call, read on its own, is either invalid, with an error, or asks for some
settings of the event (`EventCall.read`).  The builder methods check and assign each in
its own way; `EventCall.apply_eq` says that all of them do what their reading says.

* `configured_error`: what an event remembers is the error of the first invalid call.
* `builder_sticky`: so it fails with this error, an invalid call has changed nothing else,
  and every setting is that of the last call for it.
-/

namespace Kolas.Schedule

open Kolas.Lib

/-- What a builder call asks for. -/
structure Settings (ζ : Type) where
  frequency : Option Frequency := none
  dowFilter : Option DowFilter := none
  between : Option (Nat × Nat) := none
  timezone : Option ζ := none
  withoutOverlapping : Bool := false
  onOneServer : Bool := false

variable {ζ φ : Type} (parseTz : String → Option ζ)

/-- A time, and the frequency at it. -/
def Settings.at (time : String) (frequency : Nat → Nat → Frequency) :
    Except ScheduleError (Settings ζ) :=
  (parseTime time).map fun (hour, minute) => { frequency := some (frequency hour minute) }

/-- A call's settings, or what is wrong with its arguments. -/
def EventCall.read : EventCall → Except ScheduleError (Settings ζ)
  | .cron expr => .ok { frequency := some (.raw expr) }
  | .everySecond => .ok { frequency := some .everySecond }
  | .everyMinute => .ok { frequency := some (.everyMinutes 1) }
  | .everyMinutes n => .ok { frequency := some (.everyMinutes n) }
  | .everyFiveMinutes => .ok { frequency := some (.everyMinutes 5) }
  | .everyTenMinutes => .ok { frequency := some (.everyMinutes 10) }
  | .everyFifteenMinutes => .ok { frequency := some (.everyMinutes 15) }
  | .everyThirtyMinutes => .ok { frequency := some (.raw "0 0,30 * * * *") }
  | .hourly => .ok { frequency := some (.hourlyAt 0) }
  | .hourlyAt minute =>
    if minute ≤ 59 then .ok { frequency := some (.hourlyAt minute) }
    else .error (.invalidTimeFormat ("minute " ++ toString minute))
  | .daily => .ok { frequency := some (.dailyAt 0 0) }
  | .dailyAt time => Settings.at time .dailyAt
  | .twiceDaily first second =>
    if first ≤ 23 ∧ second ≤ 23 then .ok { frequency := some (.twiceDaily first second) }
    else .error (.invalidTimeFormat ("hours " ++ toString first ++ "," ++ toString second))
  | .weekly => .ok { frequency := some (.weeklyOn .sun 0 0) }
  | .weeklyOn day time => Settings.at time (.weeklyOn day)
  | .monthly => .ok { frequency := some (.monthlyOn 1 0 0) }
  | .monthlyOn day time =>
    if 1 ≤ day ∧ day ≤ 31 then Settings.at time (.monthlyOn day) else .error (.invalidDay day)
  | .quarterly => .ok { frequency := some .quarterly }
  | .yearly => .ok { frequency := some .yearly }
  | .weekdays => .ok { dowFilter := some .weekdays }
  | .weekends => .ok { dowFilter := some .weekends }
  | .mondays => .ok { dowFilter := some (.single .mon) }
  | .tuesdays => .ok { dowFilter := some (.single .tue) }
  | .wednesdays => .ok { dowFilter := some (.single .wed) }
  | .thursdays => .ok { dowFilter := some (.single .thu) }
  | .fridays => .ok { dowFilter := some (.single .fri) }
  | .saturdays => .ok { dowFilter := some (.single .sat) }
  | .sundays => .ok { dowFilter := some (.single .sun) }
  | .between first last => do
    let (firstHour, _) ← parseTime first
    let (lastHour, _) ← parseTime last
    if firstHour ≤ lastHour then .ok { between := some (firstHour, lastHour) }
    else .error (.invalidTimeFormat (first ++ "-" ++ last ++ " (start hour after end hour)"))
  | .timezone tz =>
    match parseTz tz with
    | some parsed => .ok { timezone := some parsed }
    | none => .error (.invalidTimezone tz)
  | .withoutOverlapping => .ok { withoutOverlapping := true }
  | .onOneServer => .ok { onOneServer := true }

/-- The error of an invalid call. -/
def EventCall.error (call : EventCall) : Option ScheduleError :=
  match call.read parseTz with
  | .ok _ => none
  | .error err => some err

/-- The settings of a valid call. -/
def EventCall.settings (call : EventCall) : Settings ζ :=
  match call.read parseTz with
  | .ok settings => settings
  | .error _ => {}

/-- The event with these settings. -/
def Event.set (e : Event ζ φ) (settings : Settings ζ) : Event ζ φ :=
  { e with
    frequency := settings.frequency.getD e.frequency
    dowFilter := settings.dowFilter.or e.dowFilter
    between := settings.between.or e.between
    timezone := settings.timezone.or e.timezone
    withoutOverlapping := settings.withoutOverlapping || e.withoutOverlapping
    onOneServer := settings.onOneServer || e.onOneServer }

/-! ### One call -/

variable (e : Event ζ φ)

theorem Event.fail_eq (error : ScheduleError) :
    e.fail error = { e with error := e.error.or (some error) } := by
  obtain ⟨task, frequency, timezone, without, server, dowFilter, between, first⟩ := e
  cases first with
  | none => rfl
  | some err => rfl

/-- The event a reading makes of `e`. -/
def Event.follow : Except ScheduleError (Settings ζ) → Event ζ φ
  | .ok settings => e.set settings
  | .error err => { e with error := e.error.or (some err) }

theorem Event.atTime_eq (time : String) (frequency : Nat → Nat → Frequency) :
    e.atTime time frequency = e.follow (Settings.at time frequency) := by
  unfold atTime Settings.at
  cases parseTime time with
  | error err => exact e.fail_eq err
  | ok time => rfl

theorem EventCall.apply_eq_follow (call : EventCall) :
    call.apply parseTz e = e.follow (call.read parseTz) := by
  cases call with
  | hourlyAt minute =>
    show e.hourlyAt minute = e.follow (if minute ≤ 59 then _ else _)
    unfold Event.hourlyAt
    by_cases h : minute ≤ 59
    · rw [if_neg (not_lt.mpr h), if_pos h]
      rfl
    · rw [if_pos (not_le.mp h), if_neg h]
      exact e.fail_eq _
  | dailyAt time => exact e.atTime_eq time _
  | twiceDaily first second =>
    show e.twiceDaily first second = e.follow (if first ≤ 23 ∧ second ≤ 23 then _ else _)
    unfold Event.twiceDaily
    by_cases h : first ≤ 23 ∧ second ≤ 23
    · rw [if_neg (by omega), if_pos h]
      rfl
    · rw [if_pos (by omega), if_neg h]
      exact e.fail_eq _
  | weeklyOn day time => exact e.atTime_eq time _
  | monthlyOn day time =>
    show e.monthlyOn day time = e.follow (if 1 ≤ day ∧ day ≤ 31 then _ else _)
    unfold Event.monthlyOn
    by_cases h : 1 ≤ day ∧ day ≤ 31
    · rw [if_pos h, if_pos h]
      exact e.atTime_eq time _
    · rw [if_neg h, if_neg h]
      exact e.fail_eq _
  | between first last =>
    show e.restrictBetween first last = e.follow ((parseTime first).bind fun firstTime =>
      (parseTime last).bind fun lastTime => if firstTime.1 ≤ lastTime.1 then _ else _)
    unfold Event.restrictBetween
    cases parseTime first with
    | error err => exact e.fail_eq err
    | ok firstTime =>
      cases parseTime last with
      | error err => exact e.fail_eq err
      | ok lastTime =>
        show (if firstTime.1 > lastTime.1 then _ else _) =
          e.follow (if firstTime.1 ≤ lastTime.1 then _ else _)
        by_cases h : firstTime.1 ≤ lastTime.1
        · rw [if_neg (not_lt.mpr h), if_pos h]
          rfl
        · rw [if_pos (not_le.mp h), if_neg h]
          exact e.fail_eq _
  | timezone tz =>
    show e.inTimezone parseTz tz = _
    unfold Event.inTimezone
    rw [read]
    cases parseTz tz with
    | none => exact e.fail_eq _
    | some parsed => rfl
  | _ => rfl

/-- **What a call does**: it applies its settings, if it is valid, and otherwise its
error, if it is the first. -/
theorem EventCall.apply_eq (call : EventCall) : call.apply parseTz e =
    { e.set (call.settings parseTz) with error := e.error.or (call.error parseTz) } := by
  rw [apply_eq_follow, settings, error]
  cases call.read parseTz with
  | ok settings => simp [Event.follow, Event.set]
  | error err => simp [Event.follow, Event.set]

/-! ### A chain of calls -/

theorem configured_error (calls : List EventCall) : (e.configured parseTz calls).error =
    e.error.or (calls.findSome? (EventCall.error parseTz)) := by
  refine foldl_first Event.error ?_ calls e
  intro e call
  rw [EventCall.apply_eq]

/-- What the calls set last, if any of them sets it. -/
def lastSetting {α : Type} (calls : List EventCall) (setting : Settings ζ → Option α) : Option α :=
  (calls.filterMap fun call => setting (call.settings parseTz)).getLast?

/-- **A setting is that of the last call for it**, or the one there was. -/
theorem configured_setting {α : Type} (get : Event ζ φ → Option α) {setting : Settings ζ → Option α}
    (h : ∀ e settings error, get { e.set settings with error } = (setting settings).or (get e))
    (calls : List EventCall) :
    get (e.configured parseTz calls) = (lastSetting parseTz calls setting).or (get e) := by
  refine foldl_last get ?_ calls e
  intro e call
  rw [EventCall.apply_eq, h]

theorem configured_frequency (calls : List EventCall) : (e.configured parseTz calls).frequency =
    (lastSetting parseTz calls Settings.frequency).getD e.frequency := by
  have hlast : some (e.configured parseTz calls).frequency =
      (lastSetting parseTz calls Settings.frequency).or (some e.frequency) := by
    refine configured_setting parseTz e (fun e => some e.frequency) ?_ calls
    intro e settings error
    exact Option.or_some.symm
  rw [Option.or_some] at hlast
  exact Option.some.inj hlast

/-- The event remembers the first invalid call, and no other setting than those of the
valid ones. -/
structure StickyErrors (C : Croner ζ) (task : ScheduledTask φ) (calls : List EventCall) : Prop where
  /-- It fails with the error of the first invalid call. -/
  fails : ∀ before call after err, calls = before ++ call :: after →
    (∀ other ∈ before, other.error parseTz = none) → call.error parseTz = some err →
    ((Event.new task).configured parseTz calls).expression = .error err ∧
      ((Event.new task).configured parseTz calls).buildCron C = .error err
  /-- An invalid call changes nothing else, wherever it is made. -/
  unchanged : ∀ call ∈ calls, ∀ err, call.error parseTz = some err → ∀ e : Event ζ φ,
    call.apply parseTz e = { e with error := e.error.or (some err) }
  /-- Without invalid calls, it does not fail, and has the last settings. -/
  settings : (∀ call ∈ calls, call.error parseTz = none) →
    ((Event.new task).configured parseTz calls).error = none ∧
    ((Event.new task).configured parseTz calls).frequency =
      (lastSetting parseTz calls Settings.frequency).getD (.everyMinutes 1) ∧
    ((Event.new task).configured parseTz calls).dowFilter =
      lastSetting parseTz calls Settings.dowFilter ∧
    ((Event.new task).configured parseTz calls).between =
      lastSetting parseTz calls Settings.between ∧
    ((Event.new task).configured parseTz calls).timezone =
      lastSetting parseTz calls Settings.timezone

/-- **Errors of builder calls stick**, and have no side effects. -/
theorem builder_sticky (C : Croner ζ) (task : ScheduledTask φ) (calls : List EventCall) :
    StickyErrors parseTz C task calls := by
  have herror := configured_error parseTz (Event.new task) calls
  rw [show (Event.new task : Event ζ φ).error = none from rfl, Option.none_or] at herror
  refine ⟨?_, ?_, ?_⟩
  · intro before call after err hcalls hbefore hcall
    have hfirst : ((Event.new task).configured parseTz calls).error = some err := by
      rw [herror, hcalls, List.findSome?_append, List.findSome?_eq_none_iff.mpr hbefore,
        Option.none_or, List.findSome?_cons, hcall]
    have hexpression : ((Event.new task).configured parseTz calls).expression = .error err := by
      unfold Event.expression
      rw [hfirst]
    refine ⟨hexpression, ?_⟩
    unfold Event.buildCron
    rw [hexpression]
  · intro call _ err hcall e
    unfold EventCall.error at hcall
    rw [EventCall.apply_eq_follow]
    cases hread : call.read parseTz with
    | ok settings => simp [hread] at hcall
    | error err' =>
      rw [hread] at hcall
      obtain rfl : err' = err := Option.some.inj hcall
      rfl
  · intro hvalid
    refine ⟨?_, configured_frequency .., ?_, ?_, ?_⟩
    · rw [herror, List.findSome?_eq_none_iff.mpr hvalid]
    · rw [configured_setting parseTz _ Event.dowFilter fun _ _ _ => rfl]
      exact Option.or_none
    · rw [configured_setting parseTz _ Event.between fun _ _ _ => rfl]
      exact Option.or_none
    · rw [configured_setting parseTz _ Event.timezone fun _ _ _ => rfl]
      exact Option.or_none

end Kolas.Schedule

import Kolas.Schedule.Event

/-!
# The event builder

The builder methods of `Event` (`schedule/event.rs`).  A method that is given a
time, a day or a time zone checks it; what it does not accept it records as the
event's error, unless there is one already, and leaves the rest as it is.

* `EventCall` is a call of a builder method, and `Event.configured` what a chain
  of them makes of an event.
* `configured_task`: the task stays.
* `configured_inRange`: the frequency's numbers and the hours of `between` are
  those of a clock and a calendar (`Event.InRange`).
-/

namespace Kolas.Schedule

/-- `u32::from_str`: a `+` if any, at least one digit, and a number below 4294967296. -/
def parseU32 (s : String) : Option Nat :=
  let digits := match s.toList with
    | '+' :: rest => rest
    | cs => cs
  if digits.isEmpty || !digits.all Char.isDigit then none
  else
    let n := Nat.ofDigitChars 10 digits 0
    if n < 4294967296 then some n else none

/-- `str::split_once(':')`. -/
def splitOnceColon (s : String) : Option (String × String) :=
  match s.toList.dropWhile (· ≠ ':') with
  | [] => none
  | _ :: rest => some (String.ofList (s.toList.takeWhile (· ≠ ':')), String.ofList rest)

/-- `parse_time`. -/
def parseTime (value : String) : Except ScheduleError (Nat × Nat) :=
  match splitOnceColon value with
  | none => .error (.invalidTimeFormat value)
  | some (h, m) =>
    match parseU32 h, parseU32 m with
    | some hour, some minute =>
      if hour > 23 ∨ minute > 59 then .error (.invalidTimeFormat value) else .ok (hour, minute)
    | _, _ => .error (.invalidTimeFormat value)

theorem parseTime_range {value : String} {hour minute : Nat}
    (h : parseTime value = .ok (hour, minute)) : hour ≤ 23 ∧ minute ≤ 59 := by
  unfold parseTime at h
  split at h
  · cases h
  · split at h
    · split at h
      · cases h
      · rename_i hrange
        obtain ⟨rfl, rfl⟩ := Prod.mk.inj (Except.ok.inj h)
        omega
    · cases h

variable {ζ φ : Type}

namespace Event

/-- Records the first error. -/
def fail (e : Event ζ φ) (error : ScheduleError) : Event ζ φ :=
  if e.error.isNone then { e with error := some error } else e

/-- Sets a frequency at a time, or fails. -/
def atTime (e : Event ζ φ) (time : String) (frequency : Nat → Nat → Frequency) : Event ζ φ :=
  match parseTime time with
  | .ok (hour, minute) => { e with frequency := frequency hour minute }
  | .error err => e.fail err

variable (e : Event ζ φ)

def cron (expr : String) : Event ζ φ := { e with frequency := .raw expr }

def everySecond : Event ζ φ := { e with frequency := .everySecond }

def everyMinute : Event ζ φ := { e with frequency := .everyMinutes 1 }

def everyMinutes (n : Nat) : Event ζ φ := { e with frequency := .everyMinutes n }

def everyFiveMinutes : Event ζ φ := e.everyMinutes 5

def everyTenMinutes : Event ζ φ := e.everyMinutes 10

def everyFifteenMinutes : Event ζ φ := e.everyMinutes 15

def everyThirtyMinutes : Event ζ φ := { e with frequency := .raw "0 0,30 * * * *" }

def hourly : Event ζ φ := { e with frequency := .hourlyAt 0 }

def hourlyAt (minute : Nat) : Event ζ φ :=
  if minute > 59 then e.fail (.invalidTimeFormat ("minute " ++ toString minute))
  else { e with frequency := .hourlyAt minute }

def daily : Event ζ φ := { e with frequency := .dailyAt 0 0 }

def dailyAt (time : String) : Event ζ φ := e.atTime time .dailyAt

def twiceDaily (first second : Nat) : Event ζ φ :=
  if first > 23 ∨ second > 23 then
    e.fail (.invalidTimeFormat ("hours " ++ toString first ++ "," ++ toString second))
  else { e with frequency := .twiceDaily first second }

def weekly : Event ζ φ := { e with frequency := .weeklyOn .sun 0 0 }

def weeklyOn (day : Weekday) (time : String) : Event ζ φ := e.atTime time (.weeklyOn day)

def monthly : Event ζ φ := { e with frequency := .monthlyOn 1 0 0 }

def monthlyOn (day : Nat) (time : String) : Event ζ φ :=
  if 1 ≤ day ∧ day ≤ 31 then e.atTime time (.monthlyOn day) else e.fail (.invalidDay day)

def quarterly : Event ζ φ := { e with frequency := .quarterly }

def yearly : Event ζ φ := { e with frequency := .yearly }

def weekdays : Event ζ φ := { e with dowFilter := some .weekdays }

def weekends : Event ζ φ := { e with dowFilter := some .weekends }

/-- On one day of the week. -/
def onDay (day : Weekday) : Event ζ φ := { e with dowFilter := some (.single day) }

def mondays : Event ζ φ := e.onDay .mon

def tuesdays : Event ζ φ := e.onDay .tue

def wednesdays : Event ζ φ := e.onDay .wed

def thursdays : Event ζ φ := e.onDay .thu

def fridays : Event ζ φ := e.onDay .fri

def saturdays : Event ζ φ := e.onDay .sat

def sundays : Event ζ φ := e.onDay .sun

/-- `between`: the hours of the two times. -/
def restrictBetween (first last : String) : Event ζ φ :=
  match parseTime first with
  | .error err => e.fail err
  | .ok (firstHour, _) =>
    match parseTime last with
    | .error err => e.fail err
    | .ok (lastHour, _) =>
      if firstHour > lastHour then
        e.fail (.invalidTimeFormat (first ++ "-" ++ last ++ " (start hour after end hour)"))
      else { e with between := some (firstHour, lastHour) }

/-- `timezone`; `parseTz` is `str::parse::<Tz>`. -/
def inTimezone (parseTz : String → Option ζ) (tz : String) : Event ζ φ :=
  match parseTz tz with
  | some parsed => { e with timezone := some parsed }
  | none => e.fail (.invalidTimezone tz)

/-- `without_overlapping`. -/
def notOverlapping : Event ζ φ := { e with withoutOverlapping := true }

/-- `on_one_server`. -/
def oneServer : Event ζ φ := { e with onOneServer := true }

end Event

/-- A call of a builder method. -/
inductive EventCall
  | cron (expr : String)
  | everySecond
  | everyMinute
  | everyMinutes (n : Nat)
  | everyFiveMinutes
  | everyTenMinutes
  | everyFifteenMinutes
  | everyThirtyMinutes
  | hourly
  | hourlyAt (minute : Nat)
  | daily
  | dailyAt (time : String)
  | twiceDaily (first second : Nat)
  | weekly
  | weeklyOn (day : Weekday) (time : String)
  | monthly
  | monthlyOn (day : Nat) (time : String)
  | quarterly
  | yearly
  | weekdays
  | weekends
  | mondays
  | tuesdays
  | wednesdays
  | thursdays
  | fridays
  | saturdays
  | sundays
  | between (first last : String)
  | timezone (tz : String)
  | withoutOverlapping
  | onOneServer
  deriving DecidableEq, Repr

def EventCall.apply (parseTz : String → Option ζ) (e : Event ζ φ) : EventCall → Event ζ φ
  | .cron expr => e.cron expr
  | .everySecond => e.everySecond
  | .everyMinute => e.everyMinute
  | .everyMinutes n => e.everyMinutes n
  | .everyFiveMinutes => e.everyFiveMinutes
  | .everyTenMinutes => e.everyTenMinutes
  | .everyFifteenMinutes => e.everyFifteenMinutes
  | .everyThirtyMinutes => e.everyThirtyMinutes
  | .hourly => e.hourly
  | .hourlyAt minute => e.hourlyAt minute
  | .daily => e.daily
  | .dailyAt time => e.dailyAt time
  | .twiceDaily first second => e.twiceDaily first second
  | .weekly => e.weekly
  | .weeklyOn day time => e.weeklyOn day time
  | .monthly => e.monthly
  | .monthlyOn day time => e.monthlyOn day time
  | .quarterly => e.quarterly
  | .yearly => e.yearly
  | .weekdays => e.weekdays
  | .weekends => e.weekends
  | .mondays => e.mondays
  | .tuesdays => e.tuesdays
  | .wednesdays => e.wednesdays
  | .thursdays => e.thursdays
  | .fridays => e.fridays
  | .saturdays => e.saturdays
  | .sundays => e.sundays
  | .between first last => e.restrictBetween first last
  | .timezone tz => e.inTimezone parseTz tz
  | .withoutOverlapping => e.notOverlapping
  | .onOneServer => e.oneServer

/-- What a chain of builder calls makes of the event. -/
def Event.configured (parseTz : String → Option ζ) (e : Event ζ φ) (calls : List EventCall) :
    Event ζ φ := calls.foldl (EventCall.apply parseTz) e

/-! ### What the builder keeps -/

/-- The numbers are those of a clock and a calendar. -/
def Frequency.InRange : Frequency → Prop
  | .hourlyAt minute => minute ≤ 59
  | .dailyAt hour minute => hour ≤ 23 ∧ minute ≤ 59
  | .twiceDaily first second => first ≤ 23 ∧ second ≤ 23
  | .weeklyOn _ hour minute => hour ≤ 23 ∧ minute ≤ 59
  | .monthlyOn day hour minute => 1 ≤ day ∧ day ≤ 31 ∧ hour ≤ 23 ∧ minute ≤ 59
  | _ => True

structure Event.InRange (e : Event ζ φ) : Prop where
  frequency : e.frequency.InRange
  between : ∀ first last, e.between = some (first, last) → first ≤ last ∧ last ≤ 23

/-- A call may set the frequency, to one in range, or the hours, to hours in
range, and it leaves the task. -/
structure Configures (e e' : Event ζ φ) : Prop where
  task : e'.task = e.task
  frequency : e'.frequency = e.frequency ∨ e'.frequency.InRange
  between : e'.between = e.between ∨
    ∃ first last, e'.between = some (first, last) ∧ first ≤ last ∧ last ≤ 23

theorem configures_fail (e : Event ζ φ) (error : ScheduleError) : Configures e (e.fail error) := by
  unfold Event.fail
  split
  · exact ⟨rfl, .inl rfl, .inl rfl⟩
  · exact ⟨rfl, .inl rfl, .inl rfl⟩

theorem configures_atTime (e : Event ζ φ) {time : String} {frequency : Nat → Nat → Frequency}
    (h : ∀ hour minute, hour ≤ 23 → minute ≤ 59 → (frequency hour minute).InRange) :
    Configures e (e.atTime time frequency) := by
  unfold Event.atTime
  split
  · rename_i hour minute htime
    obtain ⟨hhour, hminute⟩ := parseTime_range htime
    exact ⟨rfl, .inr (h hour minute hhour hminute), .inl rfl⟩
  · exact configures_fail e _

theorem configures_restrictBetween (e : Event ζ φ) (first last : String) :
    Configures e (e.restrictBetween first last) := by
  unfold Event.restrictBetween
  split
  · exact configures_fail e _
  · rename_i firstHour firstMinute hfirst
    split
    · exact configures_fail e _
    · rename_i lastHour lastMinute hlast
      split
      · exact configures_fail e _
      · rename_i hle
        exact ⟨rfl, .inl rfl, .inr ⟨_, _, rfl, not_lt.mp hle, (parseTime_range hlast).1⟩⟩

theorem configures_apply (parseTz : String → Option ζ) (e : Event ζ φ) (call : EventCall) :
    Configures e (call.apply parseTz e) := by
  cases call with
  | hourlyAt minute =>
    show Configures e (e.hourlyAt minute)
    unfold Event.hourlyAt
    split
    · exact configures_fail e _
    · rename_i hle
      exact ⟨rfl, .inr (not_lt.mp hle), .inl rfl⟩
  | dailyAt time => exact configures_atTime e fun hour minute hh hm => ⟨hh, hm⟩
  | twiceDaily first second =>
    show Configures e (e.twiceDaily first second)
    unfold Event.twiceDaily
    split
    · exact configures_fail e _
    · rename_i hle
      exact ⟨rfl, .inr (show first ≤ 23 ∧ second ≤ 23 by omega), .inl rfl⟩
  | weeklyOn day time => exact configures_atTime e fun hour minute hh hm => ⟨hh, hm⟩
  | monthlyOn day time =>
    show Configures e (e.monthlyOn day time)
    unfold Event.monthlyOn
    split
    · rename_i hday
      exact configures_atTime e fun hour minute hh hm => ⟨hday.1, hday.2, hh, hm⟩
    · exact configures_fail e _
  | between first last => exact configures_restrictBetween e first last
  | timezone tz =>
    show Configures e (e.inTimezone parseTz tz)
    unfold Event.inTimezone
    split
    · exact ⟨rfl, .inl rfl, .inl rfl⟩
    · exact configures_fail e _
  | hourly => exact ⟨rfl, .inr (Nat.zero_le 59), .inl rfl⟩
  | daily => exact ⟨rfl, .inr ⟨Nat.zero_le 23, Nat.zero_le 59⟩, .inl rfl⟩
  | weekly => exact ⟨rfl, .inr ⟨Nat.zero_le 23, Nat.zero_le 59⟩, .inl rfl⟩
  | monthly => exact ⟨rfl, .inr ⟨le_rfl, by decide, Nat.zero_le 23, Nat.zero_le 59⟩, .inl rfl⟩
  | weekdays | weekends | mondays | tuesdays | wednesdays | thursdays | fridays | saturdays
  | sundays => exact ⟨rfl, .inl rfl, .inl rfl⟩
  | withoutOverlapping => exact ⟨rfl, .inl rfl, .inl rfl⟩
  | onOneServer => exact ⟨rfl, .inl rfl, .inl rfl⟩
  | _ => exact ⟨rfl, .inr trivial, .inl rfl⟩

/-- **The builder leaves the task.** -/
theorem Event.configured_task (parseTz : String → Option ζ) (e : Event ζ φ)
    (calls : List EventCall) : (e.configured parseTz calls).task = e.task := by
  unfold configured
  induction calls generalizing e with
  | nil => rfl
  | cons call calls ih =>
    rw [List.foldl_cons, ih]
    exact (configures_apply parseTz e call).task

/-- **The builder keeps to its ranges.** -/
theorem Event.configured_inRange (parseTz : String → Option ζ) {e : Event ζ φ} (h : e.InRange)
    (calls : List EventCall) : (e.configured parseTz calls).InRange := by
  unfold configured
  induction calls generalizing e with
  | nil => exact h
  | cons call calls ih =>
    have hcall := configures_apply parseTz e call
    refine ih ⟨?_, ?_⟩
    · rcases hcall.frequency with hsame | hrange
      · rw [hsame]
        exact h.frequency
      · exact hrange
    · intro first last hbetween
      rcases hcall.between with hsame | ⟨first', last', hset, hrange⟩
      · exact h.between first last (hsame ▸ hbetween)
      · rw [hset] at hbetween
        obtain ⟨rfl, rfl⟩ := Prod.mk.inj (Option.some.inj hbetween)
        exact hrange

theorem Event.new_inRange (task : ScheduledTask φ) : (Event.new task : Event ζ φ).InRange where
  frequency := trivial
  between := by
    intro first last h
    cases h

end Kolas.Schedule

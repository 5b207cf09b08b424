import Kolas.Schedule.Frequency
import Kolas.Schedule.Lock
import Mathlib.Order.Bounds.Basic

/-!
# Events

`schedule/event.rs`, `schedule/task.rs` and `schedule/error.rs`: an event is a
task with a frequency, options, and the first error its builder met.
`expression` composes its cron expression, `buildCron` compiles it, and
`isDueWith` asks whether it has an occurrence in the 60 seconds that end at `now`.

Instants are numbers of nanoseconds since the epoch.  Parsing a cron expression
and finding the next instant it matches in a time zone are the crate `croner`'s
and are fields of a parameter, `Croner`.  `Croner.Lawful` is what its
documentation says of them; what it makes of a start inside a second is
`Croner.KeepsFraction`.
-/

namespace Kolas.Schedule

/-- `ScheduleError`. -/
inductive ScheduleError
  | invalidCron (expr message : String)
  | invalidTimeFormat (value : String)
  | invalidDay (day : Nat)
  | invalidTimezone (tz : String)
  | nextOccurrence (expr message : String)
  | unknownCommand (name : String)
  deriving DecidableEq, Repr

structure TaskError where
  id : String
  message : String
  deriving DecidableEq, Repr

/-- `CommandTask` and `ClosureTask`; `φ` is the type of the closures. -/
inductive ScheduledTask (φ : Type)
  | command (commandName : String) (rawArgs : List String)
  | closure (id : String) (f : φ)

def ScheduledTask.id {φ : Type} : ScheduledTask φ → String
  | .command commandName _ => commandName
  | .closure id _ => id

/-- Day-of-week restriction layered on top of the base frequency. -/
inductive DowFilter
  | weekdays
  | weekends
  | single (day : Weekday)
  deriving DecidableEq, Repr

/-- The day-of-week field a filter writes. -/
def DowFilter.field : DowFilter → String
  | .weekdays => "1-5"
  | .weekends => "0,6"
  | .single day => toString (weekdayNum day)

/-- An event; `ζ` is the type of the time zones. -/
structure Event (ζ φ : Type) where
  task : ScheduledTask φ
  frequency : Frequency
  timezone : Option ζ
  withoutOverlapping : Bool
  onOneServer : Bool
  dowFilter : Option DowFilter
  between : Option (Nat × Nat)
  error : Option ScheduleError

/-- The part of `croner` the scheduler uses: parsing with optional seconds, and
`find_next_occurrence(t, false)` in a time zone.  Errors are their messages. -/
structure Croner (ζ : Type) where
  Cron : Type
  parse : String → Except String Cron
  findNextOccurrence : Cron → ζ → Int → Except String Int

/-- `find_next_occurrence` returns the least instant after `t` at which the
pattern fires, and fails when there is none. -/
structure Croner.Lawful {ζ : Type} (C : Croner ζ) (fires : C.Cron → ζ → Int → Prop) : Prop where
  isLeast : ∀ {c tz t n}, C.findNextOccurrence c tz t = .ok n →
    IsLeast {o | t < o ∧ fires c tz o} n
  none : ∀ {c tz t msg}, C.findNextOccurrence c tz t = .error msg →
    ∀ o, t < o → ¬ fires c tz o

/-- `ChronoDuration::seconds(60)`, in nanoseconds. -/
def minute : Int := 60 * 1000000000

/-- The period of `* * * * * *`, or of `0 * * * * *`. -/
def period (everyMinute : Bool) : Int :=
  if everyMinute then minute else 1000000000

/-- A croner of just these two patterns. -/
def periodic : Croner Unit where
  Cron := Bool
  parse := fun expr =>
    if expr = "* * * * * *" then .ok false
    else if expr = "0 * * * * *" then .ok true
    else .error "pattern not supported"
  findNextOccurrence := fun everyMinute _ t =>
    .ok ((t / period everyMinute + 1) * period everyMinute)

def onPeriod (everyMinute : Bool) (_ : Unit) (o : Int) : Prop := period everyMinute ∣ o

theorem periodic_lawful : periodic.Lawful onPeriod where
  isLeast := by
    intro c _ t n hn
    have hpos : 0 < period c := by
      cases c <;> decide
    obtain rfl := Except.ok.inj hn
    refine ⟨⟨Int.lt_ediv_add_one_mul_self t hpos, Int.dvd_mul_left _ _⟩, ?_⟩
    intro o h
    obtain ⟨ho, k, rfl⟩ := h
    have hk : t / period c < k := Int.ediv_lt_of_lt_mul hpos (by rwa [Int.mul_comm] at ho)
    rw [Int.mul_comm]
    exact Int.mul_le_mul_of_nonneg_left (show t / period c + 1 ≤ k by omega) (Int.le_of_lt hpos)
  none := by
    intro c _ t msg hn
    cases hn

variable {ζ φ : Type}

namespace Event

def new (task : ScheduledTask φ) : Event ζ φ where
  task := task
  frequency := .everyMinutes 1
  timezone := none
  withoutOverlapping := false
  onOneServer := false
  dowFilter := none
  between := none
  error := none

def id (e : Event ζ φ) : String := e.task.id

def applyModifiers (e : Event ζ φ) (base : String) : String :=
  if e.dowFilter.isNone && e.between.isNone then base
  else
    let parts := splitWhitespace base
    if parts.length ≠ 6 then base
    else
      let parts := match e.between with
        | some (first, last) => parts.set 2 (toString first ++ "-" ++ toString last)
        | none => parts
      let parts := match e.dowFilter with
        | some filter => parts.set 5 filter.field
        | none => parts
      " ".intercalate parts

def expression (e : Event ζ φ) : Except ScheduleError String :=
  match e.error with
  | some err => .error err
  | none => .ok (e.applyModifiers e.frequency.toCronExpr)

variable (C : Croner ζ)

def buildCron (e : Event ζ φ) : Except ScheduleError C.Cron :=
  match e.expression with
  | .error err => .error err
  | .ok expr =>
    match C.parse expr with
    | .ok cron => .ok cron
    | .error message => .error (.invalidCron expr message)

def isDueWith (e : Event ζ φ) (now : Int) (defaultTz : ζ) : Except ScheduleError Bool :=
  match e.buildCron C with
  | .error err => .error err
  | .ok cron =>
    match C.findNextOccurrence cron (e.timezone.getD defaultTz) (now - minute) with
    | .ok next => .ok (decide (next ≤ now))
    | .error message => .error (.nextOccurrence e.frequency.toCronExpr message)

/-- The instants at which the event fires, in its own time zone or the default
one: none if it does not compile. -/
def Occurs (fires : C.Cron → ζ → Int → Prop) (e : Event ζ φ) (defaultTz : ζ) (o : Int) : Prop :=
  ∃ cron, e.buildCron C = .ok cron ∧ fires cron (e.timezone.getD defaultTz) o

variable {C}

/-- **What it is to be due**: the event has an occurrence in the 60 seconds that
end at `now`. -/
theorem isDueWith_iff {fires : C.Cron → ζ → Int → Prop} (hC : C.Lawful fires) {e : Event ζ φ}
    {now : Int} {tz : ζ} :
    e.isDueWith C now tz = .ok true ↔
      ∃ o, now - minute < o ∧ o ≤ now ∧ e.Occurs C fires tz o := by
  unfold isDueWith Occurs
  cases hb : e.buildCron C with
  | error err => simp
  | ok cron =>
    cases hn : C.findNextOccurrence cron (e.timezone.getD tz) (now - minute) with
    | ok next =>
      obtain ⟨⟨hlt, hfires⟩, hleast⟩ := hC.isLeast hn
      simp only [hn, Except.ok.injEq, decide_eq_true_eq, exists_eq_left']
      constructor
      · intro hle
        exact ⟨next, hlt, hle, hfires⟩
      · intro h
        obtain ⟨o, ho, hle, hf⟩ := h
        exact le_trans (hleast ⟨ho, hf⟩) hle
    | error message =>
      simp only [hn, reduceCtorEq, Except.ok.injEq, exists_eq_left', false_iff]
      intro h
      obtain ⟨o, ho, -, hf⟩ := h
      exact hC.none hn o ho hf

end Event

end Kolas.Schedule

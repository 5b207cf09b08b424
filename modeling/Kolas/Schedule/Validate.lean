import Kolas.Console.Kernel
import Kolas.Schedule.Registry

/-!
# Validating a schedule

`Schedule::validate` compiles every event's cron expression and looks every
command up in the kernel.  Which events are of commands it tells by their ids: one
that begins with `closure-` it takes for a closure's.  `execute` runs a command by
its name, whatever the name begins with.

`validates_iff`: the check is right about a schedule unless a command whose name
begins with `closure-` is missing from the kernel and nothing else is wrong.
-/

set_option linter.dupNamespace false

namespace Kolas.Schedule

open Kolas.Console

variable {ζ φ κ : Type}

/-- `id.starts_with("closure-")`. -/
def startsWithClosure (id : String) : Bool := "closure-".toList.isPrefixOf id.toList

/-- The loop of `Schedule::validate`. -/
def validateEvents (C : Croner ζ) (kernel : ConsoleKernel κ) :
    List (Event ζ φ) → Except ScheduleError Unit
  | [] => .ok ()
  | event :: events =>
    match event.buildCron C with
    | .error err => .error err
    | .ok _ =>
      if startsWithClosure event.id then validateEvents C kernel events
      else if !kernel.hasCommand event.id then .error (.unknownCommand event.id)
      else validateEvents C kernel events

def Schedule.validate (C : Croner ζ) (kernel : ConsoleKernel κ) (schedule : Schedule ζ φ) :
    Except ScheduleError Unit :=
  validateEvents C kernel schedule.events

/-- `ScheduledTask::execute`; what a closure comes to is `run`. -/
def ScheduledTask.execute (run : φ → Except TaskError Unit)
    (execute : κ → Args → Except String Unit) (kernel : ConsoleKernel κ) :
    ScheduledTask φ → Except TaskError Unit
  | .command name rawArgs =>
    (kernel.dispatch execute name (Args.parse rawArgs)).mapError fun e => ⟨name, e.text⟩
  | .closure _ f => run f

/-- Executing the task comes to the kernel's own error. -/
def ScheduledTask.DispatchFails (execute : κ → Args → Except String Unit)
    (kernel : ConsoleKernel κ) : ScheduledTask φ → Prop
  | .command name rawArgs =>
    ∃ n, kernel.dispatch execute name (Args.parse rawArgs) = .error (.unknownCommand n)
  | .closure _ _ => False

theorem execute_of_dispatchFails {execute : κ → Args → Except String Unit}
    {kernel : ConsoleKernel κ} {task : ScheduledTask φ} (h : task.DispatchFails execute kernel)
    (run : φ → Except TaskError Unit) :
    task.execute run execute kernel = .error ⟨task.id, "unknown command: " ++ task.id⟩ := by
  cases task with
  | command name rawArgs =>
    obtain ⟨n, hn⟩ := h
    obtain ⟨rfl, -⟩ := (kernel.dispatch_unknown_iff).mp hn
    rw [ScheduledTask.execute, hn]
    rfl
  | closure id f => cases h

/-! ### What the check accepts -/

/-- The event's cron expression compiles. -/
def Compiles (C : Croner ζ) (e : Event ζ φ) : Prop := ∃ cron, e.buildCron C = .ok cron

theorem validateEvents_ok_iff {C : Croner ζ} {kernel : ConsoleKernel κ}
    (events : List (Event ζ φ)) :
    validateEvents C kernel events = .ok () ↔
      ∀ e ∈ events, Compiles C e ∧
        (startsWithClosure e.id = true ∨ kernel.hasCommand e.id = true) := by
  induction events with
  | nil => simp [validateEvents]
  | cons e events ih =>
    rw [validateEvents, List.forall_mem_cons, ← ih]
    cases hcron : e.buildCron C with
    | error err => simp [Compiles, hcron]
    | ok cron =>
      have hcompiles : Compiles C e := ⟨cron, hcron⟩
      by_cases hclosure : startsWithClosure e.id = true
      · simp [hcompiles, hclosure]
      · by_cases hcommand : kernel.hasCommand e.id = true
        · simp [hcompiles, hclosure, hcommand]
        · simp [hclosure, hcommand]

theorem startsWithClosure_closureId (len : Nat) : startsWithClosure (closureId len) = true := by
  rw [startsWithClosure, closureId, String.toList_append, List.isPrefixOf_iff_prefix]
  exact List.prefix_append _ _

/-- The event of a command has the command's name as its id, and that of a closure
an id that begins with `closure-`. -/
theorem event_id_cases (parseTz : String → Option ζ) (r : Registration φ) (i : Nat) :
    (∃ name, r.call.commandName = some name ∧ (r.event parseTz i).id = name) ∨
      (r.call.commandName = none ∧ startsWithClosure (r.event parseTz i).id = true) := by
  rw [r.event_id, r.call.task_id]
  cases hname : r.call.commandName with
  | some name => exact Or.inl ⟨name, rfl, rfl⟩
  | none => exact Or.inr ⟨rfl, startsWithClosure_closureId i⟩

/-- The names of the commands in a schedule. -/
def Names (registrations : List (Registration φ)) (name : String) : Prop :=
  ∃ r ∈ registrations, r.call.commandName = some name

section

variable {parseTz : String → Option ζ} {tz : ζ} {registrations : List (Registration φ)}

theorem exists_registration {e : Event ζ φ} (h : e ∈ (registered parseTz tz registrations).events) :
    ∃ r ∈ registrations, ∃ i, e = r.event parseTz i := by
  rw [registered_events] at h
  obtain ⟨⟨r, i⟩, hmem, rfl⟩ := List.mem_map.mp h
  exact ⟨r, (List.mem_zipIdx' hmem).2 ▸ List.getElem_mem _, i, rfl⟩

theorem exists_event (parseTz : String → Option ζ) (tz : ζ) {r : Registration φ}
    (h : r ∈ registrations) :
    ∃ i, r.event parseTz i ∈ (registered parseTz tz registrations).events := by
  obtain ⟨i, hi⟩ := List.mem_iff_getElem?.mp h
  refine ⟨i, List.mem_iff_getElem?.mpr ⟨i, ?_⟩⟩
  rw [registered_getElem?, hi]
  rfl

/-- **What the check accepts**: crons that compile, and commands that are
registered or have the name of a closure. -/
theorem validate_ok_iff {C : Croner ζ} {kernel : ConsoleKernel κ} :
    (registered parseTz tz registrations).validate C kernel = .ok () ↔
      (∀ e ∈ (registered parseTz tz registrations).events, Compiles C e) ∧
        ∀ name, Names registrations name →
          startsWithClosure name = true ∨ kernel.hasCommand name = true := by
  rw [Schedule.validate, validateEvents_ok_iff]
  constructor
  · intro h
    refine ⟨fun e he => (h e he).1, ?_⟩
    rintro name ⟨r, hr, hname⟩
    obtain ⟨i, hi⟩ := exists_event parseTz tz hr
    have hid : (r.event parseTz i).id = name := by
      rw [r.event_id, r.call.task_id, hname]
      rfl
    exact hid ▸ (h _ hi).2
  · rintro ⟨hcompiles, hnames⟩ e he
    refine ⟨hcompiles e he, ?_⟩
    obtain ⟨r, hr, i, rfl⟩ := exists_registration he
    rcases event_id_cases parseTz r i with ⟨name, hname, hid⟩ | ⟨-, hclosure⟩
    · exact hid.symm ▸ hnames name ⟨r, hr, hname⟩
    · exact Or.inl hclosure

/-- What the check promises: it is passed exactly by the schedules whose crons
compile and whose commands are registered, and then no task fails for want of a
command. -/
structure Validates (C : Croner ζ) (kernel : ConsoleKernel κ) (schedule : Schedule ζ φ)
    (registrations : List (Registration φ)) : Prop where
  ok_iff : schedule.validate C kernel = .ok () ↔
    (∀ e ∈ schedule.events, Compiles C e) ∧
      ∀ name, Names registrations name → kernel.hasCommand name = true
  never : schedule.validate C kernel = .ok () → ∀ e ∈ schedule.events,
    ∀ execute : κ → Args → Except String Unit, ¬ e.task.DispatchFails execute kernel

/-- Every command whose name begins with `closure-` is registered, or something
else is wrong: a cron that does not compile, or another command that is missing. -/
def ClosureNamesKnown (C : Croner ζ) (kernel : ConsoleKernel κ) (schedule : Schedule ζ φ)
    (registrations : List (Registration φ)) : Prop :=
  (∀ name, Names registrations name → startsWithClosure name = true →
      kernel.hasCommand name = true) ∨
    (∃ e ∈ schedule.events, ¬ Compiles C e) ∨
    ∃ name, Names registrations name ∧ startsWithClosure name = false ∧
      kernel.hasCommand name = false

theorem not_dispatchFails {kernel : ConsoleKernel κ}
    (hnames : ∀ name, Names registrations name → kernel.hasCommand name = true)
    {e : Event ζ φ} (he : e ∈ (registered parseTz tz registrations).events)
    (execute : κ → Args → Except String Unit) : ¬ e.task.DispatchFails execute kernel := by
  obtain ⟨r, hr, i, rfl⟩ := exists_registration he
  have htask : (r.event parseTz i).task = r.call.task i := Event.configured_task ..
  have hknown (name : String) (args : List String) (hname : r.call.commandName = some name) :
      ¬ (ScheduledTask.command name args : ScheduledTask φ).DispatchFails execute kernel := by
    rintro ⟨n, hn⟩
    have hmissing := (kernel.dispatch_unknown_iff.mp hn).2
    rw [hnames name ⟨r, hr, hname⟩] at hmissing
    cases hmissing
  rw [htask]
  cases hcall : r.call with
  | command name => exact hknown name [] (by rw [hcall]; rfl)
  | commandWithArgs name rawArgs => exact hknown name rawArgs (by rw [hcall]; rfl)
  | call f => exact not_false

/-- **When the check is right.** -/
theorem validates_iff (C : Croner ζ) (kernel : ConsoleKernel κ) (parseTz : String → Option ζ)
    (tz : ζ) (registrations : List (Registration φ)) :
    Validates C kernel (registered parseTz tz registrations) registrations ↔
      ClosureNamesKnown C kernel (registered parseTz tz registrations) registrations := by
  constructor
  · intro h
    by_contra hnot
    obtain ⟨hmissing, hcompiles, hothers⟩ :
        (¬ ∀ name, Names registrations name → startsWithClosure name = true →
          kernel.hasCommand name = true) ∧
        (∀ e ∈ (registered parseTz tz registrations).events, Compiles C e) ∧
        ∀ name, Names registrations name → startsWithClosure name = false →
          kernel.hasCommand name = true := by
      refine ⟨fun hall => hnot (Or.inl hall), ?_, ?_⟩
      · intro e he
        by_contra hfails
        exact hnot (Or.inr (Or.inl ⟨e, he, hfails⟩))
      · intro name hname hplain
        by_contra hunknown
        exact hnot (Or.inr (Or.inr ⟨name, hname, hplain, Bool.eq_false_iff.mpr hunknown⟩))
    -- the check is passed, although a command is missing
    have hok : (registered parseTz tz registrations).validate C kernel = .ok () := by
      refine validate_ok_iff.mpr ⟨hcompiles, fun name hname => ?_⟩
      cases hprefix : startsWithClosure name with
      | true => exact Or.inl rfl
      | false => exact Or.inr (hothers name hname hprefix)
    exact hmissing fun name hname _ => (h.ok_iff.mp hok).2 name hname
  · intro h
    have hall (hok : (registered parseTz tz registrations).validate C kernel = .ok ()) :
        (∀ e ∈ (registered parseTz tz registrations).events, Compiles C e) ∧
          ∀ name, Names registrations name → kernel.hasCommand name = true := by
      obtain ⟨hcompiles, hnames⟩ := validate_ok_iff.mp hok
      refine ⟨hcompiles, fun name hname => ?_⟩
      rcases hnames name hname with hprefix | hknown
      · rcases h with hclosures | ⟨e, he, hfails⟩ | ⟨other, hother, hplain, hmissing⟩
        · exact hclosures name hname hprefix
        · exact absurd (hcompiles e he) hfails
        · rcases hnames other hother with hother | hother
          · rw [hplain] at hother
            cases hother
          · rw [hmissing] at hother
            cases hother
      · exact hknown
    refine ⟨⟨hall, fun hgood => ?_⟩, fun hok e he execute => ?_⟩
    · exact validate_ok_iff.mpr ⟨hgood.1, fun name hname => Or.inr (hgood.2 name hname)⟩
    · exact not_dispatchFails (hall hok).2 he execute

end

/-- A kernel with no commands. -/
def emptyKernel : ConsoleKernel Unit := ⟨[]⟩

/-- A command that is named like a closure. -/
def closureNamed : List (Registration Unit) := [⟨.command "closure-books", []⟩]

/-- The check is passed, and the task fails at every run. -/
theorem not_validates : ¬ ∀ (kernel : ConsoleKernel Unit) (registrations : List (Registration Unit)),
    Validates periodic kernel (registered (fun _ => none) () registrations) registrations := by
  intro hall
  have hok : (registered (fun _ => none) () closureNamed).validate periodic emptyKernel =
      .ok () := by
    refine validate_ok_iff.mpr ⟨?_, ?_⟩
    · intro e he
      obtain ⟨r, hr, i, rfl⟩ := exists_registration he
      obtain rfl := List.mem_singleton.mp hr
      exact ⟨true, rfl⟩
    · rintro name ⟨r, hr, hname⟩
      obtain rfl := List.mem_singleton.mp hr
      obtain rfl := Option.some.inj hname
      exact Or.inl (by decide)
  have hknown := ((hall emptyKernel closureNamed).ok_iff.mp hok).2 "closure-books"
    ⟨_, List.mem_singleton_self _, rfl⟩
  exact absurd hknown (by decide)

end Kolas.Schedule

import Kolas.Schedule.Accounts
import Kolas.Schedule.Validate

/-!
# The console process

`ConsoleKernel::run` of `console/kernel.rs`, and the two kernels of `bootstrap/console.rs`: one
answers the command line, the other runs what the scheduler dispatches and lacks the
commands that serve and schedule.

* `typed_as_scheduled_iff`: which commands do the same when they are typed and when they
  are scheduled.
* `execute_congr`: no scheduled task serves or schedules, whatever its name.
* `main_scheduleRun`: what `schedule:run` returns, and which of the events it counts.
-/

namespace Kolas.Console

open Kolas.Lib Kolas.Schedule

variable {ζ φ κ : Type}

/-! ### The command line -/

/-- What a command line comes to: what is printed, or what the command returns. -/
inductive Answer
  | help (stdout : List String)
  | executed (result : Except String Unit)
  | unknown (name stderr : String) (stdout : List String)

/-- What `run` returns. -/
def Answer.result : Answer → Except ConsoleError Unit
  | .help _ => .ok ()
  | .executed result => result.mapError .command
  | .unknown name _ _ => .error (.unknownCommand name)

/-- `{:<20}`. -/
def leftAligned (s : String) : String :=
  s ++ String.ofList (List.replicate (20 - s.length) ' ')

/-- The names that are answered with the list of the commands. -/
def asksHelp (name : String) : Bool :=
  name = "list" || name = "help" || name = "--help" || name = "-h"

namespace ConsoleKernel

variable (kernel : ConsoleKernel κ) (describe : κ → String)
  (execute : κ → Args → Except String Unit)

/-- `print_help`. -/
def printHelp : List String :=
  "Available commands:" ::
    kernel.commands.map fun cmd => "  " ++ leftAligned cmd.name ++ " " ++ describe cmd.code

/-- The loop of `run`. -/
def runIn (help : List String) : List (Command κ) → String → Args → Answer
  | [], name, _ => .unknown name ("Unknown command: " ++ name ++ "\n") help
  | cmd :: commands, name, args =>
    if cmd.name = name then .executed (execute cmd.code args)
    else runIn help commands name args

/-- `run`; `argv` is the command line after the program. -/
def run (defaultCommand : Option String) (argv : List String) : Answer :=
  let name := (argv.head?.or defaultCommand).getD "help"
  let help := kernel.printHelp describe
  if asksHelp name then .help help
  else runIn execute help kernel.commands name (Args.parse argv.tail)

end ConsoleKernel

/-! ### The kernels -/

/-- The code of a command: the process's own, the framework's, or the application's. -/
inductive Code (κ : Type)
  | serve
  | scheduleRun
  | scheduleWork
  | migrationCreate
  | migrationMigrate
  | migrationRollback
  | app (code : κ)

/-- The code is the process's own. -/
def Code.isOwn : Code κ → Bool
  | .serve | .scheduleRun | .scheduleWork => true
  | _ => false

def Code.description (describe : κ → String) : Code κ → String
  | .serve => "Start the HTTP server"
  | .scheduleRun => "Run scheduled tasks that are due now (single pass)"
  | .scheduleWork => "Run the scheduler in the foreground until interrupted"
  | .migrationCreate =>
    "Create a new migration file pair. Usage: migration:create <name> [--connection=<name>]"
  | .migrationMigrate =>
    "Run pending migrations. Usage: migration:migrate [--connection=<name>]"
  | .migrationRollback =>
    "Roll back the last applied migration. Usage: migration:rollback [--connection=<name>]"
  | .app code => describe code

def ownCommands : List (Command (Code κ)) :=
  [⟨"serve", .serve⟩, ⟨"schedule:run", .scheduleRun⟩, ⟨"schedule:work", .scheduleWork⟩]

/-- `all` of `console/commands/mod.rs`. -/
def frameworkCommands : List (Command (Code κ)) :=
  [⟨"migration:create", .migrationCreate⟩, ⟨"migration:migrate", .migrationMigrate⟩,
    ⟨"migration:rollback", .migrationRollback⟩]

/-- The application: `app/console/commands/mod.rs` and `app/console/schedule.rs`. -/
structure Application (φ κ : Type) where
  commands : List (Command κ)
  describe : κ → String
  registrations : List (Registration φ)

/-- What the process finds: the results of the configuration, the database, the
container and the log, the time zone configured, and the results of resolving the
application's commands, for each kernel. -/
structure Environment where
  ready : Except String Unit
  timezone : String
  resolved : Except String Unit
  resolvedAgain : Except String Unit

namespace Application

variable (app : Application φ κ)

/-- The kernel of what the scheduler may dispatch. -/
def dispatchKernel : ConsoleKernel (Code κ) :=
  ⟨frameworkCommands ++ app.commands.map fun cmd => ⟨cmd.name, .app cmd.code⟩⟩

/-- The kernel of the command line. -/
def mainKernel : ConsoleKernel (Code κ) := ⟨ownCommands ++ app.dispatchKernel.commands⟩

/-- A command line, answered. -/
def typed (execute : Code κ → Args → Except String Unit) (argv : List String) : Answer :=
  app.mainKernel.run (Code.description app.describe) execute (some "serve") argv

section

variable (C : Croner ζ) (parseTz : String → Option ζ) (utc : ζ) (env : Environment)

def schedule : Schedule ζ φ :=
  registered parseTz ((parseTz env.timezone).getD utc) app.registrations

/-- `run` of `bootstrap/console.rs`, up to the kernel. -/
def boot : Except String Unit := do
  env.ready
  env.resolved
  ((app.schedule parseTz utc env).validate C app.dispatchKernel).mapError ScheduleError.text
  env.resolvedAgain

/-- `run` of `bootstrap/console.rs`. -/
def main (execute : Code κ → Args → Except String Unit) (argv : List String) :
    Except String Answer :=
  (app.boot C parseTz utc env).map fun _ => app.typed execute argv

end

/-- A pass whose tasks come to what `closures` and `execute` make of them. -/
def passOf (closures : φ → Except TaskError Unit) (execute : Code κ → Args → Except String Unit)
    (schedule : Schedule ζ φ) (pass : Pass) : Pass :=
  { pass with
    outcome := fun i => match schedule.events[i]? with
      | some e => e.task.execute closures execute app.dispatchKernel
      | none => .ok () }

/-- `ScheduleRunCommand::execute`. -/
def scheduleRun (C : Croner ζ) (closures : φ → Except TaskError Unit)
    (execute : Code κ → Args → Except String Unit) (schedule : Schedule ζ φ) (pass : Pass) :
    Except String Unit :=
  let errors := (schedule.runOnce C (app.passOf closures execute schedule pass)).errors
  if errors.isEmpty then .ok ()
  else .error (toString errors.length ++ " scheduled task(s) failed")

/-- The commands as they are executed, where `schedule:run` makes the pass `pass`; what
the others do is `base`. -/
def executing (C : Croner ζ) (closures : φ → Except TaskError Unit) (schedule : Schedule ζ φ)
    (pass : Pass) (base : Code κ → Args → Except String Unit) :
    Code κ → Args → Except String Unit
  | .scheduleRun, _ => app.scheduleRun C closures base schedule pass
  | code, args => base code args

end Application

/-- The repository's own application. -/
def kolas : Application Unit Unit where
  commands := [⟨"test", ()⟩]
  describe _ := "Print a greeting. Usage: test [name]"
  registrations := [⟨.command "test", [.dailyAt "09:00", .weekdays]⟩,
    ⟨.call (), [.hourly, .withoutOverlapping]⟩]

example : kolas.mainKernel.commands.map Command.name =
    ["serve", "schedule:run", "schedule:work", "migration:create", "migration:migrate",
      "migration:rollback", "test"] := rfl

/-! ### Starting -/

/-- **When the process starts**: what it needs is there, the schedule's crons compile, and
its commands are the framework's or the application's, never the process's own. -/
theorem Application.boot_ok_iff (app : Application φ κ) (C : Croner ζ)
    (parseTz : String → Option ζ) (utc : ζ) (env : Environment) :
    app.boot C parseTz utc env = .ok () ↔
      (env.ready = .ok () ∧ env.resolved = .ok () ∧ env.resolvedAgain = .ok ()) ∧
      (∀ e ∈ (app.schedule parseTz utc env).events, Compiles C e) ∧
      ∀ name, Names app.registrations name → startsWithClosure name = true ∨
        name ∈ ["migration:create", "migration:migrate", "migration:rollback"] ∨
        name ∈ app.commands.map Command.name := by
  have hknown : ∀ name, app.dispatchKernel.hasCommand name = true ↔
      name ∈ ["migration:create", "migration:migrate", "migration:rollback"] ∨
        name ∈ app.commands.map Command.name := by
    intro name
    simp [dispatchKernel, ConsoleKernel.hasCommand, frameworkCommands, eq_comm (a := name),
      or_assoc]
  have hvalid : (app.schedule parseTz utc env).validate C app.dispatchKernel = .ok () ↔
      (∀ e ∈ (app.schedule parseTz utc env).events, Compiles C e) ∧
      ∀ name, Names app.registrations name → startsWithClosure name = true ∨
        name ∈ ["migration:create", "migration:migrate", "migration:rollback"] ∨
        name ∈ app.commands.map Command.name := by
    simp only [← hknown]
    exact validate_ok_iff
  rw [← hvalid]
  unfold boot
  cases env.ready with
  | error e => simp [bind, Except.bind]
  | ok =>
    cases env.resolved with
    | error e => simp [bind, Except.bind]
    | ok =>
      cases (app.schedule parseTz utc env).validate C app.dispatchKernel with
      | error e => simp [bind, Except.bind, Except.mapError]
      | ok => simp [bind, Except.bind, Except.mapError]

/-! ### Typed and scheduled commands -/

section

variable {execute execute' : κ → Args → Except String Unit} {kernel : ConsoleKernel κ}
  {commands own : List (Command κ)} {name : String} {args : Args}

/-- The two loops find the same command. -/
theorem runIn_result (help : List String) (commands : List (Command κ)) :
    (ConsoleKernel.runIn execute help commands name args).result =
      ConsoleKernel.dispatchIn execute commands name args := by
  induction commands with
  | nil => rfl
  | cons cmd commands ih =>
    rw [ConsoleKernel.runIn, ConsoleKernel.dispatchIn]
    by_cases hname : cmd.name = name
    · rw [if_pos hname, if_pos hname]
      rfl
    · rw [if_neg hname, if_neg hname, ih]

theorem dispatchIn_append (h : ∀ cmd ∈ own, cmd.name ≠ name) :
    ConsoleKernel.dispatchIn execute (own ++ commands) name args =
      ConsoleKernel.dispatchIn execute commands name args := by
  induction own with
  | nil => rfl
  | cons cmd own ih =>
    obtain ⟨hname, hrest⟩ := List.forall_mem_cons.mp h
    rw [List.cons_append, ConsoleKernel.dispatchIn, if_neg hname, ih hrest]

/-- A dispatch uses the code of the kernel's commands only. -/
theorem dispatchIn_congr (h : ∀ cmd ∈ commands, execute cmd.code = execute' cmd.code) :
    ConsoleKernel.dispatchIn execute commands name args =
      ConsoleKernel.dispatchIn execute' commands name args := by
  induction commands with
  | nil => rfl
  | cons cmd commands ih =>
    obtain ⟨hcode, hrest⟩ := List.forall_mem_cons.mp h
    rw [ConsoleKernel.dispatchIn, ConsoleKernel.dispatchIn, hcode, ih hrest]

/-- Commands that all fail let no dispatch succeed. -/
theorem dispatchIn_ne_ok (h : ∀ cmd ∈ commands, execute cmd.code args = .error "") :
    ConsoleKernel.dispatchIn execute commands name args ≠ .ok () := by
  induction commands with
  | nil => simp [ConsoleKernel.dispatchIn]
  | cons cmd commands ih =>
    obtain ⟨hcode, hrest⟩ := List.forall_mem_cons.mp h
    rw [ConsoleKernel.dispatchIn, hcode]
    by_cases hname : cmd.name = name
    · rw [if_pos hname]
      intro hok
      cases hok
    · rw [if_neg hname]
      exact ih hrest

end

namespace Application

variable {app : Application φ κ} {execute execute' : Code κ → Args → Except String Unit}
  {name : String} {rawArgs : List String}

theorem isOwn_dispatchKernel {cmd : Command (Code κ)} (h : cmd ∈ app.dispatchKernel.commands) :
    cmd.code.isOwn = false := by
  rcases List.mem_append.mp h with h | h
  · simp only [frameworkCommands, List.mem_cons, List.not_mem_nil, or_false] at h
    rcases h with rfl | rfl | rfl <;> rfl
  · obtain ⟨own, -, rfl⟩ := List.mem_map.mp h
    rfl

/-- **No scheduled task serves or schedules**: what the process's own commands do makes no
difference to it. -/
theorem execute_congr (closures : φ → Except TaskError Unit) (task : ScheduledTask φ)
    (h : ∀ code : Code κ, code.isOwn = false → execute code = execute' code) :
    task.execute closures execute app.dispatchKernel =
      task.execute closures execute' app.dispatchKernel := by
  cases task with
  | closure id f => rfl
  | command name rawArgs =>
    have hsame : app.dispatchKernel.dispatch execute name (Args.parse rawArgs) =
        app.dispatchKernel.dispatch execute' name (Args.parse rawArgs) :=
      dispatchIn_congr fun cmd hcmd => h cmd.code (isOwn_dispatchKernel hcmd)
    rw [ScheduledTask.execute, hsame]
    rfl

theorem typed_of_asksHelp (h : asksHelp name = true) :
    (app.typed execute (name :: rawArgs)).result = .ok () := by
  show (if asksHelp name = true then _ else _ : Answer).result = _
  rw [if_pos h]
  rfl

theorem typed_eq_dispatchIn (h : asksHelp name = false) :
    (app.typed execute (name :: rawArgs)).result =
      ConsoleKernel.dispatchIn execute (ownCommands ++ app.dispatchKernel.commands) name
        (Args.parse rawArgs) := by
  show (if asksHelp name = true then _ else _ : Answer).result = _
  rw [if_neg (by rw [h]; exact Bool.false_ne_true)]
  exact runIn_result _ _

/-- The names that the command line answers by itself. -/
def answeredNames : List String :=
  ["list", "help", "--help", "-h", "serve", "schedule:run", "schedule:work"]

theorem mem_answeredNames :
    name ∈ answeredNames ↔ asksHelp name = true ∨
      ∃ cmd ∈ (ownCommands : List (Command (Code κ))), cmd.name = name := by
  simp only [answeredNames, asksHelp, ownCommands, List.mem_cons, List.not_mem_nil, or_false,
    Bool.or_eq_true, decide_eq_true_eq, exists_eq_or_imp, exists_eq_left, or_assoc,
    eq_comm (b := name)]

/-- The own commands succeed, and all others fail. -/
def onlyOwn (code : Code κ) (_ : Args) : Except String Unit :=
  if code.isOwn then .ok () else .error ""

theorem typed_onlyOwn (h : name ∈ answeredNames) :
    (app.typed onlyOwn (name :: rawArgs)).result = .ok () := by
  rcases (mem_answeredNames (κ := κ)).mp h with hhelp | ⟨cmd, hcmd, hname⟩
  · exact typed_of_asksHelp hhelp
  · simp only [ownCommands, List.mem_cons, List.not_mem_nil, or_false] at hcmd
    rcases hcmd with rfl | rfl | rfl <;> subst hname <;> rfl

/-- **Which commands do the same when they are typed and when they are scheduled**: those
whose names the command line does not answer by itself. -/
theorem typed_as_scheduled_iff (app : Application φ κ) (closures : φ → Except TaskError Unit)
    (name : String) (rawArgs : List String) :
    (∀ execute : Code κ → Args → Except String Unit,
      (ScheduledTask.command name rawArgs).execute closures execute app.dispatchKernel =
        (app.typed execute (name :: rawArgs)).result.mapError fun e => ⟨name, e.text⟩) ↔
      name ∉ answeredNames := by
  constructor
  · intro h hname
    have htyped : (app.typed onlyOwn (name :: rawArgs)).result = .ok () := typed_onlyOwn hname
    have hscheduled := h onlyOwn
    rw [htyped, ScheduledTask.execute] at hscheduled
    cases hrun : app.dispatchKernel.dispatch onlyOwn name (Args.parse rawArgs) with
    | error e =>
      rw [hrun] at hscheduled
      cases hscheduled
    | ok =>
      refine dispatchIn_ne_ok ?_ hrun
      intro cmd hcmd
      rw [onlyOwn, isOwn_dispatchKernel hcmd]
      rfl
  · intro hname execute
    have hhelp : asksHelp name = false :=
      Bool.eq_false_iff.mpr fun h => hname ((mem_answeredNames (κ := κ)).mpr (Or.inl h))
    have hown : ∀ cmd ∈ (ownCommands : List (Command (Code κ))), cmd.name ≠ name :=
      fun cmd hcmd h => hname (mem_answeredNames.mpr (Or.inr ⟨cmd, hcmd, h⟩))
    rw [typed_eq_dispatchIn hhelp, dispatchIn_append hown]
    rfl

end Application

/-! ### A pass of the schedule -/

section

variable {C : Croner ζ} {schedule : Schedule ζ φ} {pass : Pass}

/-- The i-th event fails in a pass: it cannot be told whether it is due, or its task is
executed and fails. -/
def FailsAt (C : Croner ζ) (schedule : Schedule ζ φ) (pass : Pass) (i : Nat) : Prop :=
  ∃ e, schedule.events[i]? = some e ∧
    ((∃ err, e.isDueWith C pass.now schedule.defaultTimezone = .error err) ∨
      (i ∈ (schedule.runOnce C pass).executed ∧ ∃ err, pass.outcome i = .error err))

/-- The places of the events that have an error. -/
def failed (C : Croner ζ) (schedule : Schedule ζ φ) (pass : Pass) : List Nat :=
  (schedule.events.zipIdx.filter fun entry =>
    (pass.errorOf C schedule.defaultTimezone (schedule.runOnce C pass).executed entry).isSome).map
      Prod.snd

theorem failed_pairwise : (failed C schedule pass).Pairwise (· < ·) := by
  have hall : (schedule.events.zipIdx.map Prod.snd).Pairwise (· < ·) := by
    rw [List.zipIdx_map_snd]
    exact List.pairwise_lt_range'
  exact hall.sublist (List.filter_sublist.map Prod.snd)

theorem errorOf_isSome_iff {executed : List Nat} {e : Event ζ φ} {i : Nat} {tz : ζ} :
    (pass.errorOf C tz executed (e, i)).isSome = true ↔
      (∃ err, e.isDueWith C pass.now tz = .error err) ∨
        (i ∈ executed ∧ ∃ err, pass.outcome i = .error err) := by
  unfold Pass.errorOf
  cases hcheck : e.isDueWith C pass.now tz with
  | error err => simp
  | ok due =>
    by_cases hi : i ∈ executed
    · cases houtcome : pass.outcome i with
      | ok => simp [hi]
      | error err => simp [hi]
    · simp [hi]

theorem mem_failed_iff {i : Nat} : i ∈ failed C schedule pass ↔ FailsAt C schedule pass i := by
  unfold failed FailsAt
  rw [List.mem_map]
  constructor
  · rintro ⟨⟨e, j⟩, hmem, rfl⟩
    obtain ⟨hentry, herror⟩ := List.mem_filter.mp hmem
    refine ⟨e, List.mk_mem_zipIdx_iff_getElem?.mp hentry, ?_⟩
    exact errorOf_isSome_iff.mp herror
  · rintro ⟨e, he, hfails⟩
    refine ⟨(e, i), List.mem_filter.mpr ⟨List.mk_mem_zipIdx_iff_getElem?.mpr he, ?_⟩, rfl⟩
    exact errorOf_isSome_iff.mpr hfails

/-- A pass returns one error for each event that fails. -/
theorem length_errors : (schedule.runOnce C pass).errors.length = (failed C schedule pass).length := by
  have haccounts : schedule.Accounts C pass schedule.events.length (schedule.runOnce C pass) := by
    rw [← Schedule.reached_length]
    exact Schedule.accounts_reached (Nat.le_refl _)
  rw [haccounts.errors, List.take_of_length_le (by simp), List.length_filterMap_eq_countP,
    List.countP_eq_length_filter, failed, List.length_map]

end

namespace Application

variable {app : Application φ κ}

theorem scheduleRun_eq (C : Croner ζ) (closures : φ → Except TaskError Unit)
    (execute : Code κ → Args → Except String Unit) (schedule : Schedule ζ φ) (pass : Pass) :
    app.scheduleRun C closures execute schedule pass =
      if failed C schedule (app.passOf closures execute schedule pass) = [] then .ok ()
      else .error (toString
        (failed C schedule (app.passOf closures execute schedule pass)).length ++
          " scheduled task(s) failed") := by
  have hnone : (schedule.runOnce C (app.passOf closures execute schedule pass)).errors = [] ↔
      failed C schedule (app.passOf closures execute schedule pass) = [] := by
    rw [← List.length_eq_zero_iff, length_errors, List.length_eq_zero_iff]
  unfold scheduleRun
  simp only [List.isEmpty_iff, hnone, length_errors]

/-- A pass of the scheduler does not depend on what `schedule:run` does. -/
theorem passOf_executing (C : Croner ζ) (closures : φ → Except TaskError Unit)
    (schedule : Schedule ζ φ) (pass : Pass) (base : Code κ → Args → Except String Unit) :
    app.passOf closures (app.executing C closures schedule pass base) schedule pass =
      app.passOf closures base schedule pass := by
  unfold passOf
  congr 1
  funext i
  cases schedule.events[i]? with
  | none => rfl
  | some e =>
    refine execute_congr closures e.task ?_
    intro code hcode
    cases code with
    | scheduleRun => cases hcode
    | _ => rfl

/-- **What `schedule:run` returns**: once the process has started, it succeeds if no event
fails, and else counts those that do, where an event's task is whatever command the
scheduler dispatches, `schedule:run` included. -/
theorem main_scheduleRun (app : Application φ κ) (C : Croner ζ) (parseTz : String → Option ζ)
    (utc : ζ) (env : Environment) (closures : φ → Except TaskError Unit)
    (base : Code κ → Args → Except String Unit) (pass : Pass) (rawArgs : List String) :
    let schedule := app.schedule parseTz utc env
    let execute := app.executing C closures schedule pass base
    ∃ failed : List Nat, failed.Pairwise (· < ·) ∧
      (∀ i, i ∈ failed ↔ FailsAt C schedule (app.passOf closures execute schedule pass) i) ∧
      app.main C parseTz utc env execute ("schedule:run" :: rawArgs) =
        (app.boot C parseTz utc env).map fun _ => .executed
          (if failed = [] then .ok ()
          else .error (toString failed.length ++ " scheduled task(s) failed")) := by
  intro schedule execute
  refine ⟨failed C schedule (app.passOf closures execute schedule pass), failed_pairwise,
    fun i => mem_failed_iff, ?_⟩
  have hrun : app.typed execute ("schedule:run" :: rawArgs) =
      .executed (app.scheduleRun C closures base schedule pass) := rfl
  unfold main
  rw [hrun, scheduleRun_eq, passOf_executing]

end Application

end Kolas.Console

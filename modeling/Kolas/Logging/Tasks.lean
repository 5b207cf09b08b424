import Kolas.Logging.DatabaseSink
import Kolas.Logging.Retention

/-!
# The background tasks of the sinks

A file sink has a task that sweeps its directory at intervals, a database sink and a queue
sink have one that receives from the sink's channel.  A task is stopped by `abort`; a
receiver also ends by itself once its channel is closed and empty, and a retention task
never does.

* `Worker.todo_step`: how much a receiver has still to do once its channel is closed, and
  that every step of it leaves less.
* `Worker.step_of_closed`: and that there is a step until it has returned.
-/

namespace Kolas.Logging

open Kolas.Lib

/-! ### The workers -/

/-- A retention task sleeps, or is about to sweep and keep some files; `removed` records
the run. -/
structure RetentionTask where
  cfg : FileSinkConfig
  sweeping : Option Nat
  removed : List OsName
  printed : List String

/-- Where the publisher of a queue sink is. -/
inductive QueuePhase
  | receiving
  | publishing
  | returned
  deriving DecidableEq, Repr

/-- The channel of a queue sink and its publisher. -/
structure QueueWorker (ε : Type) where
  queue : List ε
  closed : Bool
  phase : QueuePhase
  printed : List String

inductive Worker (ε : Type)
  | retention (task : RetentionTask)
  | database (cfg : DatabaseSinkConfig) (sink : Sink ε)
  | queue (capacity : Nat) (worker : QueueWorker ε)

/-- The steps of the tasks, and of the producers of their channels. -/
inductive TaskAction (ε : Type)
  | wake
  | sweep (contents : Except String Directory) (remove : OsName → RemoveResult)
  | sink (a : SinkAction ε)
  | send (entry : ε)
  | receive (payload : Except String Unit)
  | published (result : Except String Unit)
  | disconnected

variable {ε : Type}

/-- The step is a producer's. -/
def TaskAction.isProducer : TaskAction ε → Bool
  | .sink (.trySend _) => true
  | .sink .count => true
  | .send _ => true
  | _ => false

def RetentionTask.step (t : RetentionTask) : TaskAction ε → Option RetentionTask
  -- without `keep_files` it sleeps again
  | .wake => if t.sweeping.isNone then some { t with sweeping := t.cfg.keepFiles } else none
  | .sweep contents remove =>
    t.sweeping.map fun keep =>
      let s := runRetention t.cfg.path contents t.cfg.filePrefix keep remove
      { t with
        sweeping := none
        removed := t.removed ++ s.removed
        printed := t.printed ++ s.printed }
  | _ => none

def QueueWorker.step (capacity : Nat) (w : QueueWorker ε) : TaskAction ε → Option (QueueWorker ε)
  | .send entry =>
    if w.closed then none
    -- a full channel drops the entry
    else if w.queue.length < capacity then some { w with queue := w.queue ++ [entry] }
    else some w
  | .receive payload =>
    match w.phase, w.queue with
    | .receiving, _ :: rest =>
      match payload with
      | .ok () => some { w with queue := rest, phase := .publishing }
      | .error err => some { w with
          queue := rest
          printed := w.printed ++ ["[kolas/log] QueueSink: serialization error: " ++ err] }
    | _, _ => none
  | .published result =>
    if w.phase = .publishing then
      some { w with
        phase := .receiving
        printed := match result with
          | .ok () => w.printed
          | .error err => w.printed ++ ["[kolas/log] QueueSink: publish to 'null' failed: " ++ err] }
    else none
  | .disconnected =>
    if w.phase = .receiving ∧ w.queue.isEmpty ∧ w.closed then some { w with phase := .returned }
    else none
  | _ => none

/-- A step of a database sink; `timeout_at` asks `recv` first, so that the deadline expires
only while there is nothing to receive and the channel is open. -/
def sinkTaskStep (cfg : DatabaseSinkConfig) (sink : Sink ε) : TaskAction ε → Option (Sink ε)
  | .sink .close => none
  | .sink .expire =>
    if sink.queue.isEmpty ∧ sink.closed = false then sink.step cfg .expire else none
  | .sink a => sink.step cfg a
  | _ => none

def Worker.step : Worker ε → TaskAction ε → Option (Worker ε)
  | .retention task, a => (task.step a).map .retention
  | .database cfg sink, a => (sinkTaskStep cfg sink a).map (.database cfg)
  | .queue capacity worker, a => (worker.step capacity a).map (.queue capacity)

def Worker.isRetention : Worker ε → Bool
  | .retention _ => true
  | _ => false

/-- The task has returned by itself. -/
def Worker.Returned : Worker ε → Prop
  | .retention _ => False
  | .database _ sink => sink.phase = .returned
  | .queue _ worker => worker.phase = .returned

/-- The sender is dropped with its layer. -/
def Worker.dropSender : Worker ε → Worker ε
  | .retention task => .retention task
  | .database cfg sink => .database cfg { sink with closed := true }
  | .queue capacity worker => .queue capacity { worker with closed := true }

/-- The task has a channel, and it is closed. -/
def Worker.Closed : Worker ε → Prop
  | .retention _ => False
  | .database _ sink => sink.closed = true
  | .queue _ worker => worker.closed = true

/-! ### The end of a receiver -/

/-- What the phases of a database sink's worker have still to do, beside the queue. -/
def Phase.todo : Phase → Nat
  | .returned => 0
  | .flushing true => 1
  | .closing => 2
  | .filling => 3
  | .starting => 4
  | .flushing false => 5
  | .deciding => 6

def QueuePhase.todo : QueuePhase → Nat
  | .returned => 0
  | .receiving => 1
  | .publishing => 2

/-- A bound on the steps of a receiver whose channel is closed. -/
def Worker.todo : Worker ε → Nat
  | .retention _ => 0
  | .database _ sink => 4 * sink.queue.length + sink.phase.todo
  | .queue _ worker => 2 * worker.queue.length + worker.phase.todo

/-- A step of the worker of a closed channel is one of the sink, and no deadline expires. -/
theorem step_of_sinkTaskStep {cfg : DatabaseSinkConfig} {sink sink' : Sink ε} {a : TaskAction ε}
    (hclosed : sink.closed = true) (h : sinkTaskStep cfg sink a = some sink') :
    ∃ b, a = .sink b ∧ b ≠ .close ∧ b ≠ .expire ∧ sink.step cfg b = some sink' := by
  cases a with
  | sink b =>
    cases b with
    | close => cases h
    | expire => simp [sinkTaskStep, hclosed] at h
    | trySend entry => exact ⟨_, rfl, nofun, nofun, h⟩
    | count => exact ⟨_, rfl, nofun, nofun, h⟩
    | arm => exact ⟨_, rfl, nofun, nofun, h⟩
    | recv => exact ⟨_, rfl, nofun, nofun, h⟩
    | disconnected => exact ⟨_, rfl, nofun, nofun, h⟩
    | report => exact ⟨_, rfl, nofun, nofun, h⟩
    | flush => exact ⟨_, rfl, nofun, nofun, h⟩
    | delivered answer => exact ⟨_, rfl, nofun, nofun, h⟩
    | exit => exact ⟨_, rfl, nofun, nofun, h⟩
  | wake => cases h
  | sweep contents remove => cases h
  | send entry => cases h
  | receive payload => cases h
  | published result => cases h
  | disconnected => cases h

theorem sink_todo_step {cfg : DatabaseSinkConfig} {sink sink' : Sink ε} {a : TaskAction ε}
    (hclosed : sink.closed = true) (hproducer : a.isProducer = false)
    (h : sinkTaskStep cfg sink a = some sink') : sink'.closed = true ∧
      4 * sink'.queue.length + sink'.phase.todo < 4 * sink.queue.length + sink.phase.todo := by
  obtain ⟨b, rfl, hclose, hexpire, hstep⟩ := step_of_sinkTaskStep hclosed h
  cases Sink.step_cases hstep with
  | accept entry hopen hroom => cases hproducer
  | refuse entry hopen hfull => cases hproducer
  | count hpending => cases hproducer
  | close hopen hpending => exact absurd rfl hclose
  | expire hphase => exact absurd rfl hexpire
  | arm hphase => exact ⟨hclosed, by simp [hphase, Phase.todo]⟩
  | recv entry rest hphase hqueue =>
    rcases sink.received_cases cfg entry rest with ⟨-, heq⟩ | ⟨-, heq⟩
    · rw [heq]
      refine ⟨hclosed, ?_⟩
      simp only [hqueue, hphase, Phase.todo, List.length_cons]
      omega
    · rw [heq]
      refine ⟨hclosed, ?_⟩
      simp only [hqueue, hphase, Phase.todo, List.length_cons]
      omega
  | disconnected hphase hqueue hclosed' => exact ⟨hclosed, by simp [hphase, Phase.todo]⟩
  | report hphase hbatch => exact ⟨hclosed, by simp [hphase, Phase.todo, Sink.swapped]⟩
  | flush hphase hbatch =>
    refine ⟨hclosed, ?_⟩
    rcases hphase with hphase | hphase
    · simp [Sink.flushBegun, Sink.swapped, hphase, Phase.todo]
    · simp [Sink.flushBegun, Sink.swapped, hphase, Phase.todo]
  | delivered answer last hphase =>
    refine ⟨hclosed, ?_⟩
    cases last with
    | false => simp [Sink.flushEnded, hphase, Phase.todo]
    | true => simp [Sink.flushEnded, hphase, Phase.todo]
  | exit hphase hbatch => exact ⟨hclosed, by simp [hphase, Phase.todo]⟩

theorem queue_todo_step {capacity : Nat} {w w' : QueueWorker ε} {a : TaskAction ε}
    (hclosed : w.closed = true) (h : w.step capacity a = some w') : w'.closed = true ∧
      2 * w'.queue.length + w'.phase.todo < 2 * w.queue.length + w.phase.todo := by
  cases a with
  | wake => cases h
  | sweep contents remove => cases h
  | sink b => cases h
  | send entry => simp [QueueWorker.step, hclosed] at h
  | receive payload =>
    simp only [QueueWorker.step] at h
    split at h
    · rename_i entry rest hphase hqueue
      split at h
      · rw [← Option.some.inj h]
        refine ⟨hclosed, ?_⟩
        simp only [hphase, hqueue, QueuePhase.todo, List.length_cons]
        omega
      · rw [← Option.some.inj h]
        refine ⟨hclosed, ?_⟩
        simp only [hphase, hqueue, QueuePhase.todo, List.length_cons]
        omega
    · cases h
  | published result =>
    simp only [QueueWorker.step, Option.ite_none_right_eq_some, Option.some.injEq] at h
    obtain ⟨hphase, rfl⟩ := h
    exact ⟨hclosed, by simp [hphase, QueuePhase.todo]⟩
  | disconnected =>
    simp only [QueueWorker.step, Option.ite_none_right_eq_some, Option.some.injEq] at h
    obtain ⟨⟨hphase, -, -⟩, rfl⟩ := h
    exact ⟨hclosed, by simp [hphase, QueuePhase.todo]⟩

theorem Worker.isRetention_step {w w' : Worker ε} {a : TaskAction ε} (h : w.step a = some w') :
    w'.isRetention = w.isRetention := by
  cases w with
  | retention task =>
    obtain ⟨task', -, rfl⟩ := Option.map_eq_some_iff.mp h
    rfl
  | database cfg sink =>
    obtain ⟨sink', -, rfl⟩ := Option.map_eq_some_iff.mp h
    rfl
  | queue capacity worker =>
    obtain ⟨worker', -, rfl⟩ := Option.map_eq_some_iff.mp h
    rfl

theorem Worker.isRetention_dropSender (w : Worker ε) : w.dropSender.isRetention = w.isRetention := by
  cases w with
  | retention task => rfl
  | database cfg sink => rfl
  | queue capacity worker => rfl

theorem Worker.closed_dropSender {w : Worker ε} (h : w.isRetention = false) :
    w.dropSender.Closed := by
  cases w with
  | retention task => cases h
  | database cfg sink => rfl
  | queue capacity worker => rfl

/-- **Every step of a receiver leaves less to do**, once its channel is closed. -/
theorem Worker.todo_step {w w' : Worker ε} {a : TaskAction ε} (hclosed : w.Closed)
    (hproducer : a.isProducer = false) (h : w.step a = some w') :
    w'.Closed ∧ w'.todo < w.todo := by
  cases w with
  | retention task => exact hclosed.elim
  | database cfg sink =>
    obtain ⟨sink', hsink, rfl⟩ := Option.map_eq_some_iff.mp h
    exact sink_todo_step hclosed hproducer hsink
  | queue capacity worker =>
    obtain ⟨worker', hworker, rfl⟩ := Option.map_eq_some_iff.mp h
    exact queue_todo_step hclosed hworker

theorem sink_step_of_closed (cfg : DatabaseSinkConfig) {sink : Sink ε}
    (hclosed : sink.closed = true) (hphase : sink.phase ≠ .returned) :
    ∃ a, a.isProducer = false ∧ (sinkTaskStep cfg sink a).isSome = true := by
  cases hat : sink.phase with
  | starting => exact ⟨.sink .arm, rfl, by simp [sinkTaskStep, Sink.step, hat]⟩
  | filling =>
    cases hqueue : sink.queue with
    | nil => exact ⟨.sink .disconnected, rfl, by simp [sinkTaskStep, Sink.step, hat, hqueue, hclosed]⟩
    | cons entry rest => exact ⟨.sink .recv, rfl, by simp [sinkTaskStep, Sink.step, hat, hqueue]⟩
  | deciding =>
    by_cases hbatch : sink.batch = []
    · exact ⟨.sink .report, rfl, by simp [sinkTaskStep, Sink.step, hat, hbatch]⟩
    · exact ⟨.sink .flush, rfl, by simp [sinkTaskStep, Sink.step, hat, hbatch]⟩
  | flushing last =>
    exact ⟨.sink (.delivered .notInitialized), rfl, by simp [sinkTaskStep, Sink.step, hat]⟩
  | closing =>
    by_cases hbatch : sink.batch = []
    · exact ⟨.sink .exit, rfl, by simp [sinkTaskStep, Sink.step, hat, hbatch]⟩
    · exact ⟨.sink .flush, rfl, by simp [sinkTaskStep, Sink.step, hat, hbatch]⟩
  | returned => exact absurd hat hphase

theorem queue_step_of_closed (capacity : Nat) {w : QueueWorker ε} (hclosed : w.closed = true)
    (hphase : w.phase ≠ .returned) :
    ∃ a, a.isProducer = false ∧ (w.step capacity a).isSome = true := by
  cases hat : w.phase with
  | receiving =>
    cases hqueue : w.queue with
    | nil => exact ⟨.disconnected, rfl, by simp [QueueWorker.step, hat, hqueue, hclosed]⟩
    | cons entry rest => exact ⟨.receive (.ok ()), rfl, by simp [QueueWorker.step, hat, hqueue]⟩
  | publishing => exact ⟨.published (.ok ()), rfl, by simp [QueueWorker.step, hat]⟩
  | returned => exact absurd hat hphase

/-- **A receiver goes on until it has returned**, once its channel is closed. -/
theorem Worker.step_of_closed {w : Worker ε} (hclosed : w.Closed) (hnot : ¬ w.Returned) :
    ∃ a, a.isProducer = false ∧ (w.step a).isSome = true := by
  cases w with
  | retention task => exact hclosed.elim
  | database cfg sink =>
    obtain ⟨a, hproducer, hstep⟩ := sink_step_of_closed cfg hclosed hnot
    exact ⟨a, hproducer, by rw [Worker.step, Option.isSome_map, hstep]⟩
  | queue capacity worker =>
    obtain ⟨a, hproducer, hstep⟩ := queue_step_of_closed capacity hclosed hnot
    exact ⟨a, hproducer, by rw [Worker.step, Option.isSome_map, hstep]⟩

/-- **A retention task always goes on.** -/
theorem RetentionTask.step_forever (ε : Type) (t : RetentionTask) :
    ∃ a : TaskAction ε, a.isProducer = false ∧ (t.step a).isSome = true := by
  cases hsweeping : t.sweeping with
  | none => exact ⟨.wake, rfl, by simp [step, hsweeping]⟩
  | some keep => exact ⟨.sweep (.error "") fun _ => .notFound, rfl, by simp [step, hsweeping]⟩

end Kolas.Logging

import Kolas.Lib.Run
import Kolas.Logging.Tasks

/-!
# Initialising the logging

`Logging::init_with` of `logging/subscriber.rs` next to the tasks it spawns.  The sinks
are built one after the other, and each task runs from the moment it is spawned.  When
a sink cannot be built, or a subscriber is installed already, the layers built so far
are dropped and with them the senders of the channels, and the handles of the tasks
are dropped, which leaves the tasks running.  Before the subscriber is installed nothing
is sent, since no layer is given an event.

What the file system answers when a sink is built, and whether there is a subscriber, are
given.  The guard's drop is that of `logging/guard.rs`, less how long it waits.

* `Setup.BoundToStop`: a task makes a bounded number of steps, and goes on until it ends.
* `Setup.Closing.boundToStop`: so does a receiver whose channel is closed.
* `Setup.failed_leavesNothing_iff`: after a failure every task stops exactly when no file
  sink was built before it.
* `Setup.ended_of_dropped`: the drop of the guard stops all of them.
-/

namespace Kolas.Logging.Init

open Kolas.Lib

structure QueueSinkConfig where
  driver : String
  channelCapacity : Nat
  deriving DecidableEq, Repr

/-- `SinkConfig`; of a database sink the table beside what its worker reads. -/
inductive SinkConfig
  | console
  | file (cfg : FileSinkConfig)
  | database (table : String) (cfg : DatabaseSinkConfig)
  | queue (cfg : QueueSinkConfig)
  deriving DecidableEq, Repr

def SinkConfig.isFile : SinkConfig → Bool
  | .file _ => true
  | _ => false

inductive LoggingError
  | noSinks
  | alreadyInitialized
  | filePathError (path source : String)
  | invalidTableName (table : String)
  | unknownQueueDriver (driver : String)
  deriving DecidableEq, Repr

/-- `LoggingError::to_string`. -/
def LoggingError.text : LoggingError → String
  | .noSinks => "no sinks configured in logging.toml — logging is disabled"
  | .alreadyInitialized => "subscriber already initialized"
  | .filePathError path source => "invalid file sink path '" ++ path ++ "': " ++ source
  | .invalidTableName table =>
    "database sink: invalid table name '" ++ table ++
      "' (only [A-Za-z0-9_] allowed, must be non-empty)"
  | .unknownQueueDriver driver => "unknown queue driver '" ++ driver ++ "'"

def validateTableName (table : String) : Bool :=
  !table.toList.isEmpty && table.toList.all fun c => c.isAlphanum || c == '_'

/-- `mpsc::channel` panics on no capacity, and on one that is too large. -/
def channelPanics (capacity : Nat) : Bool := capacity == 0 || 2 ^ 61 ≤ capacity

/-- What a builder function comes to. -/
inductive BuildResult
  | layer
  | failed (err : LoggingError)
  | panicked
  deriving DecidableEq, Repr

/-- A sink, and what the file system answers when it is built. -/
abbrev Attempt := SinkConfig × Except String Unit

/-- `build_console_layer`, `build_file_layer`, `build_database_layer` and
`build_queue_layer`. -/
def build : Attempt → BuildResult
  | (.console, _) => .layer
  | (.file _, .ok ()) => .layer
  | (.file cfg, .error source) => .failed (.filePathError cfg.path source)
  | (.database table cfg, _) =>
    if validateTableName table then
      if channelPanics cfg.channelCapacity then .panicked else .layer
    else .failed (.invalidTableName table)
  | (.queue cfg, _) =>
    if cfg.driver = "null" then
      if channelPanics cfg.channelCapacity then .panicked else .layer
    else .failed (.unknownQueueDriver cfg.driver)

variable {ε : Type}

/-- The task that the builder of the sink spawns. -/
def SinkConfig.worker : SinkConfig → Option (Worker ε)
  | .console => none
  | .file cfg => some (.retention ⟨cfg, none, [], []⟩)
  | .database _ cfg => some (.database cfg .init)
  | .queue cfg => some (.queue cfg.channelCapacity ⟨[], false, .receiving, []⟩)

/-- A spawned task. -/
structure Task (ε : Type) where
  worker : Worker ε
  aborted : Bool

namespace Task

def step (t : Task ε) (a : TaskAction ε) : Option (Task ε) :=
  if t.aborted then none else (t.worker.step a).map fun worker => { t with worker }

def abort (t : Task ε) : Task ε := { t with aborted := true }

def dropSender (t : Task ε) : Task ε := { t with worker := t.worker.dropSender }

/-- The task has been stopped, or has returned. -/
def Ended (t : Task ε) : Prop := t.aborted = true ∨ t.worker.Returned

end Task

/-- Where the initialisation is, or the guard it has returned. -/
inductive Phase
  | starting
  | building (rest : List Attempt)
  | failed (err : LoggingError)
  | panicked
  | ready
  | dropping
  | dropped

/-- The subscriber is installed, and is never removed. -/
def Phase.installed : Phase → Bool
  | .ready => true
  | .dropping => true
  | .dropped => true
  | _ => false

/-- The initialisation and the tasks it has spawned. -/
structure Setup (ε : Type) where
  phase : Phase
  tasks : List (Task ε)

inductive Action (ε : Type)
  | next
  | task (i : Nat) (a : TaskAction ε)
  | dropGuard
  | finishDrop

namespace Setup

def init : Setup ε := ⟨.starting, []⟩

/-- `init_with` is left early: the layers and the handles are dropped. -/
def leave (s : Setup ε) (phase : Phase) : Setup ε := ⟨phase, s.tasks.map Task.dropSender⟩

/-- A layer is pushed, and its task runs. -/
def push (s : Setup ε) (sink : SinkConfig) (rest : List Attempt) : Setup ε :=
  ⟨.building rest, s.tasks ++ sink.worker.toList.map fun worker => ⟨worker, false⟩⟩

variable (plan : List Attempt) (installed : Bool)

/-- The next statement of `init_with`. -/
def next (s : Setup ε) : Option (Setup ε) :=
  match s.phase with
  | .starting =>
    some (if plan.isEmpty then s.leave (.failed .noSinks) else { s with phase := .building plan })
  | .building (attempt :: rest) =>
    some (match build attempt with
      | .layer => s.push attempt.1 rest
      | .failed err => s.leave (.failed err)
      | .panicked => s.leave .panicked)
  | .building [] =>
    some (if installed then s.leave (.failed .alreadyInitialized) else { s with phase := .ready })
  | _ => none

/-- A step of a task, or of the producers of its channel, which are called by the
installed subscriber. -/
def taskStep (s : Setup ε) (i : Nat) (a : TaskAction ε) : Option (Setup ε) :=
  if a.isProducer && !s.phase.installed then none
  else s.tasks[i]?.bind fun t => (t.step a).map fun t' => { s with tasks := s.tasks.set i t' }

def step (s : Setup ε) : Action ε → Option (Setup ε)
  | .next => s.next plan installed
  | .task i a => s.taskStep i a
  | .dropGuard =>
    match s.phase with
    | .ready => some ⟨.dropping, s.tasks.map fun t => if t.worker.isRetention then t.abort else t⟩
    | _ => none
  | .finishDrop =>
    match s.phase with
    | .dropping => some ⟨.dropped, s.tasks.map Task.abort⟩
    | _ => none

/-- Every step, with what it needs and what it leaves. -/
inductive Step (s : Setup ε) : Action ε → Setup ε → Prop
  | noSinks (hphase : s.phase = .starting) (hplan : plan = []) :
      Step s .next (s.leave (.failed .noSinks))
  | begin (hphase : s.phase = .starting) (hplan : plan ≠ []) :
      Step s .next { s with phase := .building plan }
  | built (attempt : Attempt) (rest : List Attempt) (hphase : s.phase = .building (attempt :: rest))
      (hbuild : build attempt = .layer) : Step s .next (s.push attempt.1 rest)
  | buildFailed (attempt : Attempt) (rest : List Attempt)
      (hphase : s.phase = .building (attempt :: rest)) (err : LoggingError)
      (hbuild : build attempt = .failed err) : Step s .next (s.leave (.failed err))
  | panicked (attempt : Attempt) (rest : List Attempt)
      (hphase : s.phase = .building (attempt :: rest)) (hbuild : build attempt = .panicked) :
      Step s .next (s.leave .panicked)
  | alreadyInitialized (hphase : s.phase = .building []) (hinstalled : installed = true) :
      Step s .next (s.leave (.failed .alreadyInitialized))
  | install (hphase : s.phase = .building []) (hfree : installed = false) :
      Step s .next { s with phase := .ready }
  | task (i : Nat) (a : TaskAction ε) (t t' : Task ε)
      (hproducer : a.isProducer = true → s.phase.installed = true) (htask : s.tasks[i]? = some t)
      (hstep : t.step a = some t') : Step s (.task i a) { s with tasks := s.tasks.set i t' }
  | dropGuard (hphase : s.phase = .ready) : Step s .dropGuard
      ⟨.dropping, s.tasks.map fun t => if t.worker.isRetention then t.abort else t⟩
  | finishDrop (hphase : s.phase = .dropping) :
      Step s .finishDrop ⟨.dropped, s.tasks.map Task.abort⟩

variable {plan installed} {s s' : Setup ε}

theorem next_cases (h : s.next plan installed = some s') : Step plan installed s .next s' := by
  unfold next at h
  split at h
  · rename_i hphase
    rw [← Option.some.inj h]
    by_cases hplan : plan = []
    · rw [if_pos (List.isEmpty_iff.mpr hplan)]
      exact .noSinks hphase hplan
    · rw [if_neg (fun hempty => hplan (List.isEmpty_iff.mp hempty))]
      exact .begin hphase hplan
  · rename_i attempt rest hphase
    rw [← Option.some.inj h]
    cases hbuild : build attempt with
    | layer => exact .built attempt rest hphase hbuild
    | failed err => exact .buildFailed attempt rest hphase err hbuild
    | panicked => exact .panicked attempt rest hphase hbuild
  · rename_i hphase
    rw [← Option.some.inj h]
    cases installed with
    | true => exact .alreadyInitialized hphase rfl
    | false => exact .install hphase rfl
  · cases h

theorem taskStep_cases {i : Nat} {a : TaskAction ε} (h : s.taskStep i a = some s') :
    Step plan installed s (.task i a) s' := by
  unfold taskStep at h
  split at h
  · cases h
  · rename_i hallowed
    obtain ⟨t, htask, h⟩ := Option.bind_eq_some_iff.mp h
    obtain ⟨t', hstep, rfl⟩ := Option.map_eq_some_iff.mp h
    refine .task i a t t' ?_ htask hstep
    intro hproducer
    simpa [hproducer] using hallowed

/-- **What a step can be.** -/
theorem step_cases {act : Action ε} (h : step plan installed s act = some s') :
    Step plan installed s act s' := by
  cases act with
  | next => exact next_cases h
  | task i a => exact taskStep_cases h
  | dropGuard =>
    simp only [step] at h
    split at h
    · rename_i hphase
      exact Option.some.inj h ▸ .dropGuard hphase
    · cases h
  | finishDrop =>
    simp only [step] at h
    split at h
    · rename_i hphase
      exact Option.some.inj h ▸ .finishDrop hphase
    · cases h

/-! ### What the initialisation leaves behind -/

end Setup

/-- The sinks that are built before the first one that is not, or all. -/
def builtSinks (plan : List Attempt) : List SinkConfig :=
  (plan.takeWhile fun attempt => build attempt = .layer).map Prod.fst

theorem builtSinks_append {done rest : List Attempt} (hdone : ∀ x ∈ done, build x = .layer)
    (hrest : ∀ x ∈ rest.head?, build x ≠ .layer) :
    builtSinks (done ++ rest) = done.map Prod.fst := by
  unfold builtSinks
  rw [List.takeWhile_append_of_pos fun x hx => decide_eq_true (hdone x hx)]
  cases rest with
  | nil => rw [List.takeWhile_nil, List.append_nil]
  | cons x rest =>
    rw [List.takeWhile_cons_of_neg (by simpa using hrest x rfl), List.append_nil]

/-- Some task is one of retention. -/
def HasRetention (tasks : List (Task ε)) : Prop :=
  true ∈ tasks.map fun t => t.worker.isRetention

theorem hasRetention_append (tasks tasks' : List (Task ε)) :
    HasRetention (tasks ++ tasks') ↔ HasRetention tasks ∨ HasRetention tasks' := by
  unfold HasRetention
  rw [List.map_append, List.mem_append]

theorem hasRetention_dropSender (tasks : List (Task ε)) :
    HasRetention (tasks.map Task.dropSender) ↔ HasRetention tasks := by
  unfold HasRetention
  rw [List.map_map]
  simp only [Function.comp_def, Task.dropSender, Worker.isRetention_dropSender]

theorem hasRetention_worker (sink : SinkConfig) :
    HasRetention (sink.worker.toList.map fun worker : Worker ε => (⟨worker, false⟩ : Task ε)) ↔
      sink.isFile = true := by
  cases sink with
  | console => simp [HasRetention, SinkConfig.worker, SinkConfig.isFile]
  | file cfg => simp [HasRetention, SinkConfig.worker, SinkConfig.isFile, Worker.isRetention]
  | database table cfg =>
    simp [HasRetention, SinkConfig.worker, SinkConfig.isFile, Worker.isRetention]
  | queue cfg => simp [HasRetention, SinkConfig.worker, SinkConfig.isFile, Worker.isRetention]

theorem Task.step_eq_some {t t' : Task ε} {a : TaskAction ε} (h : t.step a = some t') :
    t.aborted = false ∧ ∃ worker, t.worker.step a = some worker ∧ t' = { t with worker } := by
  unfold step at h
  split at h
  · cases h
  · rename_i hrunning
    obtain ⟨worker, hworker, rfl⟩ := Option.map_eq_some_iff.mp h
    exact ⟨by simpa using hrunning, worker, hworker, rfl⟩

theorem hasRetention_set {tasks : List (Task ε)} {i : Nat} {t t' : Task ε} {a : TaskAction ε}
    (ht : tasks[i]? = some t) (h : t.step a = some t') :
    HasRetention (tasks.set i t') ↔ HasRetention tasks := by
  obtain ⟨-, worker, hworker, rfl⟩ := Task.step_eq_some h
  unfold HasRetention
  rw [List.map_set, Worker.isRetention_step hworker, set_of_getElem?]
  rw [List.getElem?_map, ht]
  rfl

/-- While the sinks are built: those done have their tasks, and all tasks run. -/
structure Building (plan rest : List Attempt) (tasks : List (Task ε)) : Prop where
  done : ∃ done, plan = done ++ rest ∧ (∀ x ∈ done, build x = .layer) ∧
    (HasRetention tasks ↔ ∃ x ∈ done, x.1.isFile = true)
  running : ∀ t ∈ tasks, t.aborted = false

/-- After a failure: the tasks run, and the receivers' channels are closed. -/
structure Detached (plan : List Attempt) (tasks : List (Task ε)) : Prop where
  retention : HasRetention tasks ↔ ∃ sink ∈ builtSinks plan, sink.isFile = true
  running : ∀ t ∈ tasks, t.aborted = false
  closed : ∀ t ∈ tasks, t.worker.isRetention = false → t.worker.Closed

section

variable {plan rest : List Attempt} {tasks : List (Task ε)}

theorem building_nil (plan : List Attempt) : Building plan plan ([] : List (Task ε)) :=
  ⟨⟨[], rfl, nofun, by simp [HasRetention]⟩, nofun⟩

/-- A failure leaves the tasks of the sinks that were built. -/
theorem Building.leave (h : Building plan rest tasks) (hrest : ∀ x ∈ rest.head?, build x ≠ .layer) :
    Detached plan (tasks.map Task.dropSender) := by
  obtain ⟨done, hplan, hdone, hretention⟩ := h.done
  refine ⟨?_, ?_, ?_⟩
  · rw [hasRetention_dropSender, hretention, hplan, builtSinks_append hdone hrest]
    simp
  · intro t ht
    obtain ⟨u, hu, rfl⟩ := List.mem_map.mp ht
    exact h.running u hu
  · intro t ht hreceiver
    obtain ⟨u, -, rfl⟩ := List.mem_map.mp ht
    exact Worker.closed_dropSender ((Worker.isRetention_dropSender u.worker).symm.trans hreceiver)

/-- A sink that is built adds its task. -/
theorem Building.push {attempt : Attempt} (h : Building plan (attempt :: rest) tasks)
    (hbuild : build attempt = .layer) : Building plan rest
      (tasks ++ attempt.1.worker.toList.map fun worker => ⟨worker, false⟩) := by
  obtain ⟨done, hplan, hdone, hretention⟩ := h.done
  refine ⟨⟨done ++ [attempt], by rw [hplan, List.append_assoc]; rfl, ?_, ?_⟩, ?_⟩
  · intro x hx
    rcases List.mem_append.mp hx with hx | hx
    · exact hdone x hx
    · rw [List.mem_singleton.mp hx, hbuild]
  · rw [hasRetention_append, hretention, hasRetention_worker]
    constructor
    · intro hfile
      rcases hfile with ⟨x, hx, hfile⟩ | hfile
      · exact ⟨x, List.mem_append_left _ hx, hfile⟩
      · exact ⟨attempt, List.mem_append_right _ (List.mem_singleton_self _), hfile⟩
    · intro hfile
      obtain ⟨x, hx, hfile⟩ := hfile
      rcases List.mem_append.mp hx with hx | hx
      · exact .inl ⟨x, hx, hfile⟩
      · exact .inr (List.mem_singleton.mp hx ▸ hfile)
  · intro t ht
    rcases List.mem_append.mp ht with ht | ht
    · exact h.running t ht
    · obtain ⟨worker, -, rfl⟩ := List.mem_map.mp ht
      rfl

theorem forall_mem_set {i : Nat} {t' : Task ε} {P : Task ε → Prop} (h : ∀ u ∈ tasks, P u)
    (ht' : P t') : ∀ u ∈ tasks.set i t', P u := by
  intro u hu
  rcases List.mem_or_eq_of_mem_set hu with hu | rfl
  · exact h u hu
  · exact ht'

variable {i : Nat} {a : TaskAction ε} {t t' : Task ε}

theorem Building.task (h : Building plan rest tasks) (ht : tasks[i]? = some t)
    (hstep : t.step a = some t') : Building plan rest (tasks.set i t') := by
  obtain ⟨done, hplan, hdone, hretention⟩ := h.done
  have hset := hasRetention_set ht hstep
  obtain ⟨hrunning, worker, -, rfl⟩ := Task.step_eq_some hstep
  exact ⟨⟨done, hplan, hdone, hset.trans hretention⟩, forall_mem_set h.running hrunning⟩

theorem Detached.task (h : Detached plan tasks) (hproducer : a.isProducer = false)
    (ht : tasks[i]? = some t) (hstep : t.step a = some t') : Detached plan (tasks.set i t') := by
  have hset := hasRetention_set ht hstep
  have hmem : t ∈ tasks := List.mem_of_getElem? ht
  obtain ⟨hrunning, worker, hworker, rfl⟩ := Task.step_eq_some hstep
  refine ⟨hset.trans h.retention, forall_mem_set h.running hrunning, forall_mem_set h.closed ?_⟩
  intro hreceiver
  rw [Worker.isRetention_step hworker] at hreceiver
  exact (Worker.todo_step (h.closed t hmem hreceiver) hproducer hworker).1

end

namespace Setup

/-- The invariant of the initialisation. -/
def Sound (plan : List Attempt) (s : Setup ε) : Prop :=
  match s.phase with
  | .starting => s.tasks = []
  | .building rest => Building plan rest s.tasks
  | .failed _ => Detached plan s.tasks
  | .dropped => ∀ t ∈ s.tasks, t.aborted = true
  | _ => True

variable {plan : List Attempt} {installed : Bool} {s s' : Setup ε}

/-- **One step keeps the invariant.** -/
theorem Sound.step {act : Action ε} (h : s.Sound plan)
    (hstep : s.step plan installed act = some s') : s'.Sound plan := by
  unfold Sound at h
  cases step_cases hstep with
  | noSinks hphase hplan =>
    rw [hphase] at h
    have hbuilding : Building plan plan s.tasks :=
      (show s.tasks = [] from h) ▸ building_nil plan
    exact hbuilding.leave (by rw [hplan]; exact nofun)
  | begin hphase hplan =>
    rw [hphase] at h
    exact (show s.tasks = [] from h) ▸ building_nil plan
  | built attempt rest hphase hbuild =>
    rw [hphase] at h
    exact h.push hbuild
  | buildFailed attempt rest hphase err hbuild =>
    rw [hphase] at h
    refine h.leave ?_
    intro x hx hlayer
    obtain rfl : attempt = x := Option.some.inj hx
    rw [hbuild] at hlayer
    cases hlayer
  | panicked attempt rest hphase hbuild => trivial
  | alreadyInitialized hphase hinstalled =>
    rw [hphase] at h
    exact h.leave nofun
  | install hphase hfree => trivial
  | task i a t t' hproducer ht htask =>
    unfold Sound
    dsimp only
    cases hphase : s.phase with
    | starting =>
      rw [hphase] at h
      dsimp only at h
      rw [h] at ht
      cases ht
    | building rest =>
      rw [hphase] at h
      exact h.task ht htask
    | failed err =>
      rw [hphase] at h hproducer
      exact h.task (by simpa [Phase.installed] using hproducer) ht htask
    | panicked => trivial
    | ready => trivial
    | dropping => trivial
    | dropped =>
      rw [hphase] at h
      have haborted := h t (List.mem_of_getElem? ht)
      rw [(Task.step_eq_some htask).1] at haborted
      cases haborted
  | dropGuard hphase => trivial
  | finishDrop hphase =>
    intro t ht
    obtain ⟨u, -, rfl⟩ := List.mem_map.mp ht
    rfl

/-- **The invariant holds in every run.** -/
theorem sound_of_reach (h : Reach (step plan installed) (init : Setup ε) s) : s.Sound plan :=
  h.invariant (rfl : (init : Setup ε).tasks = []) fun _ _ _ hs _ hstep => hs.step hstep

/-- **The drop of the guard stops every task.** -/
theorem ended_of_dropped (h : Reach (step plan installed) (init : Setup ε) s)
    (hdropped : s.phase = .dropped) : ∀ t ∈ s.tasks, t.Ended := by
  have hsound := sound_of_reach h
  unfold Sound at hsound
  rw [hdropped] at hsound
  exact fun t ht => .inl (hsound t ht)

/-! ### Being bound to stop -/

/-- The action is a step of the i-th task. -/
def isTask (i : Nat) : Action ε → Bool
  | .task j _ => j == i
  | _ => false

/-- The i-th task has ended. -/
def Ended (s : Setup ε) (i : Nat) : Prop := ∃ t, s.tasks[i]? = some t ∧ t.Ended

/-- Whatever happens from now on, the task makes a bounded number of steps, and there is
always another one until it has ended. -/
structure BoundToStop (plan : List Attempt) (installed : Bool) (s : Setup ε) (i : Nat) : Prop where
  bounded : ∃ k, ∀ acts s', run (step plan installed) s acts = some s' →
    acts.countP (isTask i) ≤ k
  goesOn : ∀ s', Reach (step plan installed) s s' → s'.Ended i ∨
    ∃ a, (step plan installed s' (.task i a)).isSome = true

/-- The initialisation has failed, and the channel of the i-th task is closed. -/
structure Closing (i : Nat) (s : Setup ε) : Prop where
  failed : ∃ err, s.phase = .failed err
  closed : ∃ t, s.tasks[i]? = some t ∧ t.aborted = false ∧ t.worker.Closed

/-- What the i-th task has still to do. -/
def todo (i : Nat) (s : Setup ε) : Nat := (s.tasks[i]?.map fun t => t.worker.todo).getD 0

/-- After a failure, only the tasks make steps. -/
theorem failed_step {act : Action ε} (hfailed : ∃ err, s.phase = .failed err)
    (h : s.step plan installed act = some s') : ∃ i a t t', act = .task i a ∧
      a.isProducer = false ∧ s.tasks[i]? = some t ∧ t.step a = some t' ∧
      s' = { s with tasks := s.tasks.set i t' } := by
  obtain ⟨err, hfailed⟩ := hfailed
  cases step_cases h with
  | task i a t t' hproducer ht hstep =>
    refine ⟨i, a, t, t', rfl, ?_, ht, hstep, rfl⟩
    rw [hfailed] at hproducer
    simpa [Phase.installed] using hproducer
  | noSinks hphase hplan => simp [hfailed] at hphase
  | begin hphase hplan => simp [hfailed] at hphase
  | built attempt rest hphase hbuild => simp [hfailed] at hphase
  | buildFailed attempt rest hphase err hbuild => simp [hfailed] at hphase
  | panicked attempt rest hphase hbuild => simp [hfailed] at hphase
  | alreadyInitialized hphase hinstalled => simp [hfailed] at hphase
  | install hphase hfree => simp [hfailed] at hphase
  | dropGuard hphase => simp [hfailed] at hphase
  | finishDrop hphase => simp [hfailed] at hphase

/-- **One step brings a closed receiver nearer to its end**, if it is its own. -/
theorem Closing.step {i : Nat} {act : Action ε} (hs : s.Closing i)
    (h : s.step plan installed act = some s') :
    s'.Closing i ∧ s'.todo i + (if isTask i act then 1 else 0) ≤ s.todo i := by
  obtain ⟨t, ht, hrunning, hclosed⟩ := hs.closed
  obtain ⟨j, a, u, u', rfl, hproducer, hu, hstep, rfl⟩ := failed_step hs.failed h
  by_cases hj : j = i
  · subst hj
    obtain rfl : u = t := Option.some.inj (hu.symm.trans ht)
    obtain ⟨-, worker, hworker, rfl⟩ := Task.step_eq_some hstep
    obtain ⟨hclosed', hless⟩ := Worker.todo_step hclosed hproducer hworker
    have hlength := (List.getElem?_eq_some_iff.mp hu).1
    refine ⟨⟨hs.failed, _, List.getElem?_set_self hlength, hrunning, hclosed'⟩, ?_⟩
    simp only [todo, List.getElem?_set_self hlength, hu, Option.map_some, Option.getD_some, isTask,
      beq_self_eq_true, if_true]
    omega
  · refine ⟨⟨hs.failed, t, (List.getElem?_set_ne hj).trans ht, hrunning, hclosed⟩, ?_⟩
    simp [todo, isTask, hj]

/-- **A receiver whose channel is closed is bound to stop.** -/
theorem Closing.boundToStop {i : Nat} (hs : s.Closing i) : s.BoundToStop plan installed i := by
  refine ⟨⟨s.todo i, ?_⟩, ?_⟩
  · intro acts s' hrun
    have hle : acts.countP (isTask i) + s'.todo i ≤ s.todo i :=
      countP_le_measure (P := Closing i) (fun _ _ _ hu hstep => hu.step hstep) hs hrun
    omega
  · intro s' hreach
    have hs' : s'.Closing i := hreach.invariant hs fun _ _ _ hu _ hstep => (hu.step hstep).1
    obtain ⟨t, ht, hrunning, hclosed⟩ := hs'.closed
    by_cases hreturned : t.worker.Returned
    · exact .inl ⟨t, ht, .inr hreturned⟩
    · right
      obtain ⟨a, hproducer, hstep⟩ := Worker.step_of_closed hclosed hreturned
      refine ⟨a, ?_⟩
      simp [Setup.step, taskStep, hproducer, ht, Task.step, hrunning, hstep]

/-- The initialisation has failed, and the i-th task is one of retention that runs. -/
structure Lingering (i : Nat) (s : Setup ε) : Prop where
  failed : ∃ err, s.phase = .failed err
  running : ∃ t task, s.tasks[i]? = some t ∧ t.aborted = false ∧ t.worker = .retention task

/-- A retention task has a next step, after which it lingers still. -/
theorem Lingering.step {i : Nat} (plan : List Attempt) (installed : Bool) (hs : s.Lingering i) :
    ∃ a s', Setup.step plan installed s (.task i a) = some s' ∧ s'.Lingering i := by
  obtain ⟨t, task, ht, hrunning, hworker⟩ := hs.running
  obtain ⟨a, hproducer, hstep⟩ := RetentionTask.step_forever ε task
  obtain ⟨task', htask'⟩ := Option.isSome_iff_exists.mp hstep
  have hlength := (List.getElem?_eq_some_iff.mp ht).1
  refine ⟨a, { s with tasks := s.tasks.set i { t with worker := .retention task' } }, ?_,
    hs.failed, _, task', List.getElem?_set_self hlength, hrunning, rfl⟩
  simp [Setup.step, taskStep, hproducer, ht, Task.step, hrunning, hworker, Worker.step, htask']

/-- It makes as many steps as one likes. -/
theorem Lingering.run {i : Nat} (plan : List Attempt) (installed : Bool) (n : Nat)
    (hs : s.Lingering i) : ∃ acts s', Lib.run (Setup.step plan installed) s acts = some s' ∧
      acts.countP (isTask i) = n := by
  induction n generalizing s with
  | zero => exact ⟨[], s, rfl, rfl⟩
  | succ n ih =>
    obtain ⟨a, u, hstep, hu⟩ := hs.step plan installed
    obtain ⟨acts, s', hrun, hcount⟩ := ih hu
    refine ⟨.task i a :: acts, s', ?_, ?_⟩
    · rw [Lib.run, hstep, Option.bind_some, hrun]
    · rw [List.countP_cons, hcount]
      simp [isTask]

theorem Lingering.not_ended {i : Nat} (hs : s.Lingering i) : ¬ s.Ended i := by
  intro hended
  obtain ⟨t, task, ht, hrunning, hworker⟩ := hs.running
  obtain ⟨u, hu, hended⟩ := hended
  obtain rfl : t = u := Option.some.inj (ht.symm.trans hu)
  rcases hended with haborted | hreturned
  · rw [hrunning] at haborted
    cases haborted
  · rw [hworker] at hreturned
    exact hreturned

/-- **A retention task is not bound to stop.** -/
theorem Lingering.not_boundToStop {i : Nat} (hs : s.Lingering i) :
    ¬ s.BoundToStop plan installed i := by
  intro hbound
  obtain ⟨k, hk⟩ := hbound.bounded
  obtain ⟨acts, s', hrun, hcount⟩ := hs.run plan installed (k + 1)
  have hle := hk acts s' hrun
  omega

/-- Nothing is left running: every task has ended or is bound to, and there are no more
sweeps. -/
structure LeavesNothing (plan : List Attempt) (installed : Bool) (s : Setup ε) : Prop where
  stops : ∀ i < s.tasks.length, s.Ended i ∨ s.BoundToStop plan installed i
  noSweep : ∀ s', Reach (step plan installed) s s' → ∀ i contents remove,
    step plan installed s' (.task i (.sweep contents remove)) = none

theorem Lingering.of_isRetention {i : Nat} (hfailed : ∃ err, s.phase = .failed err)
    (hdetached : Detached plan s.tasks) (hi : i < s.tasks.length)
    (hworker : s.tasks[i].worker.isRetention = true) : s.Lingering i := by
  cases hw : s.tasks[i].worker with
  | retention task =>
    exact ⟨hfailed, _, task, List.getElem?_eq_getElem hi,
      hdetached.running _ (List.getElem_mem hi), hw⟩
  | database cfg sink => simp [hw, Worker.isRetention] at hworker
  | queue capacity worker => simp [hw, Worker.isRetention] at hworker

theorem detached_of_failed (h : Reach (step plan installed) (init : Setup ε) s)
    (hfailed : ∃ err, s.phase = .failed err) : Detached plan s.tasks := by
  obtain ⟨err, hfailed⟩ := hfailed
  have hsound := sound_of_reach h
  unfold Sound at hsound
  rw [hfailed] at hsound
  exact hsound

/-- Without file sinks, no task is one of retention. -/
theorem Detached.isRetention_eq_false (h : Detached plan s.tasks)
    (hnone : ∀ sink ∈ builtSinks plan, sink.isFile = false) {t : Task ε} (ht : t ∈ s.tasks) :
    t.worker.isRetention = false := by
  by_contra hretention
  obtain ⟨sink, hsink, hfile⟩ := h.retention.mp
    (List.mem_map.mpr ⟨t, ht, by simpa using hretention⟩)
  rw [hnone sink hsink] at hfile
  cases hfile

/-- A failure is for good. -/
theorem failed_of_reach (h : Reach (step plan installed) s s')
    (hfailed : ∃ err, s.phase = .failed err) : ∃ err, s'.phase = .failed err := by
  refine h.invariant (P := fun u => ∃ err, u.phase = .failed err) hfailed ?_
  intro u v act hu _ hstep
  obtain ⟨i, a, t, t', -, -, -, -, rfl⟩ := failed_step hu hstep
  exact hu

theorem sweep_eq_none {i : Nat} {contents : Except String Directory}
    {remove : OsName → RemoveResult} (h : ∀ t ∈ s.tasks, t.worker.isRetention = false) :
    step plan installed s (.task i (.sweep contents remove)) = none := by
  by_contra hsome
  obtain ⟨s', hstep⟩ := Option.ne_none_iff_exists'.mp hsome
  cases step_cases hstep with
  | task i a t t' hproducer ht htask =>
    have hreceiver := h t (List.mem_of_getElem? ht)
    obtain ⟨-, worker, hworker, -⟩ := Task.step_eq_some htask
    cases hw : t.worker with
    | retention task => simp [hw, Worker.isRetention] at hreceiver
    | database cfg sink => simp [hw, Worker.step, sinkTaskStep] at hworker
    | queue capacity worker => simp [hw, Worker.step, QueueWorker.step] at hworker

/-- **When a failed initialisation leaves nothing running**: exactly when no file sink was
built before the failure. -/
theorem failed_leavesNothing_iff {err : LoggingError}
    (h : Reach (step plan installed) (init : Setup ε) s) (hfailed : s.phase = .failed err) :
    s.LeavesNothing plan installed ↔ ∀ sink ∈ builtSinks plan, sink.isFile = false := by
  have hdetached := detached_of_failed h ⟨err, hfailed⟩
  constructor
  · intro hleaves sink hsink
    by_contra hfile
    obtain ⟨t, ht, hworker⟩ := List.mem_map.mp
      (hdetached.retention.mpr ⟨sink, hsink, by simpa using hfile⟩)
    obtain ⟨i, hi, rfl⟩ := List.mem_iff_getElem.mp ht
    have hlingering := Lingering.of_isRetention ⟨err, hfailed⟩ hdetached hi hworker
    rcases hleaves.stops i hi with hended | hbound
    · exact hlingering.not_ended hended
    · exact hlingering.not_boundToStop hbound
  · intro hnone
    refine ⟨?_, ?_⟩
    · intro i hi
      have hmem : s.tasks[i] ∈ s.tasks := List.getElem_mem hi
      have hclosing : s.Closing i := ⟨⟨err, hfailed⟩, _, List.getElem?_eq_getElem hi,
        hdetached.running _ hmem,
        hdetached.closed _ hmem (Detached.isRetention_eq_false hdetached hnone hmem)⟩
      exact .inr hclosing.boundToStop
    · intro s' hreach i contents remove
      have hdetached' := detached_of_failed (h.trans hreach) (failed_of_reach hreach ⟨err, hfailed⟩)
      exact sweep_eq_none fun t ht => Detached.isRetention_eq_false hdetached' hnone ht

end Setup

/-- A database sink and then a queue that there is no driver for. -/
def receiversOnly : List Attempt :=
  [(.console, .ok ()), (.database "log_entries" ⟨"logs", 1024, 100, 1000⟩, .ok ()),
    (.queue ⟨"redis", 512⟩, .ok ())]

/-- What their initialisation leaves. -/
def receiverLeft : Setup Unit :=
  ⟨.failed (.unknownQueueDriver "redis"),
    [⟨.database ⟨"logs", 1024, 100, 1000⟩ { Sink.init with closed := true }, false⟩]⟩

/-- The worker of the database sink is bound to stop. -/
theorem receiverLeft_leavesNothing : receiverLeft.LeavesNothing receiversOnly false :=
  (Setup.failed_leavesNothing_iff (reach_of_run (show run (Setup.step receiversOnly false) .init
    [.next, .next, .next, .next] = some receiverLeft from rfl)) rfl).mpr (by decide)

/-- A file sink and then a queue that there is no driver for. -/
def fileFirst : List Attempt :=
  [(.file ⟨"./storage/logs", "app", .daily, some 1⟩, .ok ()), (.queue ⟨"redis", 512⟩, .ok ())]

/-- What their initialisation leaves. -/
def retentionLeft : Setup Unit :=
  ⟨.failed (.unknownQueueDriver "redis"),
    [⟨.retention ⟨⟨"./storage/logs", "app", .daily, some 1⟩, none, [], []⟩, false⟩]⟩

/-- The retention task wakes up and removes a file after the failure. -/
theorem retentionLeft_goes_on :
    run (Setup.step fileFirst false) .init [.next, .next, .next] = some retentionLeft ∧
      ¬ retentionLeft.LeavesNothing fileFirst false ∧
      ∃ s t task, run (Setup.step fileFirst false) retentionLeft
          [.task 0 .wake, .task 0 (.sweep (.ok twoLogs) fun _ => .removed)] = some s ∧
        s.tasks[0]? = some t ∧ t.worker = .retention task ∧
        task.removed = [.utf8 "app-error.log"] := by
  refine ⟨rfl, ?_, _, _, _, rfl, rfl, rfl, removed_twoLogs _⟩
  intro hleaves
  have hlingering : retentionLeft.Lingering 0 := ⟨⟨_, rfl⟩, _, _, rfl, rfl, rfl⟩
  rcases hleaves.stops 0 (by decide) with hended | hbound
  · exact hlingering.not_ended hended
  · exact hlingering.not_boundToStop hbound

end Kolas.Logging.Init

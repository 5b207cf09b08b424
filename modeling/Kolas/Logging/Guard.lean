import Kolas.Logging.Delivery

/-!
# Dropping the guard

`LoggingGuard::drop` of `logging/guard.rs` on a multi-thread runtime, next to one
database sink of `Logging::init_with`.  The subscriber keeps the sender, so the
channel is not closed; the guard waits for the background tasks, first those of the
database sinks and then those of the queues, 500 ms for each, and aborts what has
not ended.  Another sink's task may have ended before.

The clock counts milliseconds.  A deadline expires when it has passed and there is
nothing to receive, since `timeout_at` asks `recv` first.

* `Prompt`: once the guard is being dropped, time passes only while the worker
  waits, for an entry, for its deadline or for the database.
* `Covered`: at the moment of the drop, what has been accepted is on its way to a
  single flush that begins before the 500 ms are over.
* `Live`, `Guarded`: the invariants of the worker and of the drop.
* `passed_of_covered`: the drop then returns with everything passed to
  `flush_batch`; `lost_of_not_covered`, in `Logging/Losses.lean`, says that otherwise
  it may not.
-/

namespace Kolas.Logging

open Kolas.Lib

/-- `SinkConfig`, less what the guard does not depend on. -/
inductive SinkConfig
  | console
  | file
  | database (cfg : DatabaseSinkConfig)
  | queue
  deriving DecidableEq, Repr

def SinkConfig.isDatabase : SinkConfig → Bool
  | .database _ => true
  | _ => false

def SinkConfig.isQueue : SinkConfig → Bool
  | .queue => true
  | _ => false

/-- The sinks whose tasks the guard waits for, in this order. -/
def backgroundSinks (sinks : List SinkConfig) : List SinkConfig :=
  sinks.filter SinkConfig.isDatabase ++ sinks.filter SinkConfig.isQueue

/-- The grace period of a task, in milliseconds. -/
def gracePeriod : Nat := 500

/-- Where the drop is: not begun, waiting for the task with this number since that
time, or over. -/
inductive GuardPhase
  | alive
  | waiting (handle since : Nat)
  | dropped
  deriving DecidableEq, Repr

/-- The guard and one database sink; `deadline` is that of the batch being filled.
`droppedAt` and `taken` record the moment of the drop and what had been accepted. -/
structure Process (ε : Type) where
  sink : Sink ε
  clock : Nat
  deadline : Nat
  guard : GuardPhase
  aborted : Bool
  droppedAt : Nat
  taken : List ε

inductive ProcessAction (ε : Type)
  | sink (a : SinkAction ε)
  | elapse (n : Nat)
  | beginDrop
  | handleDone

variable {ε : Type}

namespace Process

def init : Process ε where
  sink := .init
  clock := 0
  deadline := 0
  guard := .alive
  aborted := false
  droppedAt := 0
  taken := []

/-- The guard goes on to the next task, if there is one. -/
def waitNext (handles : Nat) (s : Process ε) (handle : Nat) : Process ε :=
  { s with guard := if handle < handles then .waiting handle s.clock else .dropped }

variable (cfg : DatabaseSinkConfig) (handles index : Nat)

/-- A step of the producers or the worker; the sink is not dropped. -/
def sinkStep (s : Process ε) (a : SinkAction ε) : Option (Process ε) :=
  if s.aborted then
    -- the receiver is gone: a `try_send` fails
    match a with
    | .trySend _ => some { s with sink := s.sink.refuse }
    | .count => (s.sink.step cfg .count).map fun sink => { s with sink }
    | _ => none
  else
    match a with
    | .close => none
    | .arm => (s.sink.step cfg .arm).map fun sink =>
        { s with sink, deadline := s.clock + cfg.flushIntervalMs }
    | .expire =>
      if s.deadline ≤ s.clock ∧ s.sink.queue.isEmpty then
        (s.sink.step cfg .expire).map fun sink => { s with sink }
      else none
    | a => (s.sink.step cfg a).map fun sink => { s with sink }

/-- `handles` tasks are waited for, and this sink's has the number `index`. -/
def step (s : Process ε) : ProcessAction ε → Option (Process ε)
  | .sink a => s.sinkStep cfg a
  | .elapse n => some { s with clock := s.clock + n }
  | .beginDrop =>
    if s.guard = .alive then
      some ({ s with droppedAt := s.clock, taken := s.sink.accepted }.waitNext handles 0)
    else none
  | .handleDone =>
    match s.guard with
    | .waiting handle since =>
      if handle = index then
        if since + gracePeriod ≤ s.clock then
          some ({ s with aborted := true }.waitNext handles (handle + 1))
        else none
      else some (s.waitNext handles (handle + 1))
    | _ => none

/-! ### What is promised, and when -/

variable {cfg handles index} {s : Process ε}

/-- What had been accepted when the drop began has been passed to `flush_batch`. -/
def Passed (s : Process ε) : Prop := s.taken <+: s.sink.flushed.flatten

/-- The worker waits: for the database, or for an entry before its deadline. -/
def Waits (s : Process ε) (n : Nat) : Prop :=
  (∃ last, s.sink.phase = .flushing last) ∨
    (s.sink.phase = .filling ∧ s.sink.queue = [] ∧ s.clock + n ≤ s.deadline)

/-- `left` entries fill a batch, or do not and the batch's deadline is before
`limit`. -/
def InTime (cfg : DatabaseSinkConfig) (left deadline limit : Nat) : Prop :=
  left = cfg.maxBatch ∨ (left < cfg.maxBatch ∧ deadline < limit)

/-- The next `left` entries are on their way to one flush that begins before
`limit`. -/
def Bound (cfg : DatabaseSinkConfig) (s : Process ε) (left limit : Nat) : Prop :=
  left = 0 ∨
    match s.sink.phase with
    | .starting => InTime cfg left (s.clock + cfg.flushIntervalMs) limit
    | .filling => InTime cfg left s.deadline limit
    | .deciding =>
      if s.sink.batch = [] then InTime cfg left (s.clock + cfg.flushIntervalMs) limit
      else left ≤ s.sink.batch.length
    | _ => False

/-- All that has been accepted is on its way to one flush that begins within the
grace period. -/
def Covered (cfg : DatabaseSinkConfig) (s : Process ε) : Prop :=
  Bound cfg s (s.sink.unflushed.length + s.sink.queue.length) (s.clock + gracePeriod)

/-- Time passes only while the worker waits, once the guard is being dropped. -/
def Prompt (s : Process ε) : ProcessAction ε → Prop
  | .elapse n => s.guard = .alive ∨ s.aborted = true ∨ s.Waits n
  | _ => True

/-- The steps are prompt, and the drop begins when everything is covered. -/
def PromptAndCovered (cfg : DatabaseSinkConfig) (s : Process ε) (a : ProcessAction ε) : Prop :=
  s.Prompt a ∧ (a = .beginDrop → s.Covered cfg)

/-- The taken entries that have not been passed on. -/
def left (s : Process ε) : Nat := s.taken.length - s.sink.flushed.flatten.length

/-- What holds while the guard waits and the worker is alive. -/
structure Live (cfg : DatabaseSinkConfig) (s : Process ε) : Prop where
  taken : s.taken <+: s.sink.accepted
  bound : s.Bound cfg s.left (s.droppedAt + gracePeriod)
  early : s.left ≠ 0 → s.clock < s.droppedAt + gracePeriod

theorem Live.passed (hs : s.Live cfg) (hd : s.sink.Delivering cfg) (hleft : s.left = 0) :
    s.Passed := by
  have hflushed : s.sink.flushed.flatten <+: s.sink.accepted := by
    rw [hd.order, List.append_assoc]
    exact List.prefix_append _ _
  refine List.prefix_of_prefix_length_le hs.taken hflushed ?_
  unfold left at hleft
  omega

/-- A step of a worker that is alive. -/
theorem sinkStep_live {s' : Process ε} {a : SinkAction ε} (halive : s.aborted = false)
    (h : s.sinkStep cfg a = some s') :
    ∃ sink deadline, s.sink.step cfg a = some sink ∧ s' = { s with sink, deadline } ∧ a ≠ .close ∧
      (a = .arm → deadline = s.clock + cfg.flushIntervalMs) ∧
      (a ≠ .arm → deadline = s.deadline) ∧
      (a = .expire → s.deadline ≤ s.clock ∧ s.sink.queue = []) := by
  unfold sinkStep at h
  rw [if_neg (by simp [halive])] at h
  cases a with
  | close => cases h
  | arm =>
    obtain ⟨sink, hstep, rfl⟩ := Option.map_eq_some_iff.mp h
    exact ⟨sink, s.clock + cfg.flushIntervalMs, hstep, rfl, by simp, by simp,
      by simp, by simp⟩
  | expire =>
    simp only [Option.ite_none_right_eq_some, List.isEmpty_iff, Option.map_eq_some_iff] at h
    obtain ⟨hready, sink, hstep, rfl⟩ := h
    exact ⟨sink, s.deadline, hstep, rfl, by simp, by simp, by simp,
      fun _ => hready⟩
  | _ =>
    obtain ⟨sink, hstep, rfl⟩ := Option.map_eq_some_iff.mp h
    exact ⟨sink, s.deadline, hstep, rfl, by simp, by simp, by simp, by simp⟩

/-- An entry is received: what is left fills the batch, or does not. -/
theorem Live.received (hs : s.Live cfg) (hphase : s.sink.phase = .filling) (entry : ε)
    (rest : List ε) : ({ s with sink := s.sink.received cfg entry rest } : Process ε).Live cfg := by
  obtain ⟨htaken, hbound, hearly⟩ := hs
  rcases hbound with hzero | hbound
  · exact ⟨htaken, .inl hzero, hearly⟩
  rw [hphase] at hbound
  have hlength : (s.sink.batch ++ [entry]).length = s.sink.batch.length + 1 := List.length_append
  rcases s.sink.received_cases cfg entry rest with ⟨hfull, hnext⟩ | ⟨hroom, hnext⟩
  · have hle : s.left ≤ (s.sink.batch ++ [entry]).length := by
      unfold InTime DatabaseSinkConfig.maxBatch at hbound
      omega
    rw [hnext]
    refine ⟨htaken, .inr ?_, hearly⟩
    dsimp only
    rw [if_neg (by simp)]
    exact hle
  · rw [hnext]
    exact ⟨htaken, .inr hbound, hearly⟩

/-- The deadline passes: what is left is in the batch. -/
theorem Live.expired (hs : s.Live cfg) (hd : s.sink.Delivering cfg)
    (hphase : s.sink.phase = .filling) (hqueue : s.sink.queue = []) :
    ({ s with sink := { s.sink with phase := .deciding } } : Process ε).Live cfg := by
  refine ⟨hs.taken, ?_, hs.early⟩
  have horder := (hd.idle (by simp [hphase])).1
  rw [hqueue, List.append_nil] at horder
  have hlength := hs.taken.length_le
  rw [horder, List.length_append] at hlength
  by_cases hbatch : s.sink.batch = []
  · refine .inl ?_
    rw [hbatch, List.length_nil] at hlength
    show s.taken.length - s.sink.flushed.flatten.length = 0
    omega
  · refine .inr ?_
    dsimp only
    rw [if_neg hbatch]
    show s.taken.length - s.sink.flushed.flatten.length ≤ s.sink.batch.length
    omega

/-- The batch is passed on, and nothing is left. -/
theorem Live.flushBegun (hs : s.Live cfg)
    (hphase : s.sink.phase = .deciding ∨ s.sink.phase = .closing) (hbatch : s.sink.batch ≠ []) :
    ({ s with sink := s.sink.flushBegun } : Process ε).Live cfg := by
  have hzero : s.taken.length - (s.sink.flushed ++ [s.sink.batch]).flatten.length = 0 := by
    have hleft : s.left ≤ s.sink.batch.length := by
      rcases hs.bound with hzero | hbound
      · omega
      · rcases hphase with hphase | hphase
        · simpa only [hphase, if_neg hbatch] using hbound
        · simp [hphase] at hbound
    rw [List.flatten_append, List.length_append, List.flatten_singleton]
    unfold left at hleft
    omega
  exact ⟨hs.taken, .inl hzero, fun h => absurd hzero h⟩

theorem Live.sinkStep {s' : Process ε} {a : SinkAction ε} (hs : s.Live cfg)
    (hd : s.sink.Delivering cfg) (hopen : s.sink.closed = false) (halive : s.aborted = false)
    (h : s.sinkStep cfg a = some s') : s'.Live cfg := by
  obtain ⟨htaken, hbound, hearly⟩ := hs
  obtain ⟨sink, deadline, hstep, rfl, hclose, harm, hother, hexpire⟩ := sinkStep_live halive h
  cases Sink.step_cases hstep with
  | accept entry hopen' hroom =>
    obtain rfl := hother (by simp)
    exact ⟨htaken.trans (List.prefix_append _ _), hbound, hearly⟩
  | refuse entry hopen' hfull =>
    obtain rfl := hother (by simp)
    exact ⟨htaken, hbound, hearly⟩
  | count hpending =>
    obtain rfl := hother (by simp)
    exact ⟨htaken, hbound, hearly⟩
  | close => exact absurd rfl hclose
  | arm hphase =>
    obtain rfl := harm rfl
    refine ⟨htaken, ?_, hearly⟩
    simp only [Bound, hphase] at hbound
    exact hbound
  | recv entry rest hphase hqueue =>
    obtain rfl := hother (by simp)
    exact Live.received ⟨htaken, hbound, hearly⟩ hphase entry rest
  | disconnected hphase hqueue hclosed =>
    rw [hopen] at hclosed
    cases hclosed
  | expire hphase =>
    obtain rfl := hother (by simp)
    exact Live.expired ⟨htaken, hbound, hearly⟩ hd hphase (hexpire rfl).2
  | report hphase hbatch =>
    obtain rfl := hother (by simp)
    refine ⟨htaken, ?_, hearly⟩
    simp only [Bound, hphase, hbatch, if_true] at hbound
    exact hbound
  | flush hphase hbatch =>
    obtain rfl := hother (by simp)
    exact Live.flushBegun ⟨htaken, hbound, hearly⟩ hphase hbatch
  | delivered answer last hphase =>
    obtain rfl := hother (by simp)
    refine ⟨htaken, ?_, hearly⟩
    simp only [Bound, hphase, or_false] at hbound
    exact .inl hbound
  | exit hphase hbatch =>
    obtain rfl := hother (by simp)
    refine ⟨htaken, ?_, hearly⟩
    simp only [Bound, hphase, or_false] at hbound
    exact .inl hbound

theorem Live.elapse {n : Nat} (hs : s.Live cfg) (hd : s.sink.Delivering cfg) (hwaits : s.Waits n) :
    ({ s with clock := s.clock + n } : Process ε).Live cfg := by
  obtain ⟨htaken, hbound, -⟩ := hs
  rcases hwaits with ⟨last, hphase⟩ | ⟨hphase, hqueue, hdeadline⟩
  · simp only [Bound, hphase, or_false] at hbound
    exact ⟨htaken, .inl hbound, fun h => absurd hbound h⟩
  · simp only [Bound, hphase] at hbound
    refine ⟨htaken, ?_, ?_⟩
    · simp only [Bound, hphase]
      exact hbound
    · intro hleft
      show s.clock + n < s.droppedAt + gracePeriod
      -- what is left is in the batch, which is not full
      have horder := (hd.idle (by simp [hphase])).1
      rw [hqueue, List.append_nil] at horder
      have hlength := htaken.length_le
      rw [horder, List.length_append] at hlength
      have hroom := hd.filling hphase
      have hle : s.left ≤ s.sink.batch.length := by
        unfold left
        omega
      rcases hbound with hzero | hfull | ⟨-, hlt⟩
      · exact absurd hzero hleft
      · omega
      · omega

theorem sinkStep_aborted {s' : Process ε} {a : SinkAction ε} (haborted : s.aborted = true)
    (h : s.sinkStep cfg a = some s') :
    ∃ sink, s' = { s with sink } ∧ sink.closed = s.sink.closed ∧ sink.flushed = s.sink.flushed := by
  unfold sinkStep at h
  rw [if_pos haborted] at h
  cases a with
  | trySend entry =>
    obtain rfl := Option.some.inj h
    exact ⟨_, rfl, rfl, rfl⟩
  | count =>
    obtain ⟨sink, hstep, rfl⟩ := Option.map_eq_some_iff.mp h
    cases Sink.step_cases hstep with
    | count hpending => exact ⟨_, rfl, rfl, rfl⟩
  | _ => cases h

theorem closed_of_step {sink sink' : Sink ε} {a : SinkAction ε}
    (h : sink.step cfg a = some sink') (hclose : a ≠ .close) : sink'.closed = sink.closed := by
  cases Sink.step_cases h with
  | close => exact absurd rfl hclose
  | _ => rfl

theorem waitNext_ne_alive (handles : Nat) (s : Process ε) (handle : Nat) :
    (s.waitNext handles handle).guard ≠ .alive := by
  unfold waitNext
  dsimp only
  split
  · exact fun h => by cases h
  · exact fun h => by cases h

/-- What holds in every run. -/
structure Going (cfg : DatabaseSinkConfig) (s : Process ε) : Prop where
  opened : s.sink.closed = false
  delivering : s.aborted = false → s.sink.Delivering cfg
  before : s.guard = .alive → s.aborted = false

theorem going_init (cfg : DatabaseSinkConfig) : (init : Process ε).Going cfg :=
  ⟨rfl, fun _ => Sink.delivering_init cfg, fun _ => rfl⟩

theorem Going.step {s' : Process ε} {a : ProcessAction ε} (hs : s.Going cfg)
    (h : s.step cfg handles index a = some s') : s'.Going cfg := by
  cases a with
  | sink a =>
    cases haborted : s.aborted with
    | true =>
      obtain ⟨sink, rfl, hclosed, -⟩ := sinkStep_aborted haborted h
      refine ⟨hclosed.trans hs.opened, fun halive => ?_, hs.before⟩
      rw [haborted] at halive
      cases halive
    | false =>
      obtain ⟨sink, deadline, hstep, rfl, hclose, -⟩ := sinkStep_live haborted h
      exact ⟨(closed_of_step hstep hclose).trans hs.opened,
        fun _ => (hs.delivering haborted).step hstep, hs.before⟩
  | elapse n =>
    obtain rfl := Option.some.inj h
    exact ⟨hs.opened, hs.delivering, hs.before⟩
  | beginDrop =>
    simp only [Process.step, Option.ite_none_right_eq_some, Option.some.injEq] at h
    obtain ⟨-, rfl⟩ := h
    exact ⟨hs.opened, hs.delivering, fun halive => absurd halive (waitNext_ne_alive _ _ _)⟩
  | handleDone =>
    simp only [Process.step] at h
    split at h
    · split at h
      · rw [Option.ite_none_right_eq_some, Option.some.injEq] at h
        obtain ⟨-, rfl⟩ := h
        exact ⟨hs.opened, fun halive => (by cases halive),
          fun halive => absurd halive (waitNext_ne_alive _ _ _)⟩
      · obtain rfl := Option.some.inj h
        exact ⟨hs.opened, hs.delivering, fun halive => absurd halive (waitNext_ne_alive _ _ _)⟩
    · cases h

/-- The invariant of the drop, for the runs in which it begins when all is covered. -/
structure Guarded (cfg : DatabaseSinkConfig) (index : Nat) (s : Process ε) : Prop
    extends Going cfg s where
  waiting : ∀ handle since, s.guard = .waiting handle since → s.aborted = false →
    handle ≤ index ∧ s.droppedAt ≤ since ∧ s.droppedAt ≤ s.clock
  live : s.guard ≠ .alive → s.aborted = false → s.Live cfg
  after : s.guard = .dropped → s.aborted = true
  passed : s.aborted = true → s.Passed

theorem guarded_init (cfg : DatabaseSinkConfig) (index : Nat) :
    (init : Process ε).Guarded cfg index where
  toGoing := going_init cfg
  waiting := by simp [init]
  live := by simp [init]
  after := by simp [init]
  passed := by simp [init]

theorem waitNext_eq (s : Process ε) {handle : Nat} (hlt : handle < handles) :
    s.waitNext handles handle = { s with guard := .waiting handle s.clock } := by
  rw [waitNext, if_pos hlt]

theorem Guarded.beginDrop (hindex : index < handles) (hs : s.Guarded cfg index)
    (hcovered : s.Covered cfg) (hguard : s.guard = .alive)
    (hgoing : ({ s with droppedAt := s.clock, taken := s.sink.accepted }.waitNext handles 0).Going
      cfg) :
    ({ s with droppedAt := s.clock, taken := s.sink.accepted }.waitNext handles 0).Guarded cfg
      index := by
  have halive := hs.before hguard
  have hleft : s.sink.accepted.length - s.sink.flushed.flatten.length =
      s.sink.unflushed.length + s.sink.queue.length := by
    rw [(hs.delivering halive).order, List.append_assoc, List.length_append, List.length_append]
    omega
  rw [waitNext_eq _ (show 0 < handles by omega)] at hgoing ⊢
  refine ⟨hgoing, ?_, ?_, by simp, ?_⟩
  · intro handle since hwaiting _
    obtain ⟨rfl, rfl⟩ := GuardPhase.waiting.inj hwaiting
    exact ⟨Nat.zero_le index, Nat.le_refl _, Nat.le_refl _⟩
  · intro _ _
    refine ⟨List.prefix_refl _, ?_, fun _ => Nat.lt_add_of_pos_right (by decide)⟩
    unfold Covered at hcovered
    rw [← hleft] at hcovered
    exact hcovered
  · intro haborted
    rw [halive] at haborted
    cases haborted

/-- The guard has waited for this sink's task for the grace period. -/
theorem Guarded.abort (hs : s.Guarded cfg index) {handle since : Nat}
    (hguard : s.guard = .waiting handle since) (hgrace : since + gracePeriod ≤ s.clock) :
    s.Passed := by
  cases haborted : s.aborted with
  | true => exact hs.passed haborted
  | false =>
    obtain ⟨-, hsince, -⟩ := hs.waiting handle since hguard haborted
    have hlive := hs.live (by simp [hguard]) haborted
    refine hlive.passed (hs.delivering haborted) ?_
    by_contra hleft
    have hearly := hlive.early hleft
    omega

/-- The guard goes on to the next task after another one. -/
theorem Guarded.handleDone (hindex : index < handles) (hs : s.Guarded cfg index)
    {handle since : Nat} (hguard : s.guard = .waiting handle since) (hother : handle ≠ index)
    (hgoing : (s.waitNext handles (handle + 1)).Going cfg) :
    (s.waitNext handles (handle + 1)).Guarded cfg index := by
  have hnext : ∀ halive : s.aborted = false, s.waitNext handles (handle + 1) =
      { s with guard := .waiting (handle + 1) s.clock } := by
    intro halive
    obtain ⟨hle, -⟩ := hs.waiting handle since hguard halive
    exact waitNext_eq s (show handle + 1 < handles by omega)
  refine ⟨hgoing, ?_, ?_, ?_, hs.passed⟩
  · intro handle' since' hwaiting halive
    obtain ⟨hle, hsince, hclock⟩ := hs.waiting handle since hguard halive
    rw [hnext halive] at hwaiting
    obtain ⟨rfl, rfl⟩ := GuardPhase.waiting.inj hwaiting
    exact ⟨show handle + 1 ≤ index by omega, hclock, hclock⟩
  · intro _ halive
    obtain ⟨htaken, hbound, hearly⟩ := hs.live (by simp [hguard]) halive
    exact ⟨htaken, hbound, hearly⟩
  · intro hdropped
    by_contra halive
    rw [Bool.not_eq_true] at halive
    rw [hnext halive] at hdropped
    cases hdropped

theorem Guarded.step {s' : Process ε} {a : ProcessAction ε} (hindex : index < handles)
    (hs : s.Guarded cfg index) (hok : s.PromptAndCovered cfg a)
    (h : s.step cfg handles index a = some s') : s'.Guarded cfg index := by
  have hgoing := hs.toGoing.step h
  cases a with
  | sink a =>
    cases haborted : s.aborted with
    | true =>
      obtain ⟨sink, rfl, -, hflushed⟩ := sinkStep_aborted haborted h
      have hdead : s.aborted ≠ false := by simp [haborted]
      refine ⟨hgoing, fun _ _ _ halive => absurd halive hdead, fun _ halive => absurd halive hdead,
        hs.after, fun _ => ?_⟩
      show s.taken <+: sink.flushed.flatten
      rw [hflushed]
      exact hs.passed haborted
    | false =>
      obtain ⟨sink, deadline, hstep, rfl, -⟩ := sinkStep_live haborted h
      refine ⟨hgoing, hs.waiting, fun hguard _ => ?_, hs.after, fun htrue => ?_⟩
      · exact (hs.live hguard haborted).sinkStep (hs.delivering haborted) hs.opened haborted h
      · rw [haborted] at htrue
        cases htrue
  | elapse n =>
    obtain rfl := Option.some.inj h
    refine ⟨hgoing, ?_, ?_, hs.after, hs.passed⟩
    · intro handle since hguard halive
      obtain ⟨hle, hsince, hclock⟩ := hs.waiting handle since hguard halive
      exact ⟨hle, hsince, Nat.le_add_right_of_le hclock⟩
    · intro hguard halive
      rcases hok.1 with hguard' | haborted | hwaits
      · exact absurd hguard' hguard
      · rw [halive] at haborted
        cases haborted
      · exact (hs.live hguard halive).elapse (hs.delivering halive) hwaits
  | beginDrop =>
    simp only [Process.step, Option.ite_none_right_eq_some, Option.some.injEq] at h
    obtain ⟨hguard, rfl⟩ := h
    exact hs.beginDrop hindex (hok.2 rfl) hguard hgoing
  | handleDone =>
    simp only [Process.step] at h
    split at h
    · rename_i handle since hguard
      by_cases hours : handle = index
      · rw [if_pos hours, Option.ite_none_right_eq_some, Option.some.injEq] at h
        obtain ⟨hgrace, rfl⟩ := h
        exact ⟨hgoing, by simp [waitNext], by simp [waitNext], fun _ => rfl,
          fun _ => hs.abort hguard hgrace⟩
      · rw [if_neg hours, Option.some.injEq] at h
        obtain rfl := h
        exact hs.handleDone hindex hguard hours hgoing
    · cases h

theorem guarded_of_reaches (hindex : index < handles)
    (h : Reaches (Process.step cfg handles index) (PromptAndCovered cfg) init s) :
    s.Guarded cfg index :=
  h.invariant (guarded_init cfg index) fun _ _ _ hu hok hstep => hu.step hindex hok hstep

/-- **The drop flushes the sink** in every prompt run in which it begins when all
that has been accepted is covered. -/
theorem passed_of_covered {sinks : List SinkConfig} {index : Nat}
    (hsink : (backgroundSinks sinks)[index]? = some (.database cfg))
    (hrun : Reaches (Process.step cfg (backgroundSinks sinks).length index) (PromptAndCovered cfg)
      init s) (hdropped : s.guard = .dropped) : s.Passed := by
  have hs := guarded_of_reaches (List.getElem?_eq_some_iff.mp hsink).1 hrun
  exact hs.passed (hs.after hdropped)

/-- A console sink and a database sink with batches of two. -/
def twoSinks : List SinkConfig := [.console, .database Sink.pairs]

/-- The drop begins with an entry in the batch and the second one in the channel. -/
def coveredDrop : List (ProcessAction Nat) :=
  [.sink (.trySend 1), .sink .arm, .elapse 400, .sink .recv, .sink (.trySend 2), .beginDrop,
    .sink .recv, .sink .flush, .elapse 500, .handleDone]

theorem passed_coveredDrop : ∃ s, run (Process.step Sink.pairs 1 0) init coveredDrop = some s ∧
    s.guard = .dropped ∧ s.taken = [1, 2] ∧ s.Passed := by
  obtain ⟨s, hs, hdropped, htaken⟩ : ∃ s, run (Process.step Sink.pairs 1 0) init coveredDrop = some s ∧
      s.guard = .dropped ∧ s.taken = [1, 2] := ⟨_, rfl, rfl, rfl⟩
  have hother : ∀ (s : Process Nat) (a : SinkAction Nat),
      s.PromptAndCovered Sink.pairs (.sink a) := fun _ _ => ⟨trivial, fun h => by cases h⟩
  have hok : RunOk (Process.step Sink.pairs 1 0) (PromptAndCovered Sink.pairs) init coveredDrop := by
    apply RunOk.cons (hother _ _) rfl
    apply RunOk.cons (hother _ _) rfl
    apply RunOk.cons ⟨.inl rfl, fun h => by cases h⟩ rfl
    apply RunOk.cons (hother _ _) rfl
    apply RunOk.cons (hother _ _) rfl
    -- the two entries fill a batch
    apply RunOk.cons ⟨trivial, fun _ => .inr (.inl rfl)⟩ rfl
    apply RunOk.cons (hother _ _) rfl
    apply RunOk.cons (hother _ _) rfl
    -- the worker waits for the database
    apply RunOk.cons ⟨.inr (.inr (.inl ⟨false, rfl⟩)), fun h => by cases h⟩ rfl
    exact ⟨⟨trivial, fun h => by cases h⟩, fun _ _ => trivial⟩
  have hsink : (backgroundSinks twoSinks)[0]? = some (.database Sink.pairs) := rfl
  exact ⟨s, hs, hdropped, htaken, passed_of_covered hsink (reaches_of_run hs hok) hdropped⟩

/-- Batches of fifty, flushed every second. -/
def fifties : DatabaseSinkConfig := ⟨"primary", 1024, 50, 1000⟩

/-- The drop begins with one entry in the batch. -/
def earlyDrop : List (ProcessAction Nat) :=
  [.sink (.trySend 1), .sink .arm, .sink .recv, .beginDrop, .elapse 500, .handleDone]

theorem not_passed_of_dropped : ¬ ∀ (sinks : List SinkConfig) (cfg : DatabaseSinkConfig)
    (index : Nat), (backgroundSinks sinks)[index]? = some (.database cfg) →
    ∀ s : Process Nat, Reach (Process.step cfg (backgroundSinks sinks).length index) init s →
      s.guard = .dropped → s.Passed := by
  intro h
  obtain ⟨s, hs, hdropped, htaken, hflushed⟩ : ∃ s,
      run (Process.step fifties 1 0) init earlyDrop = some s ∧
        s.guard = .dropped ∧ s.taken = [1] ∧ s.sink.flushed = [] := ⟨_, rfl, rfl, rfl, rfl⟩
  have hpassed := h [.database fifties] fifties 0 rfl s (reach_of_run hs) hdropped
  rw [Passed, htaken, hflushed] at hpassed
  exact absurd hpassed (by decide)

end Process

end Kolas.Logging

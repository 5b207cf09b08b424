import Kolas.Lib.Run
import Mathlib.Algebra.GroupWithZero.Nat

/-!
# The database sink

`logging/sink/database.rs` as a machine: the producers' `on_event`, from the
`try_send` on, and the worker of `spawn_db_worker`.  A `try_send` that fails and
the increment of the counter that follows are two steps, and so are the swap of the
counter at the start of `flush_batch` and the rest of it.  The sink can only be
dropped, and the channel closed, when no `on_event` is under way.

The machine has no clock: the deadline of a batch may expire at any time.  What the
database answers is part of an action.  `accepted`, `failed`, `flushed` and
`deliveries` only record the run.

* `step_cases`: what every step needs and leaves.
* `deliver_accounts`: `flush_batch` tries to insert every entry of a batch once, or
  reports their number as lost.
-/

namespace Kolas.Logging

open Kolas.Lib

/-- The part of `DatabaseSinkConfig` that the worker reads. -/
structure DatabaseSinkConfig where
  connection : String
  channelCapacity : Nat
  batchSize : Nat
  flushIntervalMs : Nat
  deriving DecidableEq, Repr

/-- What is printed on the standard error. -/
inductive Printed
  | dropped (count : Nat)
  | unavailable (connection err : String) (lost : Nat)
  | notInitialized (lost : Nat)
  | insertFailed (err : String)
  deriving DecidableEq, Repr

def Printed.text : Printed → String
  | .dropped count => "[kolas/log] " ++ toString count ++ " log events dropped (channel full)"
  | .unavailable connection err lost =>
    "[kolas/log] DatabaseSink: connection '" ++ connection ++ "' unavailable: " ++ err ++ " — " ++
      toString lost ++ " entries lost"
  | .notInitialized lost =>
    "[kolas/log] DatabaseSink: Database not initialized, skipping flush (" ++ toString lost ++
      " entries lost)"
  | .insertFailed err => "[kolas/log] DatabaseSink: INSERT failed: " ++ err

/-- The entries a line reports as lost. -/
def Printed.lost : Printed → Nat
  | .unavailable _ _ lost => lost
  | .notInitialized lost => lost
  | _ => 0

/-- The drops a line reports. -/
def Printed.droppedCount : Printed → Nat
  | .dropped count => count
  | _ => 0

/-- A swapped-out counter is reported unless it is zero. -/
def reportDropped (count : Nat) : List Printed := if count > 0 then [.dropped count] else []

/-! ### `flush_batch` after the swap -/

/-- What the database answers: whether there is one, whether it has a pool for the
connection, and what the inserts give, by their order. -/
inductive DatabaseAnswer
  | notInitialized
  | unavailable (err : String)
  | available (insert : Nat → Except String Unit)

/-- What `flush_batch` does with a batch: the entries it tries to insert, in order,
what it prints, how long it sleeps, and the back-off it leaves. -/
structure Delivery (ε : Type) where
  attempts : List ε
  printed : List Printed
  waitSecs : Nat
  backoffSecs : Nat

variable {ε : Type}

/-- One insert. -/
def insertEntry (insert : Nat → Except String Unit) (acc : List ε × List Printed) (entry : ε) :
    List ε × List Printed :=
  (acc.1 ++ [entry], match insert acc.1.length with
    | .ok () => acc.2
    | .error err => acc.2 ++ [.insertFailed err])

def deliver (cfg : DatabaseSinkConfig) (batch : List ε) (backoffSecs : Nat) :
    DatabaseAnswer → Delivery ε
  | .notInitialized => ⟨[], [.notInitialized batch.length], 0, backoffSecs⟩
  | .unavailable err => ⟨[], [.unavailable cfg.connection err batch.length], min backoffSecs 30,
      min (backoffSecs * 2) 30⟩
  | .available insert =>
    let done := batch.foldl (insertEntry insert) ([], [])
    ⟨done.1, done.2, 0, 1⟩

/-- Every entry is tried once, or the number of the entries is reported as lost. -/
def Delivery.Accounts (d : Delivery ε) (batch : List ε) : Prop :=
  (d.attempts = batch ∧ (d.printed.map Printed.lost).sum = 0) ∨
    (d.attempts = [] ∧ d.printed.map Printed.lost = [batch.length])

theorem foldl_insertEntry (insert : Nat → Except String Unit) (batch : List ε)
    (acc : List ε × List Printed) (hacc : (acc.2.map Printed.lost).sum = 0) :
    (batch.foldl (insertEntry insert) acc).1 = acc.1 ++ batch ∧
      ((batch.foldl (insertEntry insert) acc).2.map Printed.lost).sum = 0 := by
  induction batch generalizing acc with
  | nil => exact ⟨(List.append_nil _).symm, hacc⟩
  | cons entry batch ih =>
    have hnext : ((insertEntry insert acc entry).2.map Printed.lost).sum = 0 := by
      unfold insertEntry
      cases insert acc.1.length with
      | ok _ => exact hacc
      | error err => simpa [Printed.lost] using hacc
    obtain ⟨hattempts, hlost⟩ := ih _ hnext
    refine ⟨?_, hlost⟩
    rw [List.foldl_cons, hattempts]
    simp [insertEntry]

/-- **`flush_batch` accounts for every entry of its batch.** -/
theorem deliver_accounts (cfg : DatabaseSinkConfig) (batch : List ε) (backoffSecs : Nat)
    (answer : DatabaseAnswer) : (deliver cfg batch backoffSecs answer).Accounts batch := by
  cases answer with
  | notInitialized => exact .inr ⟨rfl, rfl⟩
  | unavailable err => exact .inr ⟨rfl, rfl⟩
  | available insert => exact .inl (foldl_insertEntry insert batch ([], []) rfl)

/-! ### The machine -/

/-- Where the worker is: before a round, filling the batch, after that, in
`flush_batch`, on the way out because the channel is closed, or returned. -/
inductive Phase
  | starting
  | filling
  | deciding
  | flushing (last : Bool)
  | closing
  | returned
  deriving DecidableEq, Repr

/-- The channel, the counter and the worker; `pending` is the number of producers
whose `try_send` has failed and who have not counted it yet. -/
structure Sink (ε : Type) where
  queue : List ε
  closed : Bool
  pending : Nat
  counter : Nat
  phase : Phase
  batch : List ε
  backoffSecs : Nat
  printed : List Printed
  accepted : List ε
  failed : Nat
  flushed : List (List ε)
  deliveries : List (Delivery ε)

/-- The steps of the producers, the drop of the sink, and the steps of the worker. -/
inductive SinkAction (ε : Type)
  | trySend (entry : ε)
  | count
  | close
  | arm
  | recv
  | disconnected
  | expire
  | report
  | flush
  | delivered (answer : DatabaseAnswer)
  | exit

namespace Sink

def init : Sink ε where
  queue := []
  closed := false
  pending := 0
  counter := 0
  phase := .starting
  batch := []
  backoffSecs := 1
  printed := []
  accepted := []
  failed := 0
  flushed := []
  deliveries := []

variable (cfg : DatabaseSinkConfig) (s : Sink ε)

/-- A successful `try_send`. -/
def accept (entry : ε) : Sink ε :=
  { s with queue := s.queue ++ [entry], accepted := s.accepted ++ [entry] }

/-- A failed `try_send`. -/
def refuse : Sink ε := { s with pending := s.pending + 1, failed := s.failed + 1 }

/-- `fetch_add`. -/
def counted : Sink ε := { s with pending := s.pending - 1, counter := s.counter + 1 }

/-- An entry is received, and the batch may be full. -/
def received (entry : ε) (rest : List ε) : Sink ε :=
  { s with
    queue := rest
    batch := s.batch ++ [entry]
    phase := if cfg.batchSize ≤ (s.batch ++ [entry]).length then .deciding else .filling }

/-- The batch is full, or it is not. -/
theorem received_cases (entry : ε) (rest : List ε) :
    (cfg.batchSize ≤ s.batch.length + 1 ∧ s.received cfg entry rest =
      { s with queue := rest, batch := s.batch ++ [entry], phase := .deciding }) ∨
    (s.batch.length + 1 < cfg.batchSize ∧ s.received cfg entry rest =
      { s with queue := rest, batch := s.batch ++ [entry], phase := .filling }) := by
  have hlength : (s.batch ++ [entry]).length = s.batch.length + 1 := List.length_append
  unfold received
  by_cases hfull : cfg.batchSize ≤ (s.batch ++ [entry]).length
  · exact .inl ⟨hlength ▸ hfull, by rw [if_pos hfull]⟩
  · exact .inr ⟨by omega, by rw [if_neg hfull]⟩

/-- The counter is swapped out and reported. -/
def swapped : Sink ε := { s with counter := 0, printed := s.printed ++ reportDropped s.counter }

/-- `flush_batch` is called. -/
def flushBegun : Sink ε :=
  { s.swapped with
    flushed := s.flushed ++ [s.batch]
    phase := .flushing (decide (s.phase = .closing)) }

/-- `flush_batch` is over; the batch is cleared, or dropped with the task. -/
def flushEnded (last : Bool) (answer : DatabaseAnswer) : Sink ε :=
  { s with
    batch := []
    backoffSecs := (deliver cfg s.batch s.backoffSecs answer).backoffSecs
    printed := s.printed ++ (deliver cfg s.batch s.backoffSecs answer).printed
    deliveries := s.deliveries ++ [deliver cfg s.batch s.backoffSecs answer]
    phase := if last then .returned else .starting }

def step (s : Sink ε) : SinkAction ε → Option (Sink ε)
  | .trySend entry =>
    if s.closed then none
    else if s.queue.length < cfg.channelCapacity then some (s.accept entry)
    else some s.refuse
  | .count => if 0 < s.pending then some s.counted else none
  | .close => if s.closed = false ∧ s.pending = 0 then some { s with closed := true } else none
  | .arm => if s.phase = .starting then some { s with phase := .filling } else none
  | .recv =>
    match s.queue with
    | entry :: rest => if s.phase = .filling then some (s.received cfg entry rest) else none
    | [] => none
  | .disconnected =>
    if s.phase = .filling ∧ s.queue.isEmpty ∧ s.closed then some { s with phase := .closing }
    else none
  | .expire => if s.phase = .filling then some { s with phase := .deciding } else none
  | .report =>
    if s.phase = .deciding ∧ s.batch.isEmpty then some { s.swapped with phase := .starting }
    else none
  | .flush =>
    if (s.phase = .deciding ∨ s.phase = .closing) ∧ ¬ s.batch.isEmpty then some s.flushBegun
    else none
  | .delivered answer =>
    match s.phase with
    | .flushing last => some (s.flushEnded cfg last answer)
    | _ => none
  | .exit =>
    if s.phase = .closing ∧ s.batch.isEmpty then some { s with phase := .returned } else none

/-- Every step, with what it needs and what it leaves. -/
inductive Step : SinkAction ε → Sink ε → Prop
  | accept (entry : ε) (hopen : s.closed = false)
      (hroom : s.queue.length < cfg.channelCapacity) : Step (.trySend entry) (s.accept entry)
  | refuse (entry : ε) (hopen : s.closed = false)
      (hfull : cfg.channelCapacity ≤ s.queue.length) : Step (.trySend entry) s.refuse
  | count (hpending : 0 < s.pending) : Step .count s.counted
  | close (hopen : s.closed = false) (hpending : s.pending = 0) :
      Step .close { s with closed := true }
  | arm (hphase : s.phase = .starting) : Step .arm { s with phase := .filling }
  | recv (entry : ε) (rest : List ε) (hphase : s.phase = .filling)
      (hqueue : s.queue = entry :: rest) : Step .recv (s.received cfg entry rest)
  | disconnected (hphase : s.phase = .filling) (hqueue : s.queue = [])
      (hclosed : s.closed = true) : Step .disconnected { s with phase := .closing }
  | expire (hphase : s.phase = .filling) : Step .expire { s with phase := .deciding }
  | report (hphase : s.phase = .deciding) (hbatch : s.batch = []) :
      Step .report { s.swapped with phase := .starting }
  | flush (hphase : s.phase = .deciding ∨ s.phase = .closing) (hbatch : s.batch ≠ []) :
      Step .flush s.flushBegun
  | delivered (answer : DatabaseAnswer) (last : Bool) (hphase : s.phase = .flushing last) :
      Step (.delivered answer) (s.flushEnded cfg last answer)
  | exit (hphase : s.phase = .closing) (hbatch : s.batch = []) :
      Step .exit { s with phase := .returned }

variable {cfg} {s}

/-- **What a step can be.** -/
theorem step_cases {s' : Sink ε} {a : SinkAction ε} (h : step cfg s a = some s') :
    Step cfg s a s' := by
  cases a with
  | trySend entry =>
    simp only [step] at h
    split at h
    · cases h
    · rename_i hopen
      rw [Bool.not_eq_true] at hopen
      split at h
      · rename_i hroom
        exact Option.some.inj h ▸ .accept entry hopen hroom
      · rename_i hfull
        exact Option.some.inj h ▸ .refuse entry hopen (Nat.not_lt.mp hfull)
  | recv =>
    simp only [step] at h
    split at h
    · rename_i entry rest hqueue
      simp only [Option.ite_none_right_eq_some, Option.some.injEq] at h
      exact h.2 ▸ .recv entry rest h.1 hqueue
    · cases h
  | delivered answer =>
    simp only [step] at h
    split at h
    · rename_i last hphase
      exact Option.some.inj h ▸ .delivered answer last hphase
    · cases h
  | count =>
    simp only [step, Option.ite_none_right_eq_some, Option.some.injEq] at h
    exact h.2 ▸ .count h.1
  | close =>
    simp only [step, Option.ite_none_right_eq_some, Option.some.injEq] at h
    exact h.2 ▸ .close h.1.1 h.1.2
  | arm =>
    simp only [step, Option.ite_none_right_eq_some, Option.some.injEq] at h
    exact h.2 ▸ .arm h.1
  | disconnected =>
    simp only [step, Option.ite_none_right_eq_some, Option.some.injEq, List.isEmpty_iff] at h
    exact h.2 ▸ .disconnected h.1.1 h.1.2.1 h.1.2.2
  | expire =>
    simp only [step, Option.ite_none_right_eq_some, Option.some.injEq] at h
    exact h.2 ▸ .expire h.1
  | report =>
    simp only [step, Option.ite_none_right_eq_some, Option.some.injEq, List.isEmpty_iff] at h
    exact h.2 ▸ .report h.1.1 h.1.2
  | flush =>
    simp only [step, Option.ite_none_right_eq_some, Option.some.injEq, List.isEmpty_iff] at h
    exact h.2 ▸ .flush h.1.1 h.1.2
  | exit =>
    simp only [step, Option.ite_none_right_eq_some, Option.some.injEq, List.isEmpty_iff] at h
    exact h.2 ▸ .exit h.1.1 h.1.2

end Sink

end Kolas.Logging

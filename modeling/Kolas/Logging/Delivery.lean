import Kolas.Logging.DatabaseSink
import Mathlib.Data.List.Forall2

/-!
# What the worker delivers

The batch is cleared in one place only, and a round may end in three ways.  The
invariant is that what the channel has accepted is what the batches passed to
`flush_batch` hold, then the batch being filled, then what is still in the channel
(`Delivering`).

* `Delivering.step`: every step keeps it.
* `delivered_of_returned`: when the worker has returned, everything accepted has
  been passed on, once and in order, in batches that are neither empty nor too long.
-/

namespace Kolas.Logging

open Kolas.Lib

variable {ε : Type} {cfg : DatabaseSinkConfig}

/-- The longest a batch gets: one entry is received before the length is looked at. -/
def DatabaseSinkConfig.maxBatch (cfg : DatabaseSinkConfig) : Nat := max cfg.batchSize 1

namespace Sink

/-- The entries received and not passed to `flush_batch` yet. -/
def unflushed (s : Sink ε) : List ε :=
  match s.phase with
  | .flushing _ => []
  | _ => s.batch

/-- The worker has seen the channel closed and empty. -/
def Leaving (s : Sink ε) : Prop :=
  s.phase = .closing ∨ s.phase = .flushing true ∨ s.phase = .returned

/-- The batch `flush_batch` is working on, if it is. -/
def underWay (s : Sink ε) : List (List ε) :=
  match s.phase with
  | .flushing _ => [s.batch]
  | _ => []

theorem idle (s : Sink ε) (h : ∀ last, s.phase ≠ .flushing last) :
    s.unflushed = s.batch ∧ s.underWay = [] := by
  unfold unflushed underWay
  cases hphase : s.phase with
  | flushing last => exact absurd hphase (h last)
  | _ => exact ⟨rfl, rfl⟩

structure Delivering (cfg : DatabaseSinkConfig) (s : Sink ε) : Prop where
  order : s.accepted = s.flushed.flatten ++ s.unflushed ++ s.queue
  sizes : ∀ batch ∈ s.flushed, batch ≠ [] ∧ batch.length ≤ cfg.maxBatch
  room : s.batch.length ≤ cfg.maxBatch
  filling : s.phase = .filling → s.batch.length < cfg.maxBatch
  cleared : s.phase = .starting ∨ s.phase = .returned → s.batch = []
  leaving : s.Leaving → s.queue = [] ∧ s.closed = true
  accounted : ∃ done, s.flushed = done ++ s.underWay ∧
    List.Forall₂ (fun batch (d : Delivery ε) => d.Accounts batch) done s.deliveries

theorem maxBatch_pos (cfg : DatabaseSinkConfig) : 0 < cfg.maxBatch :=
  Nat.lt_of_lt_of_le Nat.one_pos (Nat.le_max_right cfg.batchSize 1)

theorem delivering_init (cfg : DatabaseSinkConfig) : (init : Sink ε).Delivering cfg where
  order := rfl
  sizes := by simp [init]
  room := Nat.zero_le _
  filling := by simp [init]
  cleared _ := rfl
  leaving := by simp [Leaving, init]
  accounted := ⟨[], rfl, .nil⟩

/-- Between two calls of `flush_batch` all of the batch is still to be flushed, and
all that was flushed is accounted for. -/
theorem Delivering.idle {s : Sink ε} (hs : s.Delivering cfg)
    (h : ∀ last, s.phase ≠ .flushing last) :
    s.accepted = s.flushed.flatten ++ s.batch ++ s.queue ∧
      List.Forall₂ (fun batch (d : Delivery ε) => d.Accounts batch) s.flushed s.deliveries := by
  obtain ⟨hunflushed, hunderWay⟩ := s.idle h
  obtain ⟨done, hdone, haccounts⟩ := hs.accounted
  have horder := hs.order
  rw [hunflushed] at horder
  rw [hunderWay, List.append_nil] at hdone
  exact ⟨horder, hdone ▸ haccounts⟩

theorem Delivering.received {s : Sink ε} (hs : s.Delivering cfg) (hphase : s.phase = .filling)
    {entry : ε} {rest : List ε} (hqueue : s.queue = entry :: rest) :
    (s.received cfg entry rest).Delivering cfg := by
  obtain ⟨horder, haccounts⟩ := hs.idle (by simp [hphase])
  have hlt := hs.filling hphase
  have hlength : (s.batch ++ [entry]).length = s.batch.length + 1 := List.length_append
  have hmoved : s.accepted = s.flushed.flatten ++ (s.batch ++ [entry]) ++ rest := by
    rw [horder, hqueue]
    simp
  rcases s.received_cases cfg entry rest with ⟨hfull, hnext⟩ | ⟨hroom, hnext⟩
  · rw [hnext]
    refine ⟨hmoved, hs.sizes, ?_, by simp, by simp, by simp [Leaving], s.flushed,
      (List.append_nil _).symm, haccounts⟩
    show (s.batch ++ [entry]).length ≤ cfg.maxBatch
    omega
  · have hroom' : (s.batch ++ [entry]).length < cfg.maxBatch :=
      hlength ▸ Nat.lt_of_lt_of_le hroom (Nat.le_max_left cfg.batchSize 1)
    rw [hnext]
    exact ⟨hmoved, hs.sizes, Nat.le_of_lt hroom', fun _ => hroom', by simp, by simp [Leaving],
      s.flushed, (List.append_nil _).symm, haccounts⟩

theorem Delivering.flushBegun {s : Sink ε} (hs : s.Delivering cfg)
    (hphase : s.phase = .deciding ∨ s.phase = .closing) (hbatch : s.batch ≠ []) :
    s.flushBegun.Delivering cfg := by
  obtain ⟨horder, haccounts⟩ := hs.idle fun last hflushing => by simp [hflushing] at hphase
  refine ⟨?_, ?_, hs.room, by simp [Sink.flushBegun], by simp [Sink.flushBegun], ?_, s.flushed, rfl,
    haccounts⟩
  · show s.accepted = (s.flushed ++ [s.batch]).flatten ++ [] ++ s.queue
    rw [horder]
    simp
  · intro batch hmem
    rcases List.mem_append.mp hmem with hmem | hmem
    · exact hs.sizes batch hmem
    · rw [List.mem_singleton.mp hmem]
      exact ⟨hbatch, hs.room⟩
  · intro hl
    rcases hphase with hphase | hphase
    · simp [Leaving, Sink.flushBegun, hphase] at hl
    · exact hs.leaving (.inl hphase)

theorem Delivering.flushEnded {s : Sink ε} (hs : s.Delivering cfg) {last : Bool}
    (hphase : s.phase = .flushing last) (answer : DatabaseAnswer) :
    (s.flushEnded cfg last answer).Delivering cfg := by
  obtain ⟨done, hdone, haccounts⟩ := hs.accounted
  have horder := hs.order
  have hunflushed : s.unflushed = [] := by simp [unflushed, hphase]
  have hunderWay : s.underWay = [s.batch] := by simp [underWay, hphase]
  rw [hunflushed] at horder
  rw [hunderWay] at hdone
  have haccounts' : List.Forall₂ (fun batch (d : Delivery ε) => d.Accounts batch) s.flushed
      (s.deliveries ++ [deliver cfg s.batch s.backoffSecs answer]) := by
    rw [hdone]
    exact List.rel_append haccounts
      (.cons (deliver_accounts cfg s.batch s.backoffSecs answer) .nil)
  cases last with
  | true =>
    exact ⟨horder, hs.sizes, Nat.zero_le _, by simp [Sink.flushEnded], fun _ => rfl,
      fun _ => hs.leaving (.inr (.inl hphase)), s.flushed, (List.append_nil _).symm, haccounts'⟩
  | false =>
    exact ⟨horder, hs.sizes, Nat.zero_le _, by simp [Sink.flushEnded], fun _ => rfl,
      by simp [Leaving, Sink.flushEnded], s.flushed, (List.append_nil _).symm, haccounts'⟩

theorem Delivering.step {s s' : Sink ε} {a : SinkAction ε} (hs : s.Delivering cfg)
    (h : Sink.step cfg s a = some s') : s'.Delivering cfg := by
  have hnone : s.flushed = s.flushed ++ [] := (List.append_nil _).symm
  cases step_cases h with
  | accept entry hopen hroom =>
    refine ⟨?_, hs.sizes, hs.room, hs.filling, hs.cleared, ?_, hs.accounted⟩
    · show s.accepted ++ [entry] = _
      rw [hs.order, List.append_assoc]
      rfl
    · intro hl
      have hclosed := (hs.leaving hl).2
      rw [hopen] at hclosed
      cases hclosed
  | refuse entry hopen hfull =>
    exact ⟨hs.order, hs.sizes, hs.room, hs.filling, hs.cleared, hs.leaving, hs.accounted⟩
  | count hpending =>
    exact ⟨hs.order, hs.sizes, hs.room, hs.filling, hs.cleared, hs.leaving, hs.accounted⟩
  | close hopen hpending =>
    exact ⟨hs.order, hs.sizes, hs.room, hs.filling, hs.cleared,
      fun hl => ⟨(hs.leaving hl).1, rfl⟩, hs.accounted⟩
  | arm hphase =>
    obtain ⟨horder, haccounts⟩ := hs.idle (by simp [hphase])
    refine ⟨horder, hs.sizes, hs.room, ?_, by simp, by simp [Leaving], s.flushed, hnone, haccounts⟩
    intro
    show s.batch.length < cfg.maxBatch
    rw [hs.cleared (.inl hphase)]
    exact maxBatch_pos cfg
  | recv entry rest hphase hqueue => exact hs.received hphase hqueue
  | disconnected hphase hqueue hclosed =>
    obtain ⟨horder, haccounts⟩ := hs.idle (by simp [hphase])
    exact ⟨horder, hs.sizes, hs.room, by simp, by simp, fun _ => ⟨hqueue, hclosed⟩, s.flushed, hnone,
      haccounts⟩
  | expire hphase =>
    obtain ⟨horder, haccounts⟩ := hs.idle (by simp [hphase])
    exact ⟨horder, hs.sizes, hs.room, by simp, by simp, by simp [Leaving], s.flushed, hnone,
      haccounts⟩
  | report hphase hbatch =>
    obtain ⟨horder, haccounts⟩ := hs.idle (by simp [hphase])
    exact ⟨horder, hs.sizes, hs.room, by simp, fun _ => hbatch, by simp [Leaving], s.flushed, hnone,
      haccounts⟩
  | flush hphase hbatch => exact hs.flushBegun hphase hbatch
  | delivered answer last hphase => exact hs.flushEnded hphase answer
  | exit hphase hbatch =>
    obtain ⟨horder, haccounts⟩ := hs.idle (by simp [hphase])
    exact ⟨horder, hs.sizes, hs.room, by simp, fun _ => hbatch, fun _ => hs.leaving (.inl hphase),
      s.flushed, hnone, haccounts⟩

/-- **Everything accepted is delivered**: when the worker has returned, the batches
it has passed to `flush_batch` are what the channel has accepted, in order; none is
empty or too long, and every entry of each was tried once or reported as lost. -/
theorem delivered_of_returned {s : Sink ε} (hrun : Reach (Sink.step cfg) init s)
    (hreturned : s.phase = .returned) :
    s.flushed.flatten = s.accepted ∧
      (∀ batch ∈ s.flushed, batch ≠ [] ∧ batch.length ≤ max cfg.batchSize 1) ∧
      List.Forall₂ (fun batch (d : Delivery ε) => d.Accounts batch) s.flushed s.deliveries := by
  have hs : s.Delivering cfg :=
    hrun.invariant (delivering_init cfg) fun _ _ _ hu _ hstep => hu.step hstep
  obtain ⟨horder, haccounts⟩ := hs.idle (by simp [hreturned])
  refine ⟨?_, hs.sizes, haccounts⟩
  rw [horder, hs.cleared (.inr hreturned), (hs.leaving (.inr (.inr hreturned))).1]
  simp

/-- Batches of two from a channel of four. -/
def pairs : DatabaseSinkConfig := ⟨"primary", 4, 2, 1000⟩

/-- Three entries: a full batch, and what is left when the sink is dropped. -/
def threeEntries : List (SinkAction Nat) :=
  [.trySend 1, .arm, .recv, .trySend 2, .trySend 3, .recv, .flush,
    .delivered (.available fun _ => .ok ()), .arm, .recv, .close, .disconnected, .flush,
    .delivered .notInitialized]

theorem delivered_threeEntries : ∃ s, run (Sink.step pairs) init threeEntries = some s ∧
    s.flushed = [[1, 2], [3]] ∧ s.flushed.flatten = s.accepted := by
  obtain ⟨s, hs, hphase, hflushed⟩ : ∃ s, run (Sink.step pairs) init threeEntries = some s ∧
      s.phase = .returned ∧ s.flushed = [[1, 2], [3]] := ⟨_, rfl, rfl, rfl⟩
  exact ⟨s, hs, hflushed, (delivered_of_returned (reach_of_run hs) hphase).1⟩

end Sink

end Kolas.Logging

import Kolas.Logging.Delivery

/-!
# Which drops are reported

A failed `try_send` is counted in a step of its own, and the counter is swapped out
and printed at the end of a round, but not when the worker finds the channel closed
and has no batch to flush.

* `Counting`: what has been printed, the counter, and the producers that have still
  to count are together the failed calls.
* `reported_iff`: when the worker has returned, all drops have been reported exactly
  if it did not leave with an empty batch and a counter that is not zero.
-/

namespace Kolas.Logging

open Kolas.Lib

variable {ε : Type} {cfg : DatabaseSinkConfig}

theorem sum_reportDropped (count : Nat) :
    ((reportDropped count).map Printed.droppedCount).sum = count := by
  unfold reportDropped
  split
  · simp [Printed.droppedCount]
  · simp only [List.map_nil, List.sum_nil]
    omega

theorem foldl_insertEntry_dropped (insert : Nat → Except String Unit) (batch : List ε)
    (acc : List ε × List Printed) :
    ((batch.foldl (insertEntry insert) acc).2.map Printed.droppedCount).sum =
      (acc.2.map Printed.droppedCount).sum := by
  induction batch generalizing acc with
  | nil => rfl
  | cons entry batch ih =>
    rw [List.foldl_cons, ih]
    unfold insertEntry
    cases insert acc.1.length with
    | ok _ => rfl
    | error err => simp [Printed.droppedCount]

theorem sum_deliver (cfg : DatabaseSinkConfig) (batch : List ε) (backoffSecs : Nat)
    (answer : DatabaseAnswer) :
    ((deliver cfg batch backoffSecs answer).printed.map Printed.droppedCount).sum = 0 := by
  cases answer with
  | notInitialized => rfl
  | unavailable err => rfl
  | available insert => exact foldl_insertEntry_dropped insert batch ([], [])

namespace Sink

/-- The drops printed so far. -/
def reported (s : Sink ε) : Nat := (s.printed.map Printed.droppedCount).sum

/-- The worker does not leave without a batch while drops are counted and not
printed. -/
def NoSilentExit (s : Sink ε) : SinkAction ε → Prop
  | .exit => s.counter = 0
  | _ => True

structure Counting (s : Sink ε) : Prop where
  total : s.reported + s.counter + s.pending = s.failed
  quiet : s.closed = true → s.pending = 0
  leaving : s.Leaving → s.closed = true
  last : s.phase = .flushing true → s.counter = 0

theorem counting_init : (init : Sink ε).Counting where
  total := rfl
  quiet := by simp [init]
  leaving := by simp [Leaving, init]
  last := by simp [init]

theorem Counting.step {s s' : Sink ε} {a : SinkAction ε} (hs : s.Counting)
    (h : Sink.step cfg s a = some s') : s'.Counting := by
  obtain ⟨htotal, hquiet, hleaving, hlast⟩ := hs
  cases step_cases h with
  | accept entry hopen hroom => exact ⟨htotal, hquiet, hleaving, hlast⟩
  | refuse entry hopen hfull =>
    refine ⟨?_, ?_, hleaving, hlast⟩
    · show s.reported + s.counter + (s.pending + 1) = s.failed + 1
      omega
    · intro hclosed
      exact absurd (hopen.symm.trans hclosed) (by decide)
  | count hpending =>
    refine ⟨?_, ?_, hleaving, ?_⟩
    · show s.reported + (s.counter + 1) + (s.pending - 1) = s.failed
      omega
    · intro hclosed
      have hnone := hquiet hclosed
      omega
    · intro hphase
      have hnone := hquiet (hleaving (.inr (.inl hphase)))
      omega
  | close hopen hpending => exact ⟨htotal, fun _ => hpending, fun _ => rfl, hlast⟩
  | arm hphase => exact ⟨htotal, hquiet, by simp [Leaving], by simp⟩
  | recv entry rest hphase hqueue =>
    rcases s.received_cases cfg entry rest with ⟨-, hnext⟩ | ⟨-, hnext⟩
    · rw [hnext]
      exact ⟨htotal, hquiet, by simp [Leaving], by simp⟩
    · rw [hnext]
      exact ⟨htotal, hquiet, by simp [Leaving], by simp⟩
  | disconnected hphase hqueue hclosed => exact ⟨htotal, hquiet, fun _ => hclosed, by simp⟩
  | expire hphase => exact ⟨htotal, hquiet, by simp [Leaving], by simp⟩
  | report hphase hbatch =>
    refine ⟨?_, hquiet, by simp [Leaving], by simp⟩
    show ((s.printed ++ reportDropped s.counter).map Printed.droppedCount).sum + 0 + s.pending =
      s.failed
    rw [List.map_append, List.sum_append, sum_reportDropped]
    exact htotal
  | flush hphase hbatch =>
    refine ⟨?_, hquiet, ?_, fun _ => rfl⟩
    · show ((s.printed ++ reportDropped s.counter).map Printed.droppedCount).sum + 0 + s.pending =
        s.failed
      rw [List.map_append, List.sum_append, sum_reportDropped]
      exact htotal
    · intro hl
      rcases hphase with hphase | hphase
      · simp [Leaving, flushBegun, hphase] at hl
      · exact hleaving (.inl hphase)
  | delivered answer last hphase =>
    refine ⟨?_, hquiet, ?_, ?_⟩
    · show ((s.printed ++ (deliver cfg s.batch s.backoffSecs answer).printed).map
        Printed.droppedCount).sum + s.counter + s.pending = s.failed
      rw [List.map_append, List.sum_append, sum_deliver]
      exact htotal
    · intro hl
      cases last with
      | true => exact hleaving (.inr (.inl hphase))
      | false => simp [Leaving, flushEnded] at hl
    · cases last with
      | true => simp [flushEnded]
      | false => simp [flushEnded]
  | exit hphase hbatch => exact ⟨htotal, hquiet, fun _ => hleaving (.inl hphase), by simp⟩

theorem counting_of_reach {s : Sink ε} (h : Reach (Sink.step cfg) init s) : s.Counting :=
  h.invariant counting_init fun _ _ _ hu _ hstep => hu.step hstep

/-- Nothing happens after the worker has returned. -/
theorem step_returned {s : Sink ε} (hs : s.Counting) (hreturned : s.phase = .returned)
    (a : SinkAction ε) : Sink.step cfg s a = none := by
  have hclosed := hs.leaving (.inr (.inr hreturned))
  have hpending := hs.quiet hclosed
  cases h : Sink.step cfg s a with
  | none => rfl
  | some s' =>
    cases step_cases h with
    | accept entry hopen hroom => simp [hclosed] at hopen
    | refuse entry hopen hfull => simp [hclosed] at hopen
    | count hpos => omega
    | close hopen hnone => simp [hclosed] at hopen
    | arm hphase => simp [hreturned] at hphase
    | recv entry rest hphase hqueue => simp [hreturned] at hphase
    | disconnected hphase hqueue hclosed => simp [hreturned] at hphase
    | expire hphase => simp [hreturned] at hphase
    | report hphase hbatch => simp [hreturned] at hphase
    | flush hphase hbatch => simp [hreturned] at hphase
    | delivered answer last hphase => simp [hreturned] at hphase
    | exit hphase hbatch => simp [hreturned] at hphase

/-- A step that returns leaves with a zero counter, unless it is a silent exit. -/
theorem counter_of_returns {s s' : Sink ε} {a : SinkAction ε} (hs : s.Counting)
    (h : Sink.step cfg s a = some s') (hreturned : s'.phase = .returned) :
    s'.counter = 0 ↔ s.NoSilentExit a := by
  cases step_cases h with
  | delivered answer last hphase =>
    cases last with
    | true => exact iff_of_true (hs.last hphase) trivial
    | false => cases hreturned
  | exit hphase hbatch => exact Iff.rfl
  | accept entry hopen hroom => simp [step_returned hs hreturned] at h
  | refuse entry hopen hfull => simp [step_returned hs hreturned] at h
  | count hpos => simp [step_returned hs hreturned] at h
  | close hopen hnone => simp [step_returned hs hreturned] at h
  | recv entry rest hphase hqueue =>
    rcases s.received_cases cfg entry rest with ⟨-, hnext⟩ | ⟨-, hnext⟩
    · rw [hnext] at hreturned
      cases hreturned
    · rw [hnext] at hreturned
      cases hreturned
  | _ => cases hreturned

/-- **When all drops are reported**: a run after which the worker has returned has
printed as many drops as there were exactly if the worker did not leave with an
empty batch and a counter that is not zero. -/
theorem reported_iff {acts : List (SinkAction ε)} {s : Sink ε}
    (hrun : run (Sink.step cfg) init acts = some s) (hreturned : s.phase = .returned) :
    s.reported = s.failed ↔ RunOk (Sink.step cfg) NoSilentExit init acts := by
  have hs : s.Counting := counting_of_reach (reach_of_run hrun)
  have hzero : s.reported = s.failed ↔ s.counter = 0 := by
    have htotal := hs.total
    have hquiet := hs.quiet (hs.leaving (.inr (.inr hreturned)))
    omega
  rw [hzero]
  -- by induction from the front, with the state the run starts in generalised
  have hgeneral : ∀ u : Sink ε, u.Counting → u.phase ≠ .returned →
      run (Sink.step cfg) u acts = some s →
      (s.counter = 0 ↔ RunOk (Sink.step cfg) NoSilentExit u acts) := by
    clear hrun
    induction acts with
    | nil =>
      intro u _ hne hu
      obtain rfl : u = s := Option.some.inj hu
      exact absurd hreturned hne
    | cons a acts ih =>
      intro u hu hne hrun
      obtain ⟨v, hv, hrest⟩ := Option.bind_eq_some_iff.mp hrun
      have hv' := hu.step hv
      by_cases hend : v.phase = .returned
      · cases acts with
        | nil =>
          obtain rfl : v = s := Option.some.inj hrest
          rw [counter_of_returns hu hv hend]
          exact ⟨fun h => ⟨h, fun _ _ => trivial⟩, fun h => h.1⟩
        | cons b acts =>
          obtain ⟨w, hw, -⟩ := Option.bind_eq_some_iff.mp hrest
          rw [step_returned hv' hend b] at hw
          cases hw
      · have hok : u.NoSilentExit a := by
          cases step_cases hv with
          | exit hphase hbatch => exact absurd rfl hend
          | _ => trivial
        rw [ih v hv' hend hrest]
        constructor
        · exact fun h => RunOk.cons hok hv h
        · exact fun h => h.2 v hv
  exact hgeneral init counting_init (by simp [init]) hrun

/-- A channel and batches of one. -/
def singles : DatabaseSinkConfig := ⟨"primary", 1, 1, 1000⟩

/-- The second entry is dropped while the first is flushed, and then the sink is. -/
def droppedLate : List (SinkAction Nat) :=
  [.trySend 1, .trySend 2, .arm, .recv, .flush, .count,
    .delivered (.available fun _ => .ok ()), .arm, .close, .disconnected, .exit]

/-- The same with a round between, up to the exit. -/
def droppedEarly : List (SinkAction Nat) :=
  [.trySend 1, .trySend 2, .arm, .recv, .flush, .count,
    .delivered (.available fun _ => .ok ()), .arm, .expire, .report, .arm, .close, .disconnected]

theorem reported_droppedEarly : ∃ s,
    run (Sink.step singles) init (droppedEarly ++ [.exit]) = some s ∧
      s.failed = 1 ∧ s.reported = s.failed := by
  obtain ⟨s, hs, hphase, hfailed⟩ : ∃ s,
      run (Sink.step singles) init (droppedEarly ++ [.exit]) = some s ∧
        s.phase = .returned ∧ s.failed = 1 := ⟨_, rfl, rfl, rfl⟩
  refine ⟨s, hs, hfailed, (reported_iff hs hphase).mpr (RunOk.append (runOk_of_forall ?_ _) ?_)⟩
  · simp [droppedEarly, NoSilentExit]
  · intro t ht
    obtain rfl := Option.some.inj ht
    exact RunOk.cons rfl rfl trivial

theorem not_reported : ¬ ∀ acts s, run (Sink.step singles) (init : Sink Nat) acts = some s →
    s.phase = .returned → s.reported = s.failed := by
  intro hall
  obtain ⟨s, hs, hphase, hreported, hfailed⟩ : ∃ s,
      run (Sink.step singles) init droppedLate = some s ∧
      s.phase = .returned ∧ s.reported = 0 ∧ s.failed = 1 := ⟨_, rfl, rfl, rfl, rfl⟩
  have hsame := hall droppedLate s hs hphase
  omega

end Sink

end Kolas.Logging

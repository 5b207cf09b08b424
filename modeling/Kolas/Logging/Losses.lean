import Kolas.Logging.Guard

/-!
# Drops that lose entries

`Covered` cannot be weakened, where the guard's other tasks may end at once: from every state
in which it fails, a drop that begins there may end with entries lost, though the worker is
run promptly.

* `exists_stuck`: the worker comes to wait for the database, or for a deadline that
  is too late, with entries left.
* `lost_of_not_covered`: then the grace period passes and the worker is aborted.
-/

namespace Kolas.Logging

open Kolas.Lib

variable {ε : Type} {cfg : DatabaseSinkConfig} {handles index : Nat}

namespace Process

/-- Prompt runs. -/
abbrev Promptly (cfg : DatabaseSinkConfig) (handles index : Nat) : Process ε → Process ε → Prop :=
  Reaches (Process.step cfg handles index) Prompt

/-! ### The guard -/

/-- The guard goes past the tasks before this sink's. -/
theorem waits_index (hindex : index < handles) (n : Nat) {s : Process ε} {handle since : Nat}
    (hguard : s.guard = .waiting handle since) (hn : handle + n = index) (hsince : since ≤ s.clock) :
    ∃ since', since' ≤ s.clock ∧
      Promptly cfg handles index s { s with guard := .waiting index since' } := by
  induction n generalizing s handle since with
  | zero =>
    obtain rfl : handle = index := hn
    refine ⟨since, hsince, ?_⟩
    rw [← hguard]
    exact Reaches.refl s
  | succ n ih =>
    have hstep : s.step cfg handles index .handleDone =
        some { s with guard := .waiting (handle + 1) s.clock } := by
      simp only [Process.step, hguard, if_neg (show handle ≠ index by omega),
        waitNext_eq s (show handle + 1 < handles by omega)]
    obtain ⟨since', hsince', hrest⟩ := ih (s := { s with guard := .waiting (handle + 1) s.clock })
      rfl (show handle + 1 + n = index by omega) (Nat.le_refl _)
    exact ⟨since', hsince', (Reaches.single trivial hstep).trans hrest⟩

/-- The guard goes past the tasks after this sink's. -/
theorem reaches_dropped (n : Nat) (s : Process ε) {handle : Nat} (hlt : index < handle)
    (hn : handles ≤ handle + n) :
    Promptly cfg handles index (s.waitNext handles handle) { s with guard := .dropped } := by
  induction n generalizing handle with
  | zero =>
    rw [waitNext, if_neg (show ¬ handle < handles by omega)]
    exact Reaches.refl _
  | succ n ih =>
    by_cases hmore : handle < handles
    · have hstep : (s.waitNext handles handle).step cfg handles index .handleDone =
          some (s.waitNext handles (handle + 1)) := by
        simp only [Process.step, waitNext, if_pos hmore, if_neg (show handle ≠ index by omega)]
      exact (Reaches.single trivial hstep).trans (ih (by omega) (by omega))
    · rw [waitNext, if_neg hmore]
      exact Reaches.refl _

/-! ### The worker -/

/-- The worker waits for the grace period, with entries left. -/
structure Stuck (s : Process ε) : Prop where
  waits : s.Waits gracePeriod
  left : s.sink.flushed.flatten.length < s.taken.length

/-- The worker alone runs promptly from `s` to `t`. -/
structure Works (cfg : DatabaseSinkConfig) (handles index : Nat) (s t : Process ε) : Prop where
  run : Promptly cfg handles index s t
  guard : t.guard = s.guard
  clock : t.clock = s.clock
  taken : t.taken = s.taken
  alive : t.aborted = false

/-- What the drop begins with: the worker is alive and everything accepted is
taken. -/
structure Begun (cfg : DatabaseSinkConfig) (s : Process ε) : Prop where
  delivering : s.sink.Delivering cfg
  opened : s.sink.closed = false
  alive : s.aborted = false
  taken : s.taken = s.sink.accepted

theorem Works.refl {s : Process ε} (halive : s.aborted = false) : Works cfg handles index s s :=
  ⟨Reaches.refl s, rfl, rfl, rfl, halive⟩

theorem Works.trans {s t u : Process ε} (h : Works cfg handles index s t)
    (g : Works cfg handles index t u) : Works cfg handles index s u :=
  ⟨h.run.trans g.run, g.guard.trans h.guard, g.clock.trans h.clock, g.taken.trans h.taken, g.alive⟩

/-- A step of the worker that does not depend on the clock. -/
theorem works_of_step {s : Process ε} {sink : Sink ε} {a : SinkAction ε} (hs : s.Begun cfg)
    (h : s.sink.step cfg a = some sink) (hclose : a ≠ .close) (harm : a ≠ .arm)
    (hexpire : a ≠ .expire) : Works cfg handles index s { s with sink } := by
  have hstep : s.step cfg handles index (.sink a) = some { s with sink } := by
    show s.sinkStep cfg a = _
    unfold sinkStep
    rw [if_neg (by simp [hs.alive])]
    cases a with
    | close => exact absurd rfl hclose
    | arm => exact absurd rfl harm
    | expire => exact absurd rfl hexpire
    | _ => simp only [h, Option.map_some]
  have hprompt : s.Prompt (.sink a) := trivial
  exact ⟨Reaches.single hprompt hstep, rfl, rfl, rfl, hs.alive⟩

theorem Begun.step {s : Process ε} {sink : Sink ε} {a : SinkAction ε} (hs : s.Begun cfg)
    (h : s.sink.step cfg a = some sink) (hclose : a ≠ .close)
    (haccepted : sink.accepted = s.sink.accepted) (deadline : Nat) :
    ({ s with sink, deadline } : Process ε).Begun cfg :=
  ⟨hs.delivering.step h, (closed_of_step h hclose).trans hs.opened, hs.alive,
    hs.taken.trans haccepted.symm⟩

theorem Begun.length {s : Process ε} (hs : s.Begun cfg) : s.taken.length =
    s.sink.flushed.flatten.length + s.sink.unflushed.length + s.sink.queue.length := by
  rw [hs.taken, hs.delivering.order, List.length_append, List.length_append]

variable (handles index)

/-- The batch is passed on, and more is in the channel. -/
theorem stuck_of_deciding {s : Process ε} (hs : s.Begun cfg) (hphase : s.sink.phase = .deciding)
    (hbatch : s.sink.batch ≠ []) (hqueue : s.sink.queue ≠ []) :
    ∃ t, Works cfg handles index s t ∧ t.Stuck := by
  have hstep : s.sink.step cfg .flush = some s.sink.flushBegun := by
    simp only [Sink.step]
    exact if_pos ⟨.inl hphase, by simpa using hbatch⟩
  have hlength := (hs.step hstep (by simp) rfl s.deadline).length
  have hpos := List.length_pos_iff.mpr hqueue
  refine ⟨_, works_of_step hs hstep (by simp) (by simp) (by simp), .inl ⟨_, rfl⟩, ?_⟩
  exact Nat.lt_of_lt_of_le (Nat.lt_add_of_pos_right hpos)
    (show _ + s.sink.queue.length ≤ s.taken.length by
      rw [hlength]
      exact Nat.add_le_add_right (Nat.le_add_right _ _) _)

/-- The worker fills the batch from what is queued. -/
theorem stuck_of_filling {s : Process ε} (hs : s.Begun cfg) (hphase : s.sink.phase = .filling)
    (hleft : s.sink.batch.length + s.sink.queue.length ≠ 0)
    (htime : ¬ InTime cfg (s.sink.batch.length + s.sink.queue.length) s.deadline
      (s.clock + gracePeriod)) :
    ∃ t, Works cfg handles index s t ∧ t.Stuck := by
  have hroom := hs.delivering.filling hphase
  generalize hqueue : s.sink.queue = queue at hleft htime
  induction queue generalizing s with
  | nil =>
    -- the batch is not full, so its deadline is late
    have hlate : s.clock + gracePeriod ≤ s.deadline := by
      rw [List.length_nil, Nat.add_zero] at htime
      exact Nat.not_lt.mp fun hlt => htime (.inr ⟨hroom, hlt⟩)
    have hlength := hs.length
    rw [(s.sink.idle (by simp [hphase])).1] at hlength
    refine ⟨s, Works.refl hs.alive, .inr ⟨hphase, hqueue, hlate⟩, ?_⟩
    rw [List.length_nil] at hleft
    omega
  | cons entry rest ih =>
    have hstep : s.sink.step cfg .recv = some (s.sink.received cfg entry rest) := by
      simp only [Sink.step, hqueue, if_pos hphase]
    have hwork : Works cfg handles index s { s with sink := s.sink.received cfg entry rest } :=
      works_of_step hs hstep (by simp) (by simp) (by simp)
    have hnext := hs.step hstep (by simp) rfl s.deadline
    have hlength : (s.sink.batch ++ [entry]).length = s.sink.batch.length + 1 := List.length_append
    have hsum : (s.sink.batch ++ [entry]).length + rest.length =
        s.sink.batch.length + (entry :: rest).length := by
      rw [hlength, List.length_cons]
      omega
    by_cases hfull : cfg.batchSize ≤ (s.sink.batch ++ [entry]).length
    · have hrest : rest ≠ [] := by
        rintro rfl
        refine htime (.inl ?_)
        rw [← hsum, List.length_nil]
        unfold DatabaseSinkConfig.maxBatch at hroom ⊢
        omega
      obtain ⟨t, ht, hstuck⟩ := stuck_of_deciding handles index hnext
        (if_pos hfull) (by simp [Sink.received]) hrest
      exact ⟨t, hwork.trans ht, hstuck⟩
    · obtain ⟨t, ht, hstuck⟩ := ih hnext (if_neg hfull) (hnext.delivering.filling (if_neg hfull))
        rfl (by rw [← hsum] at hleft; exact hleft) (by rw [← hsum] at htime; exact htime)
      exact ⟨t, hwork.trans ht, hstuck⟩

theorem stuck_of_starting {s : Process ε} (hs : s.Begun cfg) (hphase : s.sink.phase = .starting)
    (hleft : s.sink.batch.length + s.sink.queue.length ≠ 0)
    (htime : ¬ InTime cfg (s.sink.batch.length + s.sink.queue.length)
      (s.clock + cfg.flushIntervalMs) (s.clock + gracePeriod)) :
    ∃ t, Works cfg handles index s t ∧ t.Stuck := by
  have harm : s.sink.step cfg .arm = some { s.sink with phase := .filling } := if_pos hphase
  have hstep : s.step cfg handles index (.sink .arm) = some
      { s with
        sink := { s.sink with phase := .filling }, deadline := s.clock + cfg.flushIntervalMs } := by
    show s.sinkStep cfg .arm = _
    unfold sinkStep
    rw [if_neg (by simp [hs.alive])]
    simp only [harm, Option.map_some]
  obtain ⟨t, ht, hstuck⟩ := stuck_of_filling handles index
    (hs.step harm (by simp) rfl (s.clock + cfg.flushIntervalMs)) rfl hleft htime
  have hprompt : s.Prompt (.sink .arm) := trivial
  exact ⟨t, Works.trans ⟨Reaches.single hprompt hstep, rfl, rfl, rfl, hs.alive⟩ ht, hstuck⟩

/-- **The worker gets stuck with entries left**, unless all of them are bound for
one flush. -/
theorem exists_stuck {s : Process ε} (hs : s.Begun cfg) (hnot : ¬ s.Covered cfg) :
    ∃ t, Works cfg handles index s t ∧ t.Stuck := by
  unfold Covered Bound at hnot
  rw [not_or] at hnot
  obtain ⟨hleft, hbound⟩ := hnot
  have hlength := hs.length
  cases hphase : s.sink.phase with
  | starting =>
    rw [(s.sink.idle (by simp [hphase])).1] at hleft hbound
    simp only [hphase] at hbound
    exact stuck_of_starting handles index hs hphase hleft hbound
  | filling =>
    rw [(s.sink.idle (by simp [hphase])).1] at hleft hbound
    simp only [hphase] at hbound
    exact stuck_of_filling handles index hs hphase hleft hbound
  | deciding =>
    rw [(s.sink.idle (by simp [hphase])).1] at hleft hbound
    simp only [hphase] at hbound
    by_cases hbatch : s.sink.batch = []
    · rw [if_pos hbatch] at hbound
      have hstep : s.sink.step cfg .report = some { s.sink.swapped with phase := .starting } := by
        simp only [Sink.step]
        exact if_pos ⟨hphase, by simp [hbatch]⟩
      obtain ⟨t, ht, hstuck⟩ := stuck_of_starting handles index
        (hs.step hstep (by simp) rfl s.deadline) rfl hleft hbound
      exact ⟨t, (works_of_step hs hstep (by simp) (by simp) (by simp)).trans ht, hstuck⟩
    · rw [if_neg hbatch] at hbound
      have hqueue : s.sink.queue ≠ [] := fun hqueue => hbound (by simp [hqueue])
      exact stuck_of_deciding handles index hs hphase hbatch hqueue
  | flushing last => exact ⟨s, Works.refl hs.alive, .inl ⟨last, hphase⟩, by omega⟩
  | closing =>
    have hclosed := (hs.delivering.leaving (.inl hphase)).2
    rw [hs.opened] at hclosed
    cases hclosed
  | returned =>
    have hclosed := (hs.delivering.leaving (.inr (.inr hphase))).2
    rw [hs.opened] at hclosed
    cases hclosed

/-! ### The whole drop -/

variable {handles index}

/-- **Nothing less is enough**, where the other tasks of the guard may end at once: from a
state of a prompt run in which not all is covered, a drop can begin and end, the worker run
promptly, with entries lost. -/
theorem lost_of_not_covered (hindex : index < handles) {s : Process ε}
    (hrun : Promptly cfg handles index init s) (hguard : s.guard = .alive)
    (hnot : ¬ s.Covered cfg) :
    ∃ t, Promptly cfg handles index s t ∧ t.guard = .dropped ∧ ¬ t.Passed := by
  have hgoing : s.Going cfg := hrun.invariant (going_init cfg) fun _ _ _ hu _ hstep => hu.step hstep
  let s₁ : Process ε :=
    { s with droppedAt := s.clock, taken := s.sink.accepted, guard := .waiting 0 s.clock }
  have hbegin : s.step cfg handles index .beginDrop = some s₁ := by
    simp only [Process.step, if_pos hguard, waitNext_eq _ (show 0 < handles by omega), s₁]
  have hbegun : s₁.Begun cfg :=
    ⟨hgoing.delivering (hgoing.before hguard), hgoing.opened, hgoing.before hguard, rfl⟩
  obtain ⟨s₂, hwork, hstuck⟩ := exists_stuck handles index hbegun
    (show ¬ s₁.Covered cfg from hnot)
  obtain ⟨since, hsince, hwaits⟩ : ∃ since, since ≤ s₂.clock ∧
      Promptly cfg handles index s₂ { s₂ with guard := .waiting index since } :=
    waits_index hindex index (hwork.guard.trans (show s₁.guard = .waiting 0 s.clock from rfl))
      (Nat.zero_add index) (hwork.clock ▸ Nat.le_refl s.clock)
  let s₃ : Process ε := { s₂ with guard := .waiting index since }
  let s₄ : Process ε := { s₃ with clock := s₂.clock + gracePeriod }
  have helapse : s₃.step cfg handles index (.elapse gracePeriod) = some s₄ := rfl
  have hprompt : s₃.Prompt (.elapse gracePeriod) := .inr (.inr hstuck.waits)
  have habort : s₄.step cfg handles index .handleDone =
      some ({ s₄ with aborted := true }.waitNext handles (index + 1)) := by
    simp only [Process.step, s₄, s₃, if_true]
    exact if_pos (Nat.add_le_add_right hsince gracePeriod)
  refine ⟨{ s₄ with aborted := true, guard := .dropped }, ?_, rfl, ?_⟩
  · have hstart : Promptly cfg handles index s s₁ :=
      Reaches.single (show s.Prompt .beginDrop from trivial) hbegin
    refine ((hstart.trans hwork.run).trans hwaits).trans ?_
    refine ((Reaches.single hprompt helapse).tail (show s₄.Prompt .handleDone from trivial)
      habort).trans ?_
    exact reaches_dropped handles { s₄ with aborted := true } (Nat.lt_succ_self index) (by omega)
  · intro hpassed
    have hle := hpassed.length_le
    exact absurd hstuck.left (Nat.not_lt.mpr hle)

end Process

end Kolas.Logging

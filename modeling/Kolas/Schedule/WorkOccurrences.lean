import Kolas.Schedule.Scheduler
import Mathlib.Data.Int.LeastGreatest

/-!
# Occurrences and the work loop

An event is due at a wake-up when it has an occurrence in the 60 seconds before
it, whatever happened at the wake-ups before.  The loop wakes up for the next
occurrence of any event, so a wake-up for one event finds the others due again
when theirs are less than 60 seconds old.

* `DispatchedOnce`: every occurrence of every event after the start of the loop
  and up to the last wake-up has made the loop spawn the event exactly once.
* `Fresh`: what the times of a wake-up must satisfy: an event has one occurrence
  at most since the last wake-up, it is less than 60 seconds old, and an event
  that has none has no older one in the last 60 seconds.
* `dispatchedOnce_dispatched_iff`: a wake-up keeps `DispatchedOnce` exactly when
  it is fresh.  `dispatchedOnce_of_fresh`: it holds in every state of every run
  whose wake-ups are fresh.
* `fresh_of_apart`: on-time wake-ups are fresh when the occurrences of the
  schedule are 60 seconds apart.
-/

namespace Kolas.Schedule

open Kolas.Lib

variable {ζ φ : Type} {C : Croner ζ} {fires : C.Cron → ζ → Int → Prop} {schedule : Schedule ζ φ}

/-- `o` is the event's last occurrence at the instant `t`. -/
def Event.LatestAt (C : Croner ζ) (fires : C.Cron → ζ → Int → Prop) (e : Event ζ φ) (tz : ζ)
    (o t : Int) : Prop :=
  IsGreatest {o' | e.Occurs C fires tz o' ∧ o' ≤ t} o

theorem Event.exists_latestAt {e : Event ζ φ} {tz : ζ} {o t : Int} (ho : e.Occurs C fires tz o)
    (hle : o ≤ t) : ∃ o', e.LatestAt C fires tz o' t ∧ o ≤ o' := by
  have hbdd : ∃ b : Int, ∀ o', (e.Occurs C fires tz o' ∧ o' ≤ t) → o' ≤ b := ⟨t, fun _ h => h.2⟩
  obtain ⟨m, hm, hmax⟩ := Int.exists_greatest_of_bdd hbdd ⟨o, ho, hle⟩
  exact ⟨m, ⟨hm, fun o' h => hmax o' h⟩, hmax o ⟨ho, hle⟩⟩

/-- The times of a wake-up at `now` are fresh for the event: see the file's
header.  `last` is the wake-up before, or the start of the loop. -/
structure Event.Fresh (C : Croner ζ) (fires : C.Cron → ζ → Int → Prop) (e : Event ζ φ) (tz : ζ)
    (start last now : Int) : Prop where
  one : ∀ o o', e.Occurs C fires tz o → e.Occurs C fires tz o' → last < o → o ≤ now →
    last < o' → o' ≤ now → o = o'
  young : ∀ o, e.Occurs C fires tz o → last < o → o ≤ now → now - minute < o
  quiet : (∀ o, e.Occurs C fires tz o → last < o → now < o) →
    ∀ o, e.Occurs C fires tz o → start < o → o ≤ last → o ≤ now - minute

namespace Worker

open Classical in
/-- How often the event with number `i` has been spawned for its occurrence `o`:
a spawn is for the event's last occurrence. -/
noncomputable def startsFor (C : Croner ζ) (fires : C.Cron → ζ → Int → Prop) (s : Worker)
    (tz : ζ) (i : Nat) (e : Event ζ φ) (o : Int) : Nat :=
  s.started.countP fun t => decide (t.event = i ∧ e.LatestAt C fires tz o t.spawnedAt)

/-- Every occurrence after the start and up to the last wake-up has been
dispatched exactly once. -/
def DispatchedOnce (C : Croner ζ) (fires : C.Cron → ζ → Int → Prop) (schedule : Schedule ζ φ)
    (s : Worker) : Prop :=
  ∀ i e, schedule.events[i]? = some e → ∀ o, e.Occurs C fires schedule.defaultTimezone o →
    s.startedAt < o → o ≤ s.lastWake → s.startsFor C fires schedule.defaultTimezone i e o = 1

/-- The selector leads for every event, and the clock has not gone back. -/
def Steady (s : Worker) (tick : Tick) : Prop :=
  (∀ i, tick.leader i = true) ∧ s.lastWake ≤ tick.now

/-- The wake-ups are fresh for every event. -/
def Fresh (C : Croner ζ) (fires : C.Cron → ζ → Int → Prop) (schedule : Schedule ζ φ)
    (s : Worker) : WorkAction → Prop
  | .dispatch tick => s.Steady tick ∧ ∀ e ∈ schedule.events,
      e.Fresh C fires schedule.defaultTimezone s.startedAt s.lastWake tick.now
  | _ => True

/-- A wake-up comes at or after the occurrence the loop waits for, and before the
next one of any event. -/
def OnTime (C : Croner ζ) (fires : C.Cron → ζ → Int → Prop) (schedule : Schedule ζ φ)
    (s : Worker) : WorkAction → Prop
  | .dispatch tick => s.Steady tick ∧ tick.now ≤ tick.next ∧
      ∀ target, schedule.waitsFor C s.sleepFrom = some target → target ≤ tick.now ∧
        ∀ e ∈ schedule.events, ∀ o, e.Occurs C fires schedule.defaultTimezone o →
          target < o → tick.now < o
  | _ => True

/-! ### One wake-up -/

/-- The event is due: what `dispatch_due` asks of it when it is led. -/
def dueNow (C : Croner ζ) (tz : ζ) (now : Int) (e : Event ζ φ) : Bool :=
  match e.isDueWith C now tz with
  | .ok due => due
  | .error _ => false

theorem dueNow_iff (hC : C.Lawful fires) {tz : ζ} {now : Int} {e : Event ζ φ} :
    dueNow C tz now e = true ↔ ∃ o, now - minute < o ∧ o ≤ now ∧ e.Occurs C fires tz o := by
  rw [← Event.isDueWith_iff hC, dueNow]
  cases e.isDueWith C now tz with
  | error err => simp
  | ok due => simp

/-- Events that are led and take no locks are spawned when they are due. -/
theorem dispatch_led {tz : ζ} {tick : Tick} (hlead : ∀ i, tick.leader i = true)
    (entries : List (Event ζ φ × Nat)) (hwo : ∀ entry ∈ entries, entry.1.withoutOverlapping = false)
    (acc : InMemoryLockStore × List Task) :
    (entries.foldl (dispatchEvent C tz tick) acc).2 =
      acc.2 ++ (entries.filter fun entry => dueNow C tz tick.now entry.1).map
        fun entry => entry.1.spawn tick entry.2 := by
  induction entries generalizing acc with
  | nil => simp
  | cons entry entries ih =>
    obtain ⟨e, i⟩ := entry
    have he : e.withoutOverlapping = false := hwo (e, i) List.mem_cons_self
    rw [List.foldl_cons, ih fun entry h => hwo entry (List.mem_cons_of_mem _ h)]
    cases hdue : e.isDueWith C tick.now tz with
    | error err => simp [dispatchEvent, dueNow, hdue]
    | ok due => cases due <;> simp [dispatchEvent, dueNow, hdue, hlead, he]

/-- In a numbered list, the number `i` is met once at most. -/
theorem countP_zipIdx {α : Type} (p : α → Bool) (l : List α) (k i : Nat) {x : α}
    (h : l[i]? = some x) :
    (l.zipIdx k).countP (fun entry => decide (entry.2 = k + i) && p entry.1) =
      if p x then 1 else 0 := by
  induction l generalizing k i with
  | nil => simp at h
  | cons y l ih =>
    rw [List.zipIdx_cons, List.countP_cons]
    cases i with
    | zero =>
      obtain rfl : y = x := by simpa using h
      have hzero : (l.zipIdx (k + 1)).countP
          (fun entry => decide (entry.2 = k + 0) && p entry.1) = 0 := by
        rw [List.countP_eq_zero]
        intro entry hmem
        have hne : entry.2 ≠ k := by
          have hle := List.le_snd_of_mem_zipIdx hmem
          omega
        simp [hne]
      rw [hzero]
      simp
    | succ i =>
      have hne : k ≠ k + 1 + i := by omega
      rw [show k + (i + 1) = k + 1 + i by omega, ih (k + 1) i (by simpa using h)]
      simp [hne]

/-- **What a wake-up adds**: one start for the event's last occurrence, if the
event is due. -/
theorem startsFor_dispatched (hwo : ∀ e ∈ schedule.events, e.withoutOverlapping = false)
    {s : Worker} {tick : Tick} (hlead : ∀ i, tick.leader i = true) {tz : ζ} {i : Nat}
    {e : Event ζ φ} (he : schedule.events[i]? = some e) (o : Int) :
    (s.dispatched C schedule tick).startsFor C fires tz i e o = s.startsFor C fires tz i e o +
      (open Classical in if dueNow C schedule.defaultTimezone tick.now e = true ∧
        e.LatestAt C fires tz o tick.now then 1 else 0) := by
  classical
  have hentries : ∀ entry ∈ schedule.events.zipIdx, entry.1.withoutOverlapping = false :=
    fun entry h => hwo _ (List.fst_mem_of_mem_zipIdx h)
  simp only [startsFor, dispatched, dispatchDue, List.countP_append]
  rw [dispatch_led hlead _ hentries, List.nil_append, List.countP_map, List.countP_filter]
  congr 1
  have hcount := countP_zipIdx (dueNow C schedule.defaultTimezone tick.now) schedule.events 0 i he
  by_cases hl : e.LatestAt C fires tz o tick.now
  · rw [Nat.zero_add] at hcount
    simp only [Function.comp_def, Event.spawn, hl, and_true]
    exact hcount
  · simp [Event.spawn, hl]

/-- The spawns so far lie between the start and the last wake-up. -/
structure Past (s : Worker) : Prop where
  spawned : ∀ t ∈ s.started, t.spawnedAt ≤ s.lastWake
  begun : s.startedAt ≤ s.lastWake

theorem startsFor_eq_zero {s : Worker} (hpast : s.Past) {tz : ζ} {i : Nat} {e : Event ζ φ} {o : Int}
    (ho : s.lastWake < o) : s.startsFor C fires tz i e o = 0 := by
  unfold startsFor
  rw [List.countP_eq_zero]
  intro t ht hp
  simp only [decide_eq_true_eq] at hp
  obtain ⟨-, ⟨-, hle⟩, -⟩ := hp
  have hspawned := hpast.spawned t ht
  omega

/-- After a wake-up that has dispatched every occurrence so far once, it was fresh. -/
theorem fresh_of_dispatchedOnce_dispatched (hC : C.Lawful fires)
    (hwo : ∀ e ∈ schedule.events, e.withoutOverlapping = false) {s : Worker} (hpast : s.Past)
    (h : s.DispatchedOnce C fires schedule) {tick : Tick} (hsteady : s.Steady tick)
    (h' : (s.dispatched C schedule tick).DispatchedOnce C fires schedule) {e : Event ζ φ}
    (he : e ∈ schedule.events) :
    e.Fresh C fires schedule.defaultTimezone s.startedAt s.lastWake tick.now := by
  obtain ⟨hlead, hclock⟩ := hsteady
  have hbegun := hpast.begun
  obtain ⟨i, hi⟩ := List.mem_iff_getElem?.mp he
  -- a new occurrence has been dispatched, so the event was due and it is the last one
  have hnew : ∀ o, e.Occurs C fires schedule.defaultTimezone o → s.lastWake < o → o ≤ tick.now →
      dueNow C schedule.defaultTimezone tick.now e = true ∧
        e.LatestAt C fires schedule.defaultTimezone o tick.now := by
    intro o ho hlast hle
    have hone := h' i e hi o ho (by simp only [dispatched]; omega) hle
    rw [startsFor_dispatched hwo hlead hi, startsFor_eq_zero hpast hlast] at hone
    by_contra hnot
    rw [if_neg hnot] at hone
    omega
  refine ⟨?_, ?_, ?_⟩
  · intro o o' ho ho' hlast hle hlast' hle'
    exact (hnew o ho hlast hle).2.unique (hnew o' ho' hlast' hle').2
  · intro o ho hlast hle
    obtain ⟨hdue, -, hmax⟩ := hnew o ho hlast hle
    obtain ⟨o', hlt, hle', ho'⟩ := (dueNow_iff hC).mp hdue
    exact lt_of_lt_of_le hlt (hmax ⟨ho', hle'⟩)
  · intro hnone o ho hstart hlast
    by_contra hyoung
    -- the event is due, for an occurrence that was dispatched before
    obtain ⟨m, hm, hom⟩ := Event.exists_latestAt ho (hlast.trans hclock)
    have hmlast : m ≤ s.lastWake := by
      by_contra hmnew
      have hmnow := hnone m hm.1.1 (show s.lastWake < m by omega)
      have hmle := hm.1.2
      omega
    have hdue : dueNow C schedule.defaultTimezone tick.now e = true :=
      (dueNow_iff hC).mpr ⟨o, by omega, by omega, ho⟩
    have hone := h' i e hi m hm.1.1 (by simp only [dispatched]; omega) hm.1.2
    rw [startsFor_dispatched hwo hlead hi,
      h i e hi m hm.1.1 (show s.startedAt < m by omega) hmlast, if_pos ⟨hdue, hm⟩] at hone
    omega

/-- A fresh wake-up dispatches every new occurrence once, and no old one again. -/
theorem dispatchedOnce_dispatched_of_fresh (hC : C.Lawful fires)
    (hwo : ∀ e ∈ schedule.events, e.withoutOverlapping = false) {s : Worker} (hpast : s.Past)
    (h : s.DispatchedOnce C fires schedule) {tick : Tick} (hsteady : s.Steady tick)
    (hfresh : ∀ e ∈ schedule.events,
      e.Fresh C fires schedule.defaultTimezone s.startedAt s.lastWake tick.now) :
    (s.dispatched C schedule tick).DispatchedOnce C fires schedule := by
  intro i e hi o ho hstart hle
  obtain ⟨hlead, hclock⟩ := hsteady
  obtain ⟨hone, hyoung, hquiet⟩ := hfresh e (List.mem_of_getElem? hi)
  rw [startsFor_dispatched hwo hlead hi]
  by_cases hlast : o ≤ s.lastWake
  · -- an old occurrence is not dispatched again
    have hnot : ¬ (dueNow C schedule.defaultTimezone tick.now e = true ∧
        e.LatestAt C fires schedule.defaultTimezone o tick.now) := by
      intro g
      obtain ⟨hdue, -, hmax⟩ := g
      obtain ⟨o', hlt, hle', ho'⟩ := (dueNow_iff hC).mp hdue
      have hmax' := hmax ⟨ho', hle'⟩
      have hold := hquiet ?_ o ho hstart hlast
      · omega
      · intro m hm hmlast
        by_contra hmnow
        have hmo := hmax ⟨hm, not_lt.mp hmnow⟩
        omega
    rw [if_neg hnot, h i e hi o ho hstart hlast]
  · have hlast' : s.lastWake < o := not_le.mp hlast
    have hlatest : e.LatestAt C fires schedule.defaultTimezone o tick.now := by
      refine ⟨⟨ho, hle⟩, ?_⟩
      intro m g
      obtain ⟨hm, hmle⟩ := g
      by_cases hmlast : m ≤ s.lastWake
      · omega
      · exact le_of_eq (hone m o hm ho (not_le.mp hmlast) hmle hlast' hle)
    have hdue : dueNow C schedule.defaultTimezone tick.now e = true :=
      (dueNow_iff hC).mpr ⟨o, hyoung o ho hlast' hle, hle, ho⟩
    rw [if_pos ⟨hdue, hlatest⟩, startsFor_eq_zero hpast hlast']

/-- **A wake-up dispatches every new occurrence once, and no old one again,
exactly when it is fresh.** -/
theorem dispatchedOnce_dispatched_iff (hC : C.Lawful fires)
    (hwo : ∀ e ∈ schedule.events, e.withoutOverlapping = false) {s : Worker} (hpast : s.Past)
    (h : s.DispatchedOnce C fires schedule) {tick : Tick} (hsteady : s.Steady tick) :
    (s.dispatched C schedule tick).DispatchedOnce C fires schedule ↔
      ∀ e ∈ schedule.events,
        e.Fresh C fires schedule.defaultTimezone s.startedAt s.lastWake tick.now :=
  ⟨fun h' _ he => fresh_of_dispatchedOnce_dispatched hC hwo hpast h hsteady h' he,
    dispatchedOnce_dispatched_of_fresh hC hwo hpast h hsteady⟩

/-! ### Runs -/

/-- The invariant of fresh runs. -/
structure Dispatching (C : Croner ζ) (fires : C.Cron → ζ → Int → Prop) (schedule : Schedule ζ φ)
    (s : Worker) : Prop extends Past s where
  once : s.DispatchedOnce C fires schedule

theorem dispatching_start (store : InMemoryLockStore) (now : Int) :
    (start C schedule store now).Dispatching C fires schedule where
  spawned := by simp [start]
  begun := Int.le_refl now
  once := by
    intro i e _ o _ hlt hle
    exact absurd hle (not_le.mpr hlt)

/-- Only `dispatch_due` spawns. -/
theorem step_started {s s' : Worker} {a : WorkAction} (hstep : step C schedule s a = some s') :
    (∃ tick, a = .dispatch tick ∧ s' = s.dispatched C schedule tick) ∨
      (s'.started = s.started ∧ s'.startedAt = s.startedAt ∧ s'.lastWake = s.lastWake) := by
  rcases step_cases hstep with ⟨-, rfl⟩ | ⟨t, taskEnd, rest, -, -, -, rfl⟩ | ⟨-, rfl⟩ |
    ⟨tick, rfl, rfl⟩ | ⟨-, rfl⟩ | ⟨-, -, rfl⟩ | ⟨i, t, taskEnd, -, -, rfl⟩
  · exact Or.inr ⟨rfl, rfl, rfl⟩
  · exact Or.inr ⟨rfl, rfl, rfl⟩
  · exact Or.inr ⟨rfl, rfl, rfl⟩
  · exact Or.inl ⟨tick, rfl, rfl⟩
  · exact Or.inr ⟨rfl, rfl, rfl⟩
  · exact Or.inr ⟨rfl, rfl, rfl⟩
  · exact Or.inr ⟨rfl, rfl, rfl⟩

theorem dispatchEvent_spawnedAt {tz : ζ} {tick : Tick} {acc : InMemoryLockStore × List Task}
    (hacc : ∀ t ∈ acc.2, t.spawnedAt = tick.now) (entry : Event ζ φ × Nat) :
    ∀ t ∈ (dispatchEvent C tz tick acc entry).2, t.spawnedAt = tick.now := by
  obtain ⟨e, i⟩ := entry
  have happend : ∀ t ∈ acc.2 ++ [e.spawn tick i], t.spawnedAt = tick.now := by
    intro t ht
    rcases List.mem_append.mp ht with ht | ht
    · exact hacc t ht
    · rw [List.mem_singleton.mp ht]
      rfl
  rcases dispatchEvent_cases C tz tick acc e i with ⟨-, he⟩ | ⟨-, -, -, he⟩ | ⟨-, -, -, he⟩ |
    ⟨-, -, he⟩
  · rwa [he]
  · rwa [he]
  · rwa [he]
  · rwa [he]

theorem dispatchDue_spawnedAt (schedule : Schedule ζ φ) (tick : Tick) (store : InMemoryLockStore) :
    ∀ t ∈ (dispatchDue C schedule tick store).2, t.spawnedAt = tick.now :=
  List.foldlRecOn (motive := fun acc : InMemoryLockStore × List Task =>
    ∀ t ∈ acc.2, t.spawnedAt = tick.now) schedule.events.zipIdx _ (by simp)
    fun _ hacc entry _ => dispatchEvent_spawnedAt hacc entry

theorem Past.step {s s' : Worker} {a : WorkAction} (h : s.Past)
    (hclock : ∀ tick, a = .dispatch tick → s.lastWake ≤ tick.now)
    (hstep : step C schedule s a = some s') : s'.Past := by
  rcases step_started hstep with ⟨tick, ha, rfl⟩ | ⟨hstarted, hfirst, hlast⟩
  · have hle := hclock tick ha
    refine ⟨?_, le_trans h.begun hle⟩
    intro t ht
    rcases List.mem_append.mp ht with ht | ht
    · exact le_trans (h.spawned t ht) hle
    · exact le_of_eq (dispatchDue_spawnedAt schedule tick s.store t ht)
  · exact ⟨by rw [hstarted, hlast]; exact h.spawned, by rw [hfirst, hlast]; exact h.begun⟩

theorem Dispatching.step (hC : C.Lawful fires)
    (hwo : ∀ e ∈ schedule.events, e.withoutOverlapping = false) {s s' : Worker} {a : WorkAction}
    (h : s.Dispatching C fires schedule) (ha : s.Fresh C fires schedule a)
    (hstep : step C schedule s a = some s') : s'.Dispatching C fires schedule := by
  have hpast : s'.Past := h.toPast.step (fun tick heq => by subst heq; exact ha.1.2) hstep
  refine ⟨hpast, ?_⟩
  rcases step_started hstep with ⟨tick, rfl, rfl⟩ | ⟨hstarted, hfirst, hlast⟩
  · exact (dispatchedOnce_dispatched_iff hC hwo h.toPast h.once ha.1).mpr ha.2
  · intro i e hi o ho hlt hle
    rw [startsFor, hstarted]
    exact h.once i e hi o ho (hfirst ▸ hlt) (hlast ▸ hle)

/-- **Every occurrence is dispatched once** in every run whose wake-ups are fresh. -/
theorem dispatchedOnce_of_fresh (hC : C.Lawful fires)
    (hwo : ∀ e ∈ schedule.events, e.withoutOverlapping = false) {store : InMemoryLockStore}
    {now : Int} {s : Worker}
    (hrun : Reaches (step C schedule) (Fresh C fires schedule) (start C schedule store now) s) :
    s.DispatchedOnce C fires schedule := by
  have h : s.Dispatching C fires schedule :=
    hrun.invariant (dispatching_start store now) fun _ _ _ hu ha hstep => hu.step hC hwo ha hstep
  exact h.once

/-- **Schedules whose occurrences are a minute apart.**  A wake-up that is less
than 60 seconds late is then fresh, if no occurrence came between the last
wake-up and the sleep. -/
theorem fresh_of_apart (hC : C.Lawful fires)
    (hapart : ∀ e ∈ schedule.events, ∀ e' ∈ schedule.events, ∀ o o',
      e.Occurs C fires schedule.defaultTimezone o →
      e'.Occurs C fires schedule.defaultTimezone o' → o < o' → o + minute ≤ o')
    {s : Worker} {tick : Tick} {target : Int}
    (hwait : schedule.waitsFor C s.sleepFrom = some target) (hle : target ≤ tick.now)
    (hlate : tick.now < target + minute) (hclock : s.lastWake ≤ s.sleepFrom)
    (hsleep : ∀ e ∈ schedule.events, ∀ o, e.Occurs C fires schedule.defaultTimezone o →
      s.lastWake < o → s.sleepFrom < o) :
    ∀ e ∈ schedule.events,
      e.Fresh C fires schedule.defaultTimezone s.startedAt s.lastWake tick.now := by
  obtain ⟨⟨hfrom, e₀, he₀, hocc₀⟩, hleast⟩ := schedule.waitsFor_isLeast hC hwait
  intro e he
  have heq : ∀ o, e.Occurs C fires schedule.defaultTimezone o → s.lastWake < o → o ≤ tick.now →
      o = target := by
    intro o ho hlast hnow
    have hto : target ≤ o := hleast ⟨hsleep e he o ho hlast, e, he, ho⟩
    by_contra hne
    have hfar := hapart e₀ he₀ e he target o hocc₀ ho (show target < o by omega)
    omega
  refine ⟨?_, ?_, ?_⟩
  · intro o o' ho ho' hlast hnow hlast' hnow'
    rw [heq o ho hlast hnow, heq o' ho' hlast' hnow']
  · intro o ho hlast hnow
    rw [heq o ho hlast hnow]
    omega
  · intro _ o ho _ hlast
    have hfar := hapart e he e₀ he₀ o target ho hocc₀ (show o < target by omega)
    omega

/-- A command every minute. -/
def report : Event Unit Unit := Event.new (.command "report" [])

theorem occurs_report {o : Int} : report.Occurs periodic onPeriod () o ↔ minute ∣ o := by
  constructor
  · intro g
    obtain ⟨cron, hb, hf⟩ := g
    obtain rfl : true = cron := Except.ok.inj (show (.ok true : Except ScheduleError Bool) =
      .ok cron from hb)
    exact hf
  · intro h
    exact ⟨true, rfl, h⟩

/-- The minute `60` is the report's last occurrence until the next one. -/
theorem latestAt_report {t : Int} (h : 60000000000 ≤ t) (h' : t < 120000000000) :
    report.LatestAt periodic onPeriod () 60000000000 t := by
  refine ⟨⟨occurs_report.mpr (Int.dvd_refl _), h⟩, ?_⟩
  intro o g
  obtain ⟨ho, hle⟩ := g
  obtain ⟨k, rfl⟩ := occurs_report.mp ho
  unfold minute at hle ⊢
  omega

/-- The report, and a command every second. -/
def heartbeats : Schedule Unit Unit where
  events := [{ Event.new (.command "heartbeat" []) with frequency := .everySecond }, report]
  defaultTimezone := ()

/-- The wake-ups at the minute and a second later. -/
def twoWakes : List WorkAction :=
  [.timer, .reaped, .dispatch (tickAt 60), .timer, .reaped, .dispatch (tickAt 61)]

theorem onTime_tickAt {schedule : Schedule Unit Unit} {s : Worker} {n : Int}
    (hwait : schedule.waitsFor periodic s.sleepFrom = some (n * 1000000000))
    (hlast : s.lastWake ≤ n * 1000000000) :
    s.OnTime periodic onPeriod schedule (.dispatch (tickAt n)) := by
  refine ⟨⟨fun _ => rfl, hlast⟩, Int.le_refl _, ?_⟩
  intro target htarget
  obtain rfl := Option.some.inj (hwait.symm.trans htarget)
  exact ⟨Int.le_refl _, fun _ _ _ _ h => h⟩

theorem not_dispatchedOnce : ¬ ∀ s, Reaches (step periodic heartbeats)
    (OnTime periodic onPeriod heartbeats) (start periodic heartbeats .new 59000000000) s →
      s.DispatchedOnce periodic onPeriod heartbeats := by
  intro hall
  obtain ⟨s, hs, hok, hstart, hlast, hstarted⟩ : ∃ s,
      run (step periodic heartbeats) (start periodic heartbeats .new 59000000000) twoWakes =
        some s ∧
      RunOk (step periodic heartbeats) (OnTime periodic onPeriod heartbeats)
        (start periodic heartbeats .new 59000000000) twoWakes ∧
      s.startedAt = 59000000000 ∧ s.lastWake = 61000000000 ∧
      s.started = [⟨0, "heartbeat", false, 0, 60000000000⟩, ⟨1, "report", false, 0, 60000000000⟩,
        ⟨0, "heartbeat", false, 0, 61000000000⟩, ⟨1, "report", false, 0, 61000000000⟩] := by
    refine ⟨_, rfl, ?_, rfl, rfl, rfl⟩
    refine RunOk.cons trivial rfl (RunOk.cons trivial rfl (RunOk.cons ?_ rfl ?_))
    · exact onTime_tickAt rfl (by decide)
    · refine RunOk.cons trivial rfl (RunOk.cons trivial rfl (RunOk.cons ?_ rfl trivial))
      exact onTime_tickAt rfl (by decide)
  have hone := hall s (reaches_of_run hs hok) 1 report rfl 60000000000
    (occurs_report.mpr (Int.dvd_refl _)) (by omega) (by omega)
  simp [startsFor, hstarted, latestAt_report, heartbeats] at hone

/-- The report alone. -/
def reports : Schedule Unit Unit := ⟨[report], ()⟩

/-- The wake-ups at two minutes. -/
def minuteWakes : List WorkAction :=
  [.timer, .reaped, .dispatch (tickAt 60), .timer, .reaped, .dispatch (tickAt 120)]

theorem dispatchedOnce_reports : ∃ s,
    run (step periodic reports) (start periodic reports .new 59000000000) minuteWakes = some s ∧
      s.DispatchedOnce periodic onPeriod reports := by
  obtain ⟨s, hs⟩ : ∃ s, run (step periodic reports) (start periodic reports .new 59000000000)
      minuteWakes = some s := ⟨_, rfl⟩
  refine ⟨s, hs, dispatchedOnce_of_fresh periodic_lawful (by simp [reports, report, Event.new])
    (reaches_of_run hs ?_)⟩
  have hfresh : ∀ {s : Worker} {n : Int},
      reports.waitsFor periodic s.sleepFrom = some (n * 1000000000) → s.lastWake = s.sleepFrom →
      s.lastWake ≤ n * 1000000000 → s.Fresh periodic onPeriod reports (.dispatch (tickAt n)) := by
    intro s n hwait hsleep hlast
    refine ⟨⟨fun _ => rfl, hlast⟩, fresh_of_apart periodic_lawful ?_ hwait (Int.le_refl _) ?_ ?_ ?_⟩
    · intro e he e' he' o o' ho ho' hlt
      obtain rfl := List.mem_singleton.mp he
      obtain rfl := List.mem_singleton.mp he'
      obtain ⟨k, rfl⟩ := occurs_report.mp ho
      obtain ⟨k', rfl⟩ := occurs_report.mp ho'
      unfold minute at hlt ⊢
      omega
    · simp [tickAt, minute]
    · exact le_of_eq hsleep
    · intro e _ o _ ho
      omega
  refine RunOk.cons trivial rfl (RunOk.cons trivial rfl (RunOk.cons ?_ rfl ?_))
  · exact hfresh rfl rfl (by decide)
  · refine RunOk.cons trivial rfl (RunOk.cons trivial rfl (RunOk.cons ?_ rfl trivial))
    exact hfresh rfl rfl (by decide)

end Worker

end Kolas.Schedule

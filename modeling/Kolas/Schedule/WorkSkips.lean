import Kolas.Schedule.Registry
import Kolas.Schedule.WorkLocks

/-!
# Skipped events of the work loop

A `without_overlapping` event that is due and is not started has found the lock
of its id held.  In a run without panics the lock is that of a run in flight
(`SkipsHeld`), and when ids tell the events apart that run is of the same event.

* `skippedForItself_of_apart`: in every run in which no task of a
  `without_overlapping` event panics, such an event is skipped only while a run of
  its own is in flight, if the names of the registrations are apart.
* `skipped_of_shared_id`: an event whose id has been locked for another one in the
  same wake-up is skipped.
-/

namespace Kolas.Schedule

open Kolas.Lib

variable {ζ φ : Type} {C : Croner ζ} {schedule : Schedule ζ φ} {before : InMemoryLockStore}

/-- The task is a run of the event whose place it has. -/
def Task.Of (schedule : Schedule ζ φ) (t : Task) : Prop :=
  ∃ e, schedule.events[t.event]? = some e ∧ t.id = e.id ∧
    t.withoutOverlapping = e.withoutOverlapping

theorem foldl_spawned (tz : ζ) (tick : Tick) (entries : List (Event ζ φ × Nat))
    (acc : InMemoryLockStore × List Task) {t : Task}
    (ht : t ∈ (entries.foldl (dispatchEvent C tz tick) acc).2) :
    t ∈ acc.2 ∨ ∃ entry ∈ entries, t = entry.1.spawn tick entry.2 := by
  induction entries generalizing acc with
  | nil => exact .inl ht
  | cons entry entries ih =>
    obtain ⟨e, i⟩ := entry
    rw [List.foldl_cons] at ht
    have hspawn : t ∈ acc.2 ++ [e.spawn tick i] →
        t ∈ acc.2 ∨ ∃ entry ∈ (e, i) :: entries, t = entry.1.spawn tick entry.2 := by
      intro h
      rcases List.mem_append.mp h with h | h
      · exact .inl h
      · exact .inr ⟨(e, i), List.mem_cons_self, List.mem_singleton.mp h⟩
    rcases ih _ ht with hacc | ⟨entry, hentry, rfl⟩
    · rcases dispatchEvent_cases C tz tick acc e i with ⟨-, he⟩ | ⟨-, -, -, he⟩ | ⟨-, -, -, he⟩ |
        ⟨-, -, he⟩
      · rw [he] at hacc
        exact .inl hacc
      · rw [he] at hacc
        exact .inl hacc
      · rw [he] at hacc
        exact hspawn hacc
      · rw [he] at hacc
        exact hspawn hacc
    · exact .inr ⟨entry, List.mem_cons_of_mem _ hentry, rfl⟩

theorem dispatchDue_spawned {tick : Tick} {store : InMemoryLockStore} {t : Task}
    (ht : t ∈ (dispatchDue C schedule tick store).2) :
    ∃ e, schedule.events[t.event]? = some e ∧ t = e.spawn tick t.event := by
  rcases foldl_spawned _ _ _ _ ht with h | ⟨⟨e, i⟩, hentry, rfl⟩
  · cases h
  · exact ⟨e, List.mem_zipIdx_iff_getElem?.mp hentry, rfl⟩

theorem dispatchDue_of {tick : Tick} {store : InMemoryLockStore} {t : Task}
    (ht : t ∈ (dispatchDue C schedule tick store).2) : t.Of schedule := by
  obtain ⟨e, he, hspawn⟩ := dispatchDue_spawned ht
  exact ⟨e, he, congrArg Task.id hspawn, congrArg Task.withoutOverlapping hspawn⟩

/-! ### Shared ids -/

/-- Once the lock of an id has been taken, no other event of the id is started in
the wake-up. -/
theorem dispatch_locked (tz : ζ) (tick : Tick) {id : EventId} {a : Nat}
    (hread : ∀ k, durationSince (tick.instant k) a < lockTtl) (entries : List (Event ζ φ × Nat))
    (acc : InMemoryLockStore × List Task) (hlocked : acc.1.locks id = some a) :
    ∀ t ∈ (entries.foldl (dispatchEvent C tz tick) acc).2,
      t ∈ acc.2 ∨ ¬ (t.withoutOverlapping = true ∧ t.id = id) := by
  induction entries generalizing acc with
  | nil =>
    intro t ht
    exact .inl ht
  | cons entry entries ih =>
    obtain ⟨e, i⟩ := entry
    intro t ht
    rw [List.foldl_cons] at ht
    rcases dispatchEvent_cases C tz tick acc e i with ⟨-, he⟩ | ⟨-, -, -, he⟩ |
      ⟨-, hwo, hfree, he⟩ | ⟨-, hwo, he⟩
    · rw [he] at ht
      exact ih acc hlocked t ht
    · rw [he] at ht
      exact ih acc hlocked t ht
    · have hid : id ≠ e.id := by
        rintro rfl
        exact hfree ⟨a, hlocked, hread i⟩
      rw [he] at ht
      have hkept := (InMemoryLockStore.locks_insert_of_ne acc.1 hid (tick.instant i)).trans hlocked
      rcases ih (acc.1.insert e.id (tick.instant i), acc.2 ++ [e.spawn tick i]) hkept t ht with
        hold | hnot
      · rcases List.mem_append.mp hold with hold | hnew
        · exact .inl hold
        · refine .inr fun hlock => ?_
          rw [List.mem_singleton.mp hnew] at hlock
          exact hid hlock.2.symm
      · exact .inr hnot
    · rw [he] at ht
      rcases ih (acc.1, acc.2 ++ [e.spawn tick i]) hlocked t ht with hold | hnot
      · rcases List.mem_append.mp hold with hold | hnew
        · exact .inl hold
        · refine .inr fun hlock => ?_
          rw [List.mem_singleton.mp hnew] at hlock
          exact absurd (hwo.symm.trans hlock.1) (by simp)
      · exact .inr hnot

/-- A wake-up, cut at the event with the number `i`: the tasks started before it are
of events before it, and the rest is after it. -/
theorem dispatchDue_at (tick : Tick) (store : InMemoryLockStore) {i : Nat} {e : Event ζ φ}
    (hi : schedule.events[i]? = some e) :
    ∃ (acc : InMemoryLockStore × List Task) (rest : List (Event ζ φ × Nat)),
      dispatchDue C schedule tick store =
        rest.foldl (dispatchEvent C schedule.defaultTimezone tick)
          (dispatchEvent C schedule.defaultTimezone tick acc (e, i)) ∧
      (∀ u ∈ acc.2, u.event < i) ∧ ∀ entry ∈ rest, i < entry.2 := by
  obtain ⟨hlt, hget⟩ := List.getElem?_eq_some_iff.mp hi
  have hlen : (schedule.events.take i).length = i := List.length_take_of_le (le_of_lt hlt)
  have hsplit : schedule.events.zipIdx = (schedule.events.take i).zipIdx ++
      (e, i) :: (schedule.events.drop (i + 1)).zipIdx (i + 1) := by
    conv_lhs => rw [← List.take_append_drop i schedule.events, List.drop_eq_getElem_cons hlt, hget]
    rw [List.zipIdx_append, hlen, Nat.zero_add, List.zipIdx_cons]
  refine ⟨(schedule.events.take i).zipIdx.foldl
    (dispatchEvent C schedule.defaultTimezone tick) (store, []),
    (schedule.events.drop (i + 1)).zipIdx (i + 1), ?_, ?_, ?_⟩
  · unfold dispatchDue
    rw [hsplit, List.foldl_append, List.foldl_cons]
  · intro u hu
    rcases foldl_spawned _ _ _ _ hu with hnil | ⟨entry, hentry, rfl⟩
    · cases hnil
    · have hle := List.snd_lt_of_mem_zipIdx hentry
      rwa [hlen, Nat.add_zero] at hle
  · exact fun entry hentry => List.le_snd_of_mem_zipIdx hentry

/-- **A shared id.**  Of two `without_overlapping` events with one id the second is
not started in a wake-up that starts the first. -/
theorem skipped_of_shared_id {tick : Tick} {store : InMemoryLockStore} {i j : Nat}
    {e e' : Event ζ φ} (hij : i < j) (hi : schedule.events[i]? = some e)
    (hj : schedule.events[j]? = some e') (hid : e.id = e'.id)
    (hwo : e.withoutOverlapping = true) (hwo' : e'.withoutOverlapping = true)
    (hread : ∀ k, durationSince (tick.instant k) (tick.instant i) < lockTtl)
    (hfirst : ∃ t ∈ (dispatchDue C schedule tick store).2, t.event = i) :
    ∀ t ∈ (dispatchDue C schedule tick store).2, t.event ≠ j := by
  obtain ⟨t₀, ht₀, heq⟩ := hfirst
  intro t ht hevent
  obtain ⟨e'', he'', hspawn⟩ := dispatchDue_spawned ht
  rw [hevent, hj] at he''
  obtain rfl := Option.some.inj he''
  obtain ⟨acc, rest, hdispatch, hbefore, hafter⟩ := dispatchDue_at tick store hi (C := C)
  rw [hdispatch] at ht ht₀
  have hold : t₀ ∉ acc.2 := by
    intro h
    have hlt₀ := hbefore t₀ h
    omega
  -- the first event is started at its own turn
  have hstarted : t₀ ∈ (dispatchEvent C schedule.defaultTimezone tick acc (e, i)).2 := by
    rcases foldl_spawned _ _ _ _ ht₀ with h | ⟨entry, hentry, rfl⟩
    · exact h
    · have hlt := hafter entry hentry
      exact absurd heq (show entry.2 ≠ i by omega)
  rcases dispatchEvent_cases C schedule.defaultTimezone tick acc e i with ⟨-, he⟩ | ⟨-, -, -, he⟩ |
    ⟨-, -, -, he⟩ | ⟨-, hnot, -⟩
  · rw [he] at hstarted
    exact hold hstarted
  · rw [he] at hstarted
    exact hold hstarted
  · rw [he] at ht
    rcases dispatch_locked _ tick hread _ (acc.1.insert e.id (tick.instant i), acc.2 ++ _)
      (InMemoryLockStore.locks_insert_self ..) t ht with h | h
    · rcases List.mem_append.mp h with h | h
      · have hlt' := hbefore t h
        omega
      · rw [List.mem_singleton.mp h] at hevent
        exact absurd hevent (show i ≠ j by omega)
    · refine h ?_
      rw [hspawn]
      exact ⟨hwo', hid.symm⟩
  · rw [hwo] at hnot
    cases hnot

namespace Worker

/-- A task in flight is a run of its event, and has been started. -/
def Flying (schedule : Schedule ζ φ) (s : Worker) : Prop :=
  ∀ t ∈ s.inFlight, t.Of schedule ∧ t ∈ s.started

theorem Flying.step {s s' : Worker} {a : WorkAction} (h : s.Flying schedule)
    (hstep : step C schedule s a = some s') : s'.Flying schedule := by
  rcases step_cases hstep with ⟨-, rfl⟩ | ⟨t, taskEnd, rest, -, hfin, -, rfl⟩ | ⟨-, rfl⟩ |
    ⟨tick, -, rfl⟩ | ⟨-, rfl⟩ | ⟨-, -, rfl⟩ | ⟨i, t, taskEnd, -, hi, rfl⟩
  · exact h
  · intro u hu
    refine h u ?_
    simp only [inFlight, joinedNext, hfin, List.map_cons, List.mem_append, List.mem_cons] at hu ⊢
    tauto
  · exact h
  · intro u hu
    simp only [inFlight, dispatched, List.mem_append] at hu
    have hold : u ∈ s.inFlight ∨ u ∈ (dispatchDue C schedule tick s.store).2 := by
      simp only [inFlight, List.mem_append]
      tauto
    rcases hold with hold | hnew
    · exact ⟨(h u hold).1, List.mem_append_left _ (h u hold).2⟩
    · exact ⟨dispatchDue_of hnew, List.mem_append_right _ hnew⟩
  · exact h
  · exact h
  · intro u hu
    refine h u ?_
    simp only [inFlight, ended, List.map_append, List.map_cons, List.map_nil, List.mem_append,
      List.mem_singleton] at hu ⊢
    rcases hu with hu | hu | rfl
    · exact .inl (List.mem_of_mem_eraseIdx hu)
    · exact .inr hu
    · exact .inl (List.mem_of_getElem? hi)

/-- A `without_overlapping` event that a wake-up finds due and does not start has
a run in flight. -/
def SkippedForItself (C : Croner ζ) (schedule : Schedule ζ φ) (s : Worker) : Prop :=
  ∀ tick s', (∀ i, tick.leader i = true) → step C schedule s (.dispatch tick) = some s' →
    ∀ i e, schedule.events[i]? = some e → e.withoutOverlapping = true →
      e.isDueWith C tick.now schedule.defaultTimezone = .ok true →
      (∀ t ∈ (dispatchDue C schedule tick s.store).2, t.event ≠ i) →
      ∃ t ∈ s.inFlight, t.event = i ∧ t ∈ s.started

/-- The locks of the schedule's events are free. -/
def LocksFree (schedule : Schedule ζ φ) (before : InMemoryLockStore) : Prop :=
  ∀ e ∈ schedule.events, e.withoutOverlapping = true → before.locks e.id = none

theorem skippedForItself_of_held {s : Worker} (happart : schedule.IdsApart)
    (hfree : LocksFree schedule before) (hlocks : s.Locks before) (hfly : s.Flying schedule) :
    s.SkippedForItself C schedule := by
  intro tick s' hlead _ i e hi hwo hdue hnone
  have hmem : (e, i) ∈ schedule.events.zipIdx := List.mem_zipIdx_iff_getElem?.mpr hi
  have hskip := (dispatchDue_spec (C := C) schedule tick hlocks.live).2 (e, i) hmem
  obtain ⟨a, hbefore | ⟨t, ht, hown, hid, -⟩⟩ := hskip ⟨hdue, hlead i⟩ hnone
  · rw [hfree e (List.mem_of_getElem? hi) hwo] at hbefore
    cases hbefore
  · have hof : t.Of schedule := by
      rcases List.mem_append.mp ht with hfl | hsp
      · exact (hfly t hfl).1
      · exact dispatchDue_of hsp
    obtain ⟨e', he', hid', hwo'⟩ := hof
    have hevent : t.event = i :=
      happart t.event i e' e he' hi (hwo' ▸ hown) hwo (hid'.symm.trans hid)
    rcases List.mem_append.mp ht with hfl | hsp
    · exact ⟨t, hfl, hevent, (hfly t hfl).2⟩
    · exact absurd hevent (hnone t hsp)

/-- **An event is skipped only because of itself**, in every run in which no task
of a `without_overlapping` event panics, when no two of these events have one
command or one has a command with the name of another's closure. -/
theorem skippedForItself_of_apart {parseTz : String → Option ζ} {tz : ζ}
    {registrations : List (Registration φ)} (hnames : NamesApart parseTz registrations)
    (hfree : LocksFree (registered parseTz tz registrations) before) {now : Int} {s : Worker}
    (hrun : Reaches (step C (registered parseTz tz registrations)) Unpanicked
      (start C (registered parseTz tz registrations) before now) s) :
    s.SkippedForItself C (registered parseTz tz registrations) := by
  have hlocks : s.Locks before := hrun.invariant (locks_start now) fun _ _ _ hu ha hstep =>
    hu.step ha hstep
  have hfly : s.Flying (registered parseTz tz registrations) := by
    refine hrun.invariant ?_ fun _ _ _ hu _ hstep => hu.step hstep
    intro t ht
    simp [inFlight, start] at ht
  exact skippedForItself_of_held ((apart_iff parseTz tz registrations).mpr hnames) hfree hlocks hfly

/-- No time zone has a name. -/
def noTimezones (_ : String) : Option Unit := none

/-- A command every minute, with and without an argument. -/
def twoReports : List (Registration Unit) :=
  [⟨.command "report", [.everyMinute, .withoutOverlapping]⟩,
    ⟨.commandWithArgs "report" ["--full"], [.everyMinute, .withoutOverlapping]⟩]

/-- **A command keeps another one from starting**: at the first wake-up nothing is
in flight and the second event is skipped. -/
theorem not_skippedForItself : ¬ ∀ s,
    Reach (step periodic (registered noTimezones () twoReports))
      (start periodic (registered noTimezones () twoReports) .new 0) s →
      s.SkippedForItself periodic (registered noTimezones () twoReports) := by
  intro hall
  obtain ⟨s, hs, hphase, hstore, hflight⟩ : ∃ s,
      run (step periodic (registered noTimezones () twoReports))
        (start periodic (registered noTimezones () twoReports) .new 0) [.timer, .reaped] = some s ∧
      s.phase = .dispatching ∧ s.store = .new ∧ s.inFlight = [] := ⟨_, rfl, rfl, rfl, rfl⟩
  have hdispatch : step periodic (registered noTimezones () twoReports) s
      (.dispatch (tickAt 60)) = some _ := if_pos hphase
  have hspawned : ∀ t ∈ (dispatchDue periodic (registered noTimezones () twoReports) (tickAt 60)
      s.store).2, t.event ≠ 1 := by
    rw [hstore]
    decide
  obtain ⟨t, ht, -⟩ := hall s (reach_of_run hs) (tickAt 60) _ (fun _ => rfl) hdispatch 1 _ rfl rfl rfl
    hspawned
  rw [hflight] at ht
  cases ht

/-- A command and a closure every minute. -/
def reportAndClosure : List (Registration Unit) :=
  [⟨.command "report", [.everyMinute, .withoutOverlapping]⟩,
    ⟨.call (), [.everyMinute, .withoutOverlapping]⟩]

theorem namesApart_reportAndClosure : NamesApart noTimezones reportAndClosure := by
  have hcommand {i : Nat} {r : Registration Unit} {name : String}
      (hi : reportAndClosure[i]? = some r) (hname : r.call.commandName = some name) :
      i = 0 ∧ name = "report" := by
    rcases i with _ | _ | i
    · obtain rfl := Option.some.inj hi
      exact ⟨rfl, (Option.some.inj hname).symm⟩
    · obtain rfl := Option.some.inj hi
      cases hname
    · cases hi
  refine ⟨?_, ?_⟩
  · intro i j r r' name hi hj hname hname'
    rw [(hcommand hi.1 hname).1, (hcommand hj.1 hname').1]
  · intro i j r r' hi _ _ hname
    have hreport := (hcommand hi.1 hname).2
    have hhead := congrArg (fun s => s.toList.head?) hreport
    simp [closureId] at hhead

theorem skippedForItself_reportAndClosure : ∃ s,
    run (step periodic (registered noTimezones () reportAndClosure))
        (start periodic (registered noTimezones () reportAndClosure) .new 0)
        [.timer, .reaped, .dispatch (tickAt 60), .timer, .reaped] = some s ∧
      s.inFlight.map Task.id = ["report", "closure-1"] ∧
      s.SkippedForItself periodic (registered noTimezones () reportAndClosure) := by
  obtain ⟨s, hs, hflight⟩ : ∃ s,
      run (step periodic (registered noTimezones () reportAndClosure))
        (start periodic (registered noTimezones () reportAndClosure) .new 0)
        [.timer, .reaped, .dispatch (tickAt 60), .timer, .reaped] = some s ∧
      s.inFlight.map Task.id = ["report", "closure-1"] := ⟨_, rfl, by decide⟩
  have hfree : LocksFree (registered noTimezones () reportAndClosure) .new := fun _ _ _ => rfl
  refine ⟨s, hs, hflight, skippedForItself_of_apart namesApart_reportAndClosure hfree
    (reaches_of_run hs (runOk_of_forall ?_ _))⟩
  simp [Unpanicked]

end Worker

end Kolas.Schedule

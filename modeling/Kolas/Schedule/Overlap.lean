import Kolas.Schedule.WorkSkips

/-!
# Overlapping runs

What `without_overlapping` is for: two runs of one id are never in flight at the
same time.  `LOCK_TTL` is "conservative so a lock is never dropped while a long
task is still running", so the work loop keeps this as long as no run grows as old
as its lock, and no longer.

* `Worker.apart_of_timely`: in every run of the loop whose wake-ups find no lock of
  a run in flight expired (`Timely`), no two runs of one id are in flight, whether
  tasks return, fail or panic; and a further wake-up starts a second run of an id in
  flight exactly when it is not timely.
* `Secured`: the invariant.  Every run in flight owns the lock that the store has
  for its id.
-/

namespace Kolas.Schedule

open Kolas.Lib

variable {ζ φ : Type} {C : Croner ζ} {schedule : Schedule ζ φ}

/-- Two runs that `without_overlapping` is there to keep apart. -/
def Task.Clashes (t u : Task) : Prop :=
  t.withoutOverlapping = true ∧ u.withoutOverlapping = true ∧ t.id = u.id

/-- No two of the runs clash. -/
def Apart (tasks : List Task) : Prop := tasks.Pairwise fun t u => ¬ t.Clashes u

theorem Task.Clashes.symm {t u : Task} (h : t.Clashes u) : u.Clashes t := ⟨h.2.1, h.1, h.2.2.symm⟩

theorem apart_perm {tasks tasks' : List Task} (h : tasks.Perm tasks') :
    Apart tasks ↔ Apart tasks' :=
  h.pairwise_iff fun hnot hclash => hnot hclash.symm

/-- The runs are apart, and each one's lock is the one the store has for its id. -/
structure Secured (store : InMemoryLockStore) (tasks : List Task) : Prop where
  apart : Apart tasks
  locked : ∀ t ∈ tasks, t.withoutOverlapping = true → store.locks t.id = some t.lockedAt

namespace Secured

variable {store : InMemoryLockStore} {tasks tasks' : List Task}

theorem perm (h : Secured store tasks) (hperm : tasks.Perm tasks') : Secured store tasks' :=
  ⟨(apart_perm hperm).mp h.apart, fun t ht => h.locked t (hperm.mem_iff.mpr ht)⟩

/-- A run without a lock may join at any time. -/
theorem concat_unlocked (h : Secured store tasks) {t : Task} (ht : t.withoutOverlapping = false) :
    Secured store (tasks ++ [t]) := by
  have hnot : ∀ u : Task, ¬ u.Clashes t := by
    intro u hclash
    have hwo := hclash.2.1
    rw [ht] at hwo
    cases hwo
  refine ⟨?_, ?_⟩
  · refine List.pairwise_append.mpr ⟨h.apart, List.pairwise_singleton _ _, ?_⟩
    intro u _ v hv
    rw [List.mem_singleton.mp hv]
    exact hnot u
  · intro u hu hwo
    rcases List.mem_append.mp hu with hu | hu
    · exact h.locked u hu hwo
    · rw [List.mem_singleton.mp hu, ht] at hwo
      cases hwo

/-- A run that takes its lock while nobody owns one for its id. -/
theorem concat_locked (h : Secured store tasks) {t : Task}
    (hfree : ∀ u ∈ tasks, u.withoutOverlapping = true → u.id ≠ t.id) :
    Secured (store.insert t.id t.lockedAt) (tasks ++ [t]) := by
  refine ⟨?_, ?_⟩
  · refine List.pairwise_append.mpr ⟨h.apart, List.pairwise_singleton _ _, ?_⟩
    intro u hu v hv hclash
    rw [List.mem_singleton.mp hv] at hclash
    exact hfree u hu hclash.1 hclash.2.2
  · intro u hu hwo
    rcases List.mem_append.mp hu with hu | hu
    · rw [InMemoryLockStore.locks_insert_of_ne _ (hfree u hu hwo)]
      exact h.locked u hu hwo
    · rw [List.mem_singleton.mp hu]
      exact InMemoryLockStore.locks_insert_self ..

/-- Joining a run releases no lock but its own. -/
theorem handleJoin {t : Task} (taskEnd : TaskEnd) (h : Secured store (t :: tasks)) :
    Secured (handleJoin store (t.joined taskEnd)) tasks := by
  obtain ⟨hhead, htail⟩ := List.pairwise_cons.mp h.apart
  refine ⟨htail, ?_⟩
  intro u hu hwo
  have hlocked := h.locked u (List.mem_cons_of_mem t hu) hwo
  cases taskEnd with
  | panicked => exact hlocked
  | returned result =>
    cases htwo : t.withoutOverlapping with
    | false => simpa [Schedule.handleJoin, Task.joined, htwo] using hlocked
    | true =>
      have hne : u.id ≠ t.id := fun hid => hhead u hu ⟨htwo, hwo, hid.symm⟩
      simpa [Schedule.handleJoin, Task.joined, htwo,
        InMemoryLockStore.locks_release_of_ne _ hne] using hlocked

end Secured

/-! ### One wake-up -/

/-- The wake-up goes through its events in less than the `LOCK_TTL`. -/
def Tick.Short (tick : Tick) : Prop :=
  ∀ i j, durationSince (tick.instant i) (tick.instant j) < lockTtl

/-- When the event's turn comes, the locks of the runs of its id are still fresh. -/
def FreshFor (tick : Tick) (tasks : List Task) (entry : Event ζ φ × Nat) : Prop :=
  ∀ t ∈ tasks, t.withoutOverlapping = true → t.id = entry.1.id →
    durationSince (tick.instant entry.2) t.lockedAt < lockTtl

/-- A lock is taken only from an id that has no run in flight. -/
theorem Secured.not_held {store : InMemoryLockStore} {tasks : List Task} (h : Secured store tasks)
    {tick : Tick} {e : Event ζ φ} {i : Nat} (hfresh : FreshFor tick tasks (e, i))
    (hfree : ¬ store.Held e.id lockTtl (tick.instant i)) :
    ∀ t ∈ tasks, t.withoutOverlapping = true → t.id ≠ e.id := by
  intro t ht hwo hid
  refine hfree ⟨t.lockedAt, ?_, hfresh t ht hwo hid⟩
  rw [← hid]
  exact h.locked t ht hwo

theorem Secured.dispatchEvent {tz : ζ} {tick : Tick} {acc : InMemoryLockStore × List Task}
    {tasks : List Task} (h : Secured acc.1 (tasks ++ acc.2)) {entry : Event ζ φ × Nat}
    (hfresh : entry.1.Chosen C tz tick entry.2 → entry.1.withoutOverlapping = true →
      FreshFor tick (tasks ++ acc.2) entry) :
    Secured (dispatchEvent C tz tick acc entry).1
      (tasks ++ (dispatchEvent C tz tick acc entry).2) := by
  obtain ⟨e, i⟩ := entry
  rcases dispatchEvent_cases C tz tick acc e i with ⟨-, he⟩ | ⟨-, -, -, he⟩ |
    ⟨hchosen, hwo, hfree, he⟩ | ⟨-, hwo, he⟩
  · rw [he]
    exact h
  · rw [he]
    exact h
  · rw [he, ← List.append_assoc]
    exact h.concat_locked (t := e.spawn tick i) (h.not_held (hfresh hchosen hwo) hfree)
  · rw [he, ← List.append_assoc]
    exact h.concat_unlocked hwo

theorem foldl_secured {tz : ζ} {tick : Tick} (hshort : tick.Short) {tasks : List Task}
    (entries : List (Event ζ φ × Nat)) (acc : InMemoryLockStore × List Task)
    (hnew : ∀ u ∈ acc.2, ∃ j, u.lockedAt = tick.instant j) (h : Secured acc.1 (tasks ++ acc.2))
    (hfresh : ∀ entry ∈ entries, entry.1.Chosen C tz tick entry.2 →
      entry.1.withoutOverlapping = true → FreshFor tick tasks entry) :
    Secured (entries.foldl (dispatchEvent C tz tick) acc).1
      (tasks ++ (entries.foldl (dispatchEvent C tz tick) acc).2) := by
  induction entries generalizing acc with
  | nil => exact h
  | cons entry entries ih =>
    rw [List.foldl_cons]
    refine ih _ ?_ (h.dispatchEvent ?_) fun entry' hmem => hfresh entry' (List.mem_cons_of_mem _ hmem)
    · intro u hu
      have hspawned : u ∈ ([entry].foldl (dispatchEvent C tz tick) acc).2 := hu
      rcases foldl_spawned tz tick [entry] acc hspawned with hold | ⟨entry', -, rfl⟩
      · exact hnew u hold
      · exact ⟨entry'.2, rfl⟩
    · intro hchosen hwo t ht htwo hid
      rcases List.mem_append.mp ht with ht | ht
      · exact hfresh entry List.mem_cons_self hchosen hwo t ht htwo hid
      · obtain ⟨j, hj⟩ := hnew t ht
        rw [hj]
        exact hshort entry.2 j

theorem foldl_kept (tz : ζ) (tick : Tick) (entries : List (Event ζ φ × Nat))
    (acc : InMemoryLockStore × List Task) {t : Task} (ht : t ∈ acc.2) :
    t ∈ (entries.foldl (dispatchEvent C tz tick) acc).2 := by
  induction entries generalizing acc with
  | nil => exact ht
  | cons entry entries ih => exact ih _ (dispatchEvent_spawned entry ht)

/-- A chosen event that finds the lock of its id expired starts a run, unless
another event of the id has done so in the same wake-up. -/
theorem foldl_expired {tz : ζ} {tick : Tick} {a : Nat} {entry : Event ζ φ × Nat}
    (hchosen : entry.1.Chosen C tz tick entry.2) (hwo : entry.1.withoutOverlapping = true)
    (hold : ¬ durationSince (tick.instant entry.2) a < lockTtl)
    (entries : List (Event ζ φ × Nat)) (acc : InMemoryLockStore × List Task)
    (hmem : entry ∈ entries) (hlocked : acc.1.locks entry.1.id = some a) :
    ∃ u ∈ (entries.foldl (dispatchEvent C tz tick) acc).2,
      u.withoutOverlapping = true ∧ u.id = entry.1.id := by
  induction entries generalizing acc with
  | nil => cases hmem
  | cons first entries ih =>
    obtain ⟨e, i⟩ := first
    rw [List.foldl_cons]
    rcases dispatchEvent_cases C tz tick acc e i with ⟨hnot, he⟩ | ⟨-, -, hheld, he⟩ |
      ⟨-, hwo', -, he⟩ | ⟨-, hwo', he⟩
    · rw [he]
      rcases List.mem_cons.mp hmem with rfl | hrest
      · exact absurd hchosen hnot
      · exact ih acc hrest hlocked
    · rw [he]
      rcases List.mem_cons.mp hmem with rfl | hrest
      · obtain ⟨b, hb, hlt⟩ := hheld
        rw [hlocked] at hb
        cases hb
        exact absurd hlt hold
      · exact ih acc hrest hlocked
    · rw [he]
      by_cases hid : e.id = entry.1.id
      · refine ⟨e.spawn tick i, foldl_kept tz tick entries _ ?_, hwo', hid⟩
        exact List.mem_append_right _ List.mem_cons_self
      · have hrest : entry ∈ entries := by
          rcases List.mem_cons.mp hmem with rfl | hrest
          · exact absurd rfl hid
          · exact hrest
        refine ih _ hrest ?_
        exact (InMemoryLockStore.locks_insert_of_ne acc.1 (Ne.symm hid) _).trans hlocked
    · rw [he]
      rcases List.mem_cons.mp hmem with rfl | hrest
      · rw [hwo'] at hwo
        cases hwo
      · exact ih _ hrest hlocked

/-! ### Runs of the loop -/

namespace Worker

/-- The action is not a wake-up, or the wake-up is short and finds the lock of no
run in flight expired. -/
def Timely (C : Croner ζ) (schedule : Schedule ζ φ) (s : Worker) : WorkAction → Prop
  | .dispatch tick => tick.Short ∧ ∀ entry ∈ schedule.events.zipIdx,
      entry.1.Chosen C schedule.defaultTimezone tick entry.2 →
      entry.1.withoutOverlapping = true → FreshFor tick s.inFlight entry
  | _ => True

/-- Joining a task takes it out of flight. -/
theorem inFlight_joinedNext {s : Worker} {t : Task} {taskEnd : TaskEnd}
    {rest : List (Task × TaskEnd)} (hfin : s.finished = (t, taskEnd) :: rest) :
    s.inFlight.Perm (t :: (s.joinedNext t taskEnd rest).inFlight) := by
  simp only [inFlight, joinedNext, hfin, List.map_cons]
  exact List.perm_middle

/-- A task that ends stays in flight until it is joined. -/
theorem inFlight_ended {s : Worker} {i : Nat} {t : Task} (hi : s.running[i]? = some t)
    (taskEnd : TaskEnd) : s.inFlight.Perm (s.ended i t taskEnd).inFlight := by
  obtain ⟨hlt, hget⟩ := List.getElem?_eq_some_iff.mp hi
  have hrun : s.running.Perm (t :: s.running.eraseIdx i) := by
    rw [← hget]
    exact (List.getElem_cons_eraseIdx_perm hlt).symm
  simp only [inFlight, ended, List.map_append, List.map_cons, List.map_nil]
  refine (hrun.append_right _).trans ?_
  rw [← List.append_assoc, List.cons_append]
  exact (List.perm_append_singleton _ _).symm

/-- The tasks of a wake-up join those in flight. -/
theorem inFlight_dispatched (s : Worker) (tick : Tick) :
    (s.inFlight ++ (dispatchDue C schedule tick s.store).2).Perm
      (s.dispatched C schedule tick).inFlight := by
  simp only [inFlight, dispatched]
  rw [List.append_assoc, List.append_assoc]
  exact (List.perm_append_comm).append_left _

theorem secured_dispatched {s : Worker} (h : Secured s.store s.inFlight) {tick : Tick}
    (htimely : s.Timely C schedule (.dispatch tick)) :
    Secured (s.dispatched C schedule tick).store (s.dispatched C schedule tick).inFlight := by
  refine Secured.perm ?_ (s.inFlight_dispatched tick)
  refine foldl_secured htimely.1 schedule.events.zipIdx (s.store, []) ?_ ?_ htimely.2
  · intro u hu
    cases hu
  · rwa [List.append_nil]

/-- **One step**: the runs in flight stay secured. -/
theorem secured_step {s s' : Worker} {a : WorkAction} (h : Secured s.store s.inFlight)
    (ha : s.Timely C schedule a) (hstep : step C schedule s a = some s') :
    Secured s'.store s'.inFlight := by
  rcases step_cases hstep with ⟨-, rfl⟩ | ⟨t, taskEnd, rest, -, hfin, -, rfl⟩ | ⟨-, rfl⟩ |
    ⟨tick, rfl, rfl⟩ | ⟨-, rfl⟩ | ⟨-, -, rfl⟩ | ⟨i, t, taskEnd, -, hi, rfl⟩
  · exact h
  · exact (h.perm (inFlight_joinedNext hfin)).handleJoin taskEnd
  · exact h
  · exact secured_dispatched h ha
  · exact h
  · exact h
  · exact h.perm (inFlight_ended hi taskEnd)

/-- A wake-up that is not timely brings a second run of an id in flight. -/
theorem timely_of_apart {s : Worker} (h : Secured s.store s.inFlight) {tick : Tick}
    (hshort : tick.Short) (hapart : Apart (s.dispatched C schedule tick).inFlight) :
    s.Timely C schedule (.dispatch tick) := by
  refine ⟨hshort, ?_⟩
  intro entry hmem hchosen hwo t ht htwo hid
  by_contra hold
  have hlocked : s.store.locks entry.1.id = some t.lockedAt := by
    rw [← hid]
    exact h.locked t ht htwo
  obtain ⟨u, hu, huwo, huid⟩ :=
    foldl_expired hchosen hwo hold schedule.events.zipIdx (s.store, []) hmem hlocked
  have hall := (apart_perm (s.inFlight_dispatched tick)).mpr hapart
  exact (List.pairwise_append.mp hall).2.2 t ht u hu ⟨htwo, huwo, hid.trans huid.symm⟩

/-- **Runs do not overlap.**  As long as every wake-up finds the locks of the runs in
flight younger than the `LOCK_TTL`, no two runs of one id are in flight; and a next
wake-up keeps it so exactly when it is timely as well. -/
theorem apart_of_timely {before : InMemoryLockStore} {now : Int} {s : Worker}
    (hrun : Reaches (step C schedule) (Timely C schedule) (start C schedule before now) s) :
    Apart s.inFlight ∧ ∀ tick s', tick.Short → step C schedule s (.dispatch tick) = some s' →
      (Apart s'.inFlight ↔ s.Timely C schedule (.dispatch tick)) := by
  have hsecured : Secured s.store s.inFlight := by
    refine hrun.invariant (P := fun s => Secured s.store s.inFlight) ?_ ?_
    · exact ⟨List.Pairwise.nil, by simp [start, inFlight]⟩
    · exact fun _ _ _ hu ha hstep => secured_step hu ha hstep
  refine ⟨hsecured.apart, ?_⟩
  intro tick s' hshort hstep
  have hs' : s' = s.dispatched C schedule tick := by
    rcases step_cases hstep with ⟨hc, -⟩ | ⟨_, _, _, hc, -⟩ | ⟨hc, -⟩ | ⟨tick', hc, rfl⟩ |
      ⟨hc, -⟩ | ⟨hc, -⟩ | ⟨_, _, _, hc, -⟩
    · cases hc
    · cases hc
    · cases hc
    · cases hc
      rfl
    · cases hc
    · cases hc
    · cases hc
  subst hs'
  exact ⟨timely_of_apart hsecured hshort, fun htimely => (secured_dispatched hsecured htimely).apart⟩

/-- The report is started at the first wake-up, and is in flight at the second. -/
def twoWakeUps : List WorkAction :=
  [.timer, .reaped, .dispatch (tickAt 60), .timer, .reaped, .dispatch (tickAt 120), .timer, .reaped]

theorem apart_twoWakeUps : ∃ s,
    run (step periodic lockedReport) (start periodic lockedReport .new 0) twoWakeUps = some s ∧
      s.inFlight.map Task.id = ["report"] ∧ Apart s.inFlight ∧
      ∀ tick s', tick.Short → step periodic lockedReport s (.dispatch tick) = some s' →
        (Apart s'.inFlight ↔ s.Timely periodic lockedReport (.dispatch tick)) := by
  obtain ⟨s, hs, hflight⟩ : ∃ s,
      run (step periodic lockedReport) (start periodic lockedReport .new 0) twoWakeUps = some s ∧
      s.inFlight.map Task.id = ["report"] := ⟨_, rfl, by decide⟩
  have hpositive : 0 < lockTtl := by decide
  have htick : ∀ t u, Timely periodic lockedReport u (.dispatch (tickAt t)) := by
    intro t u
    refine ⟨?_, ?_⟩
    · intro i j
      simpa [tickAt, durationSince] using hpositive
    · intro _ _ _ _ _ _ _ _
      simpa [tickAt, durationSince] using hpositive
  have hok : RunOk (step periodic lockedReport) (Timely periodic lockedReport)
      (start periodic lockedReport .new 0) twoWakeUps := by
    refine runOk_of_forall ?_ _
    intro a ha u
    simp only [twoWakeUps, List.mem_cons, List.not_mem_nil, or_false] at ha
    rcases ha with rfl | rfl | rfl | rfl | rfl | rfl | rfl | rfl
    · trivial
    · trivial
    · exact htick 60 u
    · trivial
    · trivial
    · exact htick 120 u
    · trivial
    · trivial
  exact ⟨s, hs, hflight, apart_of_timely (reaches_of_run hs hok)⟩

end Worker

end Kolas.Schedule

import Kolas.Schedule.Accounts
import Kolas.Schedule.Overlap

/-!
# The two schedulers

`schedule:run` executes the due events one after the other (`run_once`), and
`schedule:work` starts them all at once (`dispatch_due`).  At the same instant, with
the same leader and the same locks, they agree on which events are due; they differ
when several `without_overlapping` events have one id, since `run_once` has given the
lock back when the next one's turn comes and `dispatch_due` has not.

* `mem_started_iff`: what a wake-up starts.
* `started_agrees`: it is what a pass executes, less the later events of each id.
-/

set_option linter.dupNamespace false

namespace Kolas.Schedule

open Kolas.Lib

variable {ζ φ : Type} {C : Croner ζ} {schedule : Schedule ζ φ} {tick : Tick}
  {store : InMemoryLockStore}

/-- The i-th event is due and led, and the lock it needs, if any, was free before the
wake-up. -/
def Schedule.Ready (C : Croner ζ) (schedule : Schedule ζ φ) (tick : Tick)
    (store : InMemoryLockStore) (i : Nat) (e : Event ζ φ) : Prop :=
  schedule.events[i]? = some e ∧ e.Chosen C schedule.defaultTimezone tick i ∧
    (e.withoutOverlapping = true → ¬ store.Held e.id lockTtl (tick.instant i))

/-- Two events that share a lock. -/
def Event.SharesLock (e e' : Event ζ φ) : Prop :=
  e.withoutOverlapping = true ∧ e'.withoutOverlapping = true ∧ e.id = e'.id

/-- The i-th event is the first ready one of its lock. -/
def Schedule.First (C : Croner ζ) (schedule : Schedule ζ φ) (tick : Tick)
    (store : InMemoryLockStore) (i : Nat) (e : Event ζ φ) : Prop :=
  schedule.Ready C tick store i e ∧
    ∀ j e', j < i → schedule.Ready C tick store j e' → ¬ e'.SharesLock e

/-- The wake-up after its first `n` events. -/
def Schedule.startedIn (C : Croner ζ) (schedule : Schedule ζ φ) (tick : Tick)
    (store : InMemoryLockStore) (n : Nat) : InMemoryLockStore × List Task :=
  (schedule.events.zipIdx.take n).foldl (dispatchEvent C schedule.defaultTimezone tick) (store, [])

/-- The first `n` events: the first ready ones of each lock are started, in order, and
the locks are those before, or of the tasks started. -/
structure Schedule.StartsFirst (C : Croner ζ) (schedule : Schedule ζ φ) (tick : Tick)
    (store : InMemoryLockStore) (n : Nat) (acc : InMemoryLockStore × List Task) : Prop where
  inOrder : (acc.2.map Task.event).Pairwise (· < ·)
  started : ∀ i, i ∈ acc.2.map Task.event ↔ i < n ∧ ∃ e, schedule.First C tick store i e
  taken : ∀ i e, i < n → schedule.First C tick store i e → e.withoutOverlapping = true →
    ∃ j, acc.1.locks e.id = some (tick.instant j)
  untouched : ∀ id, (∀ i e, i < n → schedule.First C tick store i e →
    e.withoutOverlapping = true → e.id ≠ id) → acc.1.locks id = store.locks id

namespace Schedule

/-- Of the ready events of a lock, one is the first. -/
theorem exists_first {i : Nat} {e : Event ζ φ} (h : schedule.Ready C tick store i e)
    (hwo : e.withoutOverlapping = true) :
    ∃ j e', j ≤ i ∧ schedule.First C tick store j e' ∧ e'.SharesLock e := by
  induction i using Nat.strongRecOn generalizing e with
  | ind i ih =>
    by_cases hfirst : ∀ j e', j < i → schedule.Ready C tick store j e' → ¬ e'.SharesLock e
    · exact ⟨i, e, Nat.le_refl i, ⟨h, hfirst⟩, hwo, hwo, rfl⟩
    · push Not at hfirst
      obtain ⟨j, e', hj, hready, hshares⟩ := hfirst
      obtain ⟨k, e'', hk, hfirst', hshares'⟩ := ih j hj hready hshares.1
      exact ⟨k, e'', by omega, hfirst', hshares'.1, hwo, hshares'.2.2.trans hshares.2.2⟩

theorem startedIn_succ {n : Nat} {e : Event ζ φ} (hn : schedule.events[n]? = some e) :
    schedule.startedIn C tick store (n + 1) =
      dispatchEvent C schedule.defaultTimezone tick (schedule.startedIn C tick store n) (e, n) := by
  unfold startedIn
  rw [take_zipIdx_succ hn, List.foldl_append, List.foldl_cons, List.foldl_nil]

theorem startedIn_length :
    schedule.startedIn C tick store schedule.events.length = dispatchDue C schedule tick store := by
  unfold startedIn dispatchDue
  rw [List.take_of_length_le (by simp)]

namespace StartsFirst

variable {n : Nat} {e : Event ζ φ}

/-- **The lock at the event's turn** is free exactly when the event is the first ready
one of its lock. -/
theorem free_iff (hshort : tick.Short) {acc : InMemoryLockStore × List Task}
    (h : schedule.StartsFirst C tick store n acc) (hn : schedule.events[n]? = some e)
    (hchosen : e.Chosen C schedule.defaultTimezone tick n) (hwo : e.withoutOverlapping = true) :
    ¬ acc.1.Held e.id lockTtl (tick.instant n) ↔ schedule.First C tick store n e := by
  constructor
  · intro hfree
    have hnone : ∀ i e', i < n → schedule.First C tick store i e' →
        e'.withoutOverlapping = true → e'.id ≠ e.id := by
      intro i e' hi hfirst hwo' hid
      obtain ⟨j, hj⟩ := h.taken i e' hi hfirst hwo'
      rw [hid] at hj
      exact hfree ⟨_, hj, hshort n j⟩
    refine ⟨⟨hn, hchosen, ?_⟩, ?_⟩
    · intro _ hheld
      obtain ⟨a, ha, hyoung⟩ := hheld
      exact hfree ⟨a, (h.untouched e.id hnone).trans ha, hyoung⟩
    · intro j e' hj hready hshares
      obtain ⟨k, e'', hk, hfirst, hshares'⟩ := exists_first hready hshares.1
      exact hnone k e'' (by omega) hfirst hshares'.1 (hshares'.2.2.trans hshares.2.2)
  · intro hfirst hheld
    obtain ⟨a, ha, hyoung⟩ := hheld
    rw [h.untouched e.id ?_] at ha
    · exact hfirst.1.2.2 hwo ⟨a, ha, hyoung⟩
    · intro i e' hi hfirst' hwo' hid
      exact hfirst.2 i e' hi hfirst'.1 ⟨hwo', hwo, hid⟩

/-- A turn that starts nothing. -/
theorem succ_same {acc : InMemoryLockStore × List Task} (h : schedule.StartsFirst C tick store n acc)
    (hnot : ∀ e', ¬ schedule.First C tick store n e') :
    schedule.StartsFirst C tick store (n + 1) acc := by
  -- the first ready events below `n + 1` are those below `n`
  have hbelow : ∀ i e', i < n + 1 → schedule.First C tick store i e' → i < n := by
    intro i e' hi hfirst
    by_cases hin : i = n
    · subst hin
      exact absurd hfirst (hnot e')
    · omega
  refine ⟨h.inOrder, ?_, ?_, ?_⟩
  · intro i
    rw [h.started]
    constructor
    · intro hi
      exact ⟨by omega, hi.2⟩
    · intro hi
      obtain ⟨hlt, e', hfirst⟩ := hi
      exact ⟨hbelow i e' hlt hfirst, e', hfirst⟩
  · exact fun i e' hi hfirst => h.taken i e' (hbelow i e' hi hfirst) hfirst
  · intro id hnone
    exact h.untouched id fun i e' hi hfirst => hnone i e' (by omega) hfirst

/-- A turn that starts the event. -/
theorem succ_started {acc : InMemoryLockStore × List Task}
    (h : schedule.StartsFirst C tick store n acc) (hfirst : schedule.First C tick store n e)
    {store' : InMemoryLockStore}
    (hself : e.withoutOverlapping = true → store'.locks e.id = some (tick.instant n))
    (hother : ∀ id, (e.withoutOverlapping = true → id ≠ e.id) → store'.locks id = acc.1.locks id) :
    schedule.StartsFirst C tick store (n + 1) (store', acc.2 ++ [e.spawn tick n]) := by
  have hmap : (acc.2 ++ [e.spawn tick n]).map Task.event = acc.2.map Task.event ++ [n] := by
    simp [Event.spawn]
  refine ⟨?_, ?_, ?_, ?_⟩
  · rw [hmap]
    refine List.pairwise_append.mpr ⟨h.inOrder, List.pairwise_singleton _ _, ?_⟩
    intro i hi j hj
    rw [List.mem_singleton.mp hj]
    exact ((h.started i).mp hi).1
  · intro i
    rw [hmap, List.mem_append, h.started, List.mem_singleton]
    constructor
    · intro hi
      rcases hi with ⟨hlt, hi⟩ | rfl
      · exact ⟨by omega, hi⟩
      · exact ⟨by omega, e, hfirst⟩
    · intro hi
      obtain ⟨hlt, e', hfirst'⟩ := hi
      by_cases hin : i = n
      · exact Or.inr hin
      · exact Or.inl ⟨by omega, e', hfirst'⟩
  · intro i e' hi hfirst' hwo'
    by_cases hid : e.withoutOverlapping = true ∧ e'.id = e.id
    · refine ⟨n, ?_⟩
      rw [hid.2]
      exact hself hid.1
    · have hin : i < n := by
        by_contra hge
        obtain rfl : i = n := by omega
        obtain rfl : e' = e := Option.some.inj (hfirst'.1.1.symm.trans hfirst.1.1)
        exact hid ⟨hwo', rfl⟩
      obtain ⟨j, hj⟩ := h.taken i e' hin hfirst' hwo'
      exact ⟨j, (hother e'.id fun hwo heq => hid ⟨hwo, heq⟩).trans hj⟩
  · intro id hnone
    refine (hother id ?_).trans (h.untouched id ?_)
    · intro hwo heq
      exact hnone n e (by omega) hfirst hwo heq.symm
    · exact fun i e' hi hfirst' => hnone i e' (by omega) hfirst'

/-- **One more turn.** -/
theorem succ (hshort : tick.Short) {acc : InMemoryLockStore × List Task}
    (h : schedule.StartsFirst C tick store n acc) (hn : schedule.events[n]? = some e) :
    schedule.StartsFirst C tick store (n + 1)
      (dispatchEvent C schedule.defaultTimezone tick acc (e, n)) := by
  -- an event at the place `n` is `e`
  have hself : ∀ e', schedule.First C tick store n e' → e' = e :=
    fun e' hfirst => Option.some.inj (hfirst.1.1.symm.trans hn)
  rcases dispatchEvent_cases C schedule.defaultTimezone tick acc e n with ⟨hnot, he⟩ |
    ⟨hchosen, hwo, hheld, he⟩ | ⟨hchosen, hwo, hfree, he⟩ | ⟨hchosen, hwo, he⟩
  · rw [he]
    refine h.succ_same ?_
    intro e' hfirst
    obtain rfl := hself e' hfirst
    exact hnot hfirst.1.2.1
  · rw [he]
    refine h.succ_same ?_
    intro e' hfirst
    obtain rfl := hself e' hfirst
    exact (h.free_iff hshort hn hchosen hwo).mpr hfirst hheld
  · rw [he]
    refine h.succ_started ((h.free_iff hshort hn hchosen hwo).mp hfree) ?_ ?_
    · exact fun _ => InMemoryLockStore.locks_insert_self ..
    · exact fun id hne => InMemoryLockStore.locks_insert_of_ne _ (hne hwo) _
  · rw [he]
    have hfirst : schedule.First C tick store n e := by
      refine ⟨⟨hn, hchosen, ?_⟩, ?_⟩
      · intro hwo'
        rw [hwo] at hwo'
        cases hwo'
      · intro j e' _ _ hshares
        have hwo' := hshares.2.1
        rw [hwo] at hwo'
        cases hwo'
    refine h.succ_started hfirst ?_ fun _ _ => rfl
    intro hwo'
    rw [hwo] at hwo'
    cases hwo'

end StartsFirst

theorem startsFirst_startedIn (hshort : tick.Short) {n : Nat} (hn : n ≤ schedule.events.length) :
    schedule.StartsFirst C tick store n (schedule.startedIn C tick store n) := by
  induction n with
  | zero =>
    refine ⟨List.Pairwise.nil, ?_, ?_, fun _ _ => rfl⟩
    · intro i
      simp [startedIn]
    · intro i e hi
      cases hi
  | succ n ih =>
    have hget : schedule.events[n]? = some schedule.events[n] := List.getElem?_eq_getElem (by omega)
    rw [startedIn_succ hget]
    exact (ih (by omega)).succ hshort hget

/-- **What a wake-up starts**: the first ready event of each lock, and every ready event
that needs none. -/
theorem mem_started_iff (hshort : tick.Short) (i : Nat) :
    i ∈ (dispatchDue C schedule tick store).2.map Task.event ↔
      ∃ e, schedule.First C tick store i e := by
  rw [← startedIn_length, (startsFirst_startedIn hshort (Nat.le_refl _)).started]
  constructor
  · exact fun h => h.2
  · intro h
    obtain ⟨e, hfirst⟩ := h
    exact ⟨(List.getElem?_eq_some_iff.mp hfirst.1.1).1, e, hfirst⟩

end Schedule

/-! ### The plain pass -/

/-- The pass and the wake-up see one clock, one leader and one store. -/
structure SameTurn (pass : Pass) (tick : Tick) (store : InMemoryLockStore) : Prop where
  now : pass.now = tick.now
  leader : pass.leader = tick.leader
  held : ∀ id i, pass.store.Held id lockTtl (pass.instant i) ↔
    store.Held id lockTtl (tick.instant i)

/-- A pass executes every ready event. -/
theorem mem_executed_iff {pass : Pass} (hclock : Monotone pass.instant)
    (hsame : SameTurn pass tick store) (i : Nat) :
    i ∈ (schedule.runOnce C pass).executed ↔ ∃ e, schedule.Ready C tick store i e := by
  rw [← Schedule.reached_length, (Schedule.accounts_reached (Nat.le_refl _)).executed]
  have hturn : ∀ e : Event ζ φ, i < schedule.events.length →
      (e.ChosenIn C schedule.defaultTimezone pass i ∧
        e.LockFree (schedule.reached C pass i).store pass i ↔
      e.Chosen C schedule.defaultTimezone tick i ∧
        (e.withoutOverlapping = true → ¬ store.Held e.id lockTtl (tick.instant i))) := by
    intro e hi
    rw [lockFree_reached_iff hclock (Nat.le_of_lt hi)]
    unfold Event.ChosenIn Event.Chosen Event.LockFree
    rw [hsame.now, hsame.leader, hsame.held]
  constructor
  · intro h
    obtain ⟨hi, e, he, hrun⟩ := h
    exact ⟨e, he, (hturn e hi).mp hrun⟩
  · intro h
    obtain ⟨e, he, hready⟩ := h
    have hi := (List.getElem?_eq_some_iff.mp he).1
    exact ⟨hi, e, he, (hturn e hi).mpr hready⟩

/-- The events at two places share a lock. -/
def Schedule.SharesLock (schedule : Schedule ζ φ) (i j : Nat) : Prop :=
  ∃ e e', schedule.events[i]? = some e ∧ schedule.events[j]? = some e' ∧ e.SharesLock e'

/-- **The two schedulers agree**, up to shared ids.  A wake-up starts events that a pass
at the same instant executes, in the same order; those it leaves out share the lock of
one it has started before; so it starts the same ones exactly when no two of them share a lock. -/
theorem started_agrees {pass : Pass} (hclock : Monotone pass.instant) (hshort : tick.Short)
    (hsame : SameTurn pass tick store) :
    ((dispatchDue C schedule tick store).2.map Task.event).Sublist
        (schedule.runOnce C pass).executed ∧
      (∀ i ∈ (schedule.runOnce C pass).executed,
        i ∈ (dispatchDue C schedule tick store).2.map Task.event ∨
        ∃ j ∈ (dispatchDue C schedule tick store).2.map Task.event,
          j < i ∧ schedule.SharesLock j i) ∧
      ((dispatchDue C schedule tick store).2.map Task.event = (schedule.runOnce C pass).executed ↔
        ∀ i ∈ (schedule.runOnce C pass).executed, ∀ j ∈ (schedule.runOnce C pass).executed,
          i < j → ¬ schedule.SharesLock i j) := by
  have hstarts : schedule.StartsFirst C tick store schedule.events.length
      (schedule.startedIn C tick store schedule.events.length) :=
    Schedule.startsFirst_startedIn hshort (Nat.le_refl _)
  rw [Schedule.startedIn_length] at hstarts
  have horder : (schedule.runOnce C pass).executed.Pairwise (· < ·) := by
    rw [← Schedule.reached_length]
    exact (Schedule.accounts_reached (Nat.le_refl _)).inOrder
  have hmem : ∀ i, i ∈ (dispatchDue C schedule tick store).2.map Task.event ↔
      ∃ e, schedule.First C tick store i e := Schedule.mem_started_iff hshort
  have hrun : ∀ i, i ∈ (schedule.runOnce C pass).executed ↔
      ∃ e, schedule.Ready C tick store i e := mem_executed_iff hclock hsame
  have hsub : ((dispatchDue C schedule tick store).2.map Task.event) ⊆
      (schedule.runOnce C pass).executed := by
    intro i hi
    obtain ⟨e, hfirst⟩ := (hmem i).mp hi
    exact (hrun i).mpr ⟨e, hfirst.1⟩
  have hnodup : ((dispatchDue C schedule tick store).2.map Task.event).Nodup :=
    hstarts.inOrder.imp fun hlt heq => Nat.ne_of_lt hlt heq
  have hleft : ∀ i ∈ (schedule.runOnce C pass).executed,
      i ∈ (dispatchDue C schedule tick store).2.map Task.event ∨
      ∃ j ∈ (dispatchDue C schedule tick store).2.map Task.event,
        j < i ∧ schedule.SharesLock j i := by
    intro i hi
    obtain ⟨e, hready⟩ := (hrun i).mp hi
    by_cases hfirst : schedule.First C tick store i e
    · exact Or.inl ((hmem i).mpr ⟨e, hfirst⟩)
    · have hearlier : ∃ j e', j < i ∧ schedule.Ready C tick store j e' ∧ e'.SharesLock e := by
        by_contra hnone
        push Not at hnone
        exact hfirst ⟨hready, hnone⟩
      obtain ⟨j, e', hj, hready', hshares⟩ := hearlier
      obtain ⟨k, e'', hk, hfirst', hshares'⟩ := Schedule.exists_first hready' hshares.1
      refine Or.inr ⟨k, (hmem k).mpr ⟨e'', hfirst'⟩, by omega, e'', e, hfirst'.1.1, hready.1, ?_⟩
      exact ⟨hshares'.1, hshares.2.1, hshares'.2.2.trans hshares.2.2⟩
  refine ⟨?_, hleft, ?_, ?_⟩
  · exact List.sublist_of_subperm_of_pairwise (hnodup.subperm hsub) hstarts.inOrder horder
  · intro heq
    rw [← heq]
    intro i hi j hj hlt hshares
    obtain ⟨e, hfirst⟩ := (hmem i).mp hi
    obtain ⟨e', hfirst'⟩ := (hmem j).mp hj
    obtain ⟨d, d', hd, hd', hlock⟩ := hshares
    obtain rfl := Option.some.inj (hfirst.1.1.symm.trans hd)
    obtain rfl := Option.some.inj (hfirst'.1.1.symm.trans hd')
    exact hfirst'.2 i e hlt hfirst.1 hlock
  · intro hapart
    refine List.Subset.antisymm_of_pairwise hstarts.inOrder horder hsub ?_
    intro i hi
    rcases hleft i hi with hstarted | ⟨j, hj, hlt, hshares⟩
    · exact hstarted
    · exact absurd hshares (hapart j (hsub hj) i hi hlt)

/-- A pass and a wake-up at the first minute, nothing locked. -/
def firstPass : Pass := ⟨60 * 1000000000, .new, fun _ => 0, fun _ => true, fun _ => .ok ()⟩

theorem started_agrees_twoReports :
    let schedule := registered Worker.noTimezones () Worker.twoReports
    (dispatchDue periodic schedule (tickAt 60) .new).2.map Task.event = [0] ∧
      (schedule.runOnce periodic firstPass).executed = [0, 1] ∧
      ((dispatchDue periodic schedule (tickAt 60) .new).2.map Task.event).Sublist
        (schedule.runOnce periodic firstPass).executed := by
  intro schedule
  have hclock : Monotone firstPass.instant := fun _ _ _ => Nat.le_refl _
  have hshort : (tickAt 60).Short := by
    intro i j
    show durationSince 0 0 < lockTtl
    decide
  have hsame : SameTurn firstPass (tickAt 60) .new := ⟨rfl, rfl, fun _ _ => Iff.rfl⟩
  exact ⟨by decide, by decide, (started_agrees hclock hshort hsame).1⟩

end Kolas.Schedule

import Kolas.Lib.Run
import Kolas.Schedule.Lock

/-!
# Mutual exclusion of the lock store

Any number of holders call `try_lock` and `release` on one `InMemoryLockStore`
with one common `ttl`, in any order, the clock never going back.  `LockRun` is
the store together with the instant of each holder's last successful `try_lock`
that it has not released (`lease`).  A holder is `Current` for an id from that
instant until the `ttl` has passed.

The store keeps no owner, so a `release` that comes after the holder's `ttl`
removes the lock of whoever took it meanwhile.  `Timely` says that this does not
happen at a step; `exclusive_of_timely` is mutual exclusion for the runs whose
steps are all timely, and `late_release_admits` says that after any other step
the lock is granted to a second holder at once.
-/

namespace Kolas.Schedule

open Kolas.Lib

variable {η : Type*}

/-- A lock store in use: `lease h id` is the instant at which `h` last took the
lock of `id`, if it has not released it since. -/
structure LockRun (η : Type*) where
  store : InMemoryLockStore
  clock : Nat
  lease : η → EventId → Option Nat

inductive LockCall (η : Type*)
  | tryLock (h : η) (id : EventId) (now : Nat)
  | release (h : η) (id : EventId) (now : Nat)

namespace LockRun

/-- A fresh store, no holder having called. -/
def start (η : Type*) : LockRun η := ⟨.new, 0, fun _ _ => none⟩

/-- `h` holds the lock of `id` at the instant `now`: it took it less than `ttl`
ago and has not released it. -/
def Current (s : LockRun η) (ttl : Nat) (h : η) (id : EventId) (now : Nat) : Prop :=
  ∃ acquiredAt, s.lease h id = some acquiredAt ∧ now < acquiredAt + ttl

/-- At every instant from now on, until the next call, at most one holder is
current for each id. -/
def Exclusive (s : LockRun η) (ttl : Nat) : Prop :=
  ∀ id now, s.clock ≤ now → ∀ h h', s.Current ttl h id now → s.Current ttl h' id now → h = h'

/-- The call is not a `release`, or the holder that makes it is itself current,
or nobody is. -/
def Timely (ttl : Nat) (s : LockRun η) : LockCall η → Prop
  | .tryLock _ _ _ => True
  | .release h id now => s.Current ttl h id now ∨ ∀ h', ¬ s.Current ttl h' id now

/-- The invariant behind exclusion: a current holder's instant is the one the
store remembers, and nobody else is current. -/
def Owned (ttl : Nat) (s : LockRun η) : Prop :=
  ∀ h id a, s.lease h id = some a → s.clock < a + ttl →
    s.store.locks id = some a ∧ ∀ h', s.Current ttl h' id s.clock → h' = h

theorem Current.mono {s : LockRun η} {ttl : Nat} {h : η} {id : EventId} {now now' : Nat}
    (hc : s.Current ttl h id now') (hle : now ≤ now') : s.Current ttl h id now := by
  obtain ⟨a, ha, hlt⟩ := hc
  exact ⟨a, ha, Nat.lt_of_le_of_lt hle hlt⟩

theorem owned_start (ttl : Nat) : (start η).Owned ttl := by
  intro h id a ha
  cases ha

theorem Owned.held {s : LockRun η} {ttl : Nat} (httl : 0 < ttl) (hs : s.Owned ttl) {h : η}
    {id : EventId} {now : Nat} (hle : s.clock ≤ now) (hc : s.Current ttl h id now) :
    s.store.Held id ttl now := by
  obtain ⟨a, ha, hlt⟩ := hc
  refine ⟨a, (hs h id a ha (Nat.lt_of_le_of_lt hle hlt)).1, ?_⟩
  simp only [durationSince]
  omega

theorem Owned.exclusive {s : LockRun η} {ttl : Nat} (hs : s.Owned ttl) : s.Exclusive ttl := by
  intro id now hle h h' hc hc'
  obtain ⟨a, ha, hlt⟩ := hc'
  exact (hs h' id a ha (Nat.lt_of_le_of_lt hle hlt)).2 h (hc.mono hle)

/-- Waiting keeps the invariant: holders only stop being current. -/
theorem Owned.wait {s : LockRun η} {ttl : Nat} (hs : s.Owned ttl) {now : Nat}
    (hle : s.clock ≤ now) : Owned ttl { s with clock := now } := by
  intro h id a ha hlt
  obtain ⟨hstore, huniq⟩ := hs h id a ha (Nat.lt_of_le_of_lt hle hlt)
  exact ⟨hstore, fun h' hc => huniq h' (Current.mono (s := s) hc hle)⟩

/-! ### The calls -/

variable [DecidableEq η]

/-- `h` has taken the lock of `id`. -/
def taken (s : LockRun η) (h : η) (id : EventId) (now : Nat) : LockRun η where
  store := s.store.insert id now
  clock := now
  lease := Function.update s.lease h (Function.update (s.lease h) id (some now))

/-- `h` has released the lock of `id`. -/
def released (s : LockRun η) (h : η) (id : EventId) (now : Nat) : LockRun η where
  store := s.store.release id
  clock := now
  lease := Function.update s.lease h (Function.update (s.lease h) id none)

/-- One call at the instant `now`.  A call before the last one is not enabled,
nor is a `release` by a holder that has nothing to release. -/
def step (ttl : Nat) (s : LockRun η) : LockCall η → Option (LockRun η)
  | .tryLock h id now =>
    if s.clock ≤ now then
      match s.store.tryLock id ttl now with
      | (true, _) => some (s.taken h id now)
      | (false, store) => some { s with store, clock := now }
    else none
  | .release h id now =>
    if s.clock ≤ now ∧ (s.lease h id).isSome then some (s.released h id now) else none

@[simp] theorem lease_taken_self (s : LockRun η) (h : η) (id : EventId) (now : Nat) :
    (s.taken h id now).lease h id = some now := by simp [taken]

@[simp] theorem lease_released_self (s : LockRun η) (h : η) (id : EventId) (now : Nat) :
    (s.released h id now).lease h id = none := by simp [released]

theorem lease_taken_of_ne (s : LockRun η) {h h' : η} {id id' : EventId} (now : Nat)
    (hne : h' ≠ h ∨ id' ≠ id) : (s.taken h id now).lease h' id' = s.lease h' id' := by
  by_cases hh : h' = h
  · subst hh
    simp [taken, hne.resolve_left (fun hn => hn rfl)]
  · simp [taken, hh]

theorem lease_released_of_ne (s : LockRun η) {h h' : η} {id id' : EventId} (now : Nat)
    (hne : h' ≠ h ∨ id' ≠ id) : (s.released h id now).lease h' id' = s.lease h' id' := by
  by_cases hh : h' = h
  · subst hh
    simp [released, hne.resolve_left (fun hn => hn rfl)]
  · simp [released, hh]

/-- **Every step**: a refused or a granted `try_lock`, or a `release`. -/
theorem step_cases {s t : LockRun η} {ttl : Nat} {c : LockCall η}
    (hstep : step ttl s c = some t) :
    (∃ h id now, c = .tryLock h id now ∧ s.clock ≤ now ∧ s.store.Held id ttl now ∧
        t = { s with clock := now }) ∨
      (∃ h id now, c = .tryLock h id now ∧ s.clock ≤ now ∧ ¬ s.store.Held id ttl now ∧
        t = s.taken h id now) ∨
      (∃ h id now, c = .release h id now ∧ s.clock ≤ now ∧ t = s.released h id now) := by
  cases c with
  | tryLock h id now =>
    simp only [step] at hstep
    split at hstep
    · rename_i hle
      rcases s.store.tryLock_cases id ttl now with ⟨hheld, he⟩ | ⟨hfree, he⟩
      · rw [he] at hstep
        exact Or.inl ⟨h, id, now, rfl, hle, hheld, (Option.some.inj hstep).symm⟩
      · rw [he] at hstep
        exact Or.inr (Or.inl ⟨h, id, now, rfl, hle, hfree, (Option.some.inj hstep).symm⟩)
    · cases hstep
  | release h id now =>
    simp only [step] at hstep
    split at hstep
    · rename_i hle
      exact Or.inr (Or.inr ⟨h, id, now, rfl, hle.1, (Option.some.inj hstep).symm⟩)
    · cases hstep

/-- A granted `try_lock` keeps the invariant: nobody was current, since the
store would have refused. -/
theorem Owned.taken {s : LockRun η} {ttl : Nat} (httl : 0 < ttl) (hs : s.Owned ttl) (h : η)
    {id : EventId} {now : Nat} (hle : s.clock ≤ now) (hfree : ¬ s.store.Held id ttl now) :
    (s.taken h id now).Owned ttl := by
  have hnone : ∀ h', ¬ s.Current ttl h' id now := fun h' hc => hfree (hs.held httl hle hc)
  intro h₁ id₁ a ha hlt
  by_cases hid : id₁ = id
  · subst hid
    have hself : h₁ = h := by
      by_contra hne
      rw [lease_taken_of_ne s now (Or.inl hne)] at ha
      exact hnone h₁ ⟨a, ha, hlt⟩
    subst hself
    rw [lease_taken_self] at ha
    cases ha
    refine ⟨InMemoryLockStore.locks_insert_self .., ?_⟩
    intro h' g
    obtain ⟨b, hb, hblt⟩ := g
    by_contra hne
    rw [lease_taken_of_ne s now (Or.inl hne)] at hb
    exact hnone h' ⟨b, hb, hblt⟩
  · rw [lease_taken_of_ne s now (Or.inr hid)] at ha
    obtain ⟨hstore, huniq⟩ := hs h₁ id₁ a ha (Nat.lt_of_le_of_lt hle hlt)
    refine ⟨(InMemoryLockStore.locks_insert_of_ne _ hid now).trans hstore, ?_⟩
    intro h' g
    obtain ⟨b, hb, hblt⟩ := g
    rw [lease_taken_of_ne s now (Or.inr hid)] at hb
    exact huniq h' (Current.mono ⟨b, hb, hblt⟩ hle)

/-- A timely `release` keeps the invariant: afterwards nobody is current for
the id. -/
theorem Owned.released {s : LockRun η} {ttl : Nat} (hs : s.Owned ttl) {h : η} {id : EventId}
    {now : Nat} (hle : s.clock ≤ now)
    (htimely : s.Current ttl h id now ∨ ∀ h', ¬ s.Current ttl h' id now) :
    (s.released h id now).Owned ttl := by
  have hothers : ∀ h', h' ≠ h → ¬ s.Current ttl h' id now := by
    intro h' hne hc'
    rcases htimely with hc | hnone
    · exact hne (hs.exclusive id now hle h' h hc' hc)
    · exact hnone h' hc'
  intro h₁ id₁ a ha hlt
  by_cases hid : id₁ = id
  · subst hid
    by_cases hself : h₁ = h
    · subst hself
      rw [lease_released_self] at ha
      cases ha
    · rw [lease_released_of_ne s now (Or.inl hself)] at ha
      exact absurd ⟨a, ha, hlt⟩ (hothers h₁ hself)
  · rw [lease_released_of_ne s now (Or.inr hid)] at ha
    obtain ⟨hstore, huniq⟩ := hs h₁ id₁ a ha (Nat.lt_of_le_of_lt hle hlt)
    refine ⟨(InMemoryLockStore.locks_release_of_ne _ hid).trans hstore, ?_⟩
    intro h' g
    obtain ⟨b, hb, hblt⟩ := g
    rw [lease_released_of_ne s now (Or.inr hid)] at hb
    exact huniq h' (Current.mono ⟨b, hb, hblt⟩ hle)

theorem Owned.step {s t : LockRun η} {ttl : Nat} (httl : 0 < ttl) (hs : s.Owned ttl)
    {c : LockCall η} (hc : Timely ttl s c) (hstep : step ttl s c = some t) : t.Owned ttl := by
  rcases step_cases hstep with ⟨h, id, now, rfl, hle, -, rfl⟩ | ⟨h, id, now, rfl, hle, hfree, rfl⟩ |
    ⟨h, id, now, rfl, hle, rfl⟩
  · exact hs.wait hle
  · exact hs.taken httl h hle hfree
  · exact hs.released hle hc

/-- **Mutual exclusion of timely runs.**  If no holder releases an id after its
`ttl` while somebody else is current for it, at most one holder is current for
each id at every moment of the run. -/
theorem exclusive_of_timely {ttl : Nat} (httl : 0 < ttl) {s : LockRun η}
    (hrun : Reaches (step ttl) (Timely ttl) (start η) s) : s.Exclusive ttl :=
  (hrun.invariant (owned_start ttl) fun _ _ _ hu ha hstep => hu.step httl ha hstep).exclusive

/-- **An untimely release breaks exclusion.**  Right after it the lock is granted
to any third holder, while the one whose lock was removed is still current. -/
theorem late_release_admits {s t : LockRun η} {ttl : Nat} (httl : 0 < ttl) {h h' h'' : η}
    {id : EventId} {now : Nat} (hcur : s.Current ttl h' id now) (hh' : h' ≠ h) (hh'' : h'' ≠ h')
    (hstep : step ttl s (.release h id now) = some t) :
    ∃ u, step ttl t (.tryLock h'' id now) = some u ∧ u.Current ttl h' id now ∧
      u.Current ttl h'' id now := by
  obtain ⟨b, hb, hlt⟩ := hcur
  obtain ⟨_, _, _, hc, -⟩ | ⟨_, _, _, hc, -⟩ | ⟨_, _, _, hc, hle, rfl⟩ := step_cases hstep
  · cases hc
  · cases hc
  · cases hc
    have hfree : (s.released h id now).store.tryLock id ttl now =
        (true, (s.released h id now).store.insert id now) := by
      simp [InMemoryLockStore.tryLock, released]
    refine ⟨(s.released h id now).taken h'' id now, ?_, ⟨b, ?_, hlt⟩, now, by simp, by omega⟩
    · simp only [step, hfree]
      exact if_pos (Nat.le_refl now)
    · rw [lease_taken_of_ne _ _ (Or.inl hh''.symm), lease_released_of_ne s _ (Or.inl hh'), hb]

/-- The run that breaks it, with the scheduler's own `LOCK_TTL`: holder `0` takes
the lock, holder `1` takes it when it has expired, holder `0` releases, holder
`2` takes it. -/
def lateRelease : List (LockCall Nat) :=
  [.tryLock 0 "report" 0, .tryLock 1 "report" lockTtl, .release 0 "report" lockTtl,
    .tryLock 2 "report" lockTtl]

theorem not_exclusive : ¬ ∀ s : LockRun Nat, Reach (step lockTtl) (start Nat) s →
    s.Exclusive lockTtl := by
  intro hall
  obtain ⟨s, hs, h1, h2⟩ : ∃ s, run (step lockTtl) (start Nat) lateRelease = some s ∧
      s.Current lockTtl 1 "report" lockTtl ∧ s.Current lockTtl 2 "report" lockTtl := by
    refine ⟨_, rfl, ⟨lockTtl, rfl, by decide⟩, lockTtl, rfl, by decide⟩
  have hclock : s.clock ≤ lockTtl := by
    cases hs
    exact Nat.le_refl _
  exact absurd (hall s (reach_of_run hs) "report" lockTtl hclock 1 2 h1 h2) (by decide)

/-- Holder `0` releases in time, and holder `1` takes the lock after it. -/
def timelyRelease : List (LockCall Nat) :=
  [.tryLock 0 "report" 0, .release 0 "report" 1, .tryLock 1 "report" 1]

theorem exclusive_timelyRelease :
    ∃ s, run (step lockTtl) (start Nat) timelyRelease = some s ∧ s.Exclusive lockTtl := by
  have hok : RunOk (step lockTtl) (Timely lockTtl) (start Nat) timelyRelease := by
    refine ⟨trivial, fun s hs => ⟨Or.inl ⟨0, ?_, by decide⟩, fun _ _ => ⟨trivial, fun _ _ => trivial⟩⟩⟩
    cases hs
    rfl
  refine ⟨_, rfl, exclusive_of_timely (by decide) (reaches_of_run ?_ hok)⟩
  rfl

end LockRun

end Kolas.Schedule

import Mathlib.Logic.Function.Basic

/-!
# The lock store

`schedule/lock.rs`.  `InMemoryLockStore` remembers for each event id the instant
at which its lock was taken, and nothing about who took it.  `tryLock` grants the
lock when there is none or when the one there is at least `ttl` old; `release`
removes whatever lock the id has.

An `Instant` and a `Duration` are numbers of nanoseconds.  `Instant::now()` is an
argument (`now`): the callers' models say which readings the clock may give.
-/

namespace Kolas.Schedule

abbrev EventId := String

/-- `LOCK_TTL` of `scheduler.rs`: 24 hours. -/
def lockTtl : Nat := 24 * 60 * 60 * 1000000000

/-- `Instant::duration_since`, which saturates at zero. -/
def durationSince (now earlier : Nat) : Nat := now - earlier

structure InMemoryLockStore where
  locks : EventId → Option Nat

namespace InMemoryLockStore

def new : InMemoryLockStore := ⟨fun _ => none⟩

/-- `locks.insert(id.clone(), now)`. -/
def insert (store : InMemoryLockStore) (id : EventId) (now : Nat) : InMemoryLockStore :=
  ⟨Function.update store.locks id (some now)⟩

def tryLock (store : InMemoryLockStore) (id : EventId) (ttl : Nat) (now : Nat) :
    Bool × InMemoryLockStore :=
  match store.locks id with
  | some acquiredAt =>
    if durationSince now acquiredAt < ttl then (false, store) else (true, store.insert id now)
  | none => (true, store.insert id now)

def release (store : InMemoryLockStore) (id : EventId) : InMemoryLockStore :=
  ⟨Function.update store.locks id none⟩

/-- The id has a lock younger than `ttl`: the branch on which `try_lock` refuses. -/
def Held (store : InMemoryLockStore) (id : EventId) (ttl : Nat) (now : Nat) : Prop :=
  ∃ acquiredAt, store.locks id = some acquiredAt ∧ durationSince now acquiredAt < ttl

@[simp] theorem locks_new (id : EventId) : new.locks id = none := rfl

@[simp] theorem locks_insert_self (store : InMemoryLockStore) (id : EventId) (now : Nat) :
    (store.insert id now).locks id = some now := Function.update_self ..

theorem locks_insert_of_ne (store : InMemoryLockStore) {id id' : EventId} (h : id' ≠ id)
    (now : Nat) : (store.insert id now).locks id' = store.locks id' :=
  Function.update_of_ne h ..

@[simp] theorem locks_release_self (store : InMemoryLockStore) (id : EventId) :
    (store.release id).locks id = none := Function.update_self ..

theorem locks_release_of_ne (store : InMemoryLockStore) {id id' : EventId} (h : id' ≠ id) :
    (store.release id).locks id' = store.locks id' := Function.update_of_ne h ..

/-- **What `try_lock` does**: refuse and change nothing while the id is held,
otherwise grant and remember the instant. -/
theorem tryLock_cases (store : InMemoryLockStore) (id : EventId) (ttl : Nat) (now : Nat) :
    (store.Held id ttl now ∧ store.tryLock id ttl now = (false, store)) ∨
      (¬ store.Held id ttl now ∧ store.tryLock id ttl now = (true, store.insert id now)) := by
  cases h : store.locks id with
  | none =>
    refine Or.inr ⟨?_, by simp [tryLock, h]⟩
    intro g
    obtain ⟨a, ha, -⟩ := g
    rw [h] at ha
    cases ha
  | some a =>
    by_cases hlt : durationSince now a < ttl
    · exact Or.inl ⟨⟨a, h, hlt⟩, by simp [tryLock, h, hlt]⟩
    · refine Or.inr ⟨?_, by simp [tryLock, h, hlt]⟩
      intro g
      obtain ⟨b, hb, hblt⟩ := g
      rw [h] at hb
      cases hb
      exact hlt hblt

end InMemoryLockStore

end Kolas.Schedule

import Kolas.Schedule.RunOnce

/-!
# The accounts of a pass

What `run_once` has executed, reported and left in the lock store when it returns.  A
pass goes through the events by turns (`reached`), so its accounts are those of the
first n events for every n.

* `runOnce_accounts`: the accounts of a whole pass.
* `lockFree_reached_iff`: while the store's clock does not go back, the turns before an
  event's own decide nothing about its lock.
-/

set_option linter.dupNamespace false

namespace Kolas.Schedule

open Kolas.Lib

variable {ζ φ : Type} {C : Croner ζ} {tz : ζ} {schedule : Schedule ζ φ} {pass : Pass}

/-- The pass as the turn of the i-th event finds it. -/
def Schedule.reached (C : Croner ζ) (schedule : Schedule ζ φ) (pass : Pass) (i : Nat) :
    PassState :=
  (schedule.events.zipIdx.take i).foldl (runEvent C schedule.defaultTimezone pass)
    ⟨pass.store, [], []⟩

/-- The error of one event in a pass that has executed the events of `executed`. -/
def Pass.errorOf (C : Croner ζ) (tz : ζ) (pass : Pass) (executed : List Nat)
    (entry : Event ζ φ × Nat) : Option TaskError :=
  match entry.1.isDueWith C pass.now tz with
  | .error err => some ⟨entry.1.id, err.text⟩
  | .ok _ =>
    if entry.2 ∈ executed then
      match pass.outcome entry.2 with
      | .ok () => none
      | .error err => some err
    else none

/-- The accounts of the first `n` events. -/
structure Schedule.Accounts (C : Croner ζ) (schedule : Schedule ζ φ) (pass : Pass) (n : Nat)
    (final : PassState) : Prop where
  inOrder : final.executed.Pairwise (· < ·)
  executed : ∀ i, i ∈ final.executed ↔ i < n ∧ ∃ e, schedule.events[i]? = some e ∧
    e.ChosenIn C schedule.defaultTimezone pass i ∧
    e.LockFree (schedule.reached C pass i).store pass i
  errors : final.errors = (schedule.events.zipIdx.take n).filterMap
    (pass.errorOf C schedule.defaultTimezone final.executed)
  kept : ∀ id acquiredAt, pass.store.locks id = some acquiredAt →
    (∀ i < n, durationSince (pass.instant i) acquiredAt < lockTtl) →
    final.store.locks id = some acquiredAt
  noneTaken : ∀ id acquiredAt, final.store.locks id = some acquiredAt →
    pass.store.locks id = some acquiredAt
  givenBack : ∀ i ∈ final.executed, ∀ e, schedule.events[i]? = some e →
    e.withoutOverlapping = true → final.store.locks e.id = none

/-! ### One turn -/

theorem Pass.errorOf_congr {executed executed' : List Nat} {e : Event ζ φ} {i : Nat}
    (h : i ∈ executed ↔ i ∈ executed') :
    pass.errorOf C tz executed (e, i) = pass.errorOf C tz executed' (e, i) := by
  simp [errorOf, h]

/-- The error of a turn. -/
theorem runEvent_errors {s : PassState} {e : Event ζ φ} {i : Nat} (hi : i ∉ s.executed) :
    (runEvent C tz pass s (e, i)).errors =
      s.errors ++ (pass.errorOf C tz (runEvent C tz pass s (e, i)).executed (e, i)).toList := by
  have hexecute : ∀ t : PassState, e.ChosenIn C tz pass i → t.errors = s.errors →
      (t.execute pass i).errors =
        s.errors ++ (pass.errorOf C tz (t.execute pass i).executed (e, i)).toList := by
    intro t hchosen herrors
    cases houtcome : pass.outcome i with
    | ok => simp [PassState.execute, Pass.errorOf, hchosen.1, houtcome, herrors]
    | error err => simp [PassState.execute, Pass.errorOf, hchosen.1, houtcome, herrors]
  rcases runEvent_turns C tz pass s e i with
    ⟨err, hdue, hrun⟩ | ⟨due, hdue, -, hrun⟩ | ⟨hchosen, -, -, hrun⟩ | ⟨hchosen, -, -, hrun⟩
  · simp [hrun, Pass.errorOf, hdue]
  · simp [hrun, Pass.errorOf, hdue, hi]
  · rw [hrun]
    exact hexecute _ hchosen rfl
  · rw [hrun]
    exact hexecute _ hchosen rfl

/-- A turn gives back the lock it takes. -/
theorem runEvent_givenBack {s : PassState} {e : Event ζ φ} {i : Nat} (hi : i ∉ s.executed)
    (hrun : i ∈ (runEvent C tz pass s (e, i)).executed) (hwo : e.withoutOverlapping = true) :
    (runEvent C tz pass s (e, i)).store.locks e.id = none := by
  rcases runEvent_turns C tz pass s e i with
    ⟨err, -, heq⟩ | ⟨due, -, -, heq⟩ | ⟨-, -, hno, heq⟩ | ⟨-, -, -, heq⟩
  · rw [heq] at hrun
    exact absurd hrun hi
  · rw [heq] at hrun
    exact absurd hrun hi
  · rw [hwo] at hno
    cases hno
  · rw [heq]
    exact InMemoryLockStore.locks_release_self _ _

/-! ### All turns -/

theorem Schedule.reached_succ {n : Nat} {e : Event ζ φ} (hn : schedule.events[n]? = some e) :
    schedule.reached C pass (n + 1) =
      runEvent C schedule.defaultTimezone pass (schedule.reached C pass n) (e, n) := by
  unfold reached
  rw [List.take_add_one, List.getElem?_zipIdx, hn]
  simp

theorem Schedule.reached_length :
    schedule.reached C pass schedule.events.length = schedule.runOnce C pass := by
  unfold reached runOnce
  rw [List.take_of_length_le (by simp)]

theorem Schedule.take_zipIdx_succ {n : Nat} {e : Event ζ φ} (hn : schedule.events[n]? = some e) :
    schedule.events.zipIdx.take (n + 1) = schedule.events.zipIdx.take n ++ [(e, n)] := by
  rw [List.take_add_one, List.getElem?_zipIdx, hn]
  simp

namespace Schedule.Accounts

variable {n : Nat} {e : Event ζ φ}

theorem lt_of_mem (h : schedule.Accounts C pass n (schedule.reached C pass n)) {i : Nat}
    (hi : i ∈ (schedule.reached C pass n).executed) : i < n := ((h.executed i).mp hi).1

theorem not_mem (h : schedule.Accounts C pass n (schedule.reached C pass n)) :
    n ∉ (schedule.reached C pass n).executed := fun hmem => Nat.lt_irrefl n (h.lt_of_mem hmem)

theorem inOrder_succ (h : schedule.Accounts C pass n (schedule.reached C pass n))
    (hn : schedule.events[n]? = some e) :
    (schedule.reached C pass (n + 1)).executed.Pairwise (· < ·) := by
  rw [reached_succ hn]
  rcases runEvent_executed C schedule.defaultTimezone pass (schedule.reached C pass n) e n with
    ⟨-, -, heq⟩ | ⟨-, heq⟩
  · rw [heq]
    refine List.pairwise_append.mpr ⟨h.inOrder, List.pairwise_singleton _ _, ?_⟩
    intro i hi j hj
    rw [List.mem_singleton.mp hj]
    exact h.lt_of_mem hi
  · rw [heq]
    exact h.inOrder

theorem mem_succ (hn : schedule.events[n]? = some e) (i : Nat) :
    i ∈ (schedule.reached C pass (n + 1)).executed ↔ i ∈ (schedule.reached C pass n).executed ∨
      i = n ∧ e.ChosenIn C schedule.defaultTimezone pass n ∧
        e.LockFree (schedule.reached C pass n).store pass n := by
  rw [reached_succ hn]
  rcases runEvent_executed C schedule.defaultTimezone pass (schedule.reached C pass n) e n with
    ⟨hchosen, hfree, heq⟩ | ⟨hskip, heq⟩
  · rw [heq]
    simp [hchosen, hfree]
  · rw [heq]
    simp [hskip]

/-- The errors of the turns before stay what they are. -/
theorem errors_succ (h : schedule.Accounts C pass n (schedule.reached C pass n))
    (hn : schedule.events[n]? = some e) :
    (schedule.reached C pass (n + 1)).errors = (schedule.events.zipIdx.take (n + 1)).filterMap
      (pass.errorOf C schedule.defaultTimezone (schedule.reached C pass (n + 1)).executed) := by
  have hbefore : (schedule.reached C pass n).errors = (schedule.events.zipIdx.take n).filterMap
      (pass.errorOf C schedule.defaultTimezone (schedule.reached C pass (n + 1)).executed) := by
    rw [h.errors]
    refine List.filterMap_congr ?_
    intro entry hentry
    have hplace := snd_lt_of_mem_take_zipIdx hentry
    refine Pass.errorOf_congr ?_
    rw [mem_succ hn]
    constructor
    · exact .inl
    · intro hmem
      rcases hmem with hmem | ⟨heq, -⟩
      · exact hmem
      · exact absurd heq (by omega)
  rw [take_zipIdx_succ hn, List.filterMap_append, ← hbefore, reached_succ hn,
    runEvent_errors h.not_mem]
  generalize (runEvent C _ _ _ _).executed = executed
  cases herror : pass.errorOf C schedule.defaultTimezone executed (e, n) with
  | none => rw [List.filterMap_cons_none herror]; rfl
  | some err => rw [List.filterMap_cons_some herror]; rfl

/-- **One more turn**: the accounts go on. -/
theorem succ (h : schedule.Accounts C pass n (schedule.reached C pass n))
    (hn : schedule.events[n]? = some e) :
    schedule.Accounts C pass (n + 1) (schedule.reached C pass (n + 1)) := by
  have hlocks := runEvent_locks C schedule.defaultTimezone pass (schedule.reached C pass n) e n
  rw [← reached_succ hn] at hlocks
  refine ⟨h.inOrder_succ hn, ?_, h.errors_succ hn, ?_, ?_, ?_⟩
  · intro i
    rw [mem_succ hn, h.executed]
    constructor
    · intro hi
      rcases hi with ⟨hlt, hturn⟩ | ⟨rfl, hturn⟩
      · exact ⟨by omega, hturn⟩
      · exact ⟨by omega, e, hn, hturn⟩
    · intro hi
      obtain ⟨hle, e', he', hturn⟩ := hi
      by_cases hin : i = n
      · subst hin
        obtain rfl : e = e' := Option.some.inj (hn.symm.trans he')
        exact .inr ⟨rfl, hturn⟩
      · exact .inl ⟨by omega, e', he', hturn⟩
  · intro id acquiredAt hlock hyoung
    have hkept := h.kept id acquiredAt hlock fun i hi => hyoung i (by omega)
    rcases hlocks id with hsame | ⟨-, hnone⟩
    · rw [hsame, hkept]
    · exact absurd ⟨acquiredAt, hkept, hyoung n (by omega)⟩ hnone
  · intro id acquiredAt hlock
    rcases hlocks id with hsame | ⟨hnone, -⟩
    · exact h.noneTaken id acquiredAt (hsame ▸ hlock)
    · rw [hnone] at hlock
      cases hlock
  · intro i hi e' he' hwo
    rcases (mem_succ hn i).mp hi with hbefore | ⟨rfl, -⟩
    · have hnone := h.givenBack i hbefore e' he' hwo
      rcases hlocks e'.id with hsame | ⟨hgone, -⟩
      · rw [hsame, hnone]
      · exact hgone
    · obtain rfl : e = e' := Option.some.inj (hn.symm.trans he')
      rw [reached_succ hn] at hi ⊢
      exact runEvent_givenBack h.not_mem hi hwo

end Schedule.Accounts

theorem Schedule.accounts_reached {n : Nat} (hn : n ≤ schedule.events.length) :
    schedule.Accounts C pass n (schedule.reached C pass n) := by
  induction n with
  | zero =>
    refine ⟨List.Pairwise.nil, fun i => by simp [reached], rfl, fun id t hlock _ => hlock,
      fun id t hlock => hlock, ?_⟩
    intro i hi
    cases hi
  | succ n ih => exact (ih (by omega)).succ (List.getElem?_eq_getElem (by omega))

/-- **The accounts of a pass**: it executes, in their order and once each, the events
that are due, for which this process leads and whose lock is free; what it returns are
their errors and those of the checks; the locks that hold all through the pass stay, and
it leaves none of its own. -/
theorem runOnce_accounts (C : Croner ζ) (schedule : Schedule ζ φ) (pass : Pass) :
    schedule.Accounts C pass schedule.events.length (schedule.runOnce C pass) := by
  rw [← Schedule.reached_length]
  exact Schedule.accounts_reached (Nat.le_refl _)

/-- **A lock is free at the event's turn exactly when the pass finds it free**: the
events before it neither take it nor give back another's. -/
theorem lockFree_reached_iff (hclock : Monotone pass.instant) {e : Event ζ φ} {i : Nat}
    (hi : i ≤ schedule.events.length) :
    e.LockFree (schedule.reached C pass i).store pass i ↔ e.LockFree pass.store pass i := by
  have haccounts : schedule.Accounts C pass i (schedule.reached C pass i) :=
    Schedule.accounts_reached hi
  have hheld : (schedule.reached C pass i).store.Held e.id lockTtl (pass.instant i) ↔
      pass.store.Held e.id lockTtl (pass.instant i) := by
    constructor
    · intro h
      obtain ⟨acquiredAt, hlock, hyoung⟩ := h
      exact ⟨acquiredAt, haccounts.noneTaken _ _ hlock, hyoung⟩
    · intro h
      obtain ⟨acquiredAt, hlock, hyoung⟩ := h
      refine ⟨acquiredAt, haccounts.kept _ _ hlock ?_, hyoung⟩
      intro j hj
      have hle := hclock (Nat.le_of_lt hj)
      unfold durationSince at *
      omega
  unfold Event.LockFree
  rw [hheld]

end Kolas.Schedule

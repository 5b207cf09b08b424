import Kolas.Lib.Run
import Mathlib.Logic.Function.Basic

/-!
# A cache that callers fill

A call for a key looks into the cache in one atomic section, and returns what is
there.  Otherwise it builds a value, which may fail, with the cache free for the
others, and puts it in by a second atomic section, which prefers what has come in
meanwhile.  A call may be abandoned at any of these points.

`build n key` is what is built for the key when `n` builds went before it, so that
two values are told apart by when they were built.

* `step_cases`: what every step needs and leaves.
* `Kept`: what has been returned is in the cache, and was built.
* `returned_unique`: the calls for one key return one value.
* `cache_mono`: nothing leaves the cache, and nothing in it is replaced.
* `cache_eq_of_not_returned`: a call that fails or is abandoned has not touched the
  cache.
-/

namespace Kolas.Lib

/-- Where a call for a key is. -/
inductive Call (K V E : Type*)
  | entered (key : K)
  | missed (key : K)
  | built (key : K) (value : V)
  | returned (key : K) (value : V)
  | failed (key : K) (err : E)
  | abandoned (key : K)
  deriving DecidableEq, Repr

/-- The cache, the calls in the order they came, and the number of builds. -/
structure Memo (K V E : Type*) where
  cache : K → Option V
  calls : List (Call K V E)
  builds : Nat

/-- What can happen; `i` is the number of a call. -/
inductive MemoAction (K : Type*)
  | call (key : K)
  | read (i : Nat)
  | build (i : Nat)
  | insert (i : Nat)
  | abandon (i : Nat)
  deriving DecidableEq, Repr

variable {K V E : Type*}

/-- The call a step is one of; a new call has no number before it. -/
def MemoAction.caller : MemoAction K → Option Nat
  | .call _ => none
  | .read i | .build i | .insert i | .abandon i => some i

/-- Nothing is left to do. -/
def Call.isOver : Call K V E → Bool
  | .returned _ _ | .failed _ _ | .abandoned _ => true
  | _ => false

def Call.key : Call K V E → K
  | .entered key | .missed key | .built key _ | .returned key _ | .failed key _
  | .abandoned key => key

namespace Memo

def init : Memo K V E := ⟨fun _ => none, [], 0⟩

/-- The cache after `entry(key).or_insert(value)`. -/
def orInsert [DecidableEq K] (cache : K → Option V) (key : K) (value : V) : K → Option V :=
  match cache key with
  | some _ => cache
  | none => Function.update cache key (some value)

/-- The call with this number is now `c`. -/
def setCall (s : Memo K V E) (i : Nat) (c : Call K V E) : Memo K V E :=
  { s with calls := s.calls.set i c }

/-- After a look into the cache. -/
def looked (cache : K → Option V) (key : K) : Call K V E :=
  match cache key with
  | some value => .returned key value
  | none => .missed key

/-- After a build. -/
def tried (key : K) : Except E V → Call K V E
  | .ok value => .built key value
  | .error err => .failed key err

variable [DecidableEq K] (build : Nat → K → Except E V)

def step (s : Memo K V E) : MemoAction K → Option (Memo K V E)
  | .call key => some { s with calls := s.calls ++ [.entered key] }
  | .read i =>
    match s.calls[i]? with
    | some (.entered key) => some (s.setCall i (looked s.cache key))
    | _ => none
  | .build i =>
    match s.calls[i]? with
    | some (.missed key) =>
      some { s.setCall i (tried key (build s.builds key)) with builds := s.builds + 1 }
    | _ => none
  | .insert i =>
    match s.calls[i]? with
    | some (.built key value) =>
      some { s.setCall i (.returned key ((s.cache key).getD value)) with
        cache := orInsert s.cache key value }
    | _ => none
  | .abandon i =>
    match s.calls[i]? with
    | some c => if c.isOver then none else some (s.setCall i (.abandoned c.key))
    | none => none

/-- Every step, with what it needs and what it leaves. -/
inductive Step (s : Memo K V E) : MemoAction K → Memo K V E → Prop
  | call (key : K) : Step s (.call key) { s with calls := s.calls ++ [.entered key] }
  | read (i : Nat) (key : K) (hcall : s.calls[i]? = some (.entered key)) :
      Step s (.read i) (s.setCall i (looked s.cache key))
  | build (i : Nat) (key : K) (hcall : s.calls[i]? = some (.missed key)) :
      Step s (.build i) { s.setCall i (tried key (build s.builds key)) with builds := s.builds + 1 }
  | insert (i : Nat) (key : K) (value : V) (hcall : s.calls[i]? = some (.built key value)) :
      Step s (.insert i) { s.setCall i (.returned key ((s.cache key).getD value)) with
        cache := orInsert s.cache key value }
  | abandon (i : Nat) (c : Call K V E) (hcall : s.calls[i]? = some c) (hover : c.isOver = false) :
      Step s (.abandon i) (s.setCall i (.abandoned c.key))

variable {build} {s t : Memo K V E}

/-- **What a step can be.** -/
theorem step_cases {a : MemoAction K} (h : step build s a = some t) : Step build s a t := by
  cases a with
  | call key => exact Option.some.inj h ▸ .call key
  | read i =>
    simp only [step] at h
    split at h
    · rename_i key hcall
      exact Option.some.inj h ▸ .read i key hcall
    · cases h
  | build i =>
    simp only [step] at h
    split at h
    · rename_i key hcall
      exact Option.some.inj h ▸ .build i key hcall
    · cases h
  | insert i =>
    simp only [step] at h
    split at h
    · rename_i key value hcall
      exact Option.some.inj h ▸ .insert i key value hcall
    · cases h
  | abandon i =>
    simp only [step] at h
    split at h
    · rename_i c hcall
      rw [Option.ite_none_left_eq_some, Bool.not_eq_true, Option.some.injEq] at h
      exact h.2 ▸ .abandon i c hcall h.1
    · cases h

/-! ### The cache grows -/

/-- What is in the first cache is in the second. -/
def Extends (cache cache' : K → Option V) : Prop :=
  ∀ key value, cache key = some value → cache' key = some value

theorem orInsert_self (cache : K → Option V) (key : K) (value : V) :
    orInsert cache key value key = some ((cache key).getD value) := by
  unfold orInsert
  cases hkey : cache key with
  | some value' => exact hkey
  | none => exact Function.update_self key (some value) cache

theorem extends_orInsert (cache : K → Option V) (key : K) (value : V) :
    Extends cache (orInsert cache key value) := by
  intro key' value' h
  unfold orInsert
  cases hkey : cache key with
  | some _ => exact h
  | none =>
    have hne : key' ≠ key := by
      rintro rfl
      rw [hkey] at h
      cases h
    show Function.update cache key (some value) key' = some value'
    rw [Function.update_of_ne hne]
    exact h

/-- Only the key itself may come in, with the value. -/
theorem orInsert_cases {cache : K → Option V} {key key' : K} {value value' : V}
    (h : orInsert cache key value key' = some value') :
    cache key' = some value' ∨ (key' = key ∧ value' = value) := by
  unfold orInsert at h
  cases hkey : cache key with
  | some _ =>
    rw [hkey] at h
    exact .inl h
  | none =>
    have hupdate : Function.update cache key (some value) key' = some value' := by
      rw [hkey] at h
      exact h
    by_cases heq : key' = key
    · rw [heq, Function.update_self] at hupdate
      exact .inr ⟨heq, (Option.some.inj hupdate).symm⟩
    · rw [Function.update_of_ne heq] at hupdate
      exact .inl hupdate

theorem step_extends {a : MemoAction K} (h : step build s a = some t) :
    Extends s.cache t.cache := by
  cases step_cases h with
  | insert i key value hcall => exact extends_orInsert s.cache key value
  | _ => exact fun _ _ hvalue => hvalue

/-- **Nothing leaves the cache**, and nothing in it is replaced. -/
theorem cache_mono (h : Reach (step build) s t) : Extends s.cache t.cache :=
  h.invariant (P := fun u => Extends s.cache u.cache) (fun _ _ hvalue => hvalue)
    fun _ _ _ hu _ hstep key value hvalue => step_extends hstep key value (hu key value hvalue)

/-! ### What is returned -/

/-- What is known of a call that has built or is over. -/
def Known (build : Nat → K → Except E V) (cache : K → Option V) (builds : Nat) :
    Call K V E → Prop
  | .built key value => ∃ n < builds, build n key = .ok value
  | .returned key value => cache key = some value
  | .failed key err => ∃ n < builds, build n key = .error err
  | _ => True

omit [DecidableEq K] in
theorem Known.mono {cache cache' : K → Option V} {builds builds' : Nat} {c : Call K V E}
    (h : Known build cache builds c) (hcache : Extends cache cache') (hbuilds : builds ≤ builds') :
    Known build cache' builds' c := by
  cases c with
  | built key value =>
    obtain ⟨n, hn, hbuilt⟩ := h
    exact ⟨n, Nat.lt_of_lt_of_le hn hbuilds, hbuilt⟩
  | returned key value => exact hcache key value h
  | failed key err =>
    obtain ⟨n, hn, hbuilt⟩ := h
    exact ⟨n, Nat.lt_of_lt_of_le hn hbuilds, hbuilt⟩
  | _ => trivial

/-- The invariant: what is in the cache was built, and what was returned is in it. -/
structure Kept (build : Nat → K → Except E V) (s : Memo K V E) : Prop where
  cached : ∀ key value, s.cache key = some value → ∃ n < s.builds, build n key = .ok value
  calls : ∀ c ∈ s.calls, Known build s.cache s.builds c

omit [DecidableEq K] in
theorem kept_init (build : Nat → K → Except E V) : Kept build init where
  cached _ _ h := by cases h
  calls _ h := by cases h

omit [DecidableEq K] in
/-- A call that is known of takes the place of another one. -/
theorem Kept.setCall (hs : Kept build s) {cache : K → Option V} {builds : Nat}
    (hcache : Extends s.cache cache) (hbuilds : s.builds ≤ builds) {i : Nat} {c : Call K V E}
    (hc : Known build cache builds c) :
    ∀ c' ∈ (s.setCall i c).calls, Known build cache builds c' := by
  intro c' hmem
  rcases List.mem_or_eq_of_mem_set hmem with hmem | rfl
  · exact (hs.calls c' hmem).mono hcache hbuilds
  · exact hc

theorem Kept.step {a : MemoAction K} (hs : Kept build s) (h : step build s a = some t) :
    Kept build t := by
  have hrefl : Extends s.cache s.cache := fun _ _ hvalue => hvalue
  cases step_cases h with
  | call key =>
    refine ⟨hs.cached, fun c hmem => ?_⟩
    rcases List.mem_append.mp hmem with hmem | hmem
    · exact hs.calls c hmem
    · rw [List.mem_singleton.mp hmem]
      trivial
  | read i key hcall =>
    refine ⟨hs.cached, hs.setCall hrefl (Nat.le_refl _) ?_⟩
    unfold looked
    cases hkey : s.cache key with
    | some value => exact hkey
    | none => trivial
  | build i key hcall =>
    refine ⟨fun key' value hvalue => ?_, hs.setCall hrefl (Nat.le_succ _) ?_⟩
    · obtain ⟨n, hn, hbuilt⟩ := hs.cached key' value hvalue
      exact ⟨n, Nat.lt_succ_of_lt hn, hbuilt⟩
    · unfold tried
      cases hbuild : build s.builds key with
      | ok value => exact ⟨s.builds, Nat.lt_succ_self _, hbuild⟩
      | error err => exact ⟨s.builds, Nat.lt_succ_self _, hbuild⟩
  | insert i key value hcall =>
    refine ⟨fun key' value' hvalue => ?_, hs.setCall (extends_orInsert s.cache key value)
      (Nat.le_refl _) (orInsert_self s.cache key value)⟩
    rcases orInsert_cases hvalue with hvalue | ⟨rfl, rfl⟩
    · exact hs.cached key' value' hvalue
    · exact hs.calls _ (List.mem_of_getElem? hcall)
  | abandon i c hcall hover => exact ⟨hs.cached, hs.setCall hrefl (Nat.le_refl _) trivial⟩

theorem kept_of_reach (h : Reach (step build) init s) : Kept build s :=
  h.invariant (kept_init build) fun _ _ _ hu _ hstep => hu.step hstep

/-- **The calls for one key return one value.** -/
theorem returned_unique (h : Reach (step build) init s) {key : K} {value value' : V}
    (hvalue : .returned key value ∈ s.calls) (hvalue' : .returned key value' ∈ s.calls) :
    value = value' := by
  have hcached : s.cache key = some value := (kept_of_reach h).calls _ hvalue
  have hcached' : s.cache key = some value' := (kept_of_reach h).calls _ hvalue'
  exact Option.some.inj (hcached.symm.trans hcached')

/-- What is returned was built for the key. -/
theorem built_of_returned (h : Reach (step build) init s) {key : K} {value : V}
    (hvalue : .returned key value ∈ s.calls) : ∃ n < s.builds, build n key = .ok value :=
  (kept_of_reach h).cached key value ((kept_of_reach h).calls _ hvalue)

/-! ### Calls that do not return a value -/

/-- A call that is over stays as it is. -/
theorem step_over {a : MemoAction K} (h : step build s a = some t) {i : Nat} {c : Call K V E}
    (hcall : s.calls[i]? = some c) (hover : c.isOver = true) : t.calls[i]? = some c := by
  have hset : ∀ (j : Nat) (c' d : Call K V E), s.calls[j]? = some d → d.isOver = false →
      (s.setCall j c').calls[i]? = some c := by
    intro j c' d hd hgoing
    have hne : j ≠ i := by
      rintro rfl
      obtain rfl : c = d := Option.some.inj (hcall.symm.trans hd)
      rw [hover] at hgoing
      cases hgoing
    show (s.calls.set j c')[i]? = some c
    rw [List.getElem?_set_ne hne]
    exact hcall
  cases step_cases h with
  | call key =>
    show (s.calls ++ [.entered key])[i]? = some c
    rw [List.getElem?_append_left (List.getElem?_eq_some_iff.mp hcall).1]
    exact hcall
  | read j key hj => exact hset j _ _ hj rfl
  | build j key hj => exact hset j _ _ hj rfl
  | insert j key value hj => exact hset j _ _ hj rfl
  | abandon j d hj hgoing => exact hset j _ d hj hgoing

theorem over_of_reach (h : Reach (step build) s t) {i : Nat} {c : Call K V E}
    (hcall : s.calls[i]? = some c) (hover : c.isOver = true) : t.calls[i]? = some c :=
  h.invariant (P := fun u => u.calls[i]? = some c) hcall fun _ _ _ hu _ hstep =>
    step_over hstep hu hover

/-- **A call that does not return a value leaves the cache unchanged**, at each of
its steps. -/
theorem cache_eq_of_not_returned {u : Memo K V E} {a : MemoAction K} {i : Nat}
    (h : step build s a = some t) (ha : a.caller = some i) (hrest : Reach (step build) t u)
    (hend : ∀ key value, u.calls[i]? ≠ some (.returned key value)) : t.cache = s.cache := by
  cases step_cases h with
  | insert j key value hj =>
    obtain rfl : j = i := Option.some.inj ha
    have hreturned : (s.calls.set j (.returned key ((s.cache key).getD value)))[j]? =
        some (.returned key ((s.cache key).getD value)) :=
      List.getElem?_set_self (List.getElem?_eq_some_iff.mp hj).1
    exact absurd (over_of_reach hrest hreturned rfl) (hend _ _)
  | _ => rfl

end Memo

end Kolas.Lib

import Kolas.Di.Deadlock
import Kolas.Di.Ends
import Kolas.Di.Frozen
import Kolas.Di.Instances

/-!
# Type erasure

`erase` and `downcast` of `di/entry.rs`, and `erase_factory`.  An `Arc<T>` is stored
as an `AnyArc`, whose type is known at run time only, under the key of a type; it is
downcast to the type of the key it is found under, and `downcast` panics at any other.
Types are their `TypeId`s.

`TypedCall` is a method of the builder as the compiler sees it: the key it registers
under and the value or factory it is given have the same type `T`.  `erasedStep` is
the machine with the values: a run of a factory for `T` returns an `Arc<T>`, and the
steps that take a value downcast it.

`wellTyped_of_reach`: in every run of it each value has the type of the key that it is
stored under, and no step panics.
-/

namespace Kolas.Di

open Kolas.Lib

variable {τ : Type} {Arc φ : τ → Type}

/-- `Arc<dyn Any + Send + Sync>`. -/
structure AnyArc (Arc : τ → Type) where
  typeId : τ
  payload : Arc typeId

def erase {T : τ} (value : Arc T) : AnyArc Arc := ⟨T, value⟩

/-- The `Arc<T>` in it; `none` is the panic. -/
def downcast [DecidableEq τ] (T : τ) (any : AnyArc Arc) : Option (Arc T) :=
  if h : any.typeId = T then some (h ▸ any.payload) else none

theorem downcast_erase [DecidableEq τ] {T : τ} (value : Arc T) :
    downcast T (erase value) = some value := dif_pos rfl

/-- A factory for `T`, type-erased: what it returns is erased by `erase::<T>`. -/
structure Factory (φ : τ → Type) where
  typeId : τ
  factory : φ typeId

def eraseFactory {T : τ} (factory : φ T) : Factory φ := ⟨T, factory⟩

/-! ### Typed registrations -/

/-- A method of the builder at a type `T`. -/
inductive TypedCall (Arc φ : τ → Type)
  | singleton (T : τ) (value : Arc T)
  | singletonTagged (T : τ) (tag : String) (value : Arc T)
  | singletonFactory (T : τ) (factory : φ T)
  | singletonFactoryTagged (T : τ) (tag : String) (factory : φ T)
  | transient (T : τ) (factory : φ T)
  | transientTagged (T : τ) (tag : String) (factory : φ T)
  | scoped (T : τ) (factory : φ T)
  | scopedTagged (T : τ) (tag : String) (factory : φ T)
  | multibind (T : τ) (value : Arc T)
  | multibindGroup (T : τ) (group : String) (value : Arc T)
  | multibindFactory (T : τ) (factory : φ T)
  | multibindFactoryGroup (T : τ) (group : String) (factory : φ T)
  | multibindTransient (T : τ) (factory : φ T)
  | multibindTransientGroup (T : τ) (group : String) (factory : φ T)
  | multibindScoped (T : τ) (factory : φ T)
  | multibindScopedGroup (T : τ) (group : String) (factory : φ T)

/-- The call with its value or factory erased. -/
def TypedCall.erased : TypedCall Arc φ → BuilderCall τ (AnyArc Arc) (Factory φ)
  | .singleton T value => .singleton T (erase value)
  | .singletonTagged T tag value => .singletonTagged T tag (erase value)
  | .singletonFactory T factory => .singletonFactory T (eraseFactory factory)
  | .singletonFactoryTagged T tag factory => .singletonFactoryTagged T tag (eraseFactory factory)
  | .transient T factory => .transient T (eraseFactory factory)
  | .transientTagged T tag factory => .transientTagged T tag (eraseFactory factory)
  | .scoped T factory => .scoped T (eraseFactory factory)
  | .scopedTagged T tag factory => .scopedTagged T tag (eraseFactory factory)
  | .multibind T value => .multibind T (erase value)
  | .multibindGroup T group value => .multibindGroup T group (erase value)
  | .multibindFactory T factory => .multibindFactory T (eraseFactory factory)
  | .multibindFactoryGroup T group factory =>
    .multibindFactoryGroup T group (eraseFactory factory)
  | .multibindTransient T factory => .multibindTransient T (eraseFactory factory)
  | .multibindTransientGroup T group factory =>
    .multibindTransientGroup T group (eraseFactory factory)
  | .multibindScoped T factory => .multibindScoped T (eraseFactory factory)
  | .multibindScopedGroup T group factory => .multibindScopedGroup T group (eraseFactory factory)

/-- The value or the factory is of type `T`. -/
def Entry.Carries (T : τ) : Entry (AnyArc Arc) (Factory φ) → Prop
  | .value any => any.typeId = T
  | .singleton factory => factory.typeId = T
  | .transient factory => factory.typeId = T
  | .scoped factory => factory.typeId = T

theorem Entry.Carries.factory {T : τ} {e : Entry (AnyArc Arc) (Factory φ)} {f : Factory φ}
    (h : e.Carries T) (hf : e.factory? = some f) : f.typeId = T := by
  cases e with
  | value any => cases hf
  | singleton factory =>
    obtain rfl := Option.some.inj hf
    exact h
  | transient factory =>
    obtain rfl := Option.some.inj hf
    exact h
  | «scoped» factory =>
    obtain rfl := Option.some.inj hf
    exact h

/-- **A method of the builder registers at its own type.** -/
theorem registration_carries (call : TypedCall Arc φ) :
    call.erased.registration.entry.Carries call.erased.registration.key.typeId := by
  cases call <;> rfl

section

variable [DecidableEq τ]

theorem registered_carries {calls : List (TypedCall Arc φ)} {kind : Kind} {key : ServiceKey τ}
    {e : Entry (AnyArc Arc) (Factory φ)}
    (he : e ∈ registered kind key (calls.map TypedCall.erased)) : e.Carries key.typeId := by
  obtain ⟨erased, hmem, rfl⟩ := List.mem_map.mp he
  obtain ⟨hcall, hkey⟩ := List.mem_filter.mp hmem
  obtain ⟨call, -, rfl⟩ := List.mem_map.mp hcall
  rw [← (of_decide_eq_true hkey).2]
  exact registration_carries call

variable {calls : List (TypedCall Arc φ)}

theorem entries_carries {key : ServiceKey τ} {e : Entry (AnyArc Arc) (Factory φ)}
    (h : (containerOf (calls.map TypedCall.erased)).entries key = some e) :
    e.Carries key.typeId := by
  rw [entries_containerOf] at h
  exact registered_carries (List.mem_of_getLast? h)

theorem groups_carries {key : ServiceKey τ} {members : List (Entry (AnyArc Arc) (Factory φ))}
    (h : (containerOf (calls.map TypedCall.erased)).groups key = some members)
    {e : Entry (AnyArc Arc) (Factory φ)} (he : e ∈ members) : e.Carries key.typeId := by
  rw [groups_containerOf] at h
  split at h
  · cases h
  · obtain rfl := Option.some.inj h
    exact registered_carries he

/-- **What a call resolves is of the type of its key.** -/
theorem entryAt_carries {node : Node τ} {j : Nat} {e : Entry (AnyArc Arc) (Factory φ)}
    (h : (containerOf (calls.map TypedCall.erased)).entryAt node j = some e) :
    e.Carries node.key.typeId := by
  cases node with
  | single key =>
    cases j with
    | zero => exact entries_carries h
    | succ j => cases h
  | group key =>
    obtain ⟨members, hmembers, he⟩ := Option.bind_eq_some_iff.mp h
    exact groups_carries hmembers (List.mem_of_getElem? he)

end

/-! ### The machine with values -/

/-- The machine, and the value that each run that ended well has returned. -/
structure ErasedState (Arc : τ → Type) where
  machine : State τ (AnyArc Arc)
  returned : Nat → Option (AnyArc Arc)

def ErasedState.start (Arc : τ → Type) : ErasedState Arc :=
  ⟨State.start τ (AnyArc Arc), fun _ => none⟩

/-- `ret c T value`: the factory that `c` runs returns an `Arc<T>`.  No other action
ends a run well. -/
inductive TypedAction (Arc : τ → Type)
  | act (a : Action τ)
  | ret (c : Nat) (T : τ) (value : Arc T)

/-- The factory that the call runs. -/
def buildingFactory (C : Container τ (AnyArc Arc) (Factory φ)) (s : State τ (AnyArc Arc))
    (c : Nat) : Option (Factory φ) :=
  s.calls[c]?.bind fun call =>
    match call.phase with
    | .building j _ _ => (C.entryAt call.node j).bind Entry.factory?
    | _ => none

section

variable [DecidableEq τ] [TypeName τ]

/-- A step up to its downcast.  A factory for `T` returns an `Arc<T>`, which is
erased and kept for its run. -/
def ErasedState.moved (C : Container τ (AnyArc Arc) (Factory φ))
    (resolves : Factory φ → Node τ → Bool) (e : ErasedState Arc) :
    TypedAction Arc → Option (ErasedState Arc)
  | .act (.finish _ (.ok _)) => none
  | .act a => (freeStep C resolves e.machine a).map fun t => ⟨t, e.returned⟩
  | .ret c T value =>
    match buildingFactory C e.machine c, e.machine.ended (.finish c (.ok ())) with
    | some factory, some (run, _) =>
      if factory.typeId = T then
        (freeStep C resolves e.machine (.finish c (.ok ()))).map fun t =>
          ⟨t, Function.update e.returned run (some (erase value))⟩
      else none
    | _, _ => none

/-- The type `T` of the call that takes a value in the step, and the value: one that
was registered, the one in a set cell, or the one that the factory returns. -/
def ErasedState.taken (C : Container τ (AnyArc Arc) (Factory φ)) (e : ErasedState Arc) :
    TypedAction Arc → Option (τ × Option (AnyArc Arc))
  | .act (.poll c) =>
    e.machine.calls[c]?.bind fun call =>
      match call.phase with
      | .entry j =>
        match C.entryAt call.node j with
        | some (.value any) => some (call.node.key.typeId, some any)
        | _ => none
      | .cell _ x =>
        match e.machine.cells x with
        | .set run => some (call.node.key.typeId, e.returned run)
        | _ => none
      | _ => none
  | .act _ => none
  | .ret c _ value =>
    e.machine.calls[c]?.map fun call => (call.node.key.typeId, some (erase value))

/-- A step with its downcast; the state `none` is that of a panic. -/
def erasedStep (C : Container τ (AnyArc Arc) (Factory φ)) (resolves : Factory φ → Node τ → Bool) :
    Option (ErasedState Arc) → TypedAction Arc → Option (Option (ErasedState Arc))
  | none, _ => none
  | some e, a => (e.moved C resolves a).map fun e' =>
    match e.taken C a with
    | none => some e'
    | some (T, any) => if (any.bind (downcast T)).isSome then some e' else none

/-- Every value has the type of the key it is stored under, and is downcast at it. -/
structure WellTyped (C : Container τ (AnyArc Arc) (Factory φ))
    (resolves : Factory φ → Node τ → Bool) (e : ErasedState Arc) : Prop where
  entries : ∀ key entry, C.entries key = some entry → entry.Carries key.typeId
  members : ∀ key members, C.groups key = some members →
    ∀ entry ∈ members, entry.Carries key.typeId
  /-- The cell of a singleton. -/
  cells : ∀ r n, e.machine.cells (.entry r) = .set n →
    ∃ value : Arc r.key.typeId, e.returned n = some (erase value)
  /-- The slot of a key in a scope. -/
  slots : ∀ scope key k n, e.machine.cache scope key = some k →
    e.machine.cells (.slot k) = .set n → ∃ value : Arc key.typeId, e.returned n = some (erase value)
  /-- The value that a step takes. -/
  taken : ∀ a e' T any, e.moved C resolves a = some e' → e.taken C a = some (T, any) →
    ∃ value : Arc T, any = some (erase value)

/-! ### Values in cells -/

omit [DecidableEq τ] [TypeName τ] in
theorem exists_erase {T : τ} {any : AnyArc Arc} (h : any.typeId = T) :
    ∃ value : Arc T, any = erase value := by
  subst h
  exact ⟨any.payload, rfl⟩

omit [DecidableEq τ] [TypeName τ] in
@[simp] theorem EntryRef.slotKey_typeId (r : EntryRef τ) : r.slotKey.typeId = r.key.typeId := by
  cases r <;> rfl

/-- What a run returned is of the type of its registration. -/
def ErasedState.Paid (e : ErasedState Arc) : Prop :=
  ∀ n run, e.machine.runs[n]? = some run → run.outcome = .ok →
    ∃ value : Arc run.ref.key.typeId, e.returned n = some (erase value)

variable {C : Container τ (AnyArc Arc) (Factory φ)} {resolves : Factory φ → Node τ → Bool}
  {e e' : ErasedState Arc}

omit [DecidableEq τ] [TypeName τ] in
theorem Sound.entry_typed (hs : Sound C e.machine) (hpaid : e.Paid) {r : EntryRef τ} {n : Nat}
    (hset : e.machine.cells (.entry r) = .set n) :
    ∃ value : Arc r.key.typeId, e.returned n = some (erase value) := by
  obtain ⟨run, hn, hok, hfor⟩ := hs.kept_run hset
  cases hfor with
  | entry he => exact hpaid n run hn hok

omit [DecidableEq τ] [TypeName τ] in
/-- A slot is of one key, and so of one type, also where members of groups share it. -/
theorem Sound.slot_typed (hs : Sound C e.machine) (hpaid : e.Paid) {scope k n : Nat}
    {key : ServiceKey τ} (hk : e.machine.cache scope key = some k)
    (hset : e.machine.cells (.slot k) = .set n) :
    ∃ value : Arc key.typeId, e.returned n = some (erase value) := by
  obtain ⟨run, hn, hok, hfor⟩ := hs.kept_run hset
  cases hfor with
  | slot he hsc hk' =>
    obtain ⟨-, rfl⟩ := hs.owned _ _ _ _ _ hk hk'
    rw [EntryRef.slotKey_typeId]
    exact hpaid n run hn hok

omit [DecidableEq τ] [TypeName τ] in
theorem Sound.cell_typed (hs : Sound C e.machine) (hpaid : e.Paid) {r : EntryRef τ}
    {scope : Option Nat} {x : CellId τ} {n : Nat} (hx : CellFor C e.machine.cache r scope x)
    (hset : e.machine.cells x = .set n) :
    ∃ value : Arc r.key.typeId, e.returned n = some (erase value) := by
  cases hx with
  | entry he => exact hs.entry_typed hpaid hset
  | slot he hsc hk =>
    rw [← EntryRef.slotKey_typeId]
    exact hs.slot_typed hpaid hk hset

/-! ### Steps with values -/

/-- A factory returns, of the type it was erased at. -/
theorem moved_ret {c : Nat} {T : τ} {value : Arc T}
    (h : e.moved C resolves (.ret c T value) = some e') :
    ∃ (call : Call τ (AnyArc Arc)) (j run : Nat) (x : Option (CellId τ)) (factory : Factory φ),
      e.machine.calls[c]? = some call ∧ call.phase = .building j x run ∧
      (C.entryAt call.node j).bind Entry.factory? = some factory ∧ factory.typeId = T ∧
      freeStep C resolves e.machine (.finish c (.ok ())) = some e'.machine ∧
      e'.returned = Function.update e.returned run (some (erase value)) := by
  simp only [ErasedState.moved] at h
  split at h
  · rename_i factory run end' hfactory hended
    split at h
    · rename_i hT
      obtain ⟨t, ht, rfl⟩ := Option.map_eq_some_iff.mp h
      obtain ⟨call, hc, hbuild⟩ := Option.bind_eq_some_iff.mp hfactory
      split at hbuild
      · rename_i j x m hphase
        have hm := ended_of_building (a := .finish c (.ok ())) rfl hc hphase
        obtain ⟨rfl, -⟩ := Prod.mk.inj (Option.some.inj (hm.symm.trans hended))
        exact ⟨call, j, m, x, factory, hc, hphase, hbuild, hT, ht, rfl⟩
      · cases hbuild
    · cases h
  · cases h

/-- Any other step, which ends no run well. -/
theorem moved_act {a : Action τ} (h : e.moved C resolves (.act a) = some e') :
    freeStep C resolves e.machine a = some e'.machine ∧ e'.returned = e.returned ∧
      ∀ n, e.machine.ended a ≠ some (n, .ok) := by
  unfold ErasedState.moved at h
  split at h
  · cases h
  · rename_i a' hnot heq
    cases heq
    obtain ⟨t, ht, rfl⟩ := Option.map_eq_some_iff.mp h
    refine ⟨ht, rfl, fun n hended => ?_⟩
    obtain ⟨⟨c, end'⟩, hends, hrun⟩ := Option.bind_eq_some_iff.mp hended
    dsimp only at hrun
    split at hrun
    · obtain ⟨-, rfl⟩ := Prod.mk.inj (Option.some.inj hrun)
      unfold Action.ends at hends
      split at hends
      · exact hnot _ _ rfl
      · cases hends
      · cases hends
      · cases hends
    · cases hrun
  · rename_i heq
    cases heq

variable {calls : List (TypedCall Arc φ)}

/-- **A factory returns a value of the type of its registration.** -/
theorem Paid.moved {a : TypedAction Arc} (hpaid : e.Paid) (hs : Sound C e.machine)
    (hC : C = containerOf (calls.map TypedCall.erased)) (h : e.moved C resolves a = some e') :
    e'.Paid := by
  subst hC
  intro n run hn hok
  cases a with
  | act a =>
    obtain ⟨hstep, hreturned, hnot⟩ := moved_act h
    rcases ok_run_of_freeStep hstep hn hok with hold | ⟨hended, -⟩
    · rw [hreturned]
      exact hpaid n run hold hok
    · exact absurd hended (hnot n)
  | ret c T value =>
    obtain ⟨call, j, m, x, factory, hc, hphase, hfactory, hT, hstep, hreturned⟩ := moved_ret h
    rw [hreturned]
    by_cases hnm : n = m
    · -- the run that returns
      subst hnm
      obtain ⟨entry, hentry, hf⟩ := Option.bind_eq_some_iff.mp hfactory
      have hat := (hs.building hc hphase).2.2.1
      have href : run.ref = call.ref j := by
        rcases ok_run_of_freeStep hstep hn hok with hold | ⟨-, old, hold, href⟩
        · rw [Option.some.inj (hold.symm.trans hat)]
        · rw [href, Option.some.inj (hold.symm.trans hat)]
      have hkey : T = run.ref.key.typeId := by
        rw [href, Call.ref, Node.ref_key, ← hT]
        exact (entryAt_carries hentry).factory hf
      rw [Function.update_self]
      subst hkey
      exact ⟨value, rfl⟩
    · rw [Function.update_of_ne hnm]
      rcases ok_run_of_freeStep hstep hn hok with hold | ⟨hended, -⟩
      · exact hpaid n run hold hok
      · rw [ended_of_building rfl hc hphase] at hended
        exact absurd (Prod.mk.inj (Option.some.inj hended)).1.symm hnm

/-- **What a step takes is of the type of the call.** -/
theorem taken_typed {a : TypedAction Arc} {T : τ} {any : Option (AnyArc Arc)} (hpaid : e.Paid)
    (hs : Sound C e.machine) (hC : C = containerOf (calls.map TypedCall.erased))
    (h : e.moved C resolves a = some e') (htaken : e.taken C a = some (T, any)) :
    ∃ value : Arc T, any = some (erase value) := by
  subst hC
  cases a with
  | ret c T' value =>
    obtain ⟨call, j, m, x, factory, hc, hphase, hfactory, hT, -, -⟩ := moved_ret h
    obtain ⟨entry, hentry, hf⟩ := Option.bind_eq_some_iff.mp hfactory
    simp only [ErasedState.taken, hc, Option.map_some, Option.some.injEq, Prod.mk.injEq] at htaken
    obtain ⟨rfl, rfl⟩ := htaken
    obtain rfl : T' = call.node.key.typeId := by
      rw [← hT]
      exact (entryAt_carries hentry).factory hf
    exact ⟨value, rfl⟩
  | act a =>
    cases a with
    | poll c =>
      obtain ⟨call, hc, htakes⟩ := Option.bind_eq_some_iff.mp htaken
      have hold := hs.phase c call hc
      unfold PhaseOk at hold
      split at htakes
      · split at htakes
        · rename_i j hphase v hentry
          obtain ⟨rfl, rfl⟩ := Prod.mk.inj (Option.some.inj htakes)
          obtain ⟨value, rfl⟩ := exists_erase (entryAt_carries hentry)
          exact ⟨value, rfl⟩
        · cases htakes
      · split at htakes
        · rename_i j x hphase _ run hset
          obtain ⟨rfl, rfl⟩ := Prod.mk.inj (Option.some.inj htakes)
          rw [hphase] at hold
          rw [← Node.ref_key call.node j]
          exact hs.cell_typed hpaid hold.2 hset
        · cases htakes
      · cases htakes
    | _ => cases htaken

theorem wellTyped_of_paid (hpaid : e.Paid) (hs : Sound C e.machine)
    (hC : C = containerOf (calls.map TypedCall.erased)) : WellTyped C resolves e where
  entries _ _ h := entries_carries (hC ▸ h)
  members _ _ h _ hmem := groups_carries (hC ▸ h) hmem
  cells _ _ hset := hs.entry_typed hpaid hset
  slots _ _ _ _ hk hset := hs.slot_typed hpaid hk hset
  taken _ _ _ _ h htaken := taken_typed hpaid hs hC h htaken

theorem moved_sound {a : TypedAction Arc} (hs : Sound C e.machine)
    (h : e.moved C resolves a = some e') : Sound C e'.machine := by
  cases a with
  | act a => exact (hs.free (moved_act h).1).1
  | ret c T value =>
    obtain ⟨call, j, m, x, factory, -, -, -, -, hstep, -⟩ := moved_ret h
    exact (hs.free hstep).1

/-- **Type erasure is sound.**  Whatever is registered and resolved, in whatever
order the calls go on, no downcast panics, and every value has the type of the key
it is stored under. -/
theorem wellTyped_of_reach (calls : List (TypedCall Arc φ)) (resolves : Factory φ → Node τ → Bool)
    {s : Option (ErasedState Arc)}
    (h : Reach (erasedStep (containerOf (calls.map TypedCall.erased)) resolves)
      (some (.start Arc)) s) :
    ∃ e, s = some e ∧ WellTyped (containerOf (calls.map TypedCall.erased)) resolves e := by
  obtain ⟨e, rfl, hs, hpaid⟩ : ∃ e, s = some e ∧
      Sound (containerOf (calls.map TypedCall.erased)) e.machine ∧ e.Paid := by
    refine h.invariant (P := fun s => ∃ e : ErasedState Arc, s = some e ∧
      Sound (containerOf (calls.map TypedCall.erased)) e.machine ∧ e.Paid) ?_ ?_
    · exact ⟨.start Arc, rfl, sound_start _, nofun⟩
    · intro u v a hu _ hstep
      obtain ⟨e, rfl, hs, hpaid⟩ := hu
      obtain ⟨e', hmoved, hv⟩ := Option.map_eq_some_iff.mp hstep
      refine ⟨e', ?_, moved_sound hs hmoved, Paid.moved hpaid hs rfl hmoved⟩
      rw [← hv]
      split
      · rfl
      · rename_i T any htaken
        obtain ⟨value, rfl⟩ := taken_typed hpaid hs rfl hmoved htaken
        rw [Option.bind_some, downcast_erase]
        rfl
  exact ⟨e, rfl, wellTyped_of_paid hpaid hs rfl⟩

/-- A value that is given, and a handler for each request. -/
def handlerTyped : List (TypedCall (fun _ : String => Nat) fun _ => Unit) :=
  [.singleton "Config" 7, .multibindScoped "Handler" ()]

/-- A request resolves the handlers twice. -/
def handlerTypedRun : List (TypedAction fun _ : String => Nat) :=
  [.act (.call (.single ⟨"Config", none⟩) none), .act (.poll 0), .act (.poll 0),
    .act (.call (.group ⟨"Handler", none⟩) (some 0)), .act (.poll 1), .act (.poll 1),
    .act (.poll 1), .act (.poll 1), .ret 1 "Handler" 5,
    .act (.call (.group ⟨"Handler", none⟩) (some 0)), .act (.poll 2), .act (.poll 2),
    .act (.poll 2)]

theorem typed_handlers :
    ∃ s, run (erasedStep (containerOf (handlerTyped.map TypedCall.erased)) fun _ _ => false)
        (some (.start _)) handlerTypedRun = some s ∧
      ∃ e, s = some e ∧ e.machine.calls.length = 3 ∧
        WellTyped (containerOf (handlerTyped.map TypedCall.erased)) (fun _ _ => false) e := by
  have hrun : (run (erasedStep (containerOf (handlerTyped.map TypedCall.erased)) fun _ _ => false)
      (some (.start _)) handlerTypedRun).map
        (Option.map fun e => e.machine.calls.length) = some (some 3) := rfl
  obtain ⟨s, hs, hlength⟩ := Option.map_eq_some_iff.mp hrun
  obtain ⟨e, rfl, htyped⟩ := wellTyped_of_reach handlerTyped (fun _ _ => false) (reach_of_run hs)
  exact ⟨_, hs, e, rfl, Option.some.inj hlength, htyped⟩

end

end Kolas.Di

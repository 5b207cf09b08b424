import Kolas.Di.Ends
import Kolas.Di.Instances

/-!
# Resolving a group

`Container::resolve_group`, in a machine that remembers how each run of a factory
has ended (`Watched`).

`traversed_of_reach`: in every run, with any other calls in between, a call for a
group that is not made while its key is resolved gives one value for each member,
in order, if and only if every member resolves.  Otherwise it gives the error of
the first member that fails, and has run no factory of a later member; and what it
has built before is kept: a later call gets the same instances, and their factories
do not run again.
-/

namespace Kolas.Di

open Kolas.Lib

variable {τ υ φ : Type}

/-- The machine, and how each run has ended. -/
structure Watched (τ υ : Type) where
  machine : State τ υ
  ends : Nat → Option RunEnd

def Watched.start (τ υ : Type) : Watched τ υ := ⟨State.start τ υ, fun _ => none⟩

def recordEnd (ends : Nat → Option RunEnd) : Option (Nat × RunEnd) → Nat → Option RunEnd
  | some (run, e) => Function.update ends run (some e)
  | none => ends

section

variable [DecidableEq τ] [TypeName τ]

def watchedStep (C : Container τ υ φ) (resolves : φ → Node τ → Bool) (w : Watched τ υ)
    (a : Action τ) : Option (Watched τ υ) :=
  (freeStep C resolves w.machine a).map fun t => ⟨t, recordEnd w.ends (w.machine.ended a)⟩

/-- Member `j` has resolved to `inst` for the call. -/
def MemberOk (C : Container τ υ φ) (w : Watched τ υ) (call : Call τ υ) (j : Nat)
    (inst : Inst υ) : Prop :=
  call.resolved[j]? = some inst ∧ InstFor C w.machine (call.ref j) call.scope inst

/-- Member `j` has failed for the call `c`: its factory, run by the call, has ended
with the error, or it is scoped and there is no scope. -/
inductive MemberFails (C : Container τ υ φ) (w : Watched τ υ) (c : Nat) (call : Call τ υ)
    (j : Nat) : DiError → Prop
  | factory {n : Nat} {run : FactoryRun τ} {e : DiError} (hn : w.machine.runs[n]? = some run)
      (hc : run.call = c) (href : run.ref = call.ref j) (hend : w.ends n = some (.error e)) :
      MemberFails C w c call j e
  | noScope {f : φ} (hat : C.entryAt call.node j = some (.scoped f)) (hs : call.scope = none) :
      MemberFails C w c call j (.scopeNotActive (TypeName.typeName call.node.key.typeId))

/-- Member `j` of the group is a singleton, or is scoped and `scope` is the scope of
the call. -/
def Kept (C : Container τ υ φ) (call : Call τ υ) (j : Nat) (scope : Option Nat) : Prop :=
  (∃ f, C.entryAt call.node j = some (.singleton f)) ∨
  (∃ f, C.entryAt call.node j = some (.scoped f)) ∧ scope = call.scope

/-- What is built for member `j` in `w` is there in `w'`, which is later. -/
structure StaysBuilt (C : Container τ υ φ) (w w' : Watched τ υ) (call : Call τ υ) (j : Nat)
    (inst : Inst υ) : Prop where
  built : InstFor C w'.machine (call.ref j) call.scope inst
  /-- The factory has not run again, ... -/
  once : ∀ (n : Nat) (run : FactoryRun τ), w'.machine.runs[n]? = some run →
    run.ref = call.ref j → Kept C call j run.scope → n < w.machine.runs.length
  /-- ... and a call for the group has the same instance, ... -/
  same : ∀ (d : Nat) (retry : Call τ υ) (inst' : Inst υ), w'.machine.calls[d]? = some retry →
    retry.node = call.node → Kept C call j retry.scope → retry.resolved[j]? = some inst' →
      inst' = inst
  /-- ... and has not failed at the member if it is a later one. -/
  passes : ∀ (d : Nat) (retry : Call τ υ) (e : DiError), w'.machine.calls[d]? = some retry →
    retry.node = call.node → Kept C call j retry.scope → w.machine.calls.length ≤ d →
      ¬ MemberFails C w' d retry j e

/-- What a call for a group has come to, that has returned `result`. -/
structure Traversed (C : Container τ υ φ) (resolves : φ → Node τ → Bool) (w : Watched τ υ)
    (c : Nat) (call : Call τ υ) (members : List (Entry υ φ))
    (result : Except DiError (List (Inst υ))) : Prop where
  ok_iff : (∃ values, result = .ok values) ↔
    ∀ j < members.length, ∃ inst, MemberOk C w call j inst
  /-- One value for each member, in order. -/
  values : ∀ values, result = .ok values → values.length = members.length ∧
    ∀ j inst, values[j]? = some inst → MemberOk C w call j inst
  /-- The error is of the first member that fails, and no later one has been run. -/
  error : ∀ e, result = .error e → ∃ j < members.length, MemberFails C w c call j e ∧
    (∀ i < j, ∃ inst, MemberOk C w call i inst) ∧
    ∀ (n : Nat) (run : FactoryRun τ), w.machine.runs[n]? = some run → run.call = c →
      ∃ i ≤ j, run.ref = call.ref i
  /-- The singletons, and in its scope the scoped members, stay built. -/
  kept : ∀ j inst, MemberOk C w call j inst → Kept C call j call.scope →
    ∀ w', Reach (watchedStep C resolves) w w' → StaysBuilt C w w' call j inst

/-! ### What the record says -/

/-- What runs and ends say of the calls. -/
structure Told (C : Container τ υ φ) (w : Watched τ υ) : Prop where
  ran : ∀ (n : Nat) (run : FactoryRun τ), w.machine.runs[n]? = some run →
    ∃ (call : Call τ υ) (j : Nat), w.machine.calls[run.call]? = some call ∧
      run.ref = call.ref j ∧ run.scope = call.scope ∧ j ≤ call.resolved.length
  failed : ∀ (n : Nat) (e : DiError), w.ends n = some (.error e) →
    ∃ run : FactoryRun τ, w.machine.runs[n]? = some run ∧ run.outcome = .failed
  complete : ∀ (c : Nat) (call : Call τ υ) (values : List (Inst υ)),
    w.machine.calls[c]? = some call → call.phase = .done (.ok values) →
      C.entryAt call.node call.resolved.length = none
  error : ∀ (c : Nat) (call : Call τ υ) (e : DiError) (key : ServiceKey τ),
    w.machine.calls[c]? = some call → call.phase = .done (.error e) → call.node = .group key →
      key ∉ call.keys → (C.entryAt call.node call.resolved.length).isSome ∧
        MemberFails C w c call call.resolved.length e

omit [DecidableEq τ] in
theorem told_start (C : Container τ υ φ) : Told C (Watched.start τ υ) where
  ran := by simp [Watched.start, State.start]
  failed := by simp [Watched.start, State.start]
  complete := by simp [Watched.start, State.start]
  error := by simp [Watched.start, State.start]

variable {C : Container τ υ φ} {resolves : φ → Node τ → Bool} {w w' : Watched τ υ} {c j : Nat}
  {call call' : Call τ υ} {key : ServiceKey τ} {e : DiError}

/-- A run that has failed is not the one that ends now. -/
theorem ends_kept {a : Action τ} {t : State τ υ} (hs : Sound C w.machine) (ht : Told C w)
    (h : freeStep C resolves w.machine a = some t) {n : Nat}
    (hend : w.ends n = some (.error e)) :
    recordEnd w.ends (w.machine.ended a) n = some (.error e) := by
  rcases freeStep_ends h with ⟨d, k, m, called, x, e', hd, hphase, hended, -⟩ | ⟨hended, -, -⟩
  · have hne : n ≠ m := by
      rintro rfl
      have hat := (hs.building hd hphase).2.2.1
      obtain ⟨run, hn, hfailed⟩ := ht.failed n e hend
      rw [Option.some.inj (hn.symm.trans hat)] at hfailed
      cases hfailed
    rw [hended]
    exact (Function.update_of_ne hne _ _).trans hend
  · rw [hended]
    exact hend

/-- **A failure is remembered.** -/
theorem MemberFails.step {a : Action τ} (hs : Sound C w.machine) (ht : Told C w)
    (hstep : watchedStep C resolves w a = some w') (hgrown : Grown call call')
    (h : MemberFails C w c call j e) : MemberFails C w' c call' j e := by
  obtain ⟨t, hfree, rfl⟩ := Option.map_eq_some_iff.mp hstep
  have hnode := hgrown.same.node
  cases h with
  | factory hn hc href hend =>
    obtain ⟨run', hn', hsame⟩ := run_kept hfree hn
    refine .factory hn' (hsame.call.trans hc) ?_ (ends_kept hs ht hfree hend)
    rw [hsame.ref, href, Call.ref, Call.ref, hnode]
  | noScope hat hscope =>
    rw [← hnode] at hat ⊢
    exact .noScope hat (hgrown.same.scope.trans hscope)

/-- A call for a group whose key is not in its chain passes the cycle check. -/
theorem enter_group_ok (hnode : call.node = .group key) (hkey : key ∉ call.keys) :
    C.enter call ≠ .done (.error e) := by
  rcases call with ⟨node, parent, scope, ancestors, resolved, phase⟩
  cases hnode
  have hnone : cycleThrough ancestors key (TypeName.typeName key.typeId) = none := by
    cases hcycle : cycleThrough ancestors key (TypeName.typeName key.typeId) with
    | none => rfl
    | some cycle =>
      exact absurd (cycleThrough_isSome_iff.mp (Option.isSome_iff_exists.mpr ⟨cycle, hcycle⟩)) hkey
  unfold Container.enter
  cases hgroup : C.groups key with
  | none =>
    simp only [hgroup]
    exact nofun
  | some members =>
    simp only [hgroup, Node.key, hnone]
    exact next_ne_error

omit [DecidableEq τ] [TypeName τ] in
theorem CellFor.entry_isSome {cache : Nat → ServiceKey τ → Option Nat} {r : EntryRef τ}
    {scope : Option Nat} {x : CellId τ} (h : CellFor C cache r scope x) :
    (C.entryOf r).isSome := by
  cases h with
  | entry he => exact Option.isSome_of_eq_some he
  | slot he hs hn => exact Option.isSome_of_eq_some he

omit [DecidableEq τ] [TypeName τ] in
theorem RunFor.entry_isSome {cache : Nat → ServiceKey τ → Option Nat} {r : EntryRef τ}
    {scope : Option Nat} {x : Option (CellId τ)} (h : RunFor C cache r scope x) :
    (C.entryOf r).isSome := by
  cases h with
  | transient he => exact Option.isSome_of_eq_some he
  | cell hx => exact hx.entry_isSome

omit [DecidableEq τ] [TypeName τ] in
theorem InstFor.entry_isSome {s : State τ υ} {r : EntryRef τ} {scope : Option Nat}
    {inst : Inst υ} (h : InstFor C s r scope inst) : (C.entryOf r).isSome := by
  cases h with
  | given he => exact Option.isSome_of_eq_some he
  | cell hx hset => exact hx.entry_isSome
  | transient he hrun => exact Option.isSome_of_eq_some he

/-- A call that returns on entering has no registrations to resolve. -/
theorem enter_ok {values : List (Inst υ)} (h : C.enter call = .done (.ok values)) :
    C.entryAt call.node 0 = none := by
  rcases call with ⟨node, parent, scope, ancestors, resolved, phase⟩
  unfold Container.enter at h
  cases node with
  | single key =>
    dsimp only at h
    split at h
    · cases h
    · split at h
      · cases h
      · exact next_done h
  | group key =>
    dsimp only at h
    split at h
    · rename_i hnone
      rw [Container.entryAt, hnone]
      rfl
    · split at h
      · cases h
      · exact next_done h

theorem Told.ran_step {a : Action τ} (hs : Sound C w.machine) (ht : Told C w)
    (hstep : watchedStep C resolves w a = some w') {n : Nat} {run : FactoryRun τ}
    (hn : w'.machine.runs[n]? = some run) :
    ∃ (call : Call τ υ) (j : Nat), w'.machine.calls[run.call]? = some call ∧
      run.ref = call.ref j ∧ run.scope = call.scope ∧ j ≤ call.resolved.length := by
  obtain ⟨t, hfree, rfl⟩ := Option.map_eq_some_iff.mp hstep
  rcases run_past hfree hn with ⟨old, hold, hsame⟩ | ⟨c, k, call, x, hc, hstarts, -, rfl⟩
  · obtain ⟨call, j, hcall, href, hscope, hj⟩ := ht.ran n old hold
    obtain ⟨call', hcall', hgrown⟩ := call_kept hfree hcall
    refine ⟨call', j, by rw [hsame.call, hcall'], ?_, ?_, hj.trans hgrown.resolved.length_le⟩
    · rw [hsame.ref, href, Call.ref, Call.ref, hgrown.same.node]
    · rw [hsame.scope, hscope, hgrown.same.scope]
  · obtain ⟨call', hcall', hgrown⟩ := call_kept hfree hc
    have hlen := (hstarts.runFor hs hc).1
    refine ⟨call', k, hcall', ?_, hgrown.same.scope.symm, ?_⟩
    · rw [Call.ref, Call.ref, hgrown.same.node]
    · exact hlen ▸ hgrown.resolved.length_le

theorem Told.failed_step {a : Action τ} (hs : Sound C w.machine) (ht : Told C w)
    (hstep : watchedStep C resolves w a = some w') {n : Nat}
    (hend : w'.ends n = some (.error e)) :
    ∃ run : FactoryRun τ, w'.machine.runs[n]? = some run ∧ run.outcome = .failed := by
  obtain ⟨t, hfree, rfl⟩ := Option.map_eq_some_iff.mp hstep
  rcases freeStep_ends hfree with ⟨c, j, m, call, x, e', hc, hphase, hended, rfl⟩ |
    ⟨hended, hkeep, hmove⟩
  · rw [hended] at hend
    by_cases hnm : n = m
    · subst hnm
      obtain rfl := Option.some.inj ((Function.update_self n _ _).symm.trans hend)
      exact ⟨_, getElem?_modify_of_some (hs.building hc hphase).2.2.1, rfl⟩
    · obtain ⟨run, hn, hfailed⟩ := ht.failed n e ((Function.update_of_ne hnm _ _).symm.trans hend)
      exact ⟨run, (List.getElem?_modify_ne _ _ (Ne.symm hnm)).trans hn, hfailed⟩
  · rw [hended] at hend
    obtain ⟨run, hn, hfailed⟩ := ht.failed n e hend
    rcases hkeep.runs hmove with hruns | ⟨c, j, call, x, -, -, rfl⟩
    · exact ⟨run, hruns ▸ hn, hfailed⟩
    · exact ⟨run, getElem?_concat_of_some hn, hfailed⟩

theorem Told.complete_step {a : Action τ} {values : List (Inst υ)} (hs : Sound C w.machine)
    (ht : Told C w) (hstep : watchedStep C resolves w a = some w')
    (hc : w'.machine.calls[c]? = some call) (hphase : call.phase = .done (.ok values)) :
    C.entryAt call.node call.resolved.length = none := by
  obtain ⟨t, hfree, rfl⟩ := Option.map_eq_some_iff.mp hstep
  rcases result_of_freeStep hs hfree hc hphase with hold | ⟨old, hold, hreturns⟩
  · exact ht.complete c call values hold hphase
  · cases hreturns with
    | enter hentered he =>
      have hnil := hs.phase c old hold
      unfold PhaseOk at hnil
      rw [hentered] at hnil
      rw [hnil]
      exact enter_ok he
    | @last j inst _ hlen hnone =>
      have hlength : (C.advance old j inst).resolved.length = j + 1 := by
        rw [Container.advance, List.length_append, hlen, List.length_singleton]
      rw [hlength]
      exact hnone

theorem Told.error_step {a : Action τ} (hs : Sound C w.machine) (ht : Told C w)
    (hstep : watchedStep C resolves w a = some w') (hc : w'.machine.calls[c]? = some call)
    (hphase : call.phase = .done (.error e)) (hnode : call.node = .group key)
    (hkey : key ∉ call.keys) :
    (C.entryAt call.node call.resolved.length).isSome ∧
      MemberFails C w' c call call.resolved.length e := by
  have hkept := hstep
  obtain ⟨t, hfree, rfl⟩ := Option.map_eq_some_iff.mp hstep
  rcases result_of_freeStep hs hfree hc hphase with hold | ⟨old, hold, hreturns⟩
  · obtain ⟨hsome, hfails⟩ := ht.error c call e key hold hphase hnode hkey
    exact ⟨hsome, hfails.step hs ht hkept (.refl call)⟩
  · cases hreturns with
    | enter hentered he => exact absurd he (enter_group_ok hnode hkey)
    | noScope hlen he hscope =>
      subst hlen
      exact ⟨Option.isSome_of_eq_some he, .noScope he hscope⟩
    | @failed j run x _ hbuild hended =>
      obtain ⟨hlen, hrun, hat, -⟩ := hs.building hold hbuild
      obtain ⟨run', hn, hsame⟩ := run_kept hfree hat
      subst hlen
      refine ⟨?_, .factory hn hsame.call hsame.ref ?_⟩
      · have hentry := hrun.entry_isSome
        rw [Call.ref, show old.node = .group key from hnode] at hentry
        rw [hnode]
        exact hentry
      · rw [hended]
        exact Function.update_self _ _ _

theorem Told.step {a : Action τ} (hs : Sound C w.machine) (ht : Told C w)
    (hstep : watchedStep C resolves w a = some w') : Told C w' where
  ran _ _ hn := ht.ran_step hs hstep hn
  failed _ _ hend := ht.failed_step hs hstep hend
  complete _ _ _ hc hphase := ht.complete_step hs hstep hc hphase
  error _ _ _ _ hc hphase hnode hkey := ht.error_step hs hstep hc hphase hnode hkey

theorem watched_sound {a : Action τ} (hs : Sound C w.machine)
    (hstep : watchedStep C resolves w a = some w') : Sound C w'.machine := by
  obtain ⟨t, hfree, rfl⟩ := Option.map_eq_some_iff.mp hstep
  exact (hs.free hfree).1

/-- **Every reachable state is sound, and its record tells what has happened.** -/
theorem told_of_reach (h : Reach (watchedStep C resolves) (Watched.start τ υ) w) :
    Sound C w.machine ∧ Told C w := by
  refine h.invariant (P := fun w => Sound C w.machine ∧ Told C w)
    ⟨sound_start C, told_start C⟩ ?_
  intro u v a ⟨hs, ht⟩ _ hstep
  exact ⟨watched_sound hs hstep, ht.step hs hstep⟩

theorem later_of_watched (hs : Sound C w.machine) (h : Reach (watchedStep C resolves) w w') :
    Later w.machine w'.machine := by
  have hfree : Reach (freeStep C resolves) w.machine w'.machine := by
    refine h.simulate (f := Watched.machine) fun u v a hstep => .inr ⟨a, ?_⟩
    obtain ⟨t, ht, rfl⟩ := Option.map_eq_some_iff.mp hstep
    exact ht
  exact later_of_freeReach hs hfree

/-- The early runs are runs of early calls. -/
theorem early_runs (ht : Told C w) (h : Reach (watchedStep C resolves) w w') {n : Nat}
    {run : FactoryRun τ} (hlt : n < w.machine.runs.length) (hn : w'.machine.runs[n]? = some run) :
    run.call < w.machine.calls.length := by
  have hkept : w.machine.runs.length ≤ w'.machine.runs.length ∧
      ∀ run, w'.machine.runs[n]? = some run → run.call < w.machine.calls.length := by
    refine h.invariant (P := fun u => w.machine.runs.length ≤ u.machine.runs.length ∧
      ∀ run, u.machine.runs[n]? = some run → run.call < w.machine.calls.length) ⟨le_rfl, ?_⟩ ?_
    · intro run hrun
      obtain ⟨call, -, hcall, -⟩ := ht.ran n run hrun
      exact (List.getElem?_eq_some_iff.mp hcall).1
    · intro u v a ⟨hle, hu⟩ _ hstep
      obtain ⟨t, hfree, rfl⟩ := Option.map_eq_some_iff.mp hstep
      have hlength : u.machine.runs.length ≤ t.runs.length := by
        rcases Nat.eq_zero_or_pos u.machine.runs.length with h0 | hpos
        · omega
        · obtain ⟨run', hrun', -⟩ := run_kept hfree
            (List.getElem?_eq_getElem (show u.machine.runs.length - 1 < _ by omega))
          have := (List.getElem?_eq_some_iff.mp hrun').1
          omega
      refine ⟨hle.trans hlength, fun run hrun => ?_⟩
      rcases run_past hfree hrun with ⟨old, hold, hsame⟩ | ⟨_, _, _, _, -, -, heq, -⟩
      · exact hsame.call ▸ hu old hold
      · omega
  exact hkept.2 run hn

/-! ### What is built is kept -/

omit [DecidableEq τ] [TypeName τ] in
theorem Kept.entryOf {scope : Option Nat} (h : Kept C call j scope) :
    (∃ f, C.entryOf (call.ref j) = some (.singleton f)) ∨
    (∃ f, C.entryOf (call.ref j) = some (.scoped f)) ∧ scope = call.scope := by
  rcases h with ⟨f, hf⟩ | ⟨⟨f, hf⟩, hscope⟩
  · exact .inl ⟨f, Container.entryOf_ref hf⟩
  · exact .inr ⟨⟨f, Container.entryOf_ref hf⟩, hscope⟩

omit [DecidableEq τ] [TypeName τ] in
theorem Kept.cached {scope : Option Nat} (h : Kept C call j scope) :
    ∃ f, C.entryOf (call.ref j) = some (.singleton f) ∨
      C.entryOf (call.ref j) = some (.scoped f) := by
  rcases h.entryOf with ⟨f, hf⟩ | ⟨⟨f, hf⟩, -⟩
  · exact ⟨f, .inl hf⟩
  · exact ⟨f, .inr hf⟩

omit [DecidableEq τ] [TypeName τ] in
/-- The member has one cell, for all calls or for those of the scope. -/
theorem Kept.cell_eq {cache : Nat → ServiceKey τ → Option Nat} {scope : Option Nat}
    {x y : CellId τ} (h : Kept C call j scope) (hx : CellFor C cache (call.ref j) call.scope x)
    (hy : CellFor C cache (call.ref j) scope y) : y = x := by
  rcases h.entryOf with ⟨f, hf⟩ | ⟨⟨f, hf⟩, rfl⟩
  · rw [hx.eq_entry hf, hy.eq_entry hf]
  · exact hy.slot_unique hx hf

/-- **What a call has built stays built**, in every later state. -/
theorem staysBuilt {inst : Inst υ} (hs : Sound C w.machine) (ht : Told C w)
    (hinst : InstFor C w.machine (call.ref j) call.scope inst)
    (hkept : Kept C call j call.scope) (h : Reach (watchedStep C resolves) w w')
    (hs' : Sound C w'.machine) (ht' : Told C w') : StaysBuilt C w w' call j inst := by
  have hlater : Later w.machine w'.machine := later_of_watched hs h
  -- the cell of the member, and the run whose value is in it
  obtain ⟨f, hf⟩ := hkept.cached
  obtain ⟨x, n, hx, hset, rfl⟩ := hinst.inCell hf
  obtain ⟨run, hn, hok, hcell⟩ := hs.kept x n hset
  have hx' := hx.mono hlater.cache
  have hn' := hlater.runs n run hn hok
  have hearly : n < w.machine.runs.length := (List.getElem?_eq_some_iff.mp hn).1
  have hruns : ∀ (m : Nat) (other : FactoryRun τ), w'.machine.runs[m]? = some other →
      other.ref = call.ref j → Kept C call j other.scope → m ≤ n := by
    intro m other hm href hkept'
    have hran := hs'.ran m other hm
    rw [href] at hran
    obtain ⟨y, hy, hfor⟩ := hran.inCell hf
    obtain rfl := hkept'.cell_eq hx' hfor
    exact hs'.not_after hn' hm hcell hy hok
  refine ⟨hinst.mono hlater, ?_, ?_, ?_⟩
  · intro m other hm href hkept'
    have := hruns m other hm href hkept'
    omega
  · intro d retry inst' hd hnode hkept' hj
    have hres := hs'.resolved d retry hd j inst' hj
    rw [Call.ref, hnode] at hres
    obtain ⟨y, m, hy, hset', rfl⟩ := hres.inCell hf
    obtain rfl := hkept'.cell_eq hx' hy
    rw [hlater.cells _ _ hset] at hset'
    rw [Cell.set.inj hset']
  · intro d retry e hd hnode hkept' hnew hfails
    cases hfails with
    | @factory m other _ hm hc href hend =>
      -- a failed run is before the one that succeeded, and so is its call
      obtain ⟨caller, -, hcaller, -, hscope, -⟩ := ht'.ran m other hm
      rw [hc] at hcaller
      obtain rfl := Option.some.inj (hd.symm.trans hcaller)
      have hle := hruns m other hm (by rw [href, Call.ref, Call.ref, hnode]) (hscope ▸ hkept')
      have hne : m ≠ n := by
        rintro rfl
        obtain ⟨failed, hfailed, houtcome⟩ := ht'.failed _ e hend
        rw [Option.some.inj (hfailed.symm.trans hn'), hok] at houtcome
        cases houtcome
      have := early_runs ht h (show m < w.machine.runs.length by omega) hm
      omega
    | @noScope g hat hscope =>
      rw [hnode] at hat
      rcases hkept' with ⟨g', hg'⟩ | ⟨-, hsame⟩
      · rw [hat] at hg'
        cases hg'
      · obtain ⟨sc, k, hsc, -⟩ := hx.eq_slot (Container.entryOf_ref hat)
        rw [hscope, hsc] at hsame
        cases hsame

/-! ### The traversal -/

omit [DecidableEq τ] [TypeName τ] in
theorem entryAt_group (C : Container τ υ φ) (key : ServiceKey τ) (j : Nat) :
    C.entryAt (.group key) j = ((C.groups key).getD [])[j]? := by
  show ((C.groups key).bind fun members => members[j]?) = _
  cases C.groups key with
  | none => rfl
  | some members => rfl

omit [DecidableEq τ] [TypeName τ] in
theorem Sound.memberOk (hs : Sound C w.machine) (hc : w.machine.calls[c]? = some call) {i : Nat}
    (hi : i < call.resolved.length) : ∃ inst, MemberOk C w call i inst := by
  have hres : call.resolved[i]? = some call.resolved[i] := List.getElem?_eq_getElem hi
  exact ⟨_, hres, hs.resolved c call hc i _ hres⟩

omit [DecidableEq τ] [TypeName τ] in
/-- A call has no more values than there are members. -/
theorem Sound.resolved_length_le (hs : Sound C w.machine) (hc : w.machine.calls[c]? = some call)
    (hnode : call.node = .group key) :
    call.resolved.length ≤ ((C.groups key).getD []).length := by
  by_contra hlt
  obtain ⟨inst, -, hinst⟩ :=
    hs.memberOk hc (show ((C.groups key).getD []).length < call.resolved.length by omega)
  have hsome := hinst.entry_isSome
  rw [Call.ref, hnode] at hsome
  have hat : (C.entryAt (.group key) ((C.groups key).getD []).length).isSome := hsome
  rw [entryAt_group, List.getElem?_eq_none le_rfl] at hat
  cases hat

/-- **A group is resolved in order, up to the first member that fails, and keeps its
progress**: for every call, in every run. -/
theorem traversed_of_reach {result : Except DiError (List (Inst υ))}
    (h : Reach (watchedStep C resolves) (Watched.start τ υ) w)
    (hc : w.machine.calls[c]? = some call) (hnode : call.node = .group key)
    (hkey : key ∉ call.keys) (hphase : call.phase = .done result) :
    Traversed C resolves w c call ((C.groups key).getD []) result := by
  obtain ⟨hs, ht⟩ := told_of_reach h
  have hle := hs.resolved_length_le hc hnode
  have hvalues : ∀ values, result = .ok values →
      values = call.resolved ∧ values.length = ((C.groups key).getD []).length := by
    rintro values rfl
    have hdone := hs.phase c call hc
    unfold PhaseOk at hdone
    rw [hphase] at hdone
    obtain rfl := hdone values rfl
    have hnone := ht.complete c call _ hc hphase
    rw [hnode, entryAt_group, List.getElem?_eq_none_iff] at hnone
    exact ⟨rfl, by omega⟩
  have herror : ∀ e, result = .error e →
      call.resolved.length < ((C.groups key).getD []).length ∧
        MemberFails C w c call call.resolved.length e := by
    rintro e rfl
    obtain ⟨hsome, hfails⟩ := ht.error c call e key hc hphase hnode hkey
    obtain ⟨entry, hentry⟩ := Option.isSome_iff_exists.mp hsome
    rw [hnode, entryAt_group] at hentry
    exact ⟨(List.getElem?_eq_some_iff.mp hentry).1, hfails⟩
  refine ⟨⟨?_, ?_⟩, ?_, ?_, ?_⟩
  · rintro ⟨values, hok⟩ j hj
    obtain ⟨rfl, hlength⟩ := hvalues values hok
    exact hs.memberOk hc (show j < call.resolved.length by omega)
  · intro hall
    cases result with
    | ok values => exact ⟨values, rfl⟩
    | error e =>
      obtain ⟨hlt, -⟩ := herror e rfl
      obtain ⟨inst, hinst, -⟩ := hall _ hlt
      rw [List.getElem?_eq_none le_rfl] at hinst
      cases hinst
  · intro values hok
    obtain ⟨rfl, hlength⟩ := hvalues values hok
    exact ⟨hlength, fun j inst hj => ⟨hj, hs.resolved c call hc j inst hj⟩⟩
  · intro e he
    obtain ⟨hlt, hfails⟩ := herror e he
    refine ⟨call.resolved.length, hlt, hfails, fun i hi => hs.memberOk hc hi, ?_⟩
    intro n run hn hrun
    obtain ⟨caller, i, hcaller, href, -, hi⟩ := ht.ran n run hn
    rw [hrun] at hcaller
    obtain rfl := Option.some.inj (hc.symm.trans hcaller)
    exact ⟨i, hi, href⟩
  · intro j inst hok hkept w' hreach
    obtain ⟨hs', ht'⟩ := told_of_reach (h.trans hreach)
    exact staysBuilt hs ht hok.2 hkept hreach hs' ht'

/-- Three stages of a pipeline: one for all requests, one for each request, one for
each use. -/
def stageCalls : List (BuilderCall String Unit Nat) :=
  [.multibindFactory "Stage" 0, .multibindScoped "Stage" 1, .multibindTransient "Stage" 2]

/-- The third stage cannot be built. -/
def stageRun : List (Action String) :=
  [.call (.group ⟨"Stage", none⟩) (some 0), .poll 0, .poll 0, .poll 0, .finish 0 (.ok ()),
    .poll 0, .poll 0, .poll 0, .finish 0 (.ok ()), .poll 0,
    .finish 0 (.error (.factoryFailed "Stage" "no route"))]

/-- What the call for the stages comes to: two stages built, and the error of the third. -/
def stageCall : Call String Unit :=
  ⟨.group ⟨"Stage", none⟩, none, some 0, [], [.built 0, .built 1],
    .done (.error (.factoryFailed "Stage" "no route"))⟩

theorem traversed_stages :
    ∃ w, run (watchedStep (containerOf stageCalls) fun _ _ => false) (Watched.start String Unit)
        stageRun = some w ∧
      Traversed (containerOf stageCalls) (fun _ _ => false) w 0 stageCall
        [.singleton 0, .scoped 1, .transient 2] (.error (.factoryFailed "Stage" "no route")) := by
  have hrun : (run (watchedStep (containerOf stageCalls) fun _ _ => false)
      (Watched.start String Unit) stageRun).map (fun w => w.machine.calls[0]?) =
      some (some stageCall) := rfl
  obtain ⟨w, hw, hcall⟩ := Option.map_eq_some_iff.mp hrun
  have hkey : (⟨"Stage", none⟩ : ServiceKey String) ∉ stageCall.keys := List.not_mem_nil
  exact ⟨w, hw, traversed_of_reach (reach_of_run hw) hcall rfl hkey rfl⟩

end

end Kolas.Di

import Kolas.Di.Cells

/-!
# One instance for each unit of a lifecycle

A scope is a number: `ScopeMiddleware::handle` runs each request in a new one, and
the calls of the request, and the calls their factories make, are in it.

* `published_of_reach`: in every reachable state, whatever calls were made, in
  whatever order they went on, and whichever runs failed or were dropped, a
  singleton is one instance for all calls and its factory runs no more once it
  succeeded; a scoped registration is one instance for all calls of a scope; what
  is built for a scope stays in it; and a build that fails or is dropped leaves
  its cell empty, for the next call to build again (`Published`).
-/

namespace Kolas.Di

open Kolas.Lib

variable {τ υ φ : Type}

/-- The call has returned `inst` for the registration `r`. -/
def Returned (s : State τ υ) (call : Call τ υ) (r : EntryRef τ) (inst : Inst υ) : Prop :=
  call ∈ s.calls ∧ ∃ (j : Nat) (l : List (Inst υ)),
    call.phase = .done (.ok l) ∧ l[j]? = some inst ∧ call.ref j = r

section

variable [DecidableEq τ] [TypeName τ]

/-- A call that gets to the cell `x`, or to the registration `r` whose cell it is
in `scope`, starts the factory. -/
def RunsAgain (C : Container τ υ φ) (resolves : φ → Node τ → Bool) (s : State τ υ)
    (r : EntryRef τ) (scope : Option Nat) (x : CellId τ) : Prop :=
  ∀ (d k : Nat) (call : Call τ υ), s.calls[d]? = some call → call.ref k = r →
    ((∃ f, C.entryOf r = some (.scoped f)) → call.scope = scope) →
    (call.phase = .cell k x → ∃ t, run (step C resolves) s [.poll d] = some t ∧
      t.runs = s.runs ++ [⟨d, r, call.scope, some x, .running⟩]) ∧
    (call.phase = .entry k → ∃ t, run (step C resolves) s [.poll d, .poll d] = some t ∧
      t.runs = s.runs ++ [⟨d, r, call.scope, some x, .running⟩])

/-- One published instance for each unit of a lifecycle. -/
structure Published (C : Container τ υ φ) (resolves : φ → Node τ → Bool) (s : State τ υ) :
    Prop where
  /-- All calls return the same instance of a singleton. -/
  singleton : ∀ (r : EntryRef τ) (f : φ), C.entryOf r = some (.singleton f) →
    ∀ (call call' : Call τ υ) (i i' : Inst υ),
      Returned s call r i → Returned s call' r i' → i = i'
  /-- No run of a singleton's factory starts after one that succeeded. -/
  once : ∀ (r : EntryRef τ) (f : φ), C.entryOf r = some (.singleton f) →
    ∀ (m n : Nat) (run run' : FactoryRun τ), s.runs[m]? = some run → s.runs[n]? = some run' →
      run.ref = r → run'.ref = r → run.outcome = .ok → n ≤ m
  /-- All calls in a scope return the same instance of a scoped registration, ... -/
  inScope : ∀ (r : EntryRef τ) (f : φ), C.entryOf r = some (.scoped f) →
    ∀ (call call' : Call τ υ) (i i' : Inst υ), Returned s call r i → Returned s call' r i' →
      call.scope = call'.scope → i = i'
  /-- ... and at most one run of its factory in the scope succeeds. -/
  onceInScope : ∀ (r : EntryRef τ) (f : φ), C.entryOf r = some (.scoped f) →
    ∀ (m n : Nat) (run run' : FactoryRun τ), s.runs[m]? = some run → s.runs[n]? = some run' →
      run.ref = r → run'.ref = r → run.scope = run'.scope → run.outcome = .ok →
      run'.outcome = .ok → m = n
  /-- What is returned for a scoped registration was built in the scope of the call, ... -/
  builtInScope : ∀ (r : EntryRef τ) (f : φ), C.entryOf r = some (.scoped f) →
    ∀ (call : Call τ υ) (i : Inst υ), Returned s call r i →
      ∃ (n : Nat) (run : FactoryRun τ), i = .built n ∧ s.runs[n]? = some run ∧
        run.outcome = .ok ∧ run.scope = call.scope
  /-- ... and what is built in a scope, unless for a singleton, is returned in that scope only. -/
  stays : ∀ (call : Call τ υ) (r : EntryRef τ) (n : Nat) (run : FactoryRun τ),
    Returned s call r (.built n) → s.runs[n]? = some run →
      (∀ f, C.entryOf run.ref ≠ some (.singleton f)) → call.scope = run.scope
  /-- A build that fails or is dropped leaves its cell empty, ... -/
  emptied : ∀ (c j n : Nat) (call : Call τ υ) (x : CellId τ) (a : Action τ) (t : State τ υ),
    s.calls[c]? = some call → call.phase = .building j (some x) n →
      (a = .cancel c ∨ ∃ e, a = .finish c (.error e)) → step C resolves s a = some t →
      t.cells x = .empty
  /-- ... the next call that gets to an empty cell builds again, ... -/
  again : ∀ (n : Nat) (run : FactoryRun τ) (x : CellId τ), s.runs[n]? = some run →
    run.cell = some x → s.cells x = .empty → RunsAgain C resolves s run.ref run.scope x
  /-- ... and so does a new call for a singular registration. -/
  afresh : ∀ (n : Nat) (run : FactoryRun τ) (x : CellId τ) (key : ServiceKey τ),
    s.runs[n]? = some run → run.cell = some x → s.cells x = .empty → run.ref = .single key →
      ∃ t, Lib.run (step C resolves) s [.call (.single key) run.scope, .poll s.calls.length,
          .poll s.calls.length, .poll s.calls.length] = some t ∧
        t.runs = s.runs ++ [⟨s.calls.length, .single key, run.scope, some x, .running⟩]

end

variable {C : Container τ υ φ} {s t : State τ υ} {r : EntryRef τ} {f : φ}

/-! ### What was returned -/

theorem Sound.returned (hs : Sound C s) {call : Call τ υ} {i : Inst υ} (h : Returned s call r i) :
    InstFor C s r call.scope i := by
  obtain ⟨hmem, j, l, hphase, hj, rfl⟩ := h
  obtain ⟨c, hc⟩ := List.getElem?_of_mem hmem
  have hdone := hs.phase c call hc
  unfold PhaseOk at hdone
  rw [hphase] at hdone
  obtain rfl := hdone l rfl
  exact hs.resolved c call hc j i hj

theorem CellFor.eq_entry {cache : Nat → ServiceKey τ → Option Nat} {scope : Option Nat}
    {x : CellId τ} (hx : CellFor C cache r scope x) (hr : C.entryOf r = some (.singleton f)) :
    x = .entry r := by
  cases hx with
  | entry he => rfl
  | slot he hs hn =>
    rw [hr] at he
    cases he

theorem CellFor.eq_slot {cache : Nat → ServiceKey τ → Option Nat} {scope : Option Nat}
    {x : CellId τ} (hx : CellFor C cache r scope x) (hr : C.entryOf r = some (.scoped f)) :
    ∃ sc n, scope = some sc ∧ cache sc r.slotKey = some n ∧ x = .slot n := by
  cases hx with
  | entry he =>
    rw [hr] at he
    cases he
  | slot he hs hn => exact ⟨_, _, hs, hn, rfl⟩

/-- Two cells of a scoped registration in one scope are one slot. -/
theorem CellFor.slot_unique {cache : Nat → ServiceKey τ → Option Nat} {scope : Option Nat}
    {x y : CellId τ} (hx : CellFor C cache r scope x) (hy : CellFor C cache r scope y)
    (hr : C.entryOf r = some (.scoped f)) : x = y := by
  obtain ⟨sc, n, hsc, hn, rfl⟩ := hx.eq_slot hr
  obtain ⟨sc', n', hsc', hn', rfl⟩ := hy.eq_slot hr
  obtain rfl := Option.some.inj (hsc.symm.trans hsc')
  rw [Option.some.inj (hn.symm.trans hn')]

/-- An instance of a registration with a cell is in the cell. -/
theorem InstFor.inCell {scope : Option Nat} {i : Inst υ} (hi : InstFor C s r scope i)
    (hr : C.entryOf r = some (.singleton f) ∨ C.entryOf r = some (.scoped f)) :
    ∃ x n, CellFor C s.cache r scope x ∧ s.cells x = .set n ∧ i = .built n := by
  cases hi with
  | given he =>
    rw [he] at hr
    rcases hr with hr | hr <;> cases hr
  | cell hx hset => exact ⟨_, _, hx, hset, rfl⟩
  | transient he hrun =>
    rw [he] at hr
    rcases hr with hr | hr <;> cases hr

theorem RunFor.inCell {cache : Nat → ServiceKey τ → Option Nat} {scope : Option Nat}
    {x : Option (CellId τ)} (hx : RunFor C cache r scope x)
    (hr : C.entryOf r = some (.singleton f) ∨ C.entryOf r = some (.scoped f)) :
    ∃ y, x = some y ∧ CellFor C cache r scope y := by
  cases hx with
  | transient he =>
    rw [he] at hr
    rcases hr with hr | hr <;> cases hr
  | cell hx => exact ⟨_, rfl, hx⟩

/-- No run for a cell starts after one that ended well. -/
theorem Sound.not_after (hs : Sound C s) {m n : Nat} {run run' : FactoryRun τ} {x : CellId τ}
    (hm : s.runs[m]? = some run) (hn : s.runs[n]? = some run') (hx : run.cell = some x)
    (hx' : run'.cell = some x) (hok : run.outcome = .ok) : n ≤ m := by
  by_contra hlt
  rcases hs.order m n run run' x (show m < n by omega) hm hn hx hx' with h | h
  · rw [hok] at h
    cases h
  · rw [hok] at h
    cases h

/-! ### Singletons and scoped registrations -/

theorem Sound.singleton_eq (hs : Sound C s) (hr : C.entryOf r = some (.singleton f))
    {call call' : Call τ υ} {i i' : Inst υ} (hi : Returned s call r i)
    (hi' : Returned s call' r i') : i = i' := by
  obtain ⟨x, n, hx, hset, rfl⟩ := (hs.returned hi).inCell (.inl hr)
  obtain ⟨y, m, hy, hset', rfl⟩ := (hs.returned hi').inCell (.inl hr)
  rw [hx.eq_entry hr] at hset
  rw [hy.eq_entry hr, hset] at hset'
  rw [Cell.set.inj hset']

/-- The cell of a run for a singleton. -/
theorem Sound.singleton_cell (hs : Sound C s) (hr : C.entryOf r = some (.singleton f)) {n : Nat}
    {run : FactoryRun τ} (hn : s.runs[n]? = some run) (href : run.ref = r) :
    run.cell = some (.entry r) := by
  have hran := hs.ran n run hn
  rw [href] at hran
  obtain ⟨x, hx, hfor⟩ := hran.inCell (.inl hr)
  rw [hx, hfor.eq_entry hr]

theorem Sound.scoped_eq (hs : Sound C s) (hr : C.entryOf r = some (.scoped f))
    {call call' : Call τ υ} {i i' : Inst υ} (hi : Returned s call r i)
    (hi' : Returned s call' r i') (hscope : call.scope = call'.scope) : i = i' := by
  obtain ⟨x, n, hx, hset, rfl⟩ := (hs.returned hi).inCell (.inr hr)
  obtain ⟨y, m, hy, hset', rfl⟩ := (hs.returned hi').inCell (.inr hr)
  rw [← hscope] at hy
  rw [← hx.slot_unique hy hr, hset] at hset'
  rw [Cell.set.inj hset']

/-- The runs for a scoped registration in one scope are for one cell. -/
theorem Sound.scoped_cell (hs : Sound C s) (hr : C.entryOf r = some (.scoped f)) {m n : Nat}
    {run run' : FactoryRun τ} (hm : s.runs[m]? = some run) (hn : s.runs[n]? = some run')
    (href : run.ref = r) (href' : run'.ref = r) (hscope : run.scope = run'.scope) :
    ∃ x, run.cell = some x ∧ run'.cell = some x := by
  have hran := hs.ran m run hm
  have hran' := hs.ran n run' hn
  rw [href] at hran
  rw [href', ← hscope] at hran'
  obtain ⟨x, hx, hfor⟩ := hran.inCell (.inr hr)
  obtain ⟨y, hy, hfor'⟩ := hran'.inCell (.inr hr)
  exact ⟨x, hx, by rw [hy, hfor.slot_unique hfor' hr]⟩

theorem Sound.scoped_once (hs : Sound C s) (hr : C.entryOf r = some (.scoped f)) {m n : Nat}
    {run run' : FactoryRun τ} (hm : s.runs[m]? = some run) (hn : s.runs[n]? = some run')
    (href : run.ref = r) (href' : run'.ref = r) (hscope : run.scope = run'.scope)
    (hok : run.outcome = .ok) (hok' : run'.outcome = .ok) : m = n := by
  obtain ⟨x, hx, hx'⟩ := hs.scoped_cell hr hm hn href href' hscope
  have hle : n ≤ m := hs.not_after hm hn hx hx' hok
  have hge : m ≤ n := hs.not_after hn hm hx' hx hok'
  omega

/-- The run whose value is in a cell, and the registration and the scope it was
made for. -/
theorem Sound.kept_run (hs : Sound C s) {x : CellId τ} {n : Nat} (hset : s.cells x = .set n) :
    ∃ run, s.runs[n]? = some run ∧ run.outcome = .ok ∧
      CellFor C s.cache run.ref run.scope x := by
  obtain ⟨run, hn, hok, hcell⟩ := hs.kept x n hset
  have hran := hs.ran n run hn
  rw [hcell] at hran
  cases hran with
  | cell hfor => exact ⟨run, hn, hok, hfor⟩

/-- A slot is of one scope. -/
theorem Sound.slot_scope (hs : Sound C s) {r' : EntryRef τ} {scope scope' : Option Nat} {n : Nat}
    (hx : CellFor C s.cache r scope (.slot n)) (hx' : CellFor C s.cache r' scope' (.slot n)) :
    scope = scope' := by
  cases hx with
  | slot _ hsc hn =>
    cases hx' with
    | slot _ hsc' hn' => rw [hsc, hsc', (hs.owned _ _ _ _ _ hn hn').1]

theorem Sound.scoped_built (hs : Sound C s) (hr : C.entryOf r = some (.scoped f))
    {call : Call τ υ} {i : Inst υ} (hi : Returned s call r i) :
    ∃ (n : Nat) (run : FactoryRun τ), i = .built n ∧ s.runs[n]? = some run ∧
      run.outcome = .ok ∧ run.scope = call.scope := by
  obtain ⟨x, n, hx, hset, rfl⟩ := (hs.returned hi).inCell (.inr hr)
  obtain ⟨run, hn, hok, hfor⟩ := hs.kept_run hset
  obtain ⟨sc, k, -, -, rfl⟩ := hx.eq_slot hr
  exact ⟨n, run, rfl, hn, hok, hs.slot_scope hfor hx⟩

theorem Sound.stays (hs : Sound C s) {call : Call τ υ} {n : Nat} {run : FactoryRun τ}
    (hi : Returned s call r (.built n)) (hn : s.runs[n]? = some run)
    (hrun : ∀ f, C.entryOf run.ref ≠ some (.singleton f)) : call.scope = run.scope := by
  cases hs.returned hi with
  | @cell x _ hx hset =>
    obtain ⟨run', hn', -, hfor⟩ := hs.kept_run hset
    obtain rfl := Option.some.inj (hn.symm.trans hn')
    cases x with
    | entry r' =>
      cases hfor with
      | entry he => exact absurd he (hrun _)
    | slot k => exact hs.slot_scope hx hfor
  | transient he hn' =>
    obtain rfl := Option.some.inj (hn.symm.trans hn')
    rfl

/-! ### Building again -/

section

variable [DecidableEq τ] [TypeName τ] {resolves : φ → Node τ → Bool} {c d j k n : Nat}
  {call : Call τ υ} {x : CellId τ}

theorem step_cancel_building (hc : s.calls[c]? = some call)
    (hphase : call.phase = .building j (some x) n) (h : step C resolves s (.cancel c) = some t) :
    t = s.endRun C c call j (some x) n .dropped := by
  simp only [step, hc, hphase] at h
  split at h
  · exact (Option.some.inj h).symm
  · cases h

theorem step_finish_error {e : DiError} (hc : s.calls[c]? = some call)
    (hphase : call.phase = .building j (some x) n)
    (h : step C resolves s (.finish c (.error e)) = some t) :
    t = s.endRun C c call j (some x) n (.error e) := by
  simp only [step, hc, hphase] at h
  split at h
  · cases e with
    | circularDependency typeName cycle =>
      dsimp only at h
      split at h
      · exact (Option.some.inj h).symm
      · cases h
    | _ => exact (Option.some.inj h).symm
  · cases h

theorem poll_cell_empty (hd : s.calls[d]? = some call) (hphase : call.phase = .cell k x)
    (hx : s.cells x = .empty) :
    step C resolves s (.poll d) = some (s.startRun d call k (some x)) := by
  simp only [step, hd, pollCall, hphase, hx]

/-- A call at a registration goes to the cell of the registration. -/
theorem poll_entry_cell {cache : Nat → ServiceKey τ → Option Nat} (hcache : s.cache = cache)
    (hd : s.calls[d]? = some call) (hphase : call.phase = .entry k)
    (hat : (C.entryAt call.node k).isSome) (hx : CellFor C cache (call.ref k) call.scope x) :
    step C resolves s (.poll d) = some (s.setCall d { call with phase := .cell k x }) := by
  obtain ⟨e, he⟩ := Option.isSome_iff_exists.mp hat
  have hentry : C.entryOf (call.ref k) = some e := Container.entryOf_ref he
  simp only [step, hd, pollCall, hphase, pollEntry, he]
  cases hx with
  | entry hf =>
    obtain rfl := Option.some.inj (hentry.symm.trans hf)
    rfl
  | slot hf hs hn =>
    obtain rfl := Option.some.inj (hentry.symm.trans hf)
    rw [← hcache] at hn
    simp only [hs, hn]

theorem runsAgain_cell (C : Container τ υ φ) (resolves : φ → Node τ → Bool)
    (hd : s.calls[d]? = some call) (hphase : call.phase = .cell k x)
    (hx : s.cells x = .empty) : ∃ t, run (step C resolves) s [.poll d] = some t ∧
      t.runs = s.runs ++ [⟨d, call.ref k, call.scope, some x, .running⟩] := by
  refine ⟨s.startRun d call k (some x), ?_, rfl⟩
  rw [run, poll_cell_empty hd hphase hx]
  rfl

/-- **The next call builds again.** -/
theorem Sound.runsAgain (hs : Sound C s) {run : FactoryRun τ} (hn : s.runs[n]? = some run)
    (hcell : run.cell = some x) (hx : s.cells x = .empty) :
    RunsAgain C resolves s run.ref run.scope x := by
  intro d k call hd href hscope
  rw [← href] at hscope ⊢
  refine ⟨fun hphase => runsAgain_cell C resolves hd hphase hx, fun hphase => ?_⟩
  have hran := hs.ran n run hn
  rw [hcell, ← href] at hran
  cases hran with
  | cell hfor =>
    have hcall : CellFor C s.cache (call.ref k) call.scope x := by
      cases hfor with
      | entry he => exact .entry he
      | slot he hsc hslot => exact .slot he ((hscope ⟨_, he⟩).trans hsc) hslot
    have hat := hs.phase d call hd
    unfold PhaseOk at hat
    rw [hphase] at hat
    have hpoll : step C resolves s (.poll d) =
        some (s.setCall d { call with phase := .cell k x }) :=
      poll_entry_cell rfl hd hphase hat.2 hcall
    have hthere : (s.setCall d { call with phase := .cell k x }).calls[d]? =
        some { call with phase := .cell k x } := getElem?_set_of_some hd
    obtain ⟨t, ht, hruns⟩ := runsAgain_cell C resolves hthere rfl hx
    refine ⟨t, ?_, hruns⟩
    rw [Lib.run, hpoll]
    exact ht

/-- There is something to resolve; a group may be empty. -/
def Container.Registered (C : Container τ υ φ) : Node τ → Prop
  | .single key => (C.entries key).isSome
  | .group _ => True

/-- A call made outside of any factory passes the cycle check. -/
theorem enter_top {node : Node τ} (hnode : C.Registered node) (scope : Option Nat) :
    C.enter (.top node scope : Call τ υ) = C.next node 0 [] := by
  have hnone (key : ServiceKey τ) (typeName : String) : cycleThrough [] key typeName = none := rfl
  cases node with
  | single key =>
    obtain ⟨e, he⟩ := Option.isSome_iff_exists.mp hnode
    simp only [Container.enter, Call.top, hnone, he]
  | group key =>
    cases hgroup : C.groups key with
    | none => simp [Container.enter, Call.top, Container.next, Container.entryAt, hgroup]
    | some members => simp only [Container.enter, Call.top, hnone, hgroup]

theorem poll_entered (hd : s.calls[d]? = some call) (hphase : call.phase = .entered) :
    step C resolves s (.poll d) = some (s.setCall d { call with phase := C.enter call }) := by
  simp only [step, hd, pollCall, hphase]

/-- **A new call builds again.**  It passes the cycle check, gets to the empty
cell and starts the factory. -/
theorem Sound.runsAfresh (hs : Sound C s) {run : FactoryRun τ} {key : ServiceKey τ}
    (hn : s.runs[n]? = some run) (hcell : run.cell = some x) (hx : s.cells x = .empty)
    (href : run.ref = .single key) :
    ∃ t, Lib.run (step C resolves) s [.call (.single key) run.scope, .poll s.calls.length,
        .poll s.calls.length, .poll s.calls.length] = some t ∧
      t.runs = s.runs ++ [⟨s.calls.length, .single key, run.scope, some x, .running⟩] := by
  have hentry : C.Registered (.single key) := by
    have hran := hs.ran n run hn
    rw [hcell, href] at hran
    cases hran with
    | cell hfor =>
      cases hfor with
      | entry he => exact Option.isSome_of_eq_some he
      | slot he hsc hslot => exact Option.isSome_of_eq_some he
  -- the call is made
  have hcall : step C resolves s (.call (.single key) run.scope) =
      some (s.addCall (.top (.single key) run.scope)) := rfl
  have hs₁ := hs.move (step_move hcall)
  have hd₁ : (s.addCall (.top (.single key) run.scope)).calls[s.calls.length]? =
      some (.top (.single key) run.scope) := List.getElem?_concat_length
  -- it passes the cycle check
  have hpoll : step C resolves (s.addCall (.top (.single key) run.scope)) (.poll s.calls.length) =
      some ((s.addCall (.top (.single key) run.scope)).setCall s.calls.length
        { Call.top (.single key) run.scope with phase := .entry 0 }) := by
    have hnext : C.next (.single key) 0 ([] : List (Inst υ)) = .entry 0 := if_pos hentry
    rw [poll_entered hd₁ rfl, enter_top hentry, hnext]
  have hs₂ := hs₁.move (step_move hpoll)
  -- and is at its registration, whose cell is empty
  obtain ⟨t, ht, hruns⟩ := (hs₂.runsAgain hn hcell hx s.calls.length 0 _
    (getElem?_set_of_some hd₁) href.symm fun _ => rfl).2 rfl
  refine ⟨t, ?_, ?_⟩
  · rw [Lib.run, hcall, Option.bind_some, Lib.run, hpoll]
    exact ht
  · rw [hruns, href]
    rfl

/-- **A build that fails or is dropped leaves its cell empty.** -/
theorem emptied_of_step {a : Action τ} (hc : s.calls[c]? = some call)
    (hphase : call.phase = .building j (some x) n)
    (ha : a = .cancel c ∨ ∃ e, a = .finish c (.error e)) (h : step C resolves s a = some t) :
    t.cells x = .empty := by
  rcases ha with rfl | ⟨e, rfl⟩
  · rw [step_cancel_building hc hphase h, endRun_cells, if_pos rfl]
    rfl
  · rw [step_finish_error hc hphase h, endRun_cells, if_pos rfl]
    rfl

/-! ### All of it -/

/-- **One published instance for each unit of a lifecycle**: in every state of
every run of the machine. -/
theorem published_of_reach (h : Reach (step C resolves) (State.start τ υ) s) :
    Published C resolves s := by
  have hs : Sound C s := sound_of_reach h
  refine ⟨?_, ?_, ?_, ?_, ?_, ?_, ?_, ?_, ?_⟩
  · intro r f hr call call' i i' hi hi'
    exact hs.singleton_eq hr hi hi'
  · intro r f hr m n run run' hm hn href href' hok
    exact hs.not_after hm hn (hs.singleton_cell hr hm href) (hs.singleton_cell hr hn href') hok
  · intro r f hr call call' i i' hi hi' hscope
    exact hs.scoped_eq hr hi hi' hscope
  · intro r f hr m n run run' hm hn href href' hscope hok hok'
    exact hs.scoped_once hr hm hn href href' hscope hok hok'
  · intro r f hr call i hi
    exact hs.scoped_built hr hi
  · intro call r n run hi hn hrun
    exact hs.stays hi hn hrun
  · intro c j n call x a t hc hphase ha hstep
    exact emptied_of_step hc hphase ha hstep
  · intro n run x hn hcell hx
    exact hs.runsAgain hn hcell hx
  · intro n run x key hn hcell hx href
    exact hs.runsAfresh hn hcell hx href

/-- A database for all requests and a session for each, which uses the database. -/
def sessionCalls : List (BuilderCall String Unit Bool) :=
  [.singletonFactory "Database" false, .scoped "Session" true]

def sessionUses (f : Bool) (node : Node String) : Bool := f && node = .single ⟨"Database", none⟩

/-- A first build of the database is dropped; a second call builds it, and the
session of a request is built with it. -/
def sessionRun : List (Action String) :=
  [.call (.single ⟨"Database", none⟩) none, .poll 0, .poll 0, .poll 0, .cancel 0,
    .call (.single ⟨"Database", none⟩) (some 0), .poll 1, .poll 1, .poll 1, .finish 1 (.ok ()),
    .call (.single ⟨"Session", none⟩) (some 0), .poll 2, .poll 2, .poll 2, .poll 2,
    .nested 2 (.single ⟨"Database", none⟩), .poll 3, .poll 3, .poll 3, .finish 2 (.ok ())]

theorem published_session :
    ∃ s, run (step (containerOf sessionCalls) sessionUses) (State.start String Unit) sessionRun =
        some s ∧ s.runs.map FactoryRun.outcome = [.dropped, .ok, .ok] ∧
      Published (containerOf sessionCalls) sessionUses s := by
  have hrun : (run (step (containerOf sessionCalls) sessionUses) (State.start String Unit)
      sessionRun).map (fun s => s.runs.map FactoryRun.outcome) = some [.dropped, .ok, .ok] := rfl
  obtain ⟨s, hs, houtcome⟩ := Option.map_eq_some_iff.mp hrun
  exact ⟨s, hs, houtcome, published_of_reach (reach_of_run hs)⟩

end

end Kolas.Di

import Kolas.Di.Ends
import Kolas.Di.Sequential

/-!
# Resolving in one task is a run of the machine

Whatever `resolve` returns, the machine of many calls returns in one of its runs
(`resolve_reach`): a call that is polled until it is done, and between its polls the
calls of its factories, one after another.

`Sim` relates the cells and runs of the two.  `Ready` says besides that the machine
is at a call and that all later calls are over; `Leads` is a run in which the earlier
calls stay as they are.
-/

namespace Kolas.Di

open Kolas.Lib

variable {τ υ φ : Type}

/-! ### The two states -/

inductive SameCell : Once → Cell → Prop
  | empty : SameCell .empty .empty
  | init (c : Nat) : SameCell .initialising (.init c)
  | set (run : Nat) : SameCell (.set run) (.set run)

/-- The cell of a place. -/
inductive PlaceAt (m : State τ υ) : Place τ → CellId τ → Prop
  | entry (r : EntryRef τ) : PlaceAt m (.cell r) (.entry r)
  | slot {scope n : Nat} {key : ServiceKey τ} (h : m.cache scope key = some n) :
      PlaceAt m (.slot scope key) (.slot n)

structure Sim (C : Container τ υ φ) (s : Store τ) (m : State τ υ) : Prop where
  sound : Sound C m
  ordered : ∀ (d p : Nat) (called : Call τ υ), m.calls[d]? = some called →
    called.parent = some p → p < d
  /-- The same factories have run. -/
  runs : m.runs.map FactoryRun.ref = s.visits.map Visit.ref
  cells : ∀ x y, PlaceAt m x y → SameCell (s.cells x) (m.cells y)
  noSlot : ∀ scope key, m.cache scope key = none → s.cells (.slot scope key) = .empty

/-- The machine is at the call `c`. -/
structure Ready (C : Container τ υ φ) (s : Store τ) (m : State τ υ) (c : Nat)
    (call : Call τ υ) : Prop where
  sim : Sim C s m
  here : m.calls[c]? = some call
  above : ∀ (d : Nat) (called : Call τ υ), c < d → m.calls[d]? = some called →
    called.phase.finished = true

theorem sim_start (C : Container τ υ φ) : Sim C (Store.empty τ) (State.start τ υ) where
  sound := sound_start C
  ordered := by simp [State.start]
  runs := rfl
  cells _ _ _ := .empty
  noSlot _ _ _ := rfl

section

variable {C : Container τ υ φ} {s t : Store τ} {m m' m'' : State τ υ} {c d j : Nat}
  {call call' : Call τ υ} {x x' : Place τ} {y y' : CellId τ}

theorem Sim.runs_length (h : Sim C s m) : m.runs.length = s.visits.length := by
  rw [← List.length_map FactoryRun.ref, h.runs, List.length_map]

/-- Which cell a place has is up to the caches of the scopes. -/
theorem PlaceAt.of_cache (h : PlaceAt m' x y) (hcache : m'.cache = m.cache) : PlaceAt m x y := by
  cases h with
  | entry r => exact .entry r
  | slot hn => exact .slot (hcache ▸ hn)

theorem PlaceAt.unique (h : PlaceAt m x y) (h' : PlaceAt m x y') : y = y' := by
  cases h with
  | entry r =>
    cases h' with
    | entry r => rfl
  | slot hn =>
    cases h' with
    | slot hn' => rw [Option.some.inj (hn.symm.trans hn')]

theorem PlaceAt.inj (hs : Sound C m) (h : PlaceAt m x y) (h' : PlaceAt m x' y) : x = x' := by
  cases h with
  | entry r =>
    cases h' with
    | entry r => rfl
  | slot hn =>
    cases h' with
    | slot hn' =>
      obtain ⟨rfl, rfl⟩ := hs.owned _ _ _ _ _ hn hn'
      rfl

/-- A cell of the machine that no slot is for is empty. -/
theorem Sound.empty_of_unused (hs : Sound C m) {n : Nat} (hn : m.slots ≤ n) :
    m.cells (.slot n) = .empty := by
  have hunused {r : EntryRef τ} {scope : Option Nat} (hx : CellFor C m.cache r scope (.slot n)) :
      False := by
    cases hx with
    | slot he hsc hcache =>
      have := hs.slot _ _ _ hcache
      omega
  cases hcell : m.cells (.slot n) with
  | empty => rfl
  | init c =>
    obtain ⟨call, k, run, hc, hbuild⟩ := hs.held _ c hcell
    obtain ⟨-, hrun, -⟩ := hs.building hc hbuild
    cases hrun with
    | cell hx => exact (hunused hx).elim
  | set run =>
    obtain ⟨r, hr, hok, hcell'⟩ := hs.kept _ run hcell
    have hran := hs.ran run r hr
    rw [hcell'] at hran
    cases hran with
    | cell hx => exact (hunused hx).elim

variable [DecidableEq τ]

/-- The cell of a place changes as the place does. -/
theorem Sim.cells_update (h : Sim C s m) (hx : PlaceAt m x y) {o : Once} {v : Cell}
    (hsame : SameCell o v) (x' : Place τ) (y' : CellId τ) (hx' : PlaceAt m x' y') :
    SameCell ((s.setCell x o).cells x') (Function.update m.cells y v y') := by
  by_cases hxx : x' = x
  · subst hxx
    obtain rfl := hx'.unique hx
    rw [Store.setCell_cells, Function.update_self, Function.update_self]
    exact hsame
  · have hyy : y' ≠ y := by
      rintro rfl
      exact hxx (hx'.inj h.sound hx)
    rw [Store.setCell_cells, Function.update_of_ne hxx, Function.update_of_ne hyy]
    exact h.cells x' y' hx'

/-! ### Steps at a call -/

variable [TypeName τ]

/-- The machine whose factories may resolve anything. -/
abbrev anyStep (C : Container τ υ φ) : State τ υ → Action τ → Option (State τ υ) :=
  freeStep C fun _ _ => true

/-- A run in which the calls before `c` stay as they are. -/
structure Leads (C : Container τ υ φ) (m : State τ υ) (c : Nat) (m' : State τ υ) : Prop where
  reach : Reach (anyStep C) m m'
  below : ∀ d < c, m'.calls[d]? = m.calls[d]?

theorem Leads.refl (C : Container τ υ φ) (m : State τ υ) (c : Nat) : Leads C m c m :=
  ⟨Reaches.refl m, fun _ _ => rfl⟩

theorem Leads.trans (h : Leads C m c m') (g : Leads C m' c m'') : Leads C m c m'' where
  reach := h.reach.trans g.reach
  below d hd := (g.below d hd).trans (h.below d hd)

theorem Leads.mono (h : Leads C m d m') (hle : c ≤ d) : Leads C m c m' :=
  ⟨h.reach, fun e he => h.below e (by omega)⟩

/-- The call changes, and with it what `t` says. -/
theorem Ready.set {a : Action τ} (h : Ready C s m c call) (hstep : anyStep C m a = some m')
    (hcalls : m'.calls = m.calls.set c call') (hsame : SameCall call call')
    (hruns : m'.runs.map FactoryRun.ref = t.visits.map Visit.ref)
    (hcells : ∀ x y, PlaceAt m' x y → SameCell (t.cells x) (m'.cells y))
    (hnoSlot : ∀ scope key, m'.cache scope key = none → t.cells (.slot scope key) = .empty) :
    Leads C m c m' ∧ Ready C t m' c call' := by
  refine ⟨⟨Reaches.single trivial hstep, fun d hd => ?_⟩,
    ⟨(h.sim.sound.free hstep).1, ?_, hruns, hcells, hnoSlot⟩, ?_, ?_⟩
  · rw [hcalls, List.getElem?_set_ne (by omega)]
  · intro d p called hd hp
    rw [hcalls] at hd
    rcases getElem?_set_some hd with ⟨rfl, rfl⟩ | ⟨-, hd⟩
    · exact h.sim.ordered d p call h.here (hsame.parent ▸ hp)
    · exact h.sim.ordered d p called hd hp
  · rw [hcalls, getElem?_set_of_some h.here]
  · intro d called hlt hd
    rw [hcalls, List.getElem?_set_ne (by omega)] at hd
    exact h.above d called hlt hd

theorem anyStep_poll (hc : m.calls[c]? = some call) :
    anyStep C m (.poll c) = pollCall C m c call := by
  simp only [anyStep, freeStep, step, hc]

theorem Ready.setCall (h : Ready C s m c call)
    (hpoll : pollCall C m c call = some (m.setCall c call')) (hsame : SameCall call call') :
    Leads C m c (m.setCall c call') ∧ Ready C s (m.setCall c call') c call' := by
  refine h.set ((anyStep_poll h.here).trans hpoll) rfl hsame h.sim.runs ?_ h.sim.noSlot
  exact fun x y hx => h.sim.cells x y (hx.of_cache rfl)

/-- A new slot is an empty cell. -/
theorem Ready.addSlot {scope : Nat} {key : ServiceKey τ} (h : Ready C s m c call)
    (hn : m.cache scope key = none)
    (hpoll : pollCall C m c call = some ((m.addSlot scope key).setCall c call'))
    (hsame : SameCall call call') :
    Leads C m c ((m.addSlot scope key).setCall c call') ∧
      Ready C s ((m.addSlot scope key).setCall c call') c call' := by
  refine h.set ((anyStep_poll h.here).trans hpoll) rfl hsame h.sim.runs ?_ ?_
  · intro x y hx
    cases hx with
    | entry r => exact h.sim.cells _ _ (.entry r)
    | slot hslot =>
      rcases addSlot_cache hslot with ⟨rfl, rfl, rfl⟩ | hold
      · show SameCell _ (m.cells (.slot m.slots))
        rw [h.sim.noSlot _ _ hn, h.sim.sound.empty_of_unused le_rfl]
        exact .empty
      · exact h.sim.cells _ _ (.slot hold)
  · intro scope' key' hnone
    refine h.sim.noSlot scope' key' ?_
    cases hold : m.cache scope' key' with
    | none => rfl
    | some n =>
      have hlater := (addSlot_later hn).cache scope' key' n hold
      rw [show (m.addSlot scope key).cache scope' key' = none from hnone] at hlater
      cases hlater

/-- The call starts a run. -/
theorem Ready.startRun {x : Option (CellId τ)} {keys : List (ServiceKey τ)}
    (h : Ready C s m c call) (hpoll : pollCall C m c call = some (m.startRun c call j x))
    (hvisits : t.visits = s.visits ++ [⟨call.ref j, keys⟩])
    (hcells : ∀ x' y, PlaceAt m x' y →
      SameCell (t.cells x') (State.fillCell m.cells x (.init c) y))
    (hnoSlot : ∀ scope key, m.cache scope key = none → t.cells (.slot scope key) = .empty) :
    Leads C m c (m.startRun c call j x) ∧ Ready C t (m.startRun c call j x) c
      { call with phase := .building j x s.visits.length } := by
  rw [← h.sim.runs_length]
  refine h.set ((anyStep_poll h.here).trans hpoll) rfl ⟨rfl, rfl, rfl, rfl⟩ ?_ ?_ hnoSlot
  · rw [State.startRun, hvisits, List.map_append, List.map_append, h.sim.runs]
    rfl
  · exact fun x' y hx => hcells x' y (hx.of_cache rfl)

omit [DecidableEq τ] [TypeName τ] in
theorem map_modify_of_eq {α β : Type*} {f : α → α} {g : α → β} (h : ∀ a, g (f a) = g a)
    (l : List α) (i : Nat) : (l.modify i f).map g = l.map g := by
  induction l generalizing i with
  | nil => rw [List.modify_nil]
  | cons a l ih =>
    cases i with
    | zero => rw [List.modify_zero_cons, List.map_cons, List.map_cons, h]
    | succ i => rw [List.modify_succ_cons, List.map_cons, List.map_cons, ih]

/-- How a run that has returned ends. -/
def endOf : Except DiError Nat → RunEnd
  | .ok _ => .ok
  | .error e => .error e

omit [DecidableEq τ] [TypeName τ] in
/-- The calls of the factory of `c` come after `c`, and are over. -/
theorem Ready.idle (h : Ready C s m c call) : m.idle c = true := by
  refine List.all_eq_true.mpr fun called hmem => ?_
  obtain ⟨d, hd⟩ := List.getElem?_of_mem hmem
  by_cases hp : called.parent = some c
  · rw [h.above d called (h.sim.ordered d c called hd hp) hd, Bool.or_true]
  · rw [decide_eq_true hp, Bool.true_or]

/-- The run of the call ends. -/
theorem Ready.endRun {x : Option (CellId τ)} {n : Nat} (h : Ready C s m c call)
    (result : Except DiError Nat) (hphase : call.phase = .building j x n)
    (hvisits : t.visits = s.visits)
    (hcells : ∀ x' y, PlaceAt m x' y →
      SameCell (t.cells x') (State.fillCell m.cells x ((endOf result).cell n) y))
    (hnoSlot : ∀ scope key, m.cache scope key = none → t.cells (.slot scope key) = .empty) :
    Leads C m c (m.endRun C c call j x n (endOf result)) ∧
      Ready C t (m.endRun C c call j x n (endOf result)) c ((endOf result).call C call j n) := by
  have hstep : anyStep C m (.finish c (result.map fun _ => ())) =
      some (m.endRun C c call j x n (endOf result)) := by
    cases result with
    | ok run =>
      show freeStep C _ m (.finish c (.ok ())) = _
      simp only [freeStep, step, h.here, hphase, h.idle, if_true, endOf]
    | error e =>
      show freeStep C _ m (.finish c (.error e)) = _
      simp only [freeStep, h.here, hphase, h.idle, if_true, endOf]
  refine h.set hstep rfl (endRun_grown call j n _).same ?_ ?_ hnoSlot
  · rw [hvisits, ← h.sim.runs]
    refine map_modify_of_eq ?_ m.runs n
    exact fun _ => rfl
  · exact fun x' y hx => hcells x' y (hx.of_cache rfl)

/-- A call is made. -/
theorem Sim.addCall {a : Action τ} (h : Sim C s m) (hstep : anyStep C m a = some (m.addCall call))
    (hparent : ∀ p, call.parent = some p → p < m.calls.length) :
    Leads C m m.calls.length (m.addCall call) ∧
      Ready C s (m.addCall call) m.calls.length call := by
  refine ⟨⟨Reaches.single trivial hstep, fun d hd => List.getElem?_append_left hd⟩,
    ⟨⟨(h.sound.free hstep).1, ?_, h.runs, ?_, h.noSlot⟩, List.getElem?_concat_length, ?_⟩⟩
  · intro d p called hd hp
    rcases getElem?_concat_some hd with hd | ⟨rfl, rfl⟩
    · exact h.ordered d p called hd hp
    · exact hparent p hp
  · exact fun x' y hx => h.cells x' y (hx.of_cache rfl)
  · intro d called hd hcalled
    have hbound := (List.getElem?_eq_some_iff.mp hcalled).1
    rw [State.addCall, List.length_append, List.length_singleton] at hbound
    omega

/-- The factory that the call runs resolves a node. -/
theorem Ready.nested {x : Option (CellId τ)} {n : Nat} {entry : Entry υ φ} {f : φ}
    (h : Ready C s m c call) (hphase : call.phase = .building j x n)
    (hentry : C.entryAt call.node j = some entry) (hf : entry.factory? = some f) (node : Node τ) :
    Leads C m m.calls.length (m.addCall (call.child c node)) ∧
      Ready C s (m.addCall (call.child c node)) m.calls.length (call.child c node) := by
  have hstep : anyStep C m (.nested c node) = some (m.addCall (call.child c node)) := by
    simp only [anyStep, freeStep, step, h.here, hphase, hentry, Option.bind_some, hf, if_true]
  have hparent : ∀ p, (call.child c node).parent = some p → p < m.calls.length := by
    intro p hp
    obtain rfl := Option.some.inj hp
    exact (List.getElem?_eq_some_iff.mp h.here).1
  exact h.sim.addCall hstep hparent

omit [DecidableEq τ] [TypeName τ] in
/-- A call of the factory is over: the machine is at the call that runs the factory again. -/
theorem Ready.back (h : Ready C s m c call)
    (hbelow : ∀ d < m.calls.length, m'.calls[d]? = m.calls[d]?)
    (h' : Ready C t m' m.calls.length call') (hdone : call'.phase.finished = true) :
    Ready C t m' c call where
  sim := h'.sim
  here := by
    rw [hbelow c (List.getElem?_eq_some_iff.mp h.here).1]
    exact h.here
  above d called hlt hd := by
    rcases lt_trichotomy d m.calls.length with hless | rfl | hmore
    · rw [hbelow d hless] at hd
      exact h.above d called hlt hd
    · obtain rfl := Option.some.inj (h'.here.symm.trans hd)
      exact hdone
    · exact h'.above d called hmore hd

end

/-! ### What returned -/

section

variable {α β : Type} {e : Ends τ α} {t : Store τ}

theorem Ends.after_eq_returned {next : Except DiError α → Store τ → Ends τ β}
    {result : Except DiError β} (h : e.after next = .returned result t) :
    ∃ first u, e = .returned first u ∧ next first u = .returned result t := by
  cases e with
  | returned first u => exact ⟨first, u, rfl, h⟩
  | reentered x => cases h
  | tooDeep => cases h

theorem Ends.andThen_eq_returned {next : α → Store τ → Ends τ β} {result : Except DiError β}
    (h : e.andThen next = .returned result t) :
    (∃ a u, e = .returned (.ok a) u ∧ next a u = .returned result t) ∨
    ∃ err, e = .returned (.error err) t ∧ result = .error err := by
  obtain ⟨first, u, rfl, hnext⟩ := Ends.after_eq_returned h
  cases first with
  | ok a => exact .inl ⟨a, u, rfl, hnext⟩
  | error err =>
    obtain ⟨rfl, rfl⟩ := Ends.returned.inj hnext
    exact .inr ⟨err, rfl, rfl⟩

theorem Ends.map_eq_returned {f : α → β} {result : Except DiError β}
    (h : e.map f = .returned result t) :
    ∃ first, e = .returned first t ∧ result = first.map f := by
  rcases Ends.andThen_eq_returned h with ⟨a, u, rfl, hnext⟩ | ⟨err, rfl, rfl⟩
  · obtain ⟨rfl, rfl⟩ := Ends.returned.inj hnext
    exact ⟨.ok a, rfl, rfl⟩
  · exact ⟨.error err, rfl, rfl⟩

end

/-! ### Runs of factories -/

section

variable [DecidableEq τ] [TypeName τ] {C : Container τ υ φ} {s t : Store τ} {m : State τ υ}
  {c j : Nat} {call : Call τ υ} {x : Place τ} {y : CellId τ} {keys : List (ServiceKey τ)}

/-- What a call with a run that builds its `j`-th registration comes to. -/
def Container.after (C : Container τ υ φ) (call : Call τ υ) (j : Nat) :
    Except DiError (Inst υ) → Call τ υ
  | .ok inst => C.advance call j inst
  | .error e => { call with phase := .done (.error e) }

/-- While `build` runs a factory, the machine runs it, too. -/
def BuildSim (C : Container τ υ φ) (call : Call τ υ) (j : Nat)
    (keys : List (ServiceKey τ)) (build : Store τ → Ends τ Nat) : Prop :=
  ∀ (s t : Store τ) (m : State τ υ) (c : Nat) (x : Option (CellId τ)) (res : Except DiError Nat),
    Ready C { s with visits := s.visits ++ [⟨call.ref j, keys⟩] } m c
        { call with phase := .building j x s.visits.length } →
      build s = .returned res t →
        (∀ n, res = .ok n → n = s.visits.length) ∧
        ∃ m', Leads C m c m' ∧ Ready C t m' c { call with phase := .building j x s.visits.length }

omit [DecidableEq τ] [TypeName τ] in
theorem endOf_call {res : Except DiError Nat} {z : Option (CellId τ)} {n : Nat}
    (hn : ∀ k, res = .ok k → k = n) :
    (endOf res).call C { call with phase := .building j z n } j n =
      C.after call j (res.map .built) := by
  cases res with
  | ok k =>
    obtain rfl := hn k rfl
    rfl
  | error e => rfl

/-- A transient factory. -/
theorem transient_sim {build : Store τ → Ends τ Nat} {f : φ} {res : Except DiError Nat}
    (h : Ready C s m c call) (hphase : call.phase = .entry j)
    (hentry : C.entryAt call.node j = some (.transient f)) (hbuild : BuildSim C call j keys build)
    (hres : build s = .returned res t) :
    ∃ m', Leads C m c m' ∧ Ready C t m' c (C.after call j (res.map .built)) := by
  have hpoll : pollCall C m c call = some (m.startRun c call j none) := by
    simp only [pollCall, hphase, pollEntry, hentry]
  obtain ⟨hleads₁, h₁⟩ := h.startRun
    (t := { s with visits := s.visits ++ [⟨call.ref j, keys⟩] }) hpoll rfl h.sim.cells h.sim.noSlot
  obtain ⟨hn, m₂, hleads₂, h₂⟩ := hbuild s t _ c none res h₁ hres
  obtain ⟨hleads₃, h₃⟩ := h₂.endRun res rfl rfl h₂.sim.cells h₂.sim.noSlot
  rw [endOf_call hn] at h₃
  exact ⟨_, (hleads₁.trans hleads₂).trans hleads₃, h₃⟩

omit [TypeName τ] in
theorem Sim.noSlot_update (h : Sim C s m) (hx : PlaceAt m x y) {o : Once} (scope : Nat)
    (key : ServiceKey τ) (hnone : m.cache scope key = none) :
    (s.setCell x o).cells (.slot scope key) = .empty := by
  have hne : Place.slot scope key ≠ x := by
    rintro rfl
    cases hx with
    | slot hn =>
      rw [hnone] at hn
      cases hn
  rw [Store.setCell_cells, Function.update_of_ne hne]
  exact h.noSlot scope key hnone

theorem PlaceAt.leads {m' : State τ υ} (h : PlaceAt m x y) (hs : Sound C m)
    (hleads : Leads C m c m') : PlaceAt m' x y := by
  cases h with
  | entry r => exact .entry r
  | slot hn => exact .slot ((later_of_freeReach hs hleads.reach).cache _ _ _ hn)

/-- `get_or_try_init`. -/
theorem cell_sim {build : Store τ → Ends τ Nat} {res : Except DiError Nat}
    (h : Ready C s m c call) (hphase : call.phase = .cell j y) (hx : PlaceAt m x y)
    (hbuild : BuildSim C call j keys build) (hres : getOrTryInit x build s = .returned res t) :
    ∃ m', Leads C m c m' ∧ Ready C t m' c (C.after call j (res.map .built)) := by
  have hsame := h.sim.cells x y hx
  unfold getOrTryInit at hres
  cases hcell : s.cells x with
  | set run =>
    rw [hcell] at hres hsame
    obtain ⟨rfl, rfl⟩ := Ends.returned.inj hres
    generalize hy : m.cells y = o at hsame
    cases hsame with
    | set run =>
      have hpoll : pollCall C m c call = some (m.setCall c (C.advance call j (.built run))) := by
        simp only [pollCall, hphase, hy]
      exact ⟨_, h.setCall hpoll ⟨rfl, rfl, rfl, rfl⟩⟩
  | initialising =>
    rw [hcell] at hres
    cases hres
  | empty =>
    rw [hcell] at hres hsame
    generalize hy : m.cells y = o at hsame
    cases hsame with
    | empty =>
      obtain ⟨first, u, hfirst, hlast⟩ := Ends.after_eq_returned hres
      obtain ⟨rfl, rfl⟩ := Ends.returned.inj hlast
      have hpoll : pollCall C m c call = some (m.startRun c call j (some y)) := by
        simp only [pollCall, hphase, hy]
      -- the run starts, the cell being initialised
      obtain ⟨hleads₁, h₁⟩ := h.startRun
        (t := { s.setCell x .initialising with visits := s.visits ++ [⟨call.ref j, keys⟩] }) hpoll
        rfl (h.sim.cells_update hx (.init c)) (h.sim.noSlot_update hx)
      obtain ⟨hn, m₂, hleads₂, h₂⟩ :=
        hbuild (s.setCell x .initialising) u _ c (some y) first h₁ hfirst
      -- and ends, and leaves what is to be left in it
      have hx₂ : PlaceAt m₂ x y := hx.leads h.sim.sound (hleads₁.trans hleads₂)
      have hleft : SameCell (leftInCell first) ((endOf first).cell s.visits.length) := by
        cases first with
        | ok n =>
          obtain rfl := hn n rfl
          exact .set _
        | error e => exact .empty
      obtain ⟨hleads₃, h₃⟩ := h₂.endRun (t := u.setCell x (leftInCell first)) first rfl rfl
        (h₂.sim.cells_update hx₂ hleft) (h₂.sim.noSlot_update hx₂)
      rw [endOf_call hn] at h₃
      exact ⟨_, (hleads₁.trans hleads₂).trans hleads₃, h₃⟩

/-- A call that comes to a cell. -/
theorem toCell_sim {build : Store τ → Ends τ Nat} {res : Except DiError Nat}
    (h : Ready C s m c call)
    (hpoll : pollCall C m c call = some (m.setCall c { call with phase := .cell j y }))
    (hx : PlaceAt m x y) (hbuild : BuildSim C call j keys build)
    (hres : getOrTryInit x build s = .returned res t) :
    ∃ m', Leads C m c m' ∧ Ready C t m' c (C.after call j (res.map .built)) := by
  obtain ⟨hleads, h₁⟩ := h.setCall hpoll ⟨rfl, rfl, rfl, rfl⟩
  obtain ⟨m', hleads', h'⟩ := cell_sim h₁ rfl (hx.leads h.sim.sound hleads) hbuild hres
  exact ⟨m', hleads.trans hleads', h'⟩

omit [TypeName τ] in
theorem addSlot_cache_self (m : State τ υ) (scope : Nat) (key : ServiceKey τ) :
    (m.addSlot scope key).cache scope key = some m.slots := by
  simp only [State.addSlot, Function.update_self]

theorem pollCall_slotMiss {scope : Nat} (hphase : call.phase = .slotMiss j)
    (hscope : call.scope = some scope) (hcache : m.cache scope (call.ref j).slotKey = none) :
    pollCall C m c call = some ((m.addSlot scope (call.ref j).slotKey).setCall c
      { call with phase := .cell j (.slot m.slots) }) := by
  simp only [pollCall, hphase, hscope, hcache]

/-- `resolve_for`. -/
theorem slot_sim {build : Store τ → Ends τ Nat} {f : φ} {scope : Nat} {res : Except DiError Nat}
    (h : Ready C s m c call) (hphase : call.phase = .entry j)
    (hentry : C.entryAt call.node j = some (.scoped f)) (hscope : call.scope = some scope)
    (hbuild : BuildSim C call j keys build)
    (hres : getOrTryInit (.slot scope (call.ref j).slotKey) build s = .returned res t) :
    ∃ m', Leads C m c m' ∧ Ready C t m' c (C.after call j (res.map .built)) := by
  cases hcache : m.cache scope (call.ref j).slotKey with
  | some n =>
    refine toCell_sim h ?_ (.slot hcache) hbuild hres
    simp only [pollCall, hphase, pollEntry, hentry, hscope, hcache]
  | none =>
    -- no slot is found, and then one is added
    have hmiss : pollCall C m c call = some (m.setCall c { call with phase := .slotMiss j }) := by
      simp only [pollCall, hphase, pollEntry, hentry, hscope, hcache]
    obtain ⟨hleads₁, h₁⟩ := h.setCall hmiss ⟨rfl, rfl, rfl, rfl⟩
    obtain ⟨hleads₂, h₂⟩ := h₁.addSlot hcache (pollCall_slotMiss rfl hscope hcache)
      ⟨rfl, rfl, rfl, rfl⟩
    obtain ⟨m', hleads₃, h₃⟩ := cell_sim h₂ rfl (.slot (addSlot_cache_self m scope _)) hbuild hres
    exact ⟨m', (hleads₁.trans hleads₂).trans hleads₃, h₃⟩

/-- **The machine resolves a registration** as `resolveEntry` does. -/
theorem resolveEntry_sim {build : EntryRef τ → φ → Store τ → Ends τ Nat} {entry : Entry υ φ}
    {res : Except DiError (Inst υ)} (h : Ready C s m c call) (hphase : call.phase = .entry j)
    (hentry : C.entryAt call.node j = some entry)
    (hbuild : ∀ f, entry.factory? = some f → BuildSim C call j keys (build (call.ref j) f))
    (hres : resolveEntry build call.scope (call.ref j) entry s = .returned res t) :
    ∃ m', Leads C m c m' ∧ Ready C t m' c (C.after call j res) := by
  cases entry with
  | value value =>
    obtain ⟨rfl, rfl⟩ := Ends.returned.inj hres
    have hpoll : pollCall C m c call = some (m.setCall c (C.advance call j (.given value))) := by
      simp only [pollCall, hphase, pollEntry, hentry]
    exact ⟨_, h.setCall hpoll ⟨rfl, rfl, rfl, rfl⟩⟩
  | singleton f =>
    obtain ⟨first, hfirst, rfl⟩ := Ends.map_eq_returned hres
    refine toCell_sim h ?_ (.entry (call.ref j)) (hbuild f rfl) hfirst
    simp only [pollCall, hphase, pollEntry, hentry]
  | transient f =>
    obtain ⟨first, hfirst, rfl⟩ := Ends.map_eq_returned hres
    exact transient_sim h hphase hentry (hbuild f rfl) hfirst
  | «scoped» f =>
    cases hscope : call.scope with
    | none =>
      rw [hscope] at hres
      obtain ⟨rfl, rfl⟩ := Ends.returned.inj hres
      refine ⟨_, h.setCall ?_ ⟨rfl, rfl, rfl, rfl⟩⟩
      simp only [pollCall, hphase, pollEntry, hentry, hscope, Container.after, Call.ref,
        Node.ref_key]
    | some scope =>
      rw [hscope] at hres
      obtain ⟨first, hfirst, rfl⟩ := Ends.map_eq_returned hres
      exact slot_sim h hphase hentry hscope (hbuild f rfl) hfirst

/-- `build` runs the factories of the call as the machine does. -/
def BuildsSim (C : Container τ υ φ) (call : Call τ υ) (keys : List (ServiceKey τ))
    (build : EntryRef τ → φ → Store τ → Ends τ Nat) : Prop :=
  ∀ (call' : Call τ υ) (j : Nat) (entry : Entry υ φ) (f : φ), SameCall call call' →
    C.entryAt call'.node j = some entry → entry.factory? = some f →
      BuildSim C call' j keys (build (call'.ref j) f)

/-- **The machine resolves the members of a group** as `resolveMembers` does, by induction
on those that are left. -/
theorem resolveMembers_sim {build : EntryRef τ → φ → Store τ → Ends τ Nat}
    {key : ServiceKey τ} {index : Nat} {entries : List (Entry υ φ)}
    {res : Except DiError (List (Inst υ))} (h : Ready C s m c call)
    (hnode : call.node = .group key) (hphase : call.phase = C.next call.node index call.resolved)
    (hentries : ∀ i, C.entryAt call.node (index + i) = entries[i]?)
    (hbuild : BuildsSim C call keys build)
    (hres : resolveMembers build call.scope key index entries s = .returned res t) :
    ∃ m' call', Leads C m c m' ∧ Ready C t m' c call' ∧ SameCall call call' ∧
      call'.phase = .done (res.map (call.resolved ++ ·)) := by
  induction entries generalizing index s m call res with
  | nil =>
    obtain ⟨rfl, rfl⟩ := Ends.returned.inj hres
    refine ⟨m, call, .refl C m c, h, ⟨rfl, rfl, rfl, rfl⟩, ?_⟩
    have hnone : C.entryAt call.node index = none := hentries 0
    rw [hphase, Container.next, hnone]
    simp [Except.map]
  | cons entry entries ih =>
    have hentry : C.entryAt call.node index = some entry := hentries 0
    have hat : call.phase = .entry index := by
      rw [hphase, Container.next, hentry]
      rfl
    have hsim : ∀ first u, resolveEntry build call.scope (.member key index) entry s =
        .returned first u →
        ∃ m', Leads C m c m' ∧ Ready C u m' c (C.after call index first) := by
      intro first u hfirst
      have href : call.ref index = .member key index := by
        rw [Call.ref, hnode]
        rfl
      rw [← href] at hfirst
      exact resolveEntry_sim h hat hentry
        (fun f hf => hbuild call index entry f ⟨rfl, rfl, rfl, rfl⟩ hentry hf) hfirst
    rcases Ends.andThen_eq_returned hres with ⟨inst, u, hfirst, hlater⟩ | ⟨err, hfirst, rfl⟩
    · obtain ⟨m₁, hleads₁, h₁⟩ := hsim (.ok inst) u hfirst
      obtain ⟨rest, hrest, rfl⟩ := Ends.map_eq_returned hlater
      have hsame : SameCall call (C.advance call index inst) := ⟨rfl, rfl, rfl, rfl⟩
      have hentries' : ∀ i, C.entryAt call.node (index + 1 + i) = entries[i]? := by
        intro i
        rw [Nat.add_assoc, Nat.add_comm 1 i, hentries (i + 1), List.getElem?_cons_succ]
      obtain ⟨m₂, call₂, hleads₂, h₂, hsame₂, hdone⟩ := ih h₁ hnode rfl hentries'
        (fun call' j entry f hs => hbuild call' j entry f (hsame.trans hs)) hrest
      refine ⟨m₂, call₂, hleads₁.trans hleads₂, h₂, hsame.trans hsame₂, ?_⟩
      rw [hdone]
      cases rest with
      | ok values => simp [Container.after, Container.advance, Except.map]
      | error e => rfl
    · obtain ⟨m₁, hleads₁, h₁⟩ := hsim (.error err) t hfirst
      exact ⟨m₁, _, hleads₁, h₁, ⟨rfl, rfl, rfl, rfl⟩, rfl⟩

/-! ### Calls -/

/-- What `RESOLVING_STACK` is bound to in the factories of the call. -/
def Call.chain (call : Call τ υ) : List (ServiceKey τ × String) :=
  call.ancestors ++ [(call.node.key, TypeName.typeName call.node.key.typeId)]

omit [DecidableEq τ] [TypeName τ] in
theorem Ready.enter (h : Ready C s m c call) (chain : List (ServiceKey τ × String)) :
    Ready C (s.enter chain) m c call where
  sim := ⟨h.sim.sound, h.sim.ordered, h.sim.runs, h.sim.cells, h.sim.noSlot⟩
  here := h.here
  above := h.above

/-- The call passes the cycle check, or ends there. -/
theorem Ready.entered (h : Ready C s m c call) (hphase : call.phase = .entered)
    {p : Phase τ υ} (hp : C.enter call = p) :
    ∃ m', Leads C m c m' ∧ Ready C s m' c { call with phase := p } := by
  subst hp
  refine ⟨_, h.setCall ?_ ⟨rfl, rfl, rfl, rfl⟩⟩
  simp only [pollCall, hphase]

/-- The call is resolved. -/
def Resolved (C : Container τ υ φ) (t : Store τ) (m : State τ υ) (c : Nat) (call : Call τ υ)
    (res : Except DiError (List (Inst υ))) : Prop :=
  ∃ m' call', Leads C m c m' ∧ Ready C t m' c call' ∧ SameCall call call' ∧ call'.phase = .done res

theorem Ready.done (h : Ready C s m c call) (hphase : call.phase = .entered)
    {res : Except DiError (List (Inst υ))} (hp : C.enter call = .done res) :
    Resolved C s m c call res := by
  obtain ⟨m', hleads, h'⟩ := h.entered hphase hp
  exact ⟨m', _, hleads, h', ⟨rfl, rfl, rfl, rfl⟩, rfl⟩

omit [DecidableEq τ] [TypeName τ] in
/-- A call of a single key is done once it has resolved its registration. -/
theorem after_single {key : ServiceKey τ} (hnode : call.node = .single key)
    (hresolved : call.resolved = []) (first : Except DiError (Inst υ)) :
    (C.after call 0 first).phase = .done (first.map ([·])) := by
  cases first with
  | ok inst =>
    simp only [Container.after, Container.advance, Container.next, hnode, hresolved,
      Container.entryAt]
    rfl
  | error e => rfl

theorem BuildsSim.past {build : EntryRef τ → φ → Store τ → Ends τ Nat}
    (h : BuildsSim C call keys build) (p : Phase τ υ) :
    BuildsSim C { call with phase := p } keys build :=
  fun call' j entry f hs => h call' j entry f ⟨hs.node, hs.parent, hs.scope, hs.ancestors⟩

section

variable {build : List (ServiceKey τ × String) → EntryRef τ → φ → Store τ → Ends τ Nat}
  {res : Except DiError (List (Inst υ))} {key : ServiceKey τ}

/-- `resolve_with_tag`. -/
theorem single_sim (h : Ready C s m c call) (hphase : call.phase = .entered)
    (hresolved : call.resolved = []) (hnode : call.node = .single key)
    (hbuild : BuildsSim C call keys (build call.chain))
    (hres : resolveNode C build call.scope call.ancestors (.single key) s = .returned res t) :
    Resolved C t m c call res := by
  cases hcycle : cycleThrough call.ancestors key (TypeName.typeName key.typeId) with
  | some cycle =>
    simp only [resolveNode, Node.key, hcycle] at hres
    obtain ⟨rfl, rfl⟩ := Ends.returned.inj hres
    refine h.done hphase ?_
    simp only [Container.enter, hnode, Node.key, hcycle]
  | none =>
    have hchain : call.ancestors ++ [(key, TypeName.typeName key.typeId)] = call.chain := by
      rw [Call.chain, hnode, Node.key]
    cases hentry : C.entries key with
    | none =>
      simp only [resolveNode, Node.key, hcycle, hentry] at hres
      obtain ⟨rfl, rfl⟩ := Ends.returned.inj hres
      refine (h.enter _).done hphase ?_
      simp only [Container.enter, hnode, Node.key, hcycle, hentry]
    | some entry =>
      simp only [resolveNode, Node.key, hcycle, hentry, hchain] at hres
      obtain ⟨first, hfirst, rfl⟩ := Ends.map_eq_returned hres
      have hp : C.enter call = .entry 0 := by
        simp only [Container.enter, hnode, Node.key, hcycle, hentry, Container.next,
          Container.entryAt, Option.isSome_some, if_true]
      have hat : C.entryAt call.node 0 = some entry := by
        rw [hnode]
        exact hentry
      have href : Call.ref { call with phase := .entry 0 } 0 = .single key := by
        rw [Call.ref, hnode]
        rfl
      rw [← href] at hfirst
      obtain ⟨m₁, hleads₁, h₁⟩ := (h.enter call.chain).entered hphase hp
      obtain ⟨m₂, hleads₂, h₂⟩ := resolveEntry_sim h₁ rfl hat
        (fun f hf => hbuild.past _ _ 0 entry f ⟨rfl, rfl, rfl, rfl⟩ hat hf) hfirst
      refine ⟨m₂, _, hleads₁.trans hleads₂, h₂, ?_, after_single hnode hresolved first⟩
      cases first <;> exact ⟨rfl, rfl, rfl, rfl⟩

/-- `resolve_group`. -/
theorem group_sim (h : Ready C s m c call) (hphase : call.phase = .entered)
    (hresolved : call.resolved = []) (hnode : call.node = .group key)
    (hbuild : BuildsSim C call keys (build call.chain))
    (hres : resolveNode C build call.scope call.ancestors (.group key) s = .returned res t) :
    Resolved C t m c call res := by
  cases hgroup : C.groups key with
  | none =>
    simp only [resolveNode, hgroup] at hres
    obtain ⟨rfl, rfl⟩ := Ends.returned.inj hres
    refine h.done hphase ?_
    simp only [Container.enter, hnode, hgroup]
  | some members =>
    cases hcycle : cycleThrough call.ancestors key (TypeName.typeName key.typeId) with
    | some cycle =>
      simp only [resolveNode, Node.key, hgroup, hcycle] at hres
      obtain ⟨rfl, rfl⟩ := Ends.returned.inj hres
      refine h.done hphase ?_
      simp only [Container.enter, hnode, Node.key, hgroup, hcycle]
    | none =>
      have hchain : call.ancestors ++ [(key, TypeName.typeName key.typeId)] = call.chain := by
        rw [Call.chain, hnode, Node.key]
      simp only [resolveNode, Node.key, hgroup, hcycle, hchain] at hres
      have hp : C.enter call = C.next call.node 0 call.resolved := by
        simp only [Container.enter, hnode, Node.key, hgroup, hcycle, hresolved]
      have hat : ∀ i, C.entryAt call.node (0 + i) = members[i]? := by
        intro i
        rw [hnode, Container.entryAt, hgroup, Nat.zero_add]
        rfl
      obtain ⟨m₁, hleads₁, h₁⟩ := (h.enter call.chain).entered hphase hp
      obtain ⟨m₂, call₂, hleads₂, h₂, hsame, hdone⟩ :=
        resolveMembers_sim h₁ hnode rfl hat (hbuild.past _) hres
      refine ⟨m₂, call₂, hleads₁.trans hleads₂, h₂, ?_, ?_⟩
      · exact ⟨hsame.node, hsame.parent, hsame.scope, hsame.ancestors⟩
      · rw [hdone, hresolved]
        cases res <;> rfl

/-- **The machine resolves a node** as `resolveNode` does, if factories run as in `build`. -/
theorem resolveNode_sim (h : Ready C s m c call) (hphase : call.phase = .entered)
    (hresolved : call.resolved = []) (hbuild : BuildsSim C call keys (build call.chain))
    (hres : resolveNode C build call.scope call.ancestors call.node s = .returned res t) :
    Resolved C t m c call res := by
  cases hnode : call.node with
  | single key =>
    rw [hnode] at hres
    exact single_sim h hphase hresolved hnode hbuild hres
  | group key =>
    rw [hnode] at hres
    exact group_sim h hphase hresolved hnode hbuild hres

end

/-! ### Factories -/

/-- Calls are resolved as the machine resolves them, if at most `depth` runs nest. -/
def NodeSim (C : Container τ υ φ) (behave : φ → Nat → Behaviour τ υ) (scope : Option Nat)
    (depth : Nat) : Prop :=
  ∀ (s t : Store τ) (m : State τ υ) (c : Nat) (call : Call τ υ)
    (res : Except DiError (List (Inst υ))), Ready C s m c call → call.phase = .entered →
      call.resolved = [] → call.scope = scope →
        resolveNode C (build C behave scope depth) scope call.ancestors call.node s =
          .returned res t → Resolved C t m c call res

/-- **The machine does what a factory does**, by induction on that. -/
theorem behaviour_sim {behave : φ → Nat → Behaviour τ υ} {scope : Option Nat} {depth : Nat}
    (hnode : NodeSim C behave scope depth) (b : Behaviour τ υ) (h : Ready C s m c call)
    (hscope : call.scope = scope) {x : Option (CellId τ)} {n : Nat}
    (hphase : call.phase = .building j x n) {entry : Entry υ φ}
    (hentry : C.entryAt call.node j = some entry) {f : φ} (hf : entry.factory? = some f)
    {res : Except DiError Unit}
    (hres : b.run (resolveNode C (build C behave scope depth) scope call.chain) s =
      .returned res t) :
    ∃ m', Leads C m c m' ∧ Ready C t m' c call := by
  induction b generalizing s m with
  | ret result =>
    obtain ⟨rfl, rfl⟩ := Ends.returned.inj hres
    exact ⟨m, .refl C m c, h⟩
  | resolve node react ih =>
    obtain ⟨first, u, hfirst, hlater⟩ := Ends.after_eq_returned hres
    obtain ⟨hleads₁, h₁⟩ := h.nested hphase hentry hf node
    obtain ⟨m₂, call₂, hleads₂, h₂, -, hdone⟩ := hnode _ _ _ _ _ _ h₁ rfl rfl hscope hfirst
    have hleads := hleads₁.trans hleads₂
    have hfinished : call₂.phase.finished = true := by
      rw [hdone]
      rfl
    obtain ⟨m₃, hleads₃, h₃⟩ := ih first (h.back hleads.below h₂ hfinished) hlater
    have hle : c ≤ m.calls.length := (List.getElem?_eq_some_iff.mp h.here).1.le
    exact ⟨m₃, (hleads.mono hle).trans hleads₃, h₃⟩

theorem build_sim {behave : φ → Nat → Behaviour τ υ} {scope : Option Nat} {depth : Nat}
    (hnode : NodeSim C behave scope depth) (hscope : call.scope = scope) :
    BuildsSim C call (call.chain.map Prod.fst)
      (build C behave scope (depth + 1) call.chain) := by
  intro call' j entry f hsame hentry hf s t m c x res h hres
  obtain ⟨first, hfirst, rfl⟩ := Ends.map_eq_returned hres
  have hchain : call'.chain = call.chain := by
    rw [Call.chain, Call.chain, hsame.node, hsame.ancestors]
  rw [← hchain] at hfirst h
  obtain ⟨m', hleads, h'⟩ :=
    behaviour_sim hnode _ h (hsame.scope.trans hscope) rfl hentry hf hfirst
  refine ⟨fun n hn => ?_, m', hleads, h'⟩
  cases first with
  | ok _ => exact (Except.ok.inj hn).symm
  | error e => cases hn

/-- **The machine resolves as `resolveNode` does**, by induction on how many runs nest. -/
theorem node_sim (C : Container τ υ φ) (behave : φ → Nat → Behaviour τ υ) (scope : Option Nat)
    (depth : Nat) : NodeSim C behave scope depth := by
  induction depth with
  | zero =>
    intro s t m c call res h hphase hresolved hscope hres
    subst hscope
    -- no run is under way, for none may be
    have hbuild : BuildsSim C call [] (build C behave call.scope 0 call.chain) :=
      fun _ _ _ _ _ _ _ _ _ _ _ _ _ _ => nofun
    exact resolveNode_sim h hphase hresolved hbuild hres
  | succ depth ih =>
    intro s t m c call res h hphase hresolved hscope hres
    subst hscope
    exact resolveNode_sim h hphase hresolved (build_sim ih rfl) hres

/-- **Resolving in one task is a run of the machine.**  What `resolve` returns, the
machine returns for a call of the node, in a run that leaves the same cells and has
run the same factories. -/
theorem resolve_reach (behave : φ → Nat → Behaviour τ υ) (depth : Nat) (scope : Option Nat)
    (node : Node τ) {res : Except DiError (List (Inst υ))} (h : Sim C s m)
    (hres : resolve C behave depth scope node s = .returned res t) :
    ∃ m' call, Reach (anyStep C) m m' ∧ Sim C t m' ∧ m'.calls[m.calls.length]? = some call ∧
      call.node = node ∧ call.scope = scope ∧ call.phase = .done res := by
  have hstep : anyStep C m (.call node scope) = some (m.addCall (.top node scope)) := rfl
  obtain ⟨hleads, h'⟩ := h.addCall hstep nofun
  obtain ⟨m', call, hleads', h'', hsame, hdone⟩ :=
    node_sim C behave scope depth _ _ _ _ _ _ h' rfl rfl rfl hres
  exact ⟨m', call, hleads.reach.trans hleads'.reach, h''.sim, h''.here, hsame.node, hsame.scope,
    hdone⟩

/-- Where tags are plain, the first call of the machine is done in some run, whatever
factories do. -/
theorem exists_run_done (calls : List (BuilderCall τ υ φ)) (hplain : PlainTags calls)
    (behave : φ → Nat → Behaviour τ υ) (scope : Option Nat) (node : Node τ) :
    ∃ res t m' call,
      resolve (containerOf calls) behave (registeredKeys calls).length scope node (.empty τ) =
        .returned res t ∧
      Reach (anyStep (containerOf calls)) (State.start τ υ) m' ∧ Sim (containerOf calls) t m' ∧
      m'.calls[0]? = some call ∧ call.node = node ∧ call.phase = .done res := by
  have hsettles : Settles (registeredKeys calls) (.empty τ) (resolve (containerOf calls) behave
      (registeredKeys calls).length scope node (.empty τ)) :=
    resolveNode_build_settles hplain.slotsApart (registeredIn_containerOf calls) _ List.nodup_nil
      (List.nil_subset _) (by simp) fun _ hx => nomatch hx
  obtain ⟨res, t, hres, -⟩ := hsettles
  obtain ⟨m', call, hreach, hsim, hcall, hnode, -, hdone⟩ :=
    resolve_reach behave _ scope node (sim_start (containerOf calls)) hres
  exact ⟨res, t, m', call, hres, hreach, hsim, hcall, hnode, hdone⟩

end

end Kolas.Di

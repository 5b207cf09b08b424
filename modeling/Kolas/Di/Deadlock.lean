import Kolas.Di.Callers

/-!
# Waiting

A call waits at a cell while another call runs the cell's initialiser, and a
call that runs a factory waits for the calls the factory has made.

* `Sound.goes_on`: a call that does not wait can be polled, or its factory can
  end.
* `Holds`: the initialiser of one cell may, in spite of the cycle check, come to
  wait at another one.
* `not_deadlock_of_holds`: if `Holds` has no cycle, then in no run all unfinished
  calls wait; and a call for a key of its chain fails at once.
-/

namespace Kolas.Di

open Kolas.Lib

variable {τ υ φ : Type}

/-- The call waits at a cell that is being initialised, or for a call of the
factory that it runs. -/
inductive Waiting (s : State τ υ) (c : Nat) (call : Call τ υ) : Prop
  | cell {j d : Nat} {x : CellId τ} (h : call.phase = .cell j x) (hx : s.cells x = .init d)
  | factory {j run d : Nat} {x : Option (CellId τ)} {called : Call τ υ}
      (h : call.phase = .building j x run) (hd : s.calls[d]? = some called)
      (hp : called.parent = some c) (hopen : called.phase.finished = false)

/-- Some call is unfinished, and all that are wait. -/
def Deadlock (s : State τ υ) : Prop :=
  (∃ call ∈ s.calls, call.phase.finished = false) ∧
  ∀ (c : Nat) (call : Call τ υ), s.calls[c]? = some call → call.phase.finished = false →
    Waiting s c call

/-! ### Cells that hold each other -/

/-- The key under which a registration is resolved. -/
def EntryRef.key : EntryRef τ → ServiceKey τ
  | .single key => key
  | .member key _ => key

@[simp] theorem Node.ref_key (n : Node τ) (j : Nat) : (n.ref j).key = n.key := by
  cases n <;> rfl

/-- The cell of a singleton, or the slot of a key in some scope. -/
inductive CacheRef (τ : Type)
  | cell (r : EntryRef τ)
  | slot (key : ServiceKey τ)
  deriving DecidableEq, Repr

def Container.cacheOf (C : Container τ υ φ) (r : EntryRef τ) : Option (CacheRef τ) :=
  match C.entryOf r with
  | some (.singleton _) => some (.cell r)
  | some (.scoped _) => some (.slot r.slotKey)
  | _ => none

/-- While the factory of `r` runs, it may call for the node, itself or through
factories of transient registrations, and the call passes the cycle check;
the chain from `r` on is `keys`. -/
inductive Under (C : Container τ υ φ) (resolves : φ → Node τ → Bool) (r : EntryRef τ) :
    List (ServiceKey τ) → Node τ → Prop
  | direct {m : Node τ} (h : RefDep C resolves r m) (hk : m.key ∉ [r.key]) :
      Under C resolves r [r.key] m
  | through {keys : List (ServiceKey τ)} {n m : Node τ} {i : Nat} {f : φ}
      (h : Under C resolves r keys n) (he : C.entryOf (n.ref i) = some (.transient f))
      (hr : resolves f m = true) (hk : m.key ∉ keys ++ [n.key]) :
      Under C resolves r (keys ++ [n.key]) m

/-- The initialiser of `X` may come to `Y`. -/
def Holds (C : Container τ υ φ) (resolves : φ → Node τ → Bool) (X Y : CacheRef τ) : Prop :=
  ∃ (r : EntryRef τ) (keys : List (ServiceKey τ)) (n : Node τ) (i : Nat),
    C.cacheOf r = some X ∧ Under C resolves r keys n ∧ C.cacheOf (n.ref i) = some Y

/-- The cells that are being initialised. -/
def heldRefs (C : Container τ υ φ) (s : State τ υ) : List (CacheRef τ) :=
  s.calls.filterMap fun call =>
    match call.phase with
    | .building j (some _) _ => C.cacheOf (call.ref j)
    | _ => none

variable {C : Container τ υ φ} {resolves : φ → Node τ → Bool} {s t : State τ υ} {c d : Nat}
  {call called : Call τ υ}

theorem mem_heldRefs {X : CacheRef τ} :
    X ∈ heldRefs C s ↔ ∃ (c j run : Nat) (call : Call τ υ) (x : CellId τ),
      s.calls[c]? = some call ∧ call.phase = .building j (some x) run ∧
        C.cacheOf (call.ref j) = some X := by
  unfold heldRefs
  rw [List.mem_filterMap]
  constructor
  · intro g
    obtain ⟨call, hmem, h⟩ := g
    obtain ⟨c, hc⟩ := List.getElem?_of_mem hmem
    split at h
    · rename_i j x run hphase
      exact ⟨c, j, run, call, x, hc, hphase, h⟩
    · cases h
  · intro g
    obtain ⟨c, j, run, call, x, hc, hphase, h⟩ := g
    refine ⟨call, List.mem_of_getElem? hc, ?_⟩
    rw [hphase]
    exact h

theorem CellFor.cacheOf {cache : Nat → ServiceKey τ → Option Nat} {r : EntryRef τ}
    {scope : Option Nat} {x : CellId τ} (hx : CellFor C cache r scope x) :
    (x = .entry r ∧ C.cacheOf r = some (.cell r)) ∨
    ∃ sc n, cache sc r.slotKey = some n ∧ x = .slot n ∧ C.cacheOf r = some (.slot r.slotKey) := by
  unfold Container.cacheOf
  cases hx with
  | entry he => exact .inl ⟨rfl, by rw [he]⟩
  | slot he hs hn => exact .inr ⟨_, _, hn, rfl, by rw [he]⟩

/-- Calls at one cell are for registrations cached in one place. -/
theorem Sound.cacheOf_eq (hs : Sound C s) {r r' : EntryRef τ} {scope scope' : Option Nat}
    {x : CellId τ} (hx : CellFor C s.cache r scope x) (hx' : CellFor C s.cache r' scope' x) :
    ∃ X, C.cacheOf r = some X ∧ C.cacheOf r' = some X := by
  rcases hx.cacheOf with ⟨rfl, hr⟩ | ⟨sc, n, hn, rfl, hr⟩
  · rcases hx'.cacheOf with ⟨heq, hr'⟩ | ⟨sc, n, -, heq, -⟩
    · obtain rfl := CellId.entry.inj heq
      exact ⟨_, hr, hr'⟩
    · cases heq
  · rcases hx'.cacheOf with ⟨heq, -⟩ | ⟨sc', n', hn', heq, hr'⟩
    · cases heq
    · obtain rfl := CellId.slot.inj heq
      exact ⟨_, hr, (hs.owned _ _ _ _ _ hn hn').2 ▸ hr'⟩

/-! ### From one held cell to another -/

/-- **What an unfinished call waits for**: a held cell, or a call made by the
factory of a transient registration. -/
theorem Waiting.next (hs : Sound C s) (hcallers : Callers C resolves s)
    (hd : s.calls[d]? = some called) (h : Waiting s d called) :
    (∃ X ∈ heldRefs C s, ∃ i, C.cacheOf (called.ref i) = some X) ∨
    ∃ (i b : Nat) (f : φ) (below : Call τ υ), C.entryOf (called.ref i) = some (.transient f) ∧
      s.calls[b]? = some below ∧ below.parent = some d ∧ below.phase.finished = false ∧
        resolves f below.node = true := by
  cases h with
  | @cell j b x h hx =>
    have hphase := hs.phase d called hd
    unfold PhaseOk at hphase
    rw [h] at hphase
    obtain ⟨holder, k, run, hholder, hbuild⟩ := hs.held x b hx
    obtain ⟨-, hrun, -⟩ := hs.building hholder hbuild
    cases hrun with
    | cell hx' =>
      obtain ⟨X, hX, hX'⟩ := hs.cacheOf_eq hphase.2 hx'
      exact .inl ⟨X, mem_heldRefs.mpr ⟨b, k, run, holder, x, hholder, hbuild, hX'⟩, j, hX⟩
  | @factory j run b x below h hb hp hopen =>
    obtain ⟨-, hrun, -⟩ := hs.building hd h
    cases hrun with
    | cell hx =>
      obtain ⟨X, hX, -⟩ := hs.cacheOf_eq hx hx
      exact .inl ⟨X, mem_heldRefs.mpr ⟨d, j, run, called, _, hd, h, hX⟩, j, hX⟩
    | @transient f he =>
      obtain ⟨parent, k, y, run', hparent, hbuild, e, g, hentry, hg, hr⟩ :=
        hcallers.running b d below hb hp hopen
      obtain rfl := Option.some.inj (hd.symm.trans hparent)
      rw [h] at hbuild
      cases hbuild
      obtain rfl := Option.some.inj (he.symm.trans hentry)
      obtain rfl := Option.some.inj hg
      exact .inr ⟨j, b, _, below, he, hb, hp, hopen, hr⟩

theorem Waiting.not_entered (h : Waiting s d called) : called.phase ≠ .entered := by
  cases h with
  | cell h hx => rw [h]; exact nofun
  | factory h hd hp hopen => rw [h]; exact nofun

/-- A call made by a factory comes after the call that runs it, and its chain is
longer by one key. -/
theorem Callers.child (hs : Callers C resolves s) {p : Nat} {parent : Call τ υ}
    (hparent : s.calls[p]? = some parent) (hd : s.calls[d]? = some called)
    (hp : called.parent = some p) :
    p < d ∧ d < s.calls.length ∧ called.keys = parent.keys ++ [parent.node.key] := by
  rcases hs.origin d called hd with ⟨hnone, -⟩ | ⟨q, parent', hq, hlt, hparent', hkeys, -⟩
  · rw [hnone] at hp
    cases hp
  · obtain rfl := Option.some.inj (hq.symm.trans hp)
    obtain rfl := Option.some.inj (hparent.symm.trans hparent')
    exact ⟨hlt, (List.getElem?_eq_some_iff.mp hd).1, hkeys⟩

/-- **Below every unfinished call some cell is held**, and each cell whose
initialiser has led to the call holds it.  The induction goes down to later calls. -/
theorem exists_held (hs : Sound C s) (hcallers : Callers C resolves s) (hdead : Deadlock s) (n : Nat)
    (hn : s.calls.length ≤ d + n) (hd : s.calls[d]? = some called)
    (hopen : called.phase.finished = false) :
    ∃ Y ∈ heldRefs C s, ∀ (r : EntryRef τ) (X : CacheRef τ) (above keys : List (ServiceKey τ)),
      C.cacheOf r = some X → Under C resolves r keys called.node → called.keys = above ++ keys →
        Holds C resolves X Y := by
  induction n generalizing d called with
  | zero =>
    have := (List.getElem?_eq_some_iff.mp hd).1
    omega
  | succ n ih =>
    have hwait := hdead.2 d called hd hopen
    rcases hwait.next hs hcallers hd with ⟨Y, hY, i, hi⟩ | ⟨i, b, f, below, he, hb, hp, hopen', hr⟩
    · exact ⟨Y, hY, fun r X above keys hX hunder _ => ⟨r, keys, called.node, i, hX, hunder, hi⟩⟩
    · obtain ⟨hlt, -, hkeys⟩ := hcallers.child hd hb hp
      obtain ⟨Y, hY, hnext⟩ := ih (show s.calls.length ≤ b + n by omega) hb hopen'
      refine ⟨Y, hY, fun r X above keys hX hunder habove => ?_⟩
      have hchain : below.keys = above ++ (keys ++ [called.node.key]) := by
        rw [hkeys, habove, List.append_assoc]
      refine hnext r X above (keys ++ [called.node.key]) hX (.through hunder he hr ?_) hchain
      intro hmem
      have hnot := hcallers.checked b below hb hopen' (hdead.2 b below hb hopen').not_entered
      rw [hchain] at hnot
      exact hnot (List.mem_append_right above hmem)

/-- Every held cell holds another one. -/
theorem exists_holds (hs : Sound C s) (hcallers : Callers C resolves s) (hdead : Deadlock s)
    {X : CacheRef τ} (hX : X ∈ heldRefs C s) : ∃ Y ∈ heldRefs C s, Holds C resolves X Y := by
  obtain ⟨c, j, run, call, x, hc, hphase, hcache⟩ := mem_heldRefs.mp hX
  cases hdead.2 c call hc (by rw [hphase]; rfl) with
  | cell h hx =>
    rw [hphase] at h
    cases h
  | @factory k run' d y called h hd hp hopen =>
    obtain ⟨hlt, -, hkeys⟩ := hcallers.child hc hd hp
    obtain ⟨Y, hY, hholds⟩ := exists_held hs hcallers hdead s.calls.length
      (show s.calls.length ≤ d + s.calls.length by omega) hd hopen
    obtain ⟨parent, i, z, run'', hparent, hbuild, hdep⟩ := hcallers.running d c called hd hp hopen
    obtain rfl := Option.some.inj (hc.symm.trans hparent)
    rw [hphase] at hbuild
    cases hbuild
    have hnot := hcallers.checked d called hd hopen (hdead.2 d called hd hopen).not_entered
    rw [hkeys] at hnot
    have hkey : (call.ref j).key = call.node.key := call.node.ref_key j
    refine ⟨Y, hY, hholds (call.ref j) X call.keys [(call.ref j).key] hcache (.direct hdep ?_) ?_⟩
    · rw [hkey]
      exact fun hmem => hnot (List.mem_append_right call.keys hmem)
    · rw [hkeys, hkey]

/-- **A deadlock is a cycle of cells.** -/
theorem Deadlock.cycle (hs : Sound C s) (hcallers : Callers C resolves s) (hdead : Deadlock s) :
    ∃ X, Relation.TransGen (Holds C resolves) X X := by
  obtain ⟨call, hmem, hopen⟩ := hdead.1
  obtain ⟨c, hc⟩ := List.getElem?_of_mem hmem
  obtain ⟨Y, hY, -⟩ := exists_held hs hcallers hdead s.calls.length
    (show s.calls.length ≤ c + s.calls.length by omega) hc hopen
  obtain ⟨X, -, hX⟩ := exists_cycle (List.ne_nil_of_mem hY) fun X hX =>
    exists_holds hs hcallers hdead hX
  exact ⟨X, hX⟩

/-! ### Going on -/

theorem exists_busy (h : ¬ s.idle d = true) : ∃ (b : Nat) (below : Call τ υ),
    s.calls[b]? = some below ∧ below.parent = some d ∧ below.phase.finished = false := by
  by_contra hno
  refine h (List.all_eq_true.mpr fun below hmem => ?_)
  obtain ⟨b, hb⟩ := List.getElem?_of_mem hmem
  by_cases hp : below.parent = some d
  · have hfin : below.phase.finished = true := by
      by_contra hopen
      exact hno ⟨b, below, hb, hp, Bool.eq_false_iff.mpr hopen⟩
    rw [hfin, Bool.or_true]
  · rw [decide_eq_true hp, Bool.true_or]

variable [DecidableEq τ] [TypeName τ]

theorem poll_entry (hd : s.calls[d]? = some called) {j : Nat} (hphase : called.phase = .entry j)
    (hat : (C.entryAt called.node j).isSome) : (step C resolves s (.poll d)).isSome := by
  obtain ⟨e, he⟩ := Option.isSome_iff_exists.mp hat
  simp only [step, hd, pollCall, hphase, pollEntry, he]
  cases e with
  | «scoped» f =>
    cases called.scope with
    | none => rfl
    | some scope =>
      dsimp only
      split <;> rfl
  | _ => rfl

/-- **A call that does not wait goes on**: it can be polled, or its factory can end. -/
theorem Sound.goes_on (hs : Sound C s) (hd : s.calls[d]? = some called)
    (hopen : called.phase.finished = false) (hnot : ¬ Waiting s d called) :
    (step C resolves s (.poll d)).isSome ∨ (step C resolves s (.finish d (.ok ()))).isSome := by
  have hold := hs.phase d called hd
  unfold PhaseOk at hold
  cases hphase : called.phase with
  | entered =>
    left
    simp only [step, hd, pollCall, hphase, Option.isSome_some]
  | entry j =>
    rw [hphase] at hold
    exact .inl (poll_entry hd hphase hold.2)
  | slotMiss j =>
    rw [hphase] at hold
    obtain ⟨scope, hscope⟩ := Option.isSome_iff_exists.mp hold.2.1
    left
    simp only [step, hd, pollCall, hphase, hscope]
    split <;> rfl
  | cell j x =>
    left
    simp only [step, hd, pollCall, hphase]
    cases hx : s.cells x with
    | init b => exact absurd (.cell hphase hx) hnot
    | empty => rfl
    | set run => rfl
  | building j x run =>
    right
    have hidle : s.idle d = true := by
      by_contra hbusy
      obtain ⟨b, below, hb, hp, hbelow⟩ := exists_busy hbusy
      exact hnot (.factory hphase hb hp hbelow)
    simp only [step, hd, hphase, hidle]
    rfl
  | done result =>
    rw [hphase] at hopen
    cases hopen
  | dropped =>
    rw [hphase] at hopen
    cases hopen

/-! ### No deadlock -/

/-- A call that is about to be checked, and is for a key of its chain, fails at once. -/
def CyclesReported (C : Container τ υ φ) (resolves : φ → Node τ → Bool) (s : State τ υ) : Prop :=
  ∀ (c : Nat) (call : Call τ υ), s.calls[c]? = some call → call.phase = .entered →
    C.Checks call.node → call.node.key ∈ call.keys →
      ∃ (t : State τ υ) (cycle : String), step C resolves s (.poll c) = some t ∧
        t.calls[c]? = some { call with phase := .done (.error (.circularDependency
          (TypeName.typeName call.node.key.typeId) cycle)) }

theorem cyclesReported (C : Container τ υ φ) (resolves : φ → Node τ → Bool) (s : State τ υ) :
    CyclesReported C resolves s := by
  intro c call hc hphase hcheck hmem
  obtain ⟨cycle, hcycle⟩ := cycleThrough_of_mem hmem (TypeName.typeName call.node.key.typeId)
  refine ⟨s.setCall c { call with phase := C.enter call }, cycle, ?_, ?_⟩
  · simp only [step, hc, pollCall, hphase]
  · rw [← enter_of_cycle hcheck hcycle]
    exact getElem?_set_of_some hc

/-- **Calls do not all wait for each other**, in any run, if no cells hold each
other in a cycle; and a call that runs into a cycle says so. -/
theorem not_deadlock_of_holds (hholds : Acyclic (Holds C resolves))
    (h : Reach (step C resolves) (State.start τ υ) s) :
    ¬ Deadlock s ∧ CyclesReported C resolves s := by
  refine ⟨fun hdead => ?_, cyclesReported C resolves s⟩
  obtain ⟨X, hX⟩ := hdead.cycle (sound_of_reach h) (callers_of_reach h)
  exact hholds X hX

/-! ### A cycle of two -/

/-- A service with a helper that is built for each use, and uses the service. -/
def helperCalls : List (BuilderCall String Unit Bool) :=
  [.singletonFactory "Service" false, .transient "Helper" true]

def helperUses (f : Bool) (node : Node String) : Bool :=
  match f with
  | false => node = .single ⟨"Helper", none⟩
  | true => node = .single ⟨"Service", none⟩

theorem helper_cacheOf {r : EntryRef String} {X : CacheRef String}
    (h : (containerOf helperCalls).cacheOf r = some X) : r = .single ⟨"Service", none⟩ := by
  have hentries : (containerOf helperCalls).entries = Function.update
      (Function.update (fun _ => none) (⟨"Service", none⟩ : ServiceKey String)
        (some (.singleton false))) ⟨"Helper", none⟩ (some (.transient true)) := rfl
  cases r with
  | member key index => cases h
  | single key =>
    have hentry : (containerOf helperCalls).entryOf (.single key) =
        if key = ⟨"Helper", none⟩ then some (.transient true)
        else if key = ⟨"Service", none⟩ then some (.singleton false) else none := by
      show (containerOf helperCalls).entries key = _
      rw [hentries, Function.update_apply, Function.update_apply]
    unfold Container.cacheOf at h
    rw [hentry] at h
    by_cases hhelper : key = ⟨"Helper", none⟩
    · rw [if_pos hhelper] at h
      cases h
    · rw [if_neg hhelper] at h
      by_cases hservice : key = ⟨"Service", none⟩
      · rw [hservice]
      · rw [if_neg hservice] at h
        cases h

/-- The cycle check lets the factory of the service come to the helper only. -/
theorem helper_under {keys : List (ServiceKey String)} {n : Node String}
    (h : Under (containerOf helperCalls) helperUses (.single ⟨"Service", none⟩) keys n) :
    ⟨"Service", none⟩ ∈ keys ∧ n = .single ⟨"Helper", none⟩ := by
  induction h with
  | direct h hk =>
    obtain ⟨e, f, he, hf, hr⟩ := h
    obtain rfl := Option.some.inj (he.symm.trans rfl : some e = some (.singleton false))
    obtain rfl := Option.some.inj hf
    exact ⟨List.mem_singleton.mpr rfl, of_decide_eq_true hr⟩
  | @through keys n m i f h he hr hk ih =>
    obtain ⟨hmem, rfl⟩ := ih
    obtain rfl := Entry.transient.inj (Option.some.inj (he.symm.trans rfl :
      some (Entry.transient f) = some (.transient true)))
    obtain rfl : m = .single ⟨"Service", none⟩ := of_decide_eq_true hr
    exact absurd (List.mem_append_left _ hmem) hk

theorem helper_holds : Acyclic (Holds (containerOf helperCalls) helperUses) := by
  refine acyclic_of_rank (fun _ => 0) ?_
  intro X Y h
  obtain ⟨r, keys, n, i, hr, hunder, hn⟩ := h
  obtain rfl := helper_cacheOf hr
  obtain ⟨-, rfl⟩ := helper_under hunder
  cases hn

/-- The helper of the service asks for the service. -/
def helperRun : List (Action String) :=
  [.call (.single ⟨"Service", none⟩) none, .poll 0, .poll 0, .poll 0,
    .nested 0 (.single ⟨"Helper", none⟩), .poll 1, .poll 1,
    .nested 1 (.single ⟨"Service", none⟩), .poll 2]

theorem not_deadlock_helper :
    ∃ s, run (step (containerOf helperCalls) helperUses) (State.start String Unit) helperRun =
        some s ∧ s.calls.map (fun call => call.phase.finished) = [false, false, true] ∧
      ¬ Deadlock s ∧ CyclesReported (containerOf helperCalls) helperUses s := by
  have hrun : (run (step (containerOf helperCalls) helperUses) (State.start String Unit)
      helperRun).map (fun s => s.calls.map fun call => call.phase.finished) =
      some [false, false, true] := rfl
  obtain ⟨s, hs, hfinished⟩ := Option.map_eq_some_iff.mp hrun
  exact ⟨s, hs, hfinished, not_deadlock_of_holds helper_holds (reach_of_run hs)⟩

/-- Two singletons that need each other. -/
def mutualCalls : List (BuilderCall String Unit Bool) :=
  [.singletonFactory "A" false, .singletonFactory "B" true]

def mutualUses (f : Bool) (node : Node String) : Bool :=
  match f with
  | false => node = .single ⟨"B", none⟩
  | true => node = .single ⟨"A", none⟩

/-- Two tasks resolve one each; both factories are started, and then ask for the
other singleton. -/
def mutualRun : List (Action String) :=
  [.call (.single ⟨"A", none⟩) none, .call (.single ⟨"B", none⟩) none,
    .poll 0, .poll 0, .poll 0, .poll 1, .poll 1, .poll 1,
    .nested 0 (.single ⟨"B", none⟩), .nested 1 (.single ⟨"A", none⟩),
    .poll 2, .poll 2, .poll 3, .poll 3]

/-- Neither task runs into a cycle of its own, and both wait for good. -/
theorem deadlock_mutual :
    ∃ s, run (step (containerOf mutualCalls) mutualUses) (State.start String Unit) mutualRun =
      some s ∧ Deadlock s := by
  have hrun : (run (step (containerOf mutualCalls) mutualUses) (State.start String Unit)
      mutualRun).map (fun s => (s.calls, s.cells (.entry (.single ⟨"A", none⟩)),
        s.cells (.entry (.single ⟨"B", none⟩)))) =
      some ([⟨.single ⟨"A", none⟩, none, none, [], [],
          .building 0 (some (.entry (.single ⟨"A", none⟩))) 0⟩,
        ⟨.single ⟨"B", none⟩, none, none, [], [],
          .building 0 (some (.entry (.single ⟨"B", none⟩))) 1⟩,
        ⟨.single ⟨"B", none⟩, some 0, none, [(⟨"A", none⟩, "A")], [],
          .cell 0 (.entry (.single ⟨"B", none⟩))⟩,
        ⟨.single ⟨"A", none⟩, some 1, none, [(⟨"B", none⟩, "B")], [],
          .cell 0 (.entry (.single ⟨"A", none⟩))⟩], .init 0, .init 1) := rfl
  obtain ⟨s, hs, hout⟩ := Option.map_eq_some_iff.mp hrun
  obtain ⟨hcalls, hcells⟩ := Prod.mk.inj hout
  obtain ⟨hA, hB⟩ := Prod.mk.inj hcells
  refine ⟨s, hs, ⟨_, hcalls ▸ List.mem_cons_self, rfl⟩, fun c call hc _ => ?_⟩
  rw [hcalls] at hc
  match c, hc with
  | 0, hc =>
    obtain rfl := Option.some.inj hc
    exact .factory rfl (d := 2) (by rw [hcalls]; rfl) rfl rfl
  | 1, hc =>
    obtain rfl := Option.some.inj hc
    exact .factory rfl (d := 3) (by rw [hcalls]; rfl) rfl rfl
  | 2, hc =>
    obtain rfl := Option.some.inj hc
    exact .cell rfl hB
  | 3, hc =>
    obtain rfl := Option.some.inj hc
    exact .cell rfl hA
  | c + 4, hc => cases hc

end Kolas.Di

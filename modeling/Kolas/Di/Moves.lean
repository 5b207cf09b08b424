import Kolas.Di.Resolve

/-!
# The moves of the machine

`Move C resolves s t` says what one step can do, whatever the action: a call is
made, a call passes an await on its own (`Local`), a slot is added, a run starts,
or a run ends.  `step_move`: every step is a move.  The invariants are proved for
moves.
-/

namespace Kolas.Di

open Kolas.Lib

variable {τ υ φ : Type} [DecidableEq τ]

/-! ### Lookups -/

section

variable {α : Type*} {l : List α} {i j : Nat} {a b : α}

theorem getElem?_set_some (h : (l.set i a)[j]? = some b) :
    j = i ∧ b = a ∨ j ≠ i ∧ l[j]? = some b := by
  rw [List.getElem?_set] at h
  split at h
  · rename_i hij
    split at h
    · exact .inl ⟨hij.symm, (Option.some.inj h).symm⟩
    · cases h
  · rename_i hij
    exact .inr ⟨Ne.symm hij, h⟩

theorem getElem?_concat_some (h : (l ++ [a])[j]? = some b) :
    l[j]? = some b ∨ j = l.length ∧ b = a := by
  rw [List.getElem?_append] at h
  split at h
  · exact .inl h
  · rename_i hj
    obtain ⟨h0, hb⟩ := List.getElem?_eq_some_iff.mp h
    simp only [List.length_singleton] at h0
    exact .inr ⟨by omega, by rw [← hb, List.getElem_singleton]⟩

theorem getElem?_concat_of_some (h : l[j]? = some b) : (l ++ [a])[j]? = some b := by
  rw [List.getElem?_append_left (List.getElem?_eq_some_iff.mp h).1]
  exact h

theorem getElem?_modify_some {f : α → α} (h : (l.modify i f)[j]? = some b) :
    (j = i ∧ ∃ b', l[j]? = some b' ∧ b = f b') ∨ j ≠ i ∧ l[j]? = some b := by
  rw [List.getElem?_modify] at h
  obtain ⟨b', hb', hb⟩ := Option.map_eq_some_iff.mp h
  by_cases hij : i = j
  · rw [if_pos hij] at hb
    exact .inl ⟨hij.symm, b', hb', hb.symm⟩
  · rw [if_neg hij] at hb
    exact .inr ⟨Ne.symm hij, hb ▸ hb'⟩

theorem getElem?_set_of_some (h : l[i]? = some b) : (l.set i a)[i]? = some a :=
  List.getElem?_set_self (List.getElem?_eq_some_iff.mp h).1

theorem getElem?_set_of_ne {b' : α} (hi : l[i]? = some b) (hj : l[j]? = some b') (hne : b' ≠ b) :
    (l.set i a)[j]? = some b' := by
  rw [List.getElem?_set_ne, hj]
  rintro rfl
  exact hne (Option.some.inj (hj.symm.trans hi))

theorem getElem?_modify_of_some {f : α → α} (h : l[i]? = some b) :
    (l.modify i f)[i]? = some (f b) := by
  rw [List.getElem?_modify_eq, h]
  rfl

end

theorem fillCell_eq {cells : CellId τ → Cell} {x : Option (CellId τ)} {v : Cell} {y : CellId τ} :
    State.fillCell cells x v y = if x = some y then v else cells y := by
  cases x with
  | none => rfl
  | some x =>
    simp only [State.fillCell, Function.update_apply, Option.some.injEq, eq_comm]

/-! ### On to the next registration -/

section

variable {C : Container τ υ φ} {node : Node τ} {j : Nat} {l : List (Inst υ)}

omit [DecidableEq τ]

theorem next_ne_error {e : DiError} : C.next node j l ≠ .done (.error e) := by
  unfold Container.next
  split <;> exact nofun

theorem next_not_building {k run : Nat} {x : Option (CellId τ)} :
    C.next node j l ≠ .building k x run := by
  unfold Container.next
  split <;> exact nofun

theorem next_done {values : List (Inst υ)} (h : C.next node j l = .done (.ok values)) :
    C.entryAt node j = none := by
  unfold Container.next at h
  split at h
  · cases h
  · rename_i hnone
    exact Option.not_isSome_iff_eq_none.mp hnone

end

/-! ### The cycle check -/

/-- A call for the node goes through the cycle check: one for a group that is not
registered does not. -/
def Container.Checks (C : Container τ υ φ) : Node τ → Prop
  | .single _ => True
  | .group key => (C.groups key).isSome

variable [TypeName τ]

theorem enter_of_cycle {C : Container τ υ φ} {call : Call τ υ} {cycle : String}
    (hcheck : C.Checks call.node)
    (hcycle : cycleThrough call.ancestors call.node.key (TypeName.typeName call.node.key.typeId) =
      some cycle) :
    C.enter call =
      .done (.error (.circularDependency (TypeName.typeName call.node.key.typeId) cycle)) := by
  unfold Container.enter
  cases hnode : call.node with
  | single key =>
    rw [hnode] at hcycle
    simp only [Node.key] at hcycle ⊢
    rw [hcycle]
  | group key =>
    rw [hnode] at hcycle hcheck
    obtain ⟨members, hmembers⟩ := Option.isSome_iff_exists.mp hcheck
    simp only [Node.key] at hcycle ⊢
    rw [hmembers, hcycle]

/-- **What the cycle check lets through.**  A call whose key is not in its chain
goes on to its first registration, if there is one. -/
theorem enter_cases (C : Container τ υ φ) (call : Call τ υ) :
    (∃ cycle, C.Checks call.node ∧ call.node.key ∈ call.keys ∧ C.enter call =
      .done (.error (.circularDependency (TypeName.typeName call.node.key.typeId) cycle))) ∨
    (∃ tag, C.enter call =
      .done (.error (.notRegistered (TypeName.typeName call.node.key.typeId) tag))) ∨
    C.enter call = .done (.ok []) ∨
    (call.node.key ∉ call.keys ∧ (C.entryAt call.node 0).isSome ∧ C.enter call = .entry 0) := by
  cases hcycle : cycleThrough call.ancestors call.node.key
      (TypeName.typeName call.node.key.typeId) with
  | some cycle =>
    by_cases hcheck : C.Checks call.node
    · have hmem := cycleThrough_isSome_iff.mp (Option.isSome_iff_exists.mpr ⟨cycle, hcycle⟩)
      exact .inl ⟨cycle, hcheck, hmem, enter_of_cycle hcheck hcycle⟩
    · refine .inr (.inr (.inl ?_))
      unfold Container.enter
      cases hnode : call.node with
      | single key =>
        rw [hnode] at hcheck
        exact absurd trivial hcheck
      | group key =>
        rw [hnode] at hcheck
        dsimp only
        rw [Option.not_isSome_iff_eq_none.mp hcheck]
  | none =>
    have hnot : call.node.key ∉ call.keys := by
      intro hmem
      obtain ⟨cycle, hsome⟩ := cycleThrough_of_mem hmem (TypeName.typeName call.node.key.typeId)
      rw [hcycle] at hsome
      cases hsome
    have hnext (h : C.enter call = C.next call.node 0 []) :
        C.enter call = .done (.ok []) ∨
          (call.node.key ∉ call.keys ∧ (C.entryAt call.node 0).isSome ∧ C.enter call = .entry 0) := by
      rw [h]
      unfold Container.next
      split
      · rename_i hsome
        exact .inr ⟨hnot, hsome, rfl⟩
      · exact .inl rfl
    rcases hcall : call with ⟨node, parent, scope, ancestors, resolved, phase⟩
    subst hcall
    cases node with
    | single key =>
      cases hentry : C.entries key with
      | none =>
        refine .inr (.inl ⟨key.tag, ?_⟩)
        unfold Container.enter
        simp only [Node.key] at hcycle ⊢
        rw [hcycle, hentry]
      | some entry =>
        refine .inr (.inr (hnext ?_))
        unfold Container.enter
        simp only [Node.key] at hcycle ⊢
        rw [hcycle, hentry]
    | group key =>
      cases hgroup : C.groups key with
      | none =>
        refine .inr (.inr (.inl ?_))
        unfold Container.enter
        simp only [hgroup]
      | some members =>
        refine .inr (.inr (hnext ?_))
        unfold Container.enter
        simp only [Node.key] at hcycle ⊢
        rw [hgroup, hcycle]

/-! ### Moves -/

/-- A step that changes nothing but the call. -/
inductive Local (C : Container τ υ φ) (s : State τ υ) (call : Call τ υ) : Call τ υ → Prop
  | enter (h : call.phase = .entered) : Local C s call { call with phase := C.enter call }
  | given {j : Nat} {v : υ} (h : call.phase = .entry j)
      (he : C.entryAt call.node j = some (.value v)) : Local C s call (C.advance call j (.given v))
  | toCell {j : Nat} {f : φ} (h : call.phase = .entry j)
      (he : C.entryAt call.node j = some (.singleton f)) :
      Local C s call { call with phase := .cell j (.entry (call.ref j)) }
  | noScope {j : Nat} {f : φ} (h : call.phase = .entry j)
      (he : C.entryAt call.node j = some (.scoped f)) (hs : call.scope = none) :
      Local C s call { call with
        phase := .done (.error (.scopeNotActive (TypeName.typeName call.node.key.typeId))) }
  | toSlot {j n scope : Nat} {f : φ} (h : call.phase = .entry j)
      (he : C.entryAt call.node j = some (.scoped f)) (hs : call.scope = some scope)
      (hn : s.cache scope (call.ref j).slotKey = some n) :
      Local C s call { call with phase := .cell j (.slot n) }
  | slotMiss {j scope : Nat} {f : φ} (h : call.phase = .entry j)
      (he : C.entryAt call.node j = some (.scoped f)) (hs : call.scope = some scope) :
      Local C s call { call with phase := .slotMiss j }
  | slotFound {j n scope : Nat} (h : call.phase = .slotMiss j) (hs : call.scope = some scope)
      (hn : s.cache scope (call.ref j).slotKey = some n) :
      Local C s call { call with phase := .cell j (.slot n) }
  | take {j run : Nat} {x : CellId τ} (h : call.phase = .cell j x) (hx : s.cells x = .set run) :
      Local C s call (C.advance call j (.built run))
  | cancel (h : call.phase.finished = false) (hb : ∀ j x run, call.phase ≠ .building j x run) :
      Local C s call { call with phase := .dropped }

/-- The call may start a run: of a transient factory, or of the initialiser of an
empty cell. -/
inductive Starts (C : Container τ υ φ) (s : State τ υ) (call : Call τ υ) (j : Nat) :
    Option (CellId τ) → Prop
  | transient {f : φ} (h : call.phase = .entry j)
      (he : C.entryAt call.node j = some (.transient f)) : Starts C s call j none
  | cell {x : CellId τ} (h : call.phase = .cell j x) (hx : s.cells x = .empty) :
      Starts C s call j (some x)

inductive Move (C : Container τ υ φ) (resolves : φ → Node τ → Bool) (s : State τ υ) :
    State τ υ → Prop
  | call (node : Node τ) (scope : Option Nat) : Move C resolves s (s.addCall (.top node scope))
  | nested {p j run : Nat} {parent : Call τ υ} {x : Option (CellId τ)} {e : Entry υ φ} {f : φ}
      {node : Node τ} (hp : s.calls[p]? = some parent) (hphase : parent.phase = .building j x run)
      (he : C.entryAt parent.node j = some e) (hf : e.factory? = some f)
      (hr : resolves f node = true) : Move C resolves s (s.addCall (parent.child p node))
  | «local» {c : Nat} {call call' : Call τ υ} (hc : s.calls[c]? = some call)
      (h : Local C s call call') : Move C resolves s (s.setCall c call')
  | slotAdd {c j scope : Nat} {call : Call τ υ} (hc : s.calls[c]? = some call)
      (hphase : call.phase = .slotMiss j) (hs : call.scope = some scope)
      (hn : s.cache scope (call.ref j).slotKey = none) :
      Move C resolves s ((s.addSlot scope (call.ref j).slotKey).setCall c
        { call with phase := .cell j (.slot s.slots) })
  | startRun {c j : Nat} {call : Call τ υ} {x : Option (CellId τ)}
      (hc : s.calls[c]? = some call) (h : Starts C s call j x) :
      Move C resolves s (s.startRun c call j x)
  | endRun {c j run : Nat} {call : Call τ υ} {x : Option (CellId τ)} {e : RunEnd}
      (hc : s.calls[c]? = some call) (hphase : call.phase = .building j x run)
      (hidle : s.idle c = true)
      (herror : ∀ e', e = .error e' → e'.IsCircular → s.raised c e' = true) :
      Move C resolves s (s.endRun C c call j x run e)

variable {C : Container τ υ φ} {resolves : φ → Node τ → Bool} {s t : State τ υ}

theorem pollEntry_move {c j : Nat} {call : Call τ υ} (hc : s.calls[c]? = some call)
    (hphase : call.phase = .entry j) (h : pollEntry C s c call j = some t) :
    Move C resolves s t := by
  unfold pollEntry at h
  split at h
  · cases h
  · rename_i v he
    obtain rfl := Option.some.inj h
    exact .local hc (.given hphase he)
  · rename_i f he
    obtain rfl := Option.some.inj h
    exact .local hc (.toCell hphase he)
  · rename_i f he
    obtain rfl := Option.some.inj h
    exact .startRun hc (.transient hphase he)
  · rename_i f he
    split at h
    · rename_i hs
      obtain rfl := Option.some.inj h
      exact .local hc (.noScope hphase he hs)
    · rename_i scope hs
      split at h
      · rename_i n hn
        obtain rfl := Option.some.inj h
        exact .local hc (.toSlot hphase he hs hn)
      · obtain rfl := Option.some.inj h
        exact .local hc (.slotMiss hphase he hs)

theorem pollCall_move {c : Nat} {call : Call τ υ} (hc : s.calls[c]? = some call)
    (h : pollCall C s c call = some t) : Move C resolves s t := by
  unfold pollCall at h
  split at h
  · rename_i hphase
    obtain rfl := Option.some.inj h
    exact .local hc (.enter hphase)
  · rename_i j hphase
    exact pollEntry_move hc hphase h
  · rename_i j hphase
    split at h
    · cases h
    · rename_i scope hs
      split at h
      · rename_i n hn
        obtain rfl := Option.some.inj h
        exact .local hc (.slotFound hphase hs hn)
      · rename_i hn
        obtain rfl := Option.some.inj h
        exact .slotAdd hc hphase hs hn
  · rename_i j x hphase
    split at h
    · rename_i run hx
      obtain rfl := Option.some.inj h
      exact .local hc (.take hphase hx)
    · rename_i hx
      obtain rfl := Option.some.inj h
      exact .startRun hc (.cell hphase hx)
    · cases h
  · cases h
  · cases h
  · cases h

theorem step_nested {p : Nat} {node : Node τ} (h : step C resolves s (.nested p node) = some t) :
    ∃ (parent : Call τ υ) (j run : Nat) (x : Option (CellId τ)) (e : Entry υ φ) (f : φ),
      s.calls[p]? = some parent ∧ parent.phase = .building j x run ∧
        C.entryAt parent.node j = some e ∧ e.factory? = some f ∧ resolves f node = true ∧
          t = s.addCall (parent.child p node) := by
  simp only [step] at h
  split at h
  · rename_i parent hp
    split at h
    · rename_i j x run hphase
      split at h
      · rename_i f hf
        split at h
        · rename_i hr
          obtain ⟨e, he, hfactory⟩ := Option.bind_eq_some_iff.mp hf
          exact ⟨parent, j, run, x, e, f, hp, hphase, he, hfactory, hr,
            (Option.some.inj h).symm⟩
        · cases h
      · cases h
    · cases h
  · cases h

theorem finish_move {c : Nat} {result : Except DiError Unit}
    (h : step C resolves s (.finish c result) = some t) : Move C resolves s t := by
  simp only [step] at h
  split at h
  · rename_i call hc
    split at h
    · rename_i j x run hphase
      split at h
      · rename_i hidle
        split at h
        · obtain rfl := Option.some.inj h
          exact .endRun hc hphase hidle (by simp)
        · split at h
          · rename_i hraised
            obtain rfl := Option.some.inj h
            refine .endRun hc hphase hidle ?_
            intro e' he _
            cases he
            exact hraised
          · cases h
        · rename_i e hne
          obtain rfl := Option.some.inj h
          refine .endRun hc hphase hidle ?_
          intro e' he hcirc
          cases he
          cases e with
          | circularDependency typeName cycle => exact absurd rfl (hne typeName cycle)
          | notRegistered _ _ => cases hcirc
          | factoryFailed _ _ => cases hcirc
          | scopeNotActive _ => cases hcirc
      · cases h
    · cases h
  · cases h

theorem cancel_move {c : Nat} (h : step C resolves s (.cancel c) = some t) :
    Move C resolves s t := by
  simp only [step] at h
  split at h
  · rename_i call hc
    split at h
    · rename_i hidle
      split at h
      · rename_i j x run hphase
        obtain rfl := Option.some.inj h
        exact .endRun hc hphase hidle (by simp)
      · cases h
      · cases h
      · rename_i hbuilding hdone hdropped
        obtain rfl := Option.some.inj h
        refine .local hc (.cancel ?_ fun j x run hp => hbuilding j x run hp)
        cases hphase : call.phase with
        | done result => exact absurd hphase (hdone result)
        | dropped => exact absurd hphase hdropped
        | _ => rfl
    · cases h
  · cases h

/-- **Every step is a move.** -/
theorem step_move {a : Action τ} (h : step C resolves s a = some t) : Move C resolves s t := by
  cases a with
  | call node scope =>
    obtain rfl := Option.some.inj h
    exact .call node scope
  | nested p node =>
    obtain ⟨parent, j, run, x, e, f, hp, hphase, he, hf, hr, rfl⟩ := step_nested h
    exact .nested hp hphase he hf hr
  | poll c =>
    simp only [step] at h
    split at h
    · rename_i call hc
      exact pollCall_move hc h
    · cases h
  | finish c result => exact finish_move h
  | cancel c => exact cancel_move h

end Kolas.Di

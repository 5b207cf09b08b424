import Kolas.Di.Cells
import Kolas.Lib.Cycle

/-!
# Calls and the calls that make them

A call made by a factory goes on only while the factory runs, and its chain of
keys is the chain of the call that runs the factory, with that call's key.
`Callers` is this invariant, `callers_of_reach` proves it.

* `Dep`: the dependency graph.  A singular registration and a group are nodes of
  it, whatever their keys.
* `Callers.ancestor`: every key of a chain is the key of a node from which the
  graph leads to the node of the call.
* `Callers.checked`: a call that goes on after its cycle check is not for a key of
  its chain.
-/

namespace Kolas.Di

open Kolas.Lib

variable {τ υ φ : Type}

/-- A factory of the node `n` may resolve `m`. -/
def Dep (C : Container τ υ φ) (resolves : φ → Node τ → Bool) (n m : Node τ) : Prop :=
  ∃ (j : Nat) (e : Entry υ φ) (f : φ),
    C.entryAt n j = some e ∧ e.factory? = some f ∧ resolves f m = true

/-- The factory of the registration `r` may resolve `m`. -/
def RefDep (C : Container τ υ φ) (resolves : φ → Node τ → Bool) (r : EntryRef τ) (m : Node τ) :
    Prop :=
  ∃ (e : Entry υ φ) (f : φ), C.entryOf r = some e ∧ e.factory? = some f ∧ resolves f m = true

structure Callers (C : Container τ υ φ) (resolves : φ → Node τ → Bool) (s : State τ υ) : Prop where
  origin : ∀ (d : Nat) (call : Call τ υ), s.calls[d]? = some call →
    call.parent = none ∧ call.ancestors = [] ∨
    ∃ (p : Nat) (parent : Call τ υ), call.parent = some p ∧ p < d ∧ s.calls[p]? = some parent ∧
      call.keys = parent.keys ++ [parent.node.key] ∧ Dep C resolves parent.node call.node
  running : ∀ (d p : Nat) (call : Call τ υ), s.calls[d]? = some call → call.parent = some p →
    call.phase.finished = false →
      ∃ (parent : Call τ υ) (j : Nat) (x : Option (CellId τ)) (run : Nat),
        s.calls[p]? = some parent ∧ parent.phase = .building j x run ∧
          RefDep C resolves (parent.ref j) call.node
  checked : ∀ (d : Nat) (call : Call τ υ), s.calls[d]? = some call →
    call.phase.finished = false → call.phase ≠ .entered → call.node.key ∉ call.keys

theorem callers_start (C : Container τ υ φ) (resolves : φ → Node τ → Bool) :
    Callers C resolves (State.start τ υ) where
  origin := by simp [State.start]
  running := by simp [State.start]
  checked := by simp [State.start]

variable {C : Container τ υ φ} {resolves : φ → Node τ → Bool} {s t : State τ υ} {c : Nat}
  {call call' : Call τ υ}

theorem idle_finished (h : s.idle c = true) {d : Nat} (hd : s.calls[d]? = some call)
    (hp : call.parent = some c) : call.phase.finished = true := by
  have hall := List.all_eq_true.mp h call (List.mem_of_getElem? hd)
  simpa [hp] using hall

/-- What no step changes in a call. -/
structure SameCall (call call' : Call τ υ) : Prop where
  node : call'.node = call.node
  parent : call'.parent = call.parent
  scope : call'.scope = call.scope
  ancestors : call'.ancestors = call.ancestors

theorem SameCall.trans {call₁ call₂ : Call τ υ} (h : SameCall call call₁)
    (g : SameCall call₁ call₂) : SameCall call call₂ where
  node := g.node.trans h.node
  parent := g.parent.trans h.parent
  scope := g.scope.trans h.scope
  ancestors := g.ancestors.trans h.ancestors

/-- A call changes, whose factory has no unfinished call. -/
theorem Callers.set (hs : Callers C resolves s) (hc : s.calls[c]? = some call)
    (ht : t.calls = s.calls.set c call') (hsame : SameCall call call')
    (hopen : call'.phase.finished = false → call.phase.finished = false)
    (hcheck : call'.phase.finished = false → call'.phase ≠ .entered → call.node.key ∉ call.keys)
    (hidle : s.idle c = true ∨ ∀ j x run, call.phase ≠ .building j x run) :
    Callers C resolves t := by
  have hkeys : call'.keys = call.keys := by rw [Call.keys, Call.keys, hsame.ancestors]
  -- a call of `t` is one of `s`, up to its phase
  have hpast : ∀ (d : Nat) (called : Call τ υ), t.calls[d]? = some called →
      ∃ old, s.calls[d]? = some old ∧ SameCall old called ∧
        (called.phase.finished = false → old.phase.finished = false) := by
    intro d called hd
    rw [ht] at hd
    rcases getElem?_set_some hd with ⟨rfl, rfl⟩ | ⟨-, hd⟩
    · exact ⟨call, hc, hsame, hopen⟩
    · exact ⟨called, hd, ⟨rfl, rfl, rfl, rfl⟩, id⟩
  have hnext : ∀ (d : Nat) (old : Call τ υ), s.calls[d]? = some old →
      ∃ called, t.calls[d]? = some called ∧ SameCall old called := by
    intro d old hd
    rw [ht]
    by_cases hdc : d = c
    · subst hdc
      obtain rfl := Option.some.inj (hc.symm.trans hd)
      exact ⟨call', getElem?_set_of_some hc, hsame⟩
    · exact ⟨old, by rw [List.getElem?_set_ne (Ne.symm hdc), hd], ⟨rfl, rfl, rfl, rfl⟩⟩
  refine ⟨?_, ?_, ?_⟩
  · intro d called hd
    obtain ⟨old, hold, hsame', -⟩ := hpast d called hd
    rcases hs.origin d old hold with ⟨hp, ha⟩ | ⟨p, parent, hp, hlt, hparent, hk, hdep⟩
    · exact .inl ⟨hsame'.parent.trans hp, hsame'.ancestors.trans ha⟩
    · obtain ⟨parent', hparent', hsame''⟩ := hnext p parent hparent
      refine .inr ⟨p, parent', hsame'.parent.trans hp, hlt, hparent', ?_, ?_⟩
      · rw [Call.keys, hsame'.ancestors, Call.keys, hsame''.ancestors, hsame''.node]
        exact hk
      · rw [hsame''.node, hsame'.node]
        exact hdep
  · intro d p called hd hp hfin
    obtain ⟨old, hold, hsame', hopen'⟩ := hpast d called hd
    have hpold := hsame'.parent.symm.trans hp
    obtain ⟨parent, j, x, run, hparent, hbuild, hdep⟩ := hs.running d p old hold hpold (hopen' hfin)
    have hpc : c ≠ p := by
      rintro rfl
      obtain rfl := Option.some.inj (hc.symm.trans hparent)
      rcases hidle with hidle | hidle
      · have hover := idle_finished hidle hold hpold
        rw [hopen' hfin] at hover
        cases hover
      · exact hidle j x run hbuild
    refine ⟨parent, j, x, run, ?_, hbuild, ?_⟩
    · rw [ht, List.getElem?_set_ne hpc, hparent]
    · rw [hsame'.node]
      exact hdep
  · intro d called hd hfin hentered
    rw [ht] at hd
    rcases getElem?_set_some hd with ⟨rfl, rfl⟩ | ⟨-, hd⟩
    · rw [hsame.node, hkeys]
      exact hcheck hfin hentered
    · exact hs.checked d called hd hfin hentered

theorem Callers.addCall (hs : Callers C resolves s) (hphase : call.phase = .entered)
    (horigin : call.parent = none ∧ call.ancestors = [] ∨
      ∃ (p : Nat) (parent : Call τ υ) (j run : Nat) (x : Option (CellId τ)) (e : Entry υ φ) (f : φ),
        call.parent = some p ∧ s.calls[p]? = some parent ∧
          call.keys = parent.keys ++ [parent.node.key] ∧ parent.phase = .building j x run ∧
          C.entryAt parent.node j = some e ∧ e.factory? = some f ∧ resolves f call.node = true) :
    Callers C resolves (s.addCall call) where
  origin d called hd := by
    rcases getElem?_concat_some hd with hd | ⟨rfl, rfl⟩
    · rcases hs.origin d called hd with h | ⟨p, parent, hp, hlt, hparent, h⟩
      · exact .inl h
      · exact .inr ⟨p, parent, hp, hlt, getElem?_concat_of_some hparent, h⟩
    · rcases horigin with h | ⟨p, parent, j, run, x, e, f, hp, hparent, hk, -, he, hf, hr⟩
      · exact .inl h
      · have hlt := (List.getElem?_eq_some_iff.mp hparent).1
        exact .inr ⟨p, parent, hp, hlt, getElem?_concat_of_some hparent, hk, j, e, f, he, hf, hr⟩
  running d p called hd hp hfin := by
    rcases getElem?_concat_some hd with hd | ⟨rfl, rfl⟩
    · obtain ⟨parent, j, x, run, hparent, h⟩ := hs.running d p called hd hp hfin
      exact ⟨parent, j, x, run, getElem?_concat_of_some hparent, h⟩
    · rcases horigin with ⟨h, -⟩ | ⟨q, parent, j, run, x, e, f, hq, hparent, -, hb, he, hf, hr⟩
      · rw [h] at hp
        cases hp
      · obtain rfl := Option.some.inj (hq.symm.trans hp)
        exact ⟨parent, j, x, run, getElem?_concat_of_some hparent, hb, e, f,
          Container.entryOf_ref he, hf, hr⟩
  checked d called hd hfin hentered := by
    rcases getElem?_concat_some hd with hd | ⟨-, rfl⟩
    · exact hs.checked d called hd hfin hentered
    · exact absurd hphase hentered

theorem Callers.past (hs : Callers C resolves s) (hc : s.calls[c]? = some call) {p : Phase τ υ}
    (h : call.phase = p) (hfin : p.finished = false) (hp : p ≠ .entered) :
    call.node.key ∉ call.keys :=
  hs.checked c call hc (h ▸ hfin) (h ▸ hp)

/-- **A key of a chain is the key of a node that leads to the node of the call.** -/
theorem Callers.ancestor (hs : Callers C resolves s) {d : Nat} (hd : s.calls[d]? = some call)
    {key : ServiceKey τ} (hkey : key ∈ call.keys) :
    ∃ n, n.key = key ∧ Relation.TransGen (Dep C resolves) n call.node := by
  induction d using Nat.strongRecOn generalizing call with
  | ind d ih =>
    rcases hs.origin d call hd with ⟨-, hnil⟩ | ⟨p, parent, -, hlt, hparent, hkeys, hdep⟩
    · rw [Call.keys, hnil] at hkey
      cases hkey
    · rw [hkeys] at hkey
      rcases List.mem_append.mp hkey with hkey | hkey
      · obtain ⟨n, hn, hpath⟩ := ih p hlt hparent hkey
        exact ⟨n, hn, hpath.tail hdep⟩
      · exact ⟨parent.node, (List.mem_singleton.mp hkey).symm, .single hdep⟩

variable {j : Nat} {x : Option (CellId τ)} {run : Nat}

theorem Starts.open (h : Starts C s call j x) : call.phase.finished = false := by
  cases h with
  | _ h => rw [h]; rfl

theorem Starts.checked (hs : Callers C resolves s) (hc : s.calls[c]? = some call)
    (h : Starts C s call j x) : call.node.key ∉ call.keys := by
  cases h with
  | _ h => exact hs.past hc h rfl nofun

variable [DecidableEq τ] [TypeName τ]

theorem Local.same (h : Local C s call call') : SameCall call call' := by
  cases h <;> exact ⟨rfl, rfl, rfl, rfl⟩

theorem Local.open (h : Local C s call call') : call.phase.finished = false := by
  cases h with
  | cancel h hb => exact h
  | _ h => rw [h]; rfl

/-- A call that has passed the cycle check, and goes on, is not for a key of its chain. -/
theorem enter_checked (h : (C.enter call).finished = false) : call.node.key ∉ call.keys := by
  rcases enter_cases C call with ⟨cycle, -, -, he⟩ | ⟨tag, he⟩ | he | ⟨hnot, -, -⟩
  · rw [he] at h
    cases h
  · rw [he] at h
    cases h
  · rw [he] at h
    cases h
  · exact hnot

theorem Callers.local_checked (hs : Callers C resolves s) (hc : s.calls[c]? = some call)
    (h : Local C s call call') (hfin : call'.phase.finished = false) :
    call.node.key ∉ call.keys := by
  cases h with
  | enter h => exact enter_checked hfin
  | cancel h hb => cases hfin
  | _ h => exact hs.past hc h rfl nofun

/-- **Every move keeps it.** -/
theorem Callers.move (hs : Callers C resolves s) (h : Move C resolves s t) :
    Callers C resolves t := by
  cases h with
  | call node scope => exact hs.addCall rfl (.inl ⟨rfl, rfl⟩)
  | nested hp hphase he hf hr =>
    refine hs.addCall rfl (.inr ⟨_, _, _, _, _, _, _, rfl, hp, ?_, hphase, he, hf, hr⟩)
    exact List.map_append
  | «local» hc h =>
    exact hs.set hc rfl h.same (fun _ => h.open) (fun hfin _ => hs.local_checked hc h hfin)
      (.inr fun j x run => h.not_building x run)
  | slotAdd hc hphase hscope hn =>
    refine hs.set hc rfl ⟨rfl, rfl, rfl, rfl⟩ (fun _ => by rw [hphase]; rfl) (fun _ _ => ?_)
      (.inr fun j x run hb => ?_)
    · exact hs.past hc hphase rfl nofun
    · rw [hphase] at hb
      cases hb
  | startRun hc h =>
    exact hs.set hc rfl ⟨rfl, rfl, rfl, rfl⟩ (fun _ => h.open) (fun _ _ => h.checked hs hc)
      (.inr h.not_building)
  | @endRun c j run call x e hc hphase hidle herror =>
    refine hs.set hc rfl ?_ (fun _ => by rw [hphase]; rfl) (fun _ _ => ?_) (.inl hidle)
    · cases e <;> exact ⟨rfl, rfl, rfl, rfl⟩
    · exact hs.past hc hphase rfl nofun

theorem callers_of_reach (h : Reach (step C resolves) (State.start τ υ) s) :
    Callers C resolves s :=
  h.invariant (callers_start C resolves) fun _ _ _ hu _ hstep => hu.move (step_move hstep)

end Kolas.Di

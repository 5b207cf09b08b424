import Kolas.Di.Cycles
import Mathlib.Data.List.Chain

/-!
# What a reported cycle says

`cycle_through` joins the names of the chain of keys with the name of the key that is met
again.  The chain is handed down from call to call, and any number of calls run at once.

* `Callers.walk`: a chain of keys is a walk of the dependency graph that ends at the call.
* `reported_of_reach`: the text of every `CircularDependency` that a call of a run returns,
  found by itself or passed on by its factory, is a walk of the graph along different keys to
  a node with one of these keys.
* `Report.cycle`: where no singular registration and group with one key depend on each other,
  the last node of the walk is met before, and lies on a cycle of the graph.
-/

namespace Kolas.Di

open Kolas.Lib

variable {τ υ φ : Type}

/-- A walk of the graph along different keys, to a node with one of them. -/
structure Report (C : Container τ υ φ) (resolves : φ → Node τ → Bool) (nodes : List (Node τ))
    (last : Node τ) : Prop where
  walk : (nodes ++ [last]).IsChain (Dep C resolves)
  once : (nodes.map Node.key).Nodup
  back : last.key ∈ nodes.map Node.key
  checks : C.Checks last

section

variable [TypeName τ]

/-- The name of a key's type. -/
def ServiceKey.name (key : ServiceKey τ) : String := TypeName.typeName key.typeId

/-- The names along a walk. -/
def walkText (nodes : List (Node τ)) : String :=
  " -> ".intercalate (nodes.map fun n => n.key.name)

/-- The error names a walk and its last node. -/
def Reported (C : Container τ υ φ) (resolves : φ → Node τ → Bool) (e : DiError) : Prop :=
  ∃ nodes last, Report C resolves nodes last ∧
    e = .circularDependency last.key.name (walkText (nodes ++ [last]))

/-- Every cycle that a call has returned is reported so. -/
def CyclesNamed (C : Container τ υ φ) (resolves : φ → Node τ → Bool) (s : State τ υ) : Prop :=
  ∀ call ∈ s.calls, ∀ e, call.phase = .done (.error e) → e.IsCircular → Reported C resolves e

/-- The chains have the names of their keys, and no key twice. -/
structure Chains (s : State τ υ) : Prop where
  named : ∀ call ∈ s.calls, call.ancestors = call.keys.map fun key => (key, key.name)
  once : ∀ call ∈ s.calls, call.keys.Nodup

end

variable {C : Container τ υ φ} {resolves : φ → Node τ → Bool} {s t : State τ υ} {c : Nat}
  {call call' : Call τ υ} {nodes : List (Node τ)} {last : Node τ}

/-! ### Walks -/

theorem transGen_of_walk {n : Node τ} (hn : n ∈ nodes)
    (h : (nodes ++ [last]).IsChain (Dep C resolves)) :
    Relation.TransGen (Dep C resolves) n last := by
  induction nodes generalizing n with
  | nil => cases hn
  | cons m nodes ih =>
    have hrest : (nodes ++ [last]).IsChain (Dep C resolves) := h.tail
    rcases List.mem_cons.mp hn with rfl | hn
    · cases nodes with
      | nil => exact .single (List.isChain_cons_cons.mp h).1
      | cons k nodes =>
        have hstep := (List.isChain_cons_cons.mp h).1
        exact (Relation.TransGen.single hstep).trans (ih List.mem_cons_self hrest)
    · exact ih hn hrest

/-- **The walk ends with a cycle.** -/
theorem Report.cycle (h : Report C resolves nodes last) (hkeys : KeysApart C resolves) :
    last ∈ nodes ∧ Relation.TransGen (Dep C resolves) last last := by
  obtain ⟨n, hn, hkey⟩ := List.mem_map.mp h.back
  have hpath := transGen_of_walk hn h.walk
  by_cases heq : n = last
  · subst heq
    exact ⟨hn, hpath⟩
  · exact absurd hpath (hkeys n last heq hkey h.checks)

/-- **A chain of keys is a walk to the call.** -/
theorem Callers.walk (hs : Callers C resolves s) {d : Nat} (hd : s.calls[d]? = some call) :
    ∃ nodes, nodes.map Node.key = call.keys ∧
      (nodes ++ [call.node]).IsChain (Dep C resolves) := by
  induction d using Nat.strongRecOn generalizing call with
  | ind d ih =>
    rcases hs.origin d call hd with ⟨-, hnil⟩ | ⟨p, parent, -, hlt, hparent, hkeys, hdep⟩
    · refine ⟨[], ?_, List.isChain_singleton _⟩
      rw [Call.keys, hnil]
      rfl
    · obtain ⟨nodes, hnodes, hwalk⟩ := ih p hlt hparent
      refine ⟨nodes ++ [parent.node], ?_, ?_⟩
      · rw [List.map_append, hnodes, hkeys]
        rfl
      · rw [List.append_assoc]
        exact List.isChain_append_cons_cons.mpr ⟨hwalk, hdep, List.isChain_singleton _⟩

/-! ### Chains -/

section

variable [TypeName τ]

theorem Chains.set (hs : Chains s) (hc : s.calls[c]? = some call)
    (ht : t.calls = s.calls.set c call') (hsame : SameCall call call') : Chains t := by
  have hcall := List.mem_of_getElem? hc
  refine ⟨?_, ?_⟩
  · intro d hd
    rw [ht] at hd
    rcases List.mem_or_eq_of_mem_set hd with hd | rfl
    · exact hs.named d hd
    · rw [Call.keys, hsame.ancestors]
      exact hs.named call hcall
  · intro d hd
    rw [ht] at hd
    rcases List.mem_or_eq_of_mem_set hd with hd | rfl
    · exact hs.once d hd
    · rw [Call.keys, hsame.ancestors]
      exact hs.once call hcall

theorem Chains.addCall (hs : Chains s)
    (hnamed : call.ancestors = call.keys.map fun key => (key, key.name))
    (honce : call.keys.Nodup) : Chains (s.addCall call) := by
  refine ⟨?_, ?_⟩
  · intro d hd
    rcases List.mem_append.mp hd with hd | hd
    · exact hs.named d hd
    · exact List.mem_singleton.mp hd ▸ hnamed
  · intro d hd
    rcases List.mem_append.mp hd with hd | hd
    · exact hs.once d hd
    · exact List.mem_singleton.mp hd ▸ honce

theorem CyclesNamed.addCall (hs : CyclesNamed C resolves s) (hphase : call.phase = .entered) :
    CyclesNamed C resolves (s.addCall call) := by
  intro d hd e he
  rcases List.mem_append.mp hd with hd | hd
  · exact hs d hd e he
  · obtain rfl := List.mem_singleton.mp hd
    rw [hphase] at he
    cases he

theorem CyclesNamed.set (hs : CyclesNamed C resolves s)
    (ht : t.calls = s.calls.set c call')
    (hcall : ∀ e, call'.phase = .done (.error e) → e.IsCircular → Reported C resolves e) :
    CyclesNamed C resolves t := by
  intro d hd e he
  rw [ht] at hd
  rcases List.mem_or_eq_of_mem_set hd with hd | rfl
  · exact hs d hd e he
  · exact hcall e he

variable [DecidableEq τ]

theorem Chains.move (hs : Chains s) (hcallers : Callers C resolves s)
    (h : Move C resolves s t) : Chains t := by
  cases h with
  | call node scope => exact hs.addCall rfl List.nodup_nil
  | @nested p j run parent x e f node hp hphase he hf hr =>
    have hkeys : (parent.child p node : Call τ υ).keys = parent.keys ++ [parent.node.key] :=
      List.map_append
    have hnot := hcallers.past hp hphase rfl nofun
    refine hs.addCall ?_ ?_
    · rw [hkeys, List.map_append, ← hs.named parent (List.mem_of_getElem? hp)]
      rfl
    · rw [hkeys, List.nodup_append]
      refine ⟨hs.once parent (List.mem_of_getElem? hp), List.nodup_singleton _, ?_⟩
      rintro a ha b hb rfl
      exact hnot (List.mem_singleton.mp hb ▸ ha)
  | «local» hc h => exact hs.set hc rfl h.same
  | slotAdd hc hphase hscope hn => exact hs.set hc rfl ⟨rfl, rfl, rfl, rfl⟩
  | startRun hc h => exact hs.set hc rfl ⟨rfl, rfl, rfl, rfl⟩
  | @endRun c j run call x e hc hphase hidle herror =>
    refine hs.set hc rfl ?_
    cases e <;> exact ⟨rfl, rfl, rfl, rfl⟩

/-! ### Reports -/

/-- What the check says. -/
theorem enter_circular_text {e : DiError} (he : C.enter call = .done (.error e))
    (hcirc : e.IsCircular) :
    ∃ cycle, cycleThrough call.ancestors call.node.key call.node.key.name = some cycle ∧
      e = .circularDependency call.node.key.name cycle ∧ C.Checks call.node := by
  cases hcycle : cycleThrough call.ancestors call.node.key call.node.key.name with
  | none =>
    rcases enter_cases C call with ⟨-, -, hmem, -⟩ | ⟨tag, h⟩ | h | ⟨-, -, h⟩
    · obtain ⟨cycle, hsome⟩ := cycleThrough_of_mem hmem call.node.key.name
      rw [hcycle] at hsome
      cases hsome
    · rw [h] at he
      cases he
      cases hcirc
    · rw [h] at he
      cases he
    · rw [h] at he
      cases he
  | some cycle =>
    rcases enter_cases C call with ⟨-, hcheck, -, -⟩ | ⟨tag, h⟩ | h | ⟨-, -, h⟩
    · have henter := enter_of_cycle (C := C) hcheck hcycle
      rw [henter] at he
      exact ⟨cycle, rfl, by cases he; rfl, hcheck⟩
    · rw [h] at he
      cases he
      cases hcirc
    · rw [h] at he
      cases he
    · rw [h] at he
      cases he

/-- **The check reports the walk to the call.** -/
theorem reported_enter (hs : Callers C resolves s) (hchains : Chains s)
    (hc : s.calls[c]? = some call) {e : DiError} (he : C.enter call = .done (.error e))
    (hcirc : e.IsCircular) : Reported C resolves e := by
  obtain ⟨cycle, hcycle, rfl, hcheck⟩ := enter_circular_text he hcirc
  obtain ⟨nodes, hnodes, hwalk⟩ := hs.walk hc
  have hcall := List.mem_of_getElem? hc
  have hmem : call.node.key ∈ call.keys :=
    cycleThrough_isSome_iff.mp (Option.isSome_iff_exists.mpr ⟨cycle, hcycle⟩)
  refine ⟨nodes, call.node, ⟨hwalk, hnodes ▸ hchains.once call hcall, hnodes ▸ hmem, hcheck⟩, ?_⟩
  -- the names of the chain are those of the nodes
  have hnames : call.ancestors.map Prod.snd = nodes.map fun n => n.key.name := by
    rw [hchains.named call hcall, ← hnodes, List.map_map, List.map_map]
    rfl
  have hany : call.ancestors.any (fun a => a.1 = call.node.key) = true := by
    obtain ⟨a, ha, heq⟩ := List.mem_map.mp hmem
    exact List.any_eq_true.mpr ⟨a, ha, decide_eq_true heq⟩
  unfold cycleThrough at hcycle
  rw [if_pos hany, hnames] at hcycle
  obtain rfl := Option.some.inj hcycle
  rw [walkText, List.map_append]
  rfl

theorem CyclesNamed.move (hs : CyclesNamed C resolves s) (hcallers : Callers C resolves s)
    (hchains : Chains s) (h : Move C resolves s t) : CyclesNamed C resolves t := by
  cases h with
  | call node scope => exact hs.addCall rfl
  | nested hp hphase he hf hr => exact hs.addCall rfl
  | «local» hc h =>
    refine hs.set rfl ?_
    intro e he hcirc
    cases h with
    | enter h => exact reported_enter hcallers hchains hc he hcirc
    | noScope h hat hs =>
      cases he
      cases hcirc
    | given h hat => exact absurd he next_ne_error
    | take h hx => exact absurd he next_ne_error
    | _ => cases he
  | slotAdd hc hphase hscope hn => exact hs.set rfl nofun
  | startRun hc h => exact hs.set rfl nofun
  | @endRun c j run call x e hc hphase hidle herror =>
    refine hs.set rfl ?_
    intro e' he' hcirc
    cases e with
    | ok => exact absurd he' next_ne_error
    | error e =>
      cases he'
      obtain ⟨d, hd, hfailed⟩ := raised_mem (herror _ rfl hcirc)
      exact hs d hd _ hfailed hcirc
    | dropped => cases he'

/-- **Every cycle that is reported is a walk of the graph** that comes back to a key, in any
run. -/
theorem reported_of_reach (h : Reach (step C resolves) (State.start τ υ) s) :
    CyclesNamed C resolves s := by
  refine (h.invariant (P := fun u => Callers C resolves u ∧ Chains u ∧ CyclesNamed C resolves u)
    ?_ ?_).2.2
  · exact ⟨callers_start C resolves, ⟨nofun, nofun⟩, nofun⟩
  · intro u v a hu _ hstep
    obtain ⟨hcallers, hchains, hreported⟩ := hu
    have hmove := step_move hstep
    exact ⟨hcallers.move hmove, hchains.move hcallers hmove,
      hreported.move hcallers hchains hmove⟩

end

/-! ### Two services that need each other -/

/-- The factory `false` resolves the mailer, and `true` the queue. -/
def mailUses (f : Bool) (node : Node String) : Bool :=
  node = .single ⟨if f then "Queue" else "Mailer", none⟩

def mailCalls : List (BuilderCall String Unit Bool) :=
  [.singletonFactory "Queue" false, .singletonFactory "Mailer" true]

/-- The queue is resolved, which resolves the mailer, which resolves the queue. -/
def mailRun : List (Action String) :=
  [.call (.single ⟨"Queue", none⟩) none, .poll 0, .poll 0, .poll 0,
    .nested 0 (.single ⟨"Mailer", none⟩), .poll 1, .poll 1, .poll 1,
    .nested 1 (.single ⟨"Queue", none⟩), .poll 2]

theorem reported_mail :
    ∃ s, run (step (containerOf mailCalls) mailUses) (State.start String Unit) mailRun = some s ∧
      s.calls[2]?.map Call.phase =
        some (.done (.error (.circularDependency "Queue" "Queue -> Mailer -> Queue"))) ∧
      CyclesNamed (containerOf mailCalls) mailUses s := by
  have hrun : (run (step (containerOf mailCalls) mailUses) (State.start String Unit)
      mailRun).map (fun s => s.calls[2]?.map Call.phase) =
      some (some (.done (.error (.circularDependency "Queue" "Queue -> Mailer -> Queue")))) := rfl
  obtain ⟨s, hs, hphase⟩ := Option.map_eq_some_iff.mp hrun
  exact ⟨s, hs, hphase, reported_of_reach (reach_of_run hs)⟩

end Kolas.Di

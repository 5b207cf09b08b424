import Mathlib.Logic.Relation
import Mathlib.Data.List.Basic

/-!
# Runs of a partial step function

A machine is a function `step : σ → α → Option σ`: the action `a` takes the
state `s` to `step s a`, and is not enabled when that is `none`.  `run` performs
a list of actions.  `Reaches step ok s t` says that some run takes `s` to `t`
with every action of it meeting `ok` in the state it is performed in; `Reach`
puts no condition on the actions.

* `Reaches.invariant`: what holds at the start and is kept by every step that
  meets `ok` holds at the end.
* `Reaches.simulate`: a machine whose steps are steps of another one, or none, has
  no other runs.
* `countP_le_measure`: a measure bounds how often an action is performed.
* `reaches_of_run`: an executed run is a run, and meets `ok` if its actions do
  (`RunOk`).
-/

namespace Kolas.Lib

variable {σ α : Type*} {step : σ → α → Option σ} {ok ok' : σ → α → Prop}

/-- The list of actions `acts`, performed one after another. -/
def run (step : σ → α → Option σ) (s : σ) : List α → Option σ
  | [] => some s
  | a :: acts => (step s a).bind fun t => run step t acts

/-- One step whose action meets `ok`. -/
def StepOk (step : σ → α → Option σ) (ok : σ → α → Prop) (s t : σ) : Prop :=
  ∃ a, ok s a ∧ step s a = some t

/-- Some run takes `s` to `t`, every action of it meeting `ok`. -/
def Reaches (step : σ → α → Option σ) (ok : σ → α → Prop) : σ → σ → Prop :=
  Relation.ReflTransGen (StepOk step ok)

/-- Some run takes `s` to `t`. -/
abbrev Reach (step : σ → α → Option σ) : σ → σ → Prop := Reaches step fun _ _ => True

namespace Reaches

theorem refl (s : σ) : Reaches step ok s s := Relation.ReflTransGen.refl

theorem trans {s t u : σ} (h : Reaches step ok s t) (g : Reaches step ok t u) :
    Reaches step ok s u := Relation.ReflTransGen.trans h g

theorem tail {s t u : σ} {a : α} (h : Reaches step ok s t) (ha : ok t a)
    (hu : step t a = some u) : Reaches step ok s u := Relation.ReflTransGen.tail h ⟨a, ha, hu⟩

theorem single {s t : σ} {a : α} (ha : ok s a) (ht : step s a = some t) : Reaches step ok s t :=
  (refl s).tail ha ht

/-- **The invariant rule.**  What holds at the start and is kept by every step
that meets `ok` holds at the end of every such run. -/
theorem invariant {P : σ → Prop} {s t : σ} (h : Reaches step ok s t) (hs : P s)
    (hstep : ∀ u v a, P u → ok u a → step u a = some v → P v) : P t := by
  induction h with
  | refl => exact hs
  | tail _ hlast ih =>
    obtain ⟨a, ha, hv⟩ := hlast
    exact hstep _ _ a ih ha hv

theorem mono {s t : σ} (h : Reaches step ok s t) (himp : ∀ u a, ok u a → ok' u a) :
    Reaches step ok' s t := by
  induction h with
  | refl => exact refl s
  | tail _ hlast ih =>
    obtain ⟨a, ha, hv⟩ := hlast
    exact ih.tail (himp _ a ha) hv

/-- **The simulation rule.**  Where every step of the first machine is, seen
through `f`, a step of the second one or none, its runs are runs of the second. -/
theorem simulate {τ β : Type*} {step' : τ → β → Option τ} {f : σ → τ} {s t : σ}
    (h : Reaches step ok s t) (hstep : ∀ u v a, step u a = some v →
      f v = f u ∨ ∃ b, step' (f u) b = some (f v)) : Reach step' (f s) (f t) := by
  induction h with
  | refl => exact refl (f s)
  | @tail u v _ hlast ih =>
    obtain ⟨a, -, hv⟩ := hlast
    rcases hstep u v a hv with hstutter | ⟨b, hb⟩
    · rw [hstutter]
      exact ih
    · exact ih.tail trivial hb

end Reaches

/-- Every action of the list meets `ok` in the state it is performed in. -/
def RunOk (step : σ → α → Option σ) (ok : σ → α → Prop) (s : σ) : List α → Prop
  | [] => True
  | a :: acts => ok s a ∧ ∀ t, step s a = some t → RunOk step ok t acts

theorem RunOk.cons {s t : σ} {a : α} {acts : List α} (ha : ok s a) (ht : step s a = some t)
    (h : RunOk step ok t acts) : RunOk step ok s (a :: acts) := by
  refine ⟨ha, fun u hu => ?_⟩
  rw [ht] at hu
  exact Option.some.inj hu ▸ h

theorem reaches_of_run {acts : List α} {s t : σ} (h : run step s acts = some t)
    (hok : RunOk step ok s acts) : Reaches step ok s t := by
  induction acts generalizing s with
  | nil =>
    obtain rfl : s = t := Option.some.inj h
    exact Reaches.refl s
  | cons a acts ih =>
    obtain ⟨u, hu, ht⟩ := Option.bind_eq_some_iff.mp h
    exact (Reaches.single hok.1 hu).trans (ih ht (hok.2 u hu))

/-- A list of actions that meet `ok` in every state. -/
theorem runOk_of_forall {acts : List α} (h : ∀ a ∈ acts, ∀ s, ok s a) (s : σ) :
    RunOk step ok s acts := by
  induction acts generalizing s with
  | nil => trivial
  | cons a acts ih =>
    refine ⟨h a List.mem_cons_self s, fun t _ => ih ?_ t⟩
    exact fun b hb => h b (List.mem_cons_of_mem a hb)

theorem RunOk.append {acts acts' : List α} {s : σ} (h : RunOk step ok s acts)
    (h' : ∀ t, run step s acts = some t → RunOk step ok t acts') :
    RunOk step ok s (acts ++ acts') := by
  induction acts generalizing s with
  | nil => exact h' s rfl
  | cons a acts ih =>
    refine ⟨h.1, fun t ht => ih (h.2 t ht) fun u hu => h' u ?_⟩
    rw [run, ht]
    exact hu

theorem run_append (acts acts' : List α) (s : σ) :
    run step s (acts ++ acts') = (run step s acts).bind fun t => run step t acts' := by
  induction acts generalizing s with
  | nil => rfl
  | cons a acts ih =>
    rw [List.cons_append, run, run, Option.bind_assoc]
    exact congrArg _ (funext ih)

/-- **The measure rule.**  Where every step of a kind makes the measure smaller, and no
other makes it greater, a run has no more of that kind than the measure at its start. -/
theorem countP_le_measure {P : σ → Prop} {measure : σ → Nat} {kind : α → Bool}
    (hstep : ∀ u v a, P u → step u a = some v →
      P v ∧ measure v + (if kind a then 1 else 0) ≤ measure u)
    {acts : List α} {s t : σ} (hs : P s) (h : run step s acts = some t) :
    acts.countP kind + measure t ≤ measure s := by
  induction acts generalizing s with
  | nil =>
    obtain rfl : s = t := Option.some.inj h
    simp
  | cons a acts ih =>
    obtain ⟨u, hu, ht⟩ := Option.bind_eq_some_iff.mp h
    obtain ⟨hP, hless⟩ := hstep s u a hs hu
    have hrest := ih hP ht
    rw [List.countP_cons]
    omega

theorem reach_of_run {acts : List α} {s t : σ} (h : run step s acts = some t) :
    Reach step s t := reaches_of_run h (runOk_of_forall (fun _ _ _ => trivial) s)

end Kolas.Lib

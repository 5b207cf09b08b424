import Kolas.Di.Callers

/-!
# The cycle check

The check compares the key of a call with the keys of its chain.  A singular
registration and a group are different nodes of the dependency graph, and have
the same key if the tag is the group's name or both are absent.  A singular key is
compared before it is looked up, registered or not.

* `noCircular_of_keysApart`: if the graph has no cycles, and no path leads from a
  singular key to the group with this key, or back (`KeysApart`), then no call ever
  returns `CircularDependency`.
-/

namespace Kolas.Di

open Kolas.Lib

variable {τ υ φ : Type}

/-- No call has returned `CircularDependency`. -/
def NoCircular (s : State τ υ) : Prop :=
  ∀ call ∈ s.calls, ∀ e, call.phase = .done (.error e) → ¬ e.IsCircular

/-- Of a singular key, registered or not, and the group with it, none depends on the other. -/
def KeysApart (C : Container τ υ φ) (resolves : φ → Node τ → Bool) : Prop :=
  ∀ n m : Node τ, n ≠ m → n.key = m.key → C.Checks m →
    ¬ Relation.TransGen (Dep C resolves) n m

variable {C : Container τ υ φ} {resolves : φ → Node τ → Bool} {s t : State τ υ} {c : Nat}
  {call call' : Call τ υ} {e : DiError}

theorem NoCircular.addCall (hs : NoCircular s) (hphase : call.phase = .entered) :
    NoCircular (s.addCall call) := by
  intro d hd e he
  rcases List.mem_append.mp hd with hd | hd
  · exact hs d hd e he
  · obtain rfl := List.mem_singleton.mp hd
    rw [hphase] at he
    cases he

theorem NoCircular.set (hs : NoCircular s) (ht : t.calls = s.calls.set c call')
    (hnot : ∀ e, call'.phase = .done (.error e) → ¬ e.IsCircular) : NoCircular t := by
  intro d hd e he
  rw [ht] at hd
  rcases List.mem_or_eq_of_mem_set hd with hd | rfl
  · exact hs d hd e he
  · exact hnot e he

theorem raised_mem (h : s.raised c e = true) :
    ∃ d ∈ s.calls, d.phase = .done (.error e) := by
  obtain ⟨d, hd, hraised⟩ := List.any_eq_true.mp h
  refine ⟨d, hd, ?_⟩
  have hphase := (Bool.and_eq_true_iff.mp hraised).2
  split at hphase
  · rename_i e' he
    rw [he, of_decide_eq_true hphase]
  · cases hphase

variable [DecidableEq τ] [TypeName τ]

/-- **The check.**  It fails only where a path leads back to a node with the key. -/
theorem Callers.enter_circular (hs : Callers C resolves s) (hc : s.calls[c]? = some call)
    (he : C.enter call = .done (.error e)) (hcirc : e.IsCircular) :
    ∃ n, n.key = call.node.key ∧ C.Checks call.node ∧
      Relation.TransGen (Dep C resolves) n call.node := by
  rcases enter_cases C call with ⟨cycle, hcheck, hmem, -⟩ | ⟨tag, h⟩ | h | ⟨-, -, h⟩
  · obtain ⟨n, hn, hpath⟩ := hs.ancestor hc hmem
    exact ⟨n, hn, hcheck, hpath⟩
  · rw [h] at he
    cases he
    cases hcirc
  · rw [h] at he
    cases he
  · rw [h] at he
    cases he

theorem Local.not_circular (hs : Callers C resolves s) (hacyclic : Acyclic (Dep C resolves))
    (hkeys : KeysApart C resolves) (hc : s.calls[c]? = some call) (h : Local C s call call')
    (he : call'.phase = .done (.error e)) : ¬ e.IsCircular := by
  intro hcirc
  cases h with
  | enter h =>
    obtain ⟨n, hn, hcheck, hpath⟩ := hs.enter_circular hc he hcirc
    by_cases heq : n = call.node
    · exact hacyclic call.node (heq ▸ hpath)
    · exact hkeys n call.node heq hn hcheck hpath
  | noScope h hat hs =>
    cases he
    cases hcirc
  | given h hat => exact next_ne_error he
  | take h hx => exact next_ne_error he
  | _ => cases he

theorem NoCircular.move (hs : NoCircular s) (hcallers : Callers C resolves s)
    (hacyclic : Acyclic (Dep C resolves)) (hkeys : KeysApart C resolves)
    (h : Move C resolves s t) : NoCircular t := by
  cases h with
  | call node scope => exact hs.addCall rfl
  | nested hp hphase he hf hr => exact hs.addCall rfl
  | «local» hc h => exact hs.set rfl fun e he => h.not_circular hcallers hacyclic hkeys hc he
  | slotAdd hc hphase hscope hn => exact hs.set rfl nofun
  | startRun hc h => exact hs.set rfl nofun
  | @endRun c j run call x e hc hphase hidle herror =>
    refine hs.set rfl fun e' he' hcirc => ?_
    cases e with
    | ok => exact next_ne_error he'
    | error e =>
      cases he'
      obtain ⟨d, hd, hfailed⟩ := raised_mem (herror _ rfl hcirc)
      exact hs d hd _ hfailed hcirc
    | dropped => cases he'

/-- **The check reports no false cycle**, in any run, if singular registrations and
groups with one key do not depend on each other. -/
theorem noCircular_of_keysApart (hacyclic : Acyclic (Dep C resolves))
    (hkeys : KeysApart C resolves) (h : Reach (step C resolves) (State.start τ υ) s) :
    NoCircular s := by
  refine (h.invariant (P := fun u => Callers C resolves u ∧ NoCircular u) ?_ ?_).2
  · exact ⟨callers_start C resolves, nofun⟩
  · intro u v a ⟨hcallers, hu⟩ _ hstep
    have hmove := step_move hstep
    exact ⟨hcallers.move hmove, hu.move hcallers hacyclic hkeys hmove⟩

/-! ### A report made of all reports -/

/-- The factory `false` collects the group of all reports. -/
def reportUses (f : Bool) (node : Node String) : Bool := !f && node = .group ⟨"Report", none⟩

/-- The group of all reports has one member, of the factory `true`. -/
def reportGroups : ServiceKey String → Option (List (Entry Unit Bool)) :=
  Function.update (fun _ => none) ⟨"Report", none⟩ (some [.singleton true])

theorem reportGroups_factory {C : Container String Unit Bool} (hC : C.groups = reportGroups)
    {key : ServiceKey String} {j : Nat} {e : Entry Unit Bool}
    (h : C.entryAt (.group key) j = some e) : e.factory? = some true := by
  obtain ⟨members, hmembers, hj⟩ := Option.bind_eq_some_iff.mp h
  rw [hC, reportGroups, Function.update_apply] at hmembers
  split at hmembers
  · obtain rfl := Option.some.inj hmembers
    obtain rfl := List.mem_singleton.mp (List.mem_of_getElem? hj)
    rfl
  · cases hmembers

/-- Only singular registrations depend on the group. -/
theorem reportUses_dep {C : Container String Unit Bool} (hC : C.groups = reportGroups)
    {n m : Node String} (h : Dep C reportUses n m) :
    (∃ key, n = .single key ∧ (C.entries key).isSome) ∧ m = .group ⟨"Report", none⟩ := by
  obtain ⟨j, e, f, he, hf, hr⟩ := h
  cases f with
  | true => cases hr
  | false =>
    refine ⟨?_, of_decide_eq_true hr⟩
    cases n with
    | group key =>
      rw [reportGroups_factory hC he] at hf
      cases hf
    | single key =>
      cases j with
      | zero => exact ⟨key, rfl, Option.isSome_iff_exists.mpr ⟨e, he⟩⟩
      | succ j => cases he

theorem reportUses_acyclic {C : Container String Unit Bool} (hC : C.groups = reportGroups) :
    Acyclic (Dep C reportUses) := by
  refine acyclic_of_rank (fun n => match n with | .single _ => 1 | .group _ => 0) ?_
  intro n m h
  obtain ⟨⟨key, rfl, -⟩, rfl⟩ := reportUses_dep hC h
  exact Nat.zero_lt_one

/-- The report of all reports is tagged. -/
def taggedReportCalls : List (BuilderCall String Unit Bool) :=
  [.singletonFactoryTagged "Report" "all" false, .multibindFactory "Report" true]

theorem taggedReport_keysApart : KeysApart (containerOf taggedReportCalls) reportUses := by
  intro n m hne hkey hcheck hpath
  obtain ⟨k, hdep, -⟩ := Relation.TransGen.head'_iff.mp hpath
  obtain ⟨l, -, hlast⟩ := Relation.TransGen.tail'_iff.mp hpath
  obtain ⟨⟨key, rfl, hentry⟩, -⟩ := reportUses_dep rfl hdep
  obtain ⟨-, rfl⟩ := reportUses_dep rfl hlast
  obtain rfl : key = ⟨"Report", none⟩ := hkey
  cases hentry

/-- The tagged report is resolved, and its factory resolves the group. -/
def taggedReportRun : List (Action String) :=
  [.call (.single ⟨"Report", some "all"⟩) none, .poll 0, .poll 0, .poll 0,
    .nested 0 (.group ⟨"Report", none⟩), .poll 1, .poll 1, .poll 1, .finish 1 (.ok ()),
    .finish 0 (.ok ())]

theorem noCircular_taggedReport :
    ∃ s, run (step (containerOf taggedReportCalls) reportUses) (State.start String Unit)
      taggedReportRun = some s ∧ s.runs.map FactoryRun.outcome = [.ok, .ok] ∧ NoCircular s := by
  have hrun : (run (step (containerOf taggedReportCalls) reportUses) (State.start String Unit)
      taggedReportRun).map (fun s => s.runs.map FactoryRun.outcome) = some [.ok, .ok] := rfl
  obtain ⟨s, hs, houtcome⟩ := Option.map_eq_some_iff.mp hrun
  exact ⟨s, hs, houtcome, noCircular_of_keysApart (reportUses_acyclic rfl) taggedReport_keysApart
    (reach_of_run hs)⟩

/-- Neither the report of all reports is tagged nor the group is named. -/
def reportCalls : List (BuilderCall String Unit Bool) :=
  [.singletonFactory "Report" false, .multibindFactory "Report" true]

def reportRun : List (Action String) :=
  [.call (.single ⟨"Report", none⟩) none, .poll 0, .poll 0, .poll 0,
    .nested 0 (.group ⟨"Report", none⟩), .poll 1]

/-- The report of all reports, on which none of them depends, is reported as a cycle. -/
theorem not_noCircular_report :
    Acyclic (Dep (containerOf reportCalls) reportUses) ∧
      ∃ s, run (step (containerOf reportCalls) reportUses) (State.start String Unit) reportRun =
        some s ∧ ¬ NoCircular s := by
  have hrun : (run (step (containerOf reportCalls) reportUses) (State.start String Unit)
      reportRun).map (fun s => s.calls[1]?.map Call.phase) =
      some (some (.done (.error (.circularDependency "Report" "Report -> Report")))) := rfl
  obtain ⟨s, hs, hout⟩ := Option.map_eq_some_iff.mp hrun
  obtain ⟨call, hcall, hphase⟩ := Option.map_eq_some_iff.mp hout
  refine ⟨reportUses_acyclic rfl, s, hs, fun hno => ?_⟩
  exact hno call (List.mem_of_getElem? hcall) _ hphase trivial

end Kolas.Di

import Kolas.Di.Container
import Kolas.Lib.Keyed

/-!
# What the built container holds

Sixteen methods of the builder make one `Registration` each: an entry of one
`Kind` under one key.  `registered` lists the entries that a sequence of calls
registers under a key, in the order of the calls.

`frozen_of_calls`: a singular lookup finds the last of them, a group is all of
them, and neither depends on the order of calls with different kinds or keys.
-/

namespace Kolas.Di

open Kolas.Lib

variable {τ υ φ : Type}

/-- The list of the builder that a method pushes to. -/
inductive Kind
  | singular
  | multibinding
  deriving DecidableEq, Repr

structure Registration (τ υ φ : Type) where
  kind : Kind
  key : ServiceKey τ
  entry : Entry υ φ

/-- What a method of the builder registers. -/
def BuilderCall.registration : BuilderCall τ υ φ → Registration τ υ φ
  | .singleton typeId value => ⟨.singular, ⟨typeId, none⟩, .value value⟩
  | .singletonTagged typeId tag value => ⟨.singular, ⟨typeId, some tag⟩, .value value⟩
  | .singletonFactory typeId factory => ⟨.singular, ⟨typeId, none⟩, .singleton factory⟩
  | .singletonFactoryTagged typeId tag factory =>
    ⟨.singular, ⟨typeId, some tag⟩, .singleton factory⟩
  | .transient typeId factory => ⟨.singular, ⟨typeId, none⟩, .transient factory⟩
  | .transientTagged typeId tag factory => ⟨.singular, ⟨typeId, some tag⟩, .transient factory⟩
  | .scoped typeId factory => ⟨.singular, ⟨typeId, none⟩, .scoped factory⟩
  | .scopedTagged typeId tag factory => ⟨.singular, ⟨typeId, some tag⟩, .scoped factory⟩
  | .multibind typeId value => ⟨.multibinding, ⟨typeId, none⟩, .value value⟩
  | .multibindGroup typeId group value => ⟨.multibinding, ⟨typeId, some group⟩, .value value⟩
  | .multibindFactory typeId factory => ⟨.multibinding, ⟨typeId, none⟩, .singleton factory⟩
  | .multibindFactoryGroup typeId group factory =>
    ⟨.multibinding, ⟨typeId, some group⟩, .singleton factory⟩
  | .multibindTransient typeId factory => ⟨.multibinding, ⟨typeId, none⟩, .transient factory⟩
  | .multibindTransientGroup typeId group factory =>
    ⟨.multibinding, ⟨typeId, some group⟩, .transient factory⟩
  | .multibindScoped typeId factory => ⟨.multibinding, ⟨typeId, none⟩, .scoped factory⟩
  | .multibindScopedGroup typeId group factory =>
    ⟨.multibinding, ⟨typeId, some group⟩, .scoped factory⟩

/-- The two calls register under one kind and key. -/
def BuilderCall.SameKey (a b : BuilderCall τ υ φ) : Prop :=
  a.registration.kind = b.registration.kind ∧ a.registration.key = b.registration.key

/-- The pairs that the calls push to one of the builder's lists. -/
def pushed (kind : Kind) (calls : List (BuilderCall τ υ φ)) : List (ServiceKey τ × Entry υ φ) :=
  (calls.filter fun call => call.registration.kind = kind).map fun call =>
    (call.registration.key, call.registration.entry)

theorem pushed_cons (kind : Kind) (call : BuilderCall τ υ φ) (calls : List (BuilderCall τ υ φ)) :
    pushed kind (call :: calls) = pushed kind [call] ++ pushed kind calls := by
  by_cases h : call.registration.kind = kind
  · simp [pushed, h]
  · simp [pushed, h]

def ContainerBuilder.register (b : ContainerBuilder τ υ φ) (r : Registration τ υ φ) :
    ContainerBuilder τ υ φ :=
  match r.kind with
  | .singular => { b with entries := b.entries ++ [(r.key, r.entry)] }
  | .multibinding => { b with multibindings := b.multibindings ++ [(r.key, r.entry)] }

/-- **A method of the builder makes its registration and nothing else.** -/
theorem apply_eq (b : ContainerBuilder τ υ φ) (call : BuilderCall τ υ φ) :
    call.apply b = b.register call.registration := by
  cases call <;> rfl

theorem entries_apply (b : ContainerBuilder τ υ φ) (call : BuilderCall τ υ φ) :
    (call.apply b).entries = b.entries ++ pushed .singular [call] := by
  rw [apply_eq]
  cases h : call.registration.kind <;> simp [ContainerBuilder.register, pushed, h]

theorem multibindings_apply (b : ContainerBuilder τ υ φ) (call : BuilderCall τ υ φ) :
    (call.apply b).multibindings = b.multibindings ++ pushed .multibinding [call] := by
  rw [apply_eq]
  cases h : call.registration.kind <;> simp [ContainerBuilder.register, pushed, h]

/-- The two lists of the builder after a sequence of calls. -/
theorem lists_foldl (calls : List (BuilderCall τ υ φ)) (b : ContainerBuilder τ υ φ) :
    (calls.foldl BuilderCall.apply b).entries = b.entries ++ pushed .singular calls ∧
      (calls.foldl BuilderCall.apply b).multibindings =
        b.multibindings ++ pushed .multibinding calls := by
  induction calls generalizing b with
  | nil => exact ⟨(List.append_nil _).symm, (List.append_nil _).symm⟩
  | cons call calls ih =>
    obtain ⟨hentries, hmembers⟩ := ih (call.apply b)
    rw [List.foldl_cons, hentries, hmembers, entries_apply, multibindings_apply,
      pushed_cons .singular call calls, pushed_cons .multibinding call calls]
    exact ⟨List.append_assoc .., List.append_assoc ..⟩

variable [DecidableEq τ]

/-- The entries that the calls register under the kind and the key, in order. -/
def registered (kind : Kind) (key : ServiceKey τ) (calls : List (BuilderCall τ υ φ)) :
    List (Entry υ φ) :=
  (calls.filter fun call => call.registration.kind = kind ∧ call.registration.key = key).map
    fun call => call.registration.entry

theorem valuesAt_pushed (kind : Kind) (key : ServiceKey τ) (calls : List (BuilderCall τ υ φ)) :
    valuesAt key (pushed kind calls) = registered kind key calls := by
  induction calls with
  | nil => rfl
  | cons call calls ih =>
    rw [pushed_cons, valuesAt, List.filter_append, List.map_append]
    show valuesAt key (pushed kind [call]) ++ valuesAt key (pushed kind calls) = _
    rw [ih]
    by_cases hk : call.registration.kind = kind
    · by_cases hkey : call.registration.key = key
      · simp [pushed, valuesAt, registered, hk, hkey]
      · simp [pushed, valuesAt, registered, hk, hkey]
    · simp [pushed, valuesAt, registered, hk]

/-! ### The maps -/

/-- **A singular lookup finds the last registration.** -/
theorem entries_containerOf (calls : List (BuilderCall τ υ φ)) (key : ServiceKey τ) :
    (containerOf calls).entries key = (registered .singular key calls).getLast? := by
  have hlist : (calls.foldl BuilderCall.apply .new).entries = pushed .singular calls :=
    (lists_foldl calls .new).1
  rw [containerOf, ContainerBuilder.build, hlist]
  refine (foldl_update _ _ key).trans ?_
  rw [valuesAt_pushed, Option.or_none]

/-- **A group is its multibindings in the order of the calls.**  Without any the
key is not in the map. -/
theorem groups_containerOf (calls : List (BuilderCall τ υ φ)) (key : ServiceKey τ) :
    (containerOf calls).groups key =
      if registered .multibinding key calls = [] then none
      else some (registered .multibinding key calls) := by
  have hlist : (calls.foldl BuilderCall.apply .new).multibindings = pushed .multibinding calls :=
    (lists_foldl calls .new).2
  rw [containerOf, ContainerBuilder.build, hlist]
  refine (foldl_collect _ _ key).trans ?_
  rw [valuesAt_pushed, Option.getD_none, List.nil_append]

omit [DecidableEq τ] in
theorem container_ext {C C' : Container τ υ φ} (hentries : ∀ key, C.entries key = C'.entries key)
    (hgroups : ∀ key, C.groups key = C'.groups key) : C = C' := by
  cases C
  cases C'
  obtain rfl := funext hentries
  obtain rfl := funext hgroups
  rfl

/-- The calls, made in the order of the positions `order`. -/
def reordered (calls : List (BuilderCall τ υ φ)) (order : List (Fin calls.length)) :
    List (BuilderCall τ υ φ) :=
  order.map calls.get

theorem registered_reordered {calls : List (BuilderCall τ υ φ)} {order : List (Fin calls.length)}
    (hperm : order.Perm (List.finRange calls.length))
    (horder : order.Pairwise fun i j => (calls.get i).SameKey (calls.get j) → i < j)
    (kind : Kind) (key : ServiceKey τ) :
    registered kind key (reordered calls order) = registered kind key calls := by
  unfold registered reordered
  rw [filter_reorder hperm]
  refine horder.imp fun h hi hj => h ?_
  obtain ⟨hik, hikey⟩ := of_decide_eq_true hi
  obtain ⟨hjk, hjkey⟩ := of_decide_eq_true hj
  exact ⟨hik.trans hjk.symm, hikey.trans hjkey.symm⟩

/-- **Freezing registrations is faithful.** -/
theorem frozen_of_calls (calls : List (BuilderCall τ υ φ)) :
    (∀ key, (containerOf calls).entries key = (registered .singular key calls).getLast?) ∧
    (∀ key, ((containerOf calls).groups key).getD [] = registered .multibinding key calls) ∧
    ∀ order : List (Fin calls.length), order.Perm (List.finRange calls.length) →
      order.Pairwise (fun i j => (calls.get i).SameKey (calls.get j) → i < j) →
      containerOf (reordered calls order) = containerOf calls := by
  refine ⟨entries_containerOf calls, ?_, ?_⟩
  · intro key
    rw [groups_containerOf]
    split
    · rename_i h
      rw [h, Option.getD_none]
    · rw [Option.getD_some]
  · intro order hperm horder
    refine container_ext (fun key => ?_) fun key => ?_
    · rw [entries_containerOf, entries_containerOf, registered_reordered hperm horder]
    · rw [groups_containerOf, groups_containerOf, registered_reordered hperm horder]

/-- A logger twice, and a member of the group of loggers between the two. -/
def loggerCalls : List (BuilderCall String Nat Unit) :=
  [.singleton "Logger" 0, .multibind "Logger" 1, .singleton "Logger" 2]

/-- The member first, then the loggers. -/
def loggerOrder : List (Fin loggerCalls.length) :=
  [⟨1, by decide⟩, ⟨0, by decide⟩, ⟨2, by decide⟩]

/-- The second logger replaces the first, wherever the member is registered. -/
theorem frozen_loggers :
    (containerOf (reordered loggerCalls loggerOrder)).entries ⟨"Logger", none⟩ =
      some (.value 2) := by
  have hsame : containerOf (reordered loggerCalls loggerOrder) = containerOf loggerCalls := by
    refine (frozen_of_calls loggerCalls).2.2 loggerOrder (by decide) ?_
    unfold BuilderCall.SameKey
    decide
  rw [hsame]
  rfl

end Kolas.Di

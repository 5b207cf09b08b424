import Kolas.Lib.Digits
import Kolas.Schedule.Builder
import Kolas.Schedule.Scheduler

/-!
# The registry

`command`, `command_with_args` and `call` of `schedule/registry.rs`.  A command's
events have the command's name as their id, whatever the arguments; a closure's id
is made of its event's place in the schedule.

* `registered_events`: the event that a registration makes.
* `apart_iff`: when no two `without_overlapping` events have one id.
-/

set_option linter.dupNamespace false

namespace Kolas.Schedule

variable {ζ φ : Type}

/-- A method of the registry. -/
inductive RegistryCall (φ : Type)
  | command (name : String)
  | commandWithArgs (name : String) (rawArgs : List String)
  | call (f : φ)

/-- `format!("closure-{}", self.events.len())`. -/
def closureId (len : Nat) : String := "closure-" ++ toString len

/-- The task of the event, pushed on `len` events. -/
def RegistryCall.task (len : Nat) : RegistryCall φ → ScheduledTask φ
  | .command name => .command name []
  | .commandWithArgs name rawArgs => .command name rawArgs
  | .call f => .closure (closureId len) f

/-- A call of the registry, and the builder calls on the event it returns. -/
structure Registration (φ : Type) where
  call : RegistryCall φ
  configure : List EventCall

/-- The event of a registration. -/
def Registration.event (parseTz : String → Option ζ) (r : Registration φ) (len : Nat) :
    Event ζ φ := (Event.new (r.call.task len)).configured parseTz r.configure

/-- `push_event`, and the builder calls. -/
def Schedule.register (parseTz : String → Option ζ) (schedule : Schedule ζ φ)
    (r : Registration φ) : Schedule ζ φ :=
  { schedule with events := schedule.events ++ [r.event parseTz schedule.events.length] }

/-- The schedule of a sequence of registrations. -/
def registered (parseTz : String → Option ζ) (defaultTimezone : ζ)
    (registrations : List (Registration φ)) : Schedule ζ φ :=
  registrations.foldl (Schedule.register parseTz) ⟨[], defaultTimezone⟩

variable {parseTz : String → Option ζ} {tz : ζ} {registrations : List (Registration φ)}

/-- **The event of each registration.** -/
theorem registered_events (parseTz : String → Option ζ) (tz : ζ)
    (registrations : List (Registration φ)) :
    (registered parseTz tz registrations).events =
      registrations.zipIdx.map fun entry => entry.1.event parseTz entry.2 := by
  unfold registered
  induction registrations using List.reverseRecOn with
  | nil => rfl
  | append_singleton registrations r ih =>
    rw [List.foldl_append, List.foldl_cons, List.foldl_nil, Schedule.register, ih,
      List.zipIdx_append, List.map_append, List.length_map, List.length_zipIdx]
    simp

theorem registered_getElem? (parseTz : String → Option ζ) (tz : ζ)
    (registrations : List (Registration φ)) (i : Nat) :
    (registered parseTz tz registrations).events[i]? =
      registrations[i]?.map fun r => r.event parseTz i := by
  rw [registered_events, List.getElem?_map, List.getElem?_zipIdx, Option.map_map]
  simp [Function.comp_def]

theorem Registration.event_id (r : Registration φ) (i : Nat) :
    (r.event parseTz i).id = (r.call.task i).id := by
  rw [Event.id, Registration.event, Event.configured_task]
  rfl

/-! ### Ids -/

theorem closureId_inj {i j : Nat} (h : closureId i = closureId j) : i = j := by
  have hlist := congrArg String.toList h
  simp only [closureId, String.toList_append] at hlist
  exact Lib.toString_toList_inj (List.append_cancel_left hlist)

/-- The name of a command. -/
def RegistryCall.commandName : RegistryCall φ → Option String
  | .command name => some name
  | .commandWithArgs name _ => some name
  | .call _ => none

theorem RegistryCall.task_id (c : RegistryCall φ) (len : Nat) :
    (c.task len).id = c.commandName.getD (closureId len) := by
  cases c <;> rfl

/-- No two `without_overlapping` events have one id. -/
def Schedule.IdsApart (schedule : Schedule ζ φ) : Prop :=
  ∀ (i j : Nat) (e e' : Event ζ φ), schedule.events[i]? = some e → schedule.events[j]? = some e' →
    e.withoutOverlapping = true → e'.withoutOverlapping = true → e.id = e'.id → i = j

/-- The `i`-th registration is of a `without_overlapping` event. -/
def LocksAt (parseTz : String → Option ζ) (registrations : List (Registration φ)) (i : Nat)
    (r : Registration φ) : Prop :=
  registrations[i]? = some r ∧ (r.event parseTz i).withoutOverlapping = true

/-- No two of the `without_overlapping` events are of one command, and none is of
a command with the name of another one's closure. -/
structure NamesApart (parseTz : String → Option ζ) (registrations : List (Registration φ)) :
    Prop where
  commands : ∀ i j r r' name, LocksAt parseTz registrations i r →
    LocksAt parseTz registrations j r' → r.call.commandName = some name →
    r'.call.commandName = some name → i = j
  closures : ∀ i j r r', LocksAt parseTz registrations i r → LocksAt parseTz registrations j r' →
    r'.call.commandName = none → r.call.commandName ≠ some (closureId j)

/-- **When the ids tell the events apart.** -/
theorem apart_iff (parseTz : String → Option ζ) (tz : ζ) (registrations : List (Registration φ)) :
    (registered parseTz tz registrations).IdsApart ↔ NamesApart parseTz registrations := by
  have hevent {i : Nat} {r : Registration φ} (h : LocksAt parseTz registrations i r) :
      (registered parseTz tz registrations).events[i]? = some (r.event parseTz i) := by
    rw [registered_getElem?, h.1]
    rfl
  constructor
  · intro h
    refine ⟨?_, ?_⟩
    · intro i j r r' name hi hj hname hname'
      refine h i j _ _ (hevent hi) (hevent hj) hi.2 hj.2 ?_
      rw [r.event_id, r'.event_id, r.call.task_id, r'.call.task_id, hname, hname']
      rfl
    · intro i j r r' hi hj hclosure hname
      have hij : i = j := by
        refine h i j _ _ (hevent hi) (hevent hj) hi.2 hj.2 ?_
        rw [r.event_id, r'.event_id, r.call.task_id, r'.call.task_id, hname, hclosure]
        rfl
      obtain rfl := hij
      obtain rfl := Option.some.inj (hi.1.symm.trans hj.1)
      rw [hname] at hclosure
      cases hclosure
  · intro h i j e e' hi hj hwo hwo' hid
    rw [registered_getElem?] at hi hj
    obtain ⟨r, hr, rfl⟩ := Option.map_eq_some_iff.mp hi
    obtain ⟨r', hr', rfl⟩ := Option.map_eq_some_iff.mp hj
    rw [r.event_id, r'.event_id, r.call.task_id, r'.call.task_id] at hid
    cases hname : r.call.commandName with
    | some name =>
      cases hname' : r'.call.commandName with
      | some name' =>
        rw [hname, hname'] at hid
        exact h.commands i j r r' name ⟨hr, hwo⟩ ⟨hr', hwo'⟩ hname
          (hname'.trans (congrArg some hid.symm))
      | none =>
        rw [hname, hname'] at hid
        exact absurd (hname.trans (congrArg some hid))
          (h.closures i j r r' ⟨hr, hwo⟩ ⟨hr', hwo'⟩ hname')
    | none =>
      cases hname' : r'.call.commandName with
      | some name' =>
        rw [hname, hname'] at hid
        exact absurd (hname'.trans (congrArg some hid.symm))
          (h.closures j i r' r ⟨hr', hwo'⟩ ⟨hr, hwo⟩ hname)
      | none =>
        rw [hname, hname'] at hid
        exact closureId_inj hid

end Kolas.Schedule

import Kolas.Di.Container
import Kolas.Lib.Run

/-!
# Resolution

`Container::resolve_with_tag`, `resolve_group`, `resolve_entry` and
`Scope::resolve_for` as one machine in which any number of calls run at once.  A
call is a future: it goes from one await point to the next when it is polled, and
any other call may go on in between.

* A `Call` resolves a node.  A call made by a factory has the call that runs the
  factory as its parent, and inherits its scope (`CURRENT_SCOPE`) and its chain
  of keys (`RESOLVING_STACK`) with its own key appended.
* A `Cell` is a `OnceCell`: it is empty, or a call is running its initialiser, or
  it is set.  A call that finds an initialiser running waits.
* A scope's cache maps keys to slots.  A call reads it, and, if the key is
  missing, inserts a new slot in a second step, under the write lock.
* A `FactoryRun` is one run of a factory; what a run builds is known by the run's
  number.

What a factory does between its calls is not modelled: it makes calls for nodes
it `resolves`, in any number and order and several at once, and when none of
them is unfinished it ends, well or with an error.  An error `CircularDependency`
it only passes on from a call of its own.  A future may be dropped at any time.
-/

namespace Kolas.Di

open Kolas.Lib

variable {τ υ φ : Type}

/-- An `Arc`: one that was registered, or what a run of a factory built. -/
inductive Inst (υ : Type)
  | given (v : υ)
  | built (run : Nat)
  deriving DecidableEq, Repr

/-- A `OnceCell`: a singleton's, or an allocated slot. -/
inductive CellId (τ : Type)
  | entry (r : EntryRef τ)
  | slot (n : Nat)
  deriving DecidableEq, Repr

inductive Cell
  | empty
  | init (call : Nat)
  | set (run : Nat)
  deriving DecidableEq, Repr

/-- Where a call is; `j` counts the registrations of its node.

* `entered`: before the cycle check.
* `entry j`: about to resolve the `j`-th registration.
* `slotMiss j`: it did not find a slot, and has not taken the write lock.
* `cell j x`: at `get_or_try_init` of `x`.
* `building j x run`: running the factory, as the initialiser of `x` if any. -/
inductive Phase (τ υ : Type)
  | entered
  | entry (j : Nat)
  | slotMiss (j : Nat)
  | cell (j : Nat) (x : CellId τ)
  | building (j : Nat) (x : Option (CellId τ)) (run : Nat)
  | done (result : Except DiError (List (Inst υ)))
  | dropped

def Phase.finished : Phase τ υ → Bool
  | .done _ => true
  | .dropped => true
  | _ => false

structure Call (τ υ : Type) where
  node : Node τ
  parent : Option Nat
  scope : Option Nat
  ancestors : List (ServiceKey τ × String)
  resolved : List (Inst υ)
  phase : Phase τ υ

inductive RunOutcome
  | running
  | ok
  | failed
  | dropped
  deriving DecidableEq, Repr

structure FactoryRun (τ : Type) where
  call : Nat
  ref : EntryRef τ
  scope : Option Nat
  cell : Option (CellId τ)
  outcome : RunOutcome
  deriving DecidableEq, Repr

structure State (τ υ : Type) where
  calls : List (Call τ υ)
  cells : CellId τ → Cell
  cache : Nat → ServiceKey τ → Option Nat
  slots : Nat
  runs : List (FactoryRun τ)

/-- No call has been made. -/
def State.start (τ υ : Type) : State τ υ := ⟨[], fun _ => .empty, fun _ _ => none, 0, []⟩

/-! ### Calls -/

def Call.keys (call : Call τ υ) : List (ServiceKey τ) := call.ancestors.map Prod.fst

/-- The registration a call is at. -/
def Call.ref (call : Call τ υ) (j : Nat) : EntryRef τ := call.node.ref j

/-- A call made outside of any factory. -/
def Call.top (node : Node τ) (scope : Option Nat) : Call τ υ := ⟨node, none, scope, [], [], .entered⟩

section

variable [DecidableEq τ] [TypeName τ]

/-- A call made by the factory that the call `p` runs. -/
def Call.child (parent : Call τ υ) (p : Nat) (node : Node τ) : Call τ υ where
  node := node
  parent := some p
  scope := parent.scope
  ancestors := parent.ancestors ++ [(parent.node.key, TypeName.typeName parent.node.key.typeId)]
  resolved := []
  phase := .entered

/-- On to the `j`-th registration, or to the end. -/
def Container.next (C : Container τ υ φ) (node : Node τ) (j : Nat) (resolved : List (Inst υ)) :
    Phase τ υ :=
  if (C.entryAt node j).isSome then .entry j else .done (.ok resolved)

/-- The beginning of `resolve_with_tag` and of `resolve_group`, up to the first
registration.  A group that is not registered is empty before the cycle check. -/
def Container.enter (C : Container τ υ φ) (call : Call τ υ) : Phase τ υ :=
  let typeName := TypeName.typeName call.node.key.typeId
  match call.node with
  | .single key =>
    match cycleThrough call.ancestors key typeName with
    | some cycle => .done (.error (.circularDependency typeName cycle))
    | none =>
      match C.entries key with
      | none => .done (.error (.notRegistered typeName key.tag))
      | some _ => C.next (.single key) 0 []
  | .group key =>
    match C.groups key with
    | none => .done (.ok [])
    | some _ =>
      match cycleThrough call.ancestors key typeName with
      | some cycle => .done (.error (.circularDependency typeName cycle))
      | none => C.next (.group key) 0 []

/-- The `j`-th registration has been resolved. -/
def Container.advance (C : Container τ υ φ) (call : Call τ υ) (j : Nat) (inst : Inst υ) :
    Call τ υ :=
  { call with
    resolved := call.resolved ++ [inst]
    phase := C.next call.node (j + 1) (call.resolved ++ [inst]) }

end

namespace State

def addCall (s : State τ υ) (call : Call τ υ) : State τ υ := { s with calls := s.calls ++ [call] }

def setCall (s : State τ υ) (c : Nat) (call : Call τ υ) : State τ υ :=
  { s with calls := s.calls.set c call }

/-- The calls the factory of `c` has made are over. -/
def idle (s : State τ υ) (c : Nat) : Bool :=
  s.calls.all fun d => d.parent ≠ some c || d.phase.finished

/-- A call that the factory of `c` made has failed with `e`. -/
def raised (s : State τ υ) (c : Nat) (e : DiError) : Bool :=
  s.calls.any fun d => d.parent = some c &&
    match d.phase with
    | .done (.error e') => e' = e
    | _ => false

variable [DecidableEq τ]

def fillCell (cells : CellId τ → Cell) (x : Option (CellId τ)) (cell : Cell) : CellId τ → Cell :=
  match x with
  | some x => Function.update cells x cell
  | none => cells

/-- A new slot in the cache of the scope. -/
def addSlot (s : State τ υ) (scope : Nat) (key : ServiceKey τ) : State τ υ :=
  { s with
    cache := Function.update s.cache scope (Function.update (s.cache scope) key (some s.slots))
    slots := s.slots + 1 }

/-- The call `c` starts the factory of its `j`-th registration. -/
def startRun (s : State τ υ) (c : Nat) (call : Call τ υ) (j : Nat) (x : Option (CellId τ)) :
    State τ υ :=
  { s with
    calls := s.calls.set c { call with phase := .building j x s.runs.length }
    cells := fillCell s.cells x (.init c)
    runs := s.runs ++ [⟨c, call.ref j, call.scope, x, .running⟩] }

end State

/-- How a run ends. -/
inductive RunEnd
  | ok
  | error (e : DiError)
  | dropped

def RunEnd.outcome : RunEnd → RunOutcome
  | .ok => .ok
  | .error _ => .failed
  | .dropped => .dropped

/-- What is left in the cell: `get_or_try_init` stores only on `Ok`. -/
def RunEnd.cell (run : Nat) : RunEnd → Cell
  | .ok => .set run
  | .error _ => .empty
  | .dropped => .empty

section

variable [DecidableEq τ] [TypeName τ]

/-- What becomes of the call. -/
def RunEnd.call (C : Container τ υ φ) (call : Call τ υ) (j run : Nat) : RunEnd → Call τ υ
  | .ok => C.advance call j (.built run)
  | .error e => { call with phase := .done (.error e) }
  | .dropped => { call with phase := .dropped }

/-- The call `c`, which was building, ends its run. -/
def State.endRun (C : Container τ υ φ) (s : State τ υ) (c : Nat) (call : Call τ υ) (j : Nat)
    (x : Option (CellId τ)) (run : Nat) (e : RunEnd) : State τ υ :=
  { s with
    calls := s.calls.set c (e.call C call j run)
    cells := fillCell s.cells x (e.cell run)
    runs := s.runs.modify run fun r => { r with outcome := e.outcome } }

/-! ### Steps -/

inductive Action (τ : Type)
  | call (node : Node τ) (scope : Option Nat)
  | nested (p : Nat) (node : Node τ)
  | poll (c : Nat)
  | finish (c : Nat) (result : Except DiError Unit)
  | cancel (c : Nat)

/-- `resolve_entry`, up to its first await. -/
def pollEntry (C : Container τ υ φ) (s : State τ υ) (c : Nat) (call : Call τ υ) (j : Nat) :
    Option (State τ υ) :=
  match C.entryAt call.node j with
  | none => none
  | some (.value v) => some (s.setCall c (C.advance call j (.given v)))
  | some (.singleton _) => some (s.setCall c { call with phase := .cell j (.entry (call.ref j)) })
  | some (.transient _) => some (s.startRun c call j none)
  | some (.scoped _) =>
    match call.scope with
    | none =>
      some (s.setCall c { call with
        phase := .done (.error (.scopeNotActive (TypeName.typeName call.node.key.typeId))) })
    | some scope =>
      match s.cache scope (call.ref j).slotKey with
      | some n => some (s.setCall c { call with phase := .cell j (.slot n) })
      | none => some (s.setCall c { call with phase := .slotMiss j })

/-- A call goes on to its next await. -/
def pollCall (C : Container τ υ φ) (s : State τ υ) (c : Nat) (call : Call τ υ) :
    Option (State τ υ) :=
  match call.phase with
  | .entered => some (s.setCall c { call with phase := C.enter call })
  | .entry j => pollEntry C s c call j
  | .slotMiss j =>
    match call.scope with
    | none => none
    | some scope =>
      match s.cache scope (call.ref j).slotKey with
      | some n => some (s.setCall c { call with phase := .cell j (.slot n) })
      | none => some ((s.addSlot scope (call.ref j).slotKey).setCall c
          { call with phase := .cell j (.slot s.slots) })
  | .cell j x =>
    match s.cells x with
    | .set run => some (s.setCall c (C.advance call j (.built run)))
    | .empty => some (s.startRun c call j (some x))
    | .init _ => none
  | .building _ _ _ => none
  | .done _ => none
  | .dropped => none

def step (C : Container τ υ φ) (resolves : φ → Node τ → Bool) (s : State τ υ) :
    Action τ → Option (State τ υ)
  | .call node scope => some (s.addCall (.top node scope))
  | .nested p node =>
    match s.calls[p]? with
    | some parent =>
      match parent.phase with
      | .building j _ _ =>
        match (C.entryAt parent.node j).bind Entry.factory? with
        | some factory =>
          if resolves factory node then some (s.addCall (parent.child p node)) else none
        | none => none
      | _ => none
    | none => none
  | .poll c =>
    match s.calls[c]? with
    | some call => pollCall C s c call
    | none => none
  | .finish c result =>
    match s.calls[c]? with
    | some call =>
      match call.phase with
      | .building j x run =>
        if s.idle c then
          match result with
          | .ok _ => some (s.endRun C c call j x run .ok)
          | .error (.circularDependency typeName cycle) =>
            if s.raised c (.circularDependency typeName cycle) then
              some (s.endRun C c call j x run (.error (.circularDependency typeName cycle)))
            else none
          | .error e => some (s.endRun C c call j x run (.error e))
        else none
      | _ => none
    | none => none
  | .cancel c =>
    match s.calls[c]? with
    | some call =>
      if s.idle c then
        match call.phase with
        | .building j x run => some (s.endRun C c call j x run .dropped)
        | .done _ => none
        | .dropped => none
        | _ => some (s.setCall c { call with phase := .dropped })
      else none
    | none => none

end

end Kolas.Di

import Kolas.Logging.Tasks
import Kolas.Logging.Layer

/-!
# The queue sink

`logging/sink/queue.rs`: `on_event` of the layer in front of the channel, and the publisher
behind it.  The layer excludes no target and never waits, so that an event that finds the
channel full is lost without a word; the publisher takes the entries one by one, and has
done with an entry when it is published or when what went wrong is on stderr.

* `QueueSink.step`: the layer with the publisher of `Logging.Tasks`, and a record of what
  was accepted, refused and handled.
* `handled_in_order`: over any run the entries are handled in the order in which they were
  accepted, each once, the lines on stderr are those of the failures, and nothing is lost
  before the channel has been full.
* `handled_of_stopped`: once the layer is dropped, every run ends, and then with everything
  handled that was accepted.
-/

namespace Kolas.Logging

open Kolas.Lib

/-- How the publisher has done with an entry. -/
inductive Handled
  | published
  | unserialized (err : String)
  | unpublished (err : String)
  deriving DecidableEq, Repr

/-- What it prints. -/
def Handled.line : Handled → Option String
  | .published => none
  | .unserialized err => some ("[kolas/log] QueueSink: serialization error: " ++ err)
  | .unpublished err => some ("[kolas/log] QueueSink: publish to 'null' failed: " ++ err)

/-- The publisher, with the entry it has in hand and a record of all entries that passed
the level. -/
structure QueueSink where
  worker : QueueWorker LogEntry
  inHand : Option LogEntry
  accepted : List LogEntry
  refused : List LogEntry
  handled : List (LogEntry × Handled)

inductive QueueAction
  | event (e : Emission)
  | drop
  | receive (payload : Except String Unit)
  | published (result : Except String Unit)
  | disconnected

namespace QueueSink

/-- As `build_queue_layer` leaves it. -/
def init : QueueSink where
  worker := ⟨[], false, .receiving, []⟩
  inHand := none
  accepted := []
  refused := []
  handled := []

variable (capacity : Nat) (level : LevelFilter)

/-- `on_event`. -/
def onEvent (s : QueueSink) (e : Emission) : Option QueueSink :=
  if !levelPasses e.event.level level then some s
  else
    (s.worker.step capacity (.send e.entry)).map fun worker =>
      if s.worker.queue.length < capacity then
        { s with worker := worker, accepted := s.accepted ++ [e.entry] }
      else { s with worker := worker, refused := s.refused ++ [e.entry] }

/-- A step of the layer or of the publisher. -/
def step (s : QueueSink) : QueueAction → Option QueueSink
  | .event e => if s.worker.closed then none else onEvent capacity level s e
  | .drop => if s.worker.closed then none else some { s with worker.closed := true }
  | .receive payload =>
    (s.worker.step capacity (.receive payload)).map fun worker =>
      match payload, s.worker.queue.head? with
      | .error err, some entry =>
        { s with worker := worker, handled := s.handled ++ [(entry, .unserialized err)] }
      | _, entry => { s with worker := worker, inHand := entry }
  | .published result =>
    (s.worker.step capacity (.published result)).map fun worker =>
      let outcome := match result with
        | .ok () => Handled.published
        | .error err => .unpublished err
      { s with
        worker := worker
        inHand := none
        handled := s.handled ++ s.inHand.toList.map fun entry => (entry, outcome) }
  | .disconnected => (s.worker.step capacity .disconnected).map fun worker => { s with worker := worker }

/-- The entry an action offers to the channel. -/
def offered : QueueAction → Option LogEntry
  | .event e => if levelPasses e.event.level level then some e.entry else none
  | _ => none

variable {capacity level}

/-- **What a step does.** -/
inductive Step (capacity : Nat) (level : LevelFilter) (s : QueueSink) : QueueAction → QueueSink → Prop
  | below {e : Emission} (hopen : s.worker.closed = false)
      (hlevel : levelPasses e.event.level level = false) : Step capacity level s (.event e) s
  | accept {e : Emission} (hopen : s.worker.closed = false)
      (hlevel : levelPasses e.event.level level = true) (hroom : s.worker.queue.length < capacity) :
      Step capacity level s (.event e)
        { s with worker.queue := s.worker.queue ++ [e.entry], accepted := s.accepted ++ [e.entry] }
  | refuse {e : Emission} (hopen : s.worker.closed = false)
      (hlevel : levelPasses e.event.level level = true) (hfull : capacity ≤ s.worker.queue.length) :
      Step capacity level s (.event e) { s with refused := s.refused ++ [e.entry] }
  | drop (hopen : s.worker.closed = false) :
      Step capacity level s .drop { s with worker.closed := true }
  | take {entry : LogEntry} {rest : List LogEntry} (hphase : s.worker.phase = .receiving)
      (hqueue : s.worker.queue = entry :: rest) :
      Step capacity level s (.receive (.ok ()))
        { s with
          worker.queue := rest
          worker.phase := .publishing
          inHand := some entry }
  | discard {err : String} {entry : LogEntry} {rest : List LogEntry}
      (hphase : s.worker.phase = .receiving) (hqueue : s.worker.queue = entry :: rest) :
      Step capacity level s (.receive (.error err))
        { s with
          worker.queue := rest
          worker.printed := s.worker.printed ++ (Handled.unserialized err).line.toList
          handled := s.handled ++ [(entry, .unserialized err)] }
  | publish {result : Except String Unit} (outcome : Handled)
      (hphase : s.worker.phase = .publishing) :
      Step capacity level s (.published result)
        { s with
          worker.phase := .receiving
          worker.printed := s.worker.printed ++ outcome.line.toList
          inHand := none
          handled := s.handled ++ s.inHand.toList.map fun entry => (entry, outcome) }
  | finish (hphase : s.worker.phase = .receiving) (hqueue : s.worker.queue = [])
      (hclosed : s.worker.closed = true) :
      Step capacity level s .disconnected { s with worker.phase := .returned }

theorem step_cases {s t : QueueSink} {a : QueueAction} (h : step capacity level s a = some t) :
    Step capacity level s a t := by
  cases a with
  | event e =>
    simp only [step, Option.ite_none_left_eq_some, Bool.not_eq_true] at h
    obtain ⟨hopen, h⟩ := h
    cases hlevel : levelPasses e.event.level level with
    | false =>
      obtain rfl : s = t := by simpa [onEvent, hlevel] using h
      exact .below hopen hlevel
    | true =>
      by_cases hroom : s.worker.queue.length < capacity
      · have hsend : s.worker.step capacity (.send e.entry) =
            some { s.worker with queue := s.worker.queue ++ [e.entry] } := by
          simp only [QueueWorker.step, hopen, hroom, if_true, Bool.false_eq_true, if_false]
        simp only [onEvent, hlevel, hsend, hroom, Bool.not_true, Bool.false_eq_true, if_false, if_true,
          Option.map_some, Option.some.injEq] at h
        subst h
        exact .accept hopen hlevel hroom
      · have hsend : s.worker.step capacity (.send e.entry) = some s.worker := by
          simp [QueueWorker.step, hopen, hroom]
        simp only [onEvent, hlevel, hsend, hroom, Bool.not_true, Bool.false_eq_true, if_false,
          Option.map_some, Option.some.injEq] at h
        subst h
        exact .refuse hopen hlevel (Nat.le_of_not_lt hroom)
  | drop =>
    simp only [step, Option.ite_none_left_eq_some, Bool.not_eq_true, Option.some.injEq] at h
    obtain ⟨hopen, rfl⟩ := h
    exact .drop hopen
  | receive payload =>
    obtain ⟨worker, hworker, rfl⟩ := Option.map_eq_some_iff.mp h
    simp only [QueueWorker.step] at hworker
    split at hworker
    · rename_i entry rest hphase hqueue
      cases payload with
      | ok u =>
        obtain rfl : _ = worker := Option.some.inj hworker
        rw [hqueue]
        exact .take hphase hqueue
      | error err =>
        obtain rfl : _ = worker := Option.some.inj hworker
        rw [hqueue]
        exact .discard hphase hqueue
    · cases hworker
  | published result =>
    obtain ⟨worker, hworker, rfl⟩ := Option.map_eq_some_iff.mp h
    simp only [QueueWorker.step, Option.ite_none_right_eq_some, Option.some.injEq] at hworker
    obtain ⟨hphase, rfl⟩ := hworker
    cases result with
    | ok u =>
      have hstep : Step capacity level s (.published (.ok u)) _ := .publish .published hphase
      simpa [Handled.line] using hstep
    | error err => exact .publish (.unpublished err) hphase
  | disconnected =>
    obtain ⟨worker, hworker, rfl⟩ := Option.map_eq_some_iff.mp h
    simp only [QueueWorker.step, Option.ite_none_right_eq_some, Option.some.injEq] at hworker
    obtain ⟨⟨hphase, hqueue, hclosed⟩, rfl⟩ := hworker
    exact .finish hphase (List.isEmpty_iff.mp hqueue) hclosed

/-! ### The order -/

/-- What every step keeps. -/
structure Ordered (capacity : Nat) (s : QueueSink) : Prop where
  order : s.accepted = s.handled.map Prod.fst ++ s.inHand.toList ++ s.worker.queue
  hand : s.inHand.isSome = true ↔ s.worker.phase = .publishing
  lines : s.worker.printed = s.handled.filterMap fun h => h.2.line
  full : s.refused ≠ [] → capacity ≤ s.accepted.length
  ended : s.worker.phase = .returned → s.worker.queue = [] ∧ s.worker.closed = true

theorem ordered_init (capacity : Nat) : Ordered capacity init where
  order := rfl
  hand := by simp [init]
  lines := rfl
  full := fun h => absurd rfl h
  ended := nofun

/-- The entry in hand, while it is published. -/
theorem Ordered.exists_inHand {s : QueueSink} (h : Ordered capacity s)
    (hphase : s.worker.phase = .publishing) : ∃ entry, s.inHand = some entry :=
  Option.isSome_iff_exists.mp (h.hand.mpr hphase)

theorem Ordered.inHand_eq_none {s : QueueSink} (h : Ordered capacity s)
    (hphase : s.worker.phase ≠ .publishing) : s.inHand = none := by
  cases hinHand : s.inHand with
  | none => rfl
  | some entry => exact absurd (h.hand.mp (by rw [hinHand]; rfl)) hphase

/-- What is in the channel has been accepted. -/
theorem Ordered.queue_length_le {s : QueueSink} (h : Ordered capacity s) :
    s.worker.queue.length ≤ s.accepted.length := by
  rw [h.order, List.length_append]
  exact Nat.le_add_left _ _

theorem Ordered.step {s t : QueueSink} {a : QueueAction} (h : Ordered capacity s)
    (hstep : step capacity level s a = some t) : Ordered capacity t := by
  cases step_cases hstep with
  | below hopen hlevel => exact h
  | accept hopen hlevel hroom =>
    refine ⟨?_, h.hand, h.lines, fun hlost => ?_, fun hphase => ?_⟩
    · rw [h.order, List.append_assoc]
    · exact (h.full hlost).trans (by simp)
    · rw [(h.ended hphase).2] at hopen
      cases hopen
  | refuse hopen hlevel hfull =>
    exact ⟨h.order, h.hand, h.lines, fun _ => hfull.trans h.queue_length_le, h.ended⟩
  | drop hopen => exact ⟨h.order, h.hand, h.lines, h.full, fun hphase => ⟨(h.ended hphase).1, rfl⟩⟩
  | @take entry rest hphase hqueue =>
    have hnone := h.inHand_eq_none (by simp [hphase])
    refine ⟨?_, by simp, h.lines, h.full, nofun⟩
    rw [h.order, hnone, hqueue]
    simp
  | @discard err entry rest hphase hqueue =>
    have hnone := h.inHand_eq_none (by simp [hphase])
    refine ⟨?_, h.hand, ?_, h.full, fun hreturned => ?_⟩
    · rw [h.order, hnone, hqueue]
      simp
    · rw [h.lines, List.filterMap_append]
      rfl
    · rw [hphase] at hreturned
      cases hreturned
  | publish outcome hphase =>
    obtain ⟨entry, hentry⟩ := h.exists_inHand hphase
    refine ⟨?_, by simp, ?_, h.full, nofun⟩
    · rw [h.order, hentry]
      simp
    · rw [h.lines, hentry, List.filterMap_append]
      cases hline : outcome.line with
      | none => simp [hline]
      | some line => simp [hline]
  | finish hphase hqueue hclosed =>
    have hnone := h.inHand_eq_none (by simp [hphase])
    exact ⟨h.order, by simp [hnone], h.lines, h.full, fun _ => ⟨hqueue, hclosed⟩⟩

/-- A step takes in the entry it is offered, or refuses it. -/
theorem offered_step {s t : QueueSink} {a : QueueAction} (h : step capacity level s a = some t) :
    ∃ new lost, t.accepted = s.accepted ++ new ∧ t.refused = s.refused ++ lost ∧
      new ++ lost = (offered level a).toList := by
  have hnone (l : List LogEntry) : l = l ++ [] := (List.append_nil l).symm
  cases step_cases h with
  | below hopen hlevel => exact ⟨[], [], hnone _, hnone _, by simp [offered, hlevel]⟩
  | @accept e hopen hlevel hroom => exact ⟨[e.entry], [], rfl, hnone _, by simp [offered, hlevel]⟩
  | @refuse e hopen hlevel hfull => exact ⟨[], [e.entry], hnone _, rfl, by simp [offered, hlevel]⟩
  | _ => exact ⟨[], [], hnone _, hnone _, rfl⟩

/-- A run takes in some of the entries it is offered, in their order, and refuses the
others. -/
theorem offered_run {acts : List QueueAction} {s t : QueueSink}
    (h : run (step capacity level) s acts = some t) :
    ∃ new lost, t.accepted = s.accepted ++ new ∧ t.refused = s.refused ++ lost ∧
      new.Sublist (acts.filterMap (offered level)) ∧
      (new ++ lost).Perm (acts.filterMap (offered level)) := by
  induction acts generalizing s with
  | nil =>
    obtain rfl : s = t := Option.some.inj h
    exact ⟨[], [], by simp, by simp, List.nil_sublist _, List.Perm.nil⟩
  | cons a acts ih =>
    obtain ⟨u, hu, hrest⟩ := Option.bind_eq_some_iff.mp h
    obtain ⟨new, lost, haccepted, hrefused, hoffered⟩ := offered_step hu
    obtain ⟨new', lost', haccepted', hrefused', hsub, hperm⟩ := ih hrest
    have hsplit : (a :: acts).filterMap (offered level) =
        (new ++ lost) ++ acts.filterMap (offered level) := by
      rw [hoffered, List.filterMap_cons]
      cases offered level a <;> rfl
    refine ⟨new ++ new', lost ++ lost', ?_, ?_, ?_, ?_⟩
    · rw [haccepted', haccepted, List.append_assoc]
    · rw [hrefused', hrefused, List.append_assoc]
    · rw [hsplit]
      exact (List.sublist_append_left new lost).append hsub
    · rw [hsplit]
      refine List.Perm.trans ?_ (hperm.append_left (new ++ lost))
      rw [List.append_assoc, List.append_assoc]
      exact (List.perm_append_comm_assoc new' lost lost').append_left new

/-- **Handled in order.**  Over any run from the start, what is accepted are events that
pass the level, in their order; those handled, the one in hand and those in the channel are
these one after another; every failure is one line on stderr, and there are no others; and a
run in which no more events pass than the channel holds loses none. -/
theorem handled_in_order {acts : List QueueAction} {s : QueueSink}
    (hrun : run (step capacity level) init acts = some s) :
    s.accepted.Sublist (acts.filterMap (offered level)) ∧
      (s.accepted ++ s.refused).Perm (acts.filterMap (offered level)) ∧
      s.accepted = s.handled.map Prod.fst ++ s.inHand.toList ++ s.worker.queue ∧
      s.worker.printed = s.handled.filterMap (fun h => h.2.line) ∧
      ((acts.filterMap (offered level)).length ≤ capacity → s.refused = []) := by
  obtain ⟨new, lost, haccepted, hrefused, hsub, hperm⟩ := offered_run hrun
  obtain rfl : s.accepted = new := haccepted
  obtain rfl : s.refused = lost := hrefused
  have hs : Ordered capacity s := (reach_of_run hrun).invariant (ordered_init capacity)
    fun _ _ _ hu _ hstep => hu.step hstep
  refine ⟨hsub, hperm, hs.order, hs.lines, fun hfew => ?_⟩
  by_contra hlost
  have hlength := hperm.length_eq
  have hfull := hs.full hlost
  have hpos := List.length_pos_iff.mpr hlost
  rw [List.length_append] at hlength
  omega

/-- Two requests are logged into a channel for one. -/
def burst : List QueueAction :=
  [.event Layer.requestLogged, .event Layer.requestLogged, .receive (.ok ()),
    .published (.error "gone")]

theorem handled_burst : ∃ s, run (step 1 .info) init burst = some s ∧
    (s.accepted ++ s.refused).Perm (burst.filterMap (offered .info)) ∧
    s.worker.printed = ["[kolas/log] QueueSink: publish to 'null' failed: gone"] := by
  obtain ⟨s, hs, hprinted⟩ : ∃ s, run (step 1 .info) init burst = some s ∧
      s.worker.printed = ["[kolas/log] QueueSink: publish to 'null' failed: gone"] :=
    ⟨_, rfl, rfl⟩
  exact ⟨s, hs, (handled_in_order hs).2.1, hprinted⟩

/-! ### The end -/

/-- Once the layer is gone only the publisher moves, and nothing more is accepted. -/
theorem worker_step {s t : QueueSink} {a : QueueAction} (hclosed : s.worker.closed = true)
    (h : step capacity level s a = some t) :
    (∃ b, s.worker.step capacity b = some t.worker) ∧ t.accepted = s.accepted := by
  have haccepted : t.accepted = s.accepted := by
    cases step_cases h with
    | accept hopen _ _ => simp [hopen] at hclosed
    | _ => rfl
  refine ⟨?_, haccepted⟩
  cases a with
  | event e => simp [step, hclosed] at h
  | drop => simp [step, hclosed] at h
  | receive payload =>
    obtain ⟨worker, hworker, rfl⟩ := Option.map_eq_some_iff.mp h
    refine ⟨.receive payload, hworker.trans ?_⟩
    split
    · rfl
    · rfl
  | published result =>
    obtain ⟨worker, hworker, rfl⟩ := Option.map_eq_some_iff.mp h
    exact ⟨.published result, hworker⟩
  | disconnected =>
    obtain ⟨worker, hworker, rfl⟩ := Option.map_eq_some_iff.mp h
    exact ⟨.disconnected, hworker⟩

/-- The publisher goes on until it has returned. -/
theorem returned_of_stopped {s : QueueSink} (hclosed : s.worker.closed = true)
    (hstop : ∀ a, step capacity level s a = none) : s.worker.phase = .returned := by
  by_contra hphase
  obtain ⟨b, hproducer, hstep⟩ := queue_step_of_closed capacity hclosed hphase
  cases b with
  | wake => cases hstep
  | sweep contents remove => cases hstep
  | sink b => cases hstep
  | send entry => cases hproducer
  | receive payload =>
    have hnone := Option.map_eq_none_iff.mp (hstop (.receive payload))
    simp [hnone] at hstep
  | published result =>
    have hnone := Option.map_eq_none_iff.mp (hstop (.published result))
    simp [hnone] at hstep
  | disconnected =>
    have hnone := Option.map_eq_none_iff.mp (hstop .disconnected)
    simp [hnone] at hstep

/-- What is left to do once the layer is gone. -/
def left (s : QueueSink) : Nat := 2 * s.worker.queue.length + s.worker.phase.todo

theorem left_le (s : QueueSink) : s.left ≤ 2 * s.worker.queue.length + 2 := by
  unfold left
  cases s.worker.phase <;> simp [QueuePhase.todo]

/-- **Everything is handled.**  Once the layer is dropped every run comes to an end, and
where none of its steps is left, exactly the accepted entries are handled, each once and in
their order. -/
theorem handled_of_stopped {s : QueueSink} (hs : Reach (step capacity level) init s)
    (hclosed : s.worker.closed = true) {acts : List QueueAction} {t : QueueSink}
    (hrun : run (step capacity level) s acts = some t) :
    acts.length ≤ 2 * s.worker.queue.length + 2 ∧
      ((∀ a, step capacity level t a = none) → t.handled.map Prod.fst = s.accepted) := by
  have hkept : ∀ u v a, u.worker.closed = true ∧ u.accepted = s.accepted →
      step capacity level u a = some v →
      (v.worker.closed = true ∧ v.accepted = s.accepted) ∧ v.left + 1 ≤ u.left := by
    intro u v a hu hv
    obtain ⟨⟨b, hb⟩, haccepted⟩ := worker_step hu.1 hv
    have htodo := queue_todo_step hu.1 hb
    exact ⟨⟨htodo.1, haccepted.trans hu.2⟩, htodo.2⟩
  constructor
  · have hcount : acts.countP (fun _ => true) + t.left ≤ s.left :=
      countP_le_measure hkept ⟨hclosed, rfl⟩ hrun
    rw [List.countP_true] at hcount
    have hle := s.left_le
    omega
  · intro hstop
    obtain ⟨htclosed, haccepted⟩ := (reach_of_run hrun).invariant
      (P := fun u => u.worker.closed = true ∧ u.accepted = s.accepted) ⟨hclosed, rfl⟩
      fun u v a hu _ hv => (hkept u v a hu hv).1
    have ht : Ordered capacity t := (hs.trans (reach_of_run hrun)).invariant
      (ordered_init capacity) fun _ _ _ hu _ hstep => hu.step hstep
    have hphase := returned_of_stopped htclosed hstop
    rw [← haccepted, ht.order, (ht.ended hphase).1, ht.inHand_eq_none (by simp [hphase])]
    simp

/-- A sink dropped with an entry in its channel. -/
def dropped : List QueueAction := [.event Layer.requestLogged, .drop]

def publishing : List QueueAction := [.receive (.ok ()), .published (.ok ()), .disconnected]

theorem handled_publishing : ∃ s t, run (step 1 .info) init dropped = some s ∧
    run (step 1 .info) s publishing = some t ∧
    publishing.length ≤ 2 * s.worker.queue.length + 2 ∧
    t.handled.map Prod.fst = [Layer.requestLogged.entry] := by
  obtain ⟨s, hs, hclosed, haccepted⟩ : ∃ s, run (step 1 .info) init dropped = some s ∧
      s.worker.closed = true ∧ s.accepted = [Layer.requestLogged.entry] := ⟨_, rfl, rfl, rfl⟩
  obtain ⟨t, ht, hstop⟩ : ∃ t, run (step 1 .info) s publishing = some t ∧
      ∀ a, step 1 .info t a = none := by
    obtain rfl := Option.some.inj hs
    refine ⟨_, rfl, fun a => ?_⟩
    cases a <;> rfl
  obtain ⟨hbound, hhandled⟩ := handled_of_stopped (reach_of_run hs) hclosed ht
  exact ⟨s, t, hs, ht, hbound, haccepted ▸ hhandled hstop⟩

end QueueSink

end Kolas.Logging

import Kolas.Logging.Delivery
import Kolas.Logging.Format

/-!
# Events of the sink's own making

`on_event` of `logging/sink/database.rs` in front of the sink.  When the worker inserts a
batch, `sqlx` and the database module log events themselves, and the layer is told of
these as well: "sqlx events → DB sink → sqlx → ∞".  It drops them by their targets
(`EXCLUDED_TARGETS`).

* `Layer.step`: the sink with its layer.  Events are the application's (`app`), or come
  from the worker's use of the database (`own`), which it makes while it flushes.
* `flushed_app`: where the worker's own events have excluded targets, all it ever flushes
  are the application's events that pass the level, in order, as if it had none of its own.
* `feedback_bounded_iff`: one accepted entry makes the worker flush a bounded number of
  times exactly when its own events do not pass the layer.
-/

namespace Kolas.Logging

open Kolas.Lib

/-- `LevelFilter` of `logging/config.rs`. -/
inductive LevelFilter
  | trace
  | debug
  | info
  | warn
  | error
  | off
  deriving DecidableEq, Repr

/-- The order of `tracing::Level`, in which errors are the least. -/
def Level.verbosity : Level → Nat
  | .error => 0
  | .warn => 1
  | .info => 2
  | .debug => 3
  | .trace => 4

def levelPasses (level : Level) : LevelFilter → Bool
  | .off => false
  | .error => level.verbosity ≤ Level.error.verbosity
  | .warn => level.verbosity ≤ Level.warn.verbosity
  | .info => level.verbosity ≤ Level.info.verbosity
  | .debug => level.verbosity ≤ Level.debug.verbosity
  | .trace => true

/-- `EXCLUDED_TARGETS`. -/
def excludedTargets : List String :=
  ["sqlx", "kolas::framework::logging", "kolas::framework::database"]

def isExcluded (target : String) : Bool :=
  excludedTargets.any fun start => start.toList.isPrefixOf target.toList

/-- An event, with the span and the time at which it is emitted. -/
structure Emission where
  event : TraceEvent
  span : Option String
  now : Int
  deriving DecidableEq, Repr

def Emission.entry (e : Emission) : LogEntry := eventToEntry e.event e.span e.now

/-- The layer lets the event through. -/
def Emission.passes (level : LevelFilter) (e : Emission) : Bool :=
  levelPasses e.event.level level && !isExcluded e.event.target

inductive LayerAction
  | app (e : Emission)
  | own (e : Emission)
  | work (a : SinkAction LogEntry)

namespace Layer

variable (cfg : DatabaseSinkConfig) (level : LevelFilter)

/-- `on_event`. -/
def onEvent (s : Sink LogEntry) (e : Emission) : Option (Sink LogEntry) :=
  if !levelPasses e.event.level level then some s
  else if isExcluded e.event.target then some s
  else Sink.step cfg s (.trySend e.entry)

/-- The sink with its layer; a closed channel has lost its layer. -/
def step (s : Sink LogEntry) : LayerAction → Option (Sink LogEntry)
  | .app e => if s.closed then none else onEvent cfg level s e
  | .own e =>
    match s.phase with
    | .flushing _ => if s.closed then none else onEvent cfg level s e
    | _ => none
  | .work (.trySend _) => none
  | .work a => Sink.step cfg s a

/-- What the action is for the sink, if it gets there. -/
def reaching : LayerAction → Option (SinkAction LogEntry)
  | .app e => if e.passes level then some (.trySend e.entry) else none
  | .own e => if e.passes level then some (.trySend e.entry) else none
  | .work a => some a

/-- The entries of the application's events that pass. -/
def appEntry : LayerAction → Option LogEntry
  | .app e => if e.passes level then some e.entry else none
  | _ => none

def isOwn : LayerAction → Bool
  | .own _ => true
  | _ => false

def isFlush : LayerAction → Bool
  | .work .flush => true
  | _ => false

variable {cfg level}

theorem onEvent_eq (s : Sink LogEntry) (e : Emission) :
    onEvent cfg level s e =
      if e.passes level then Sink.step cfg s (.trySend e.entry) else some s := by
  unfold onEvent Emission.passes
  cases levelPasses e.event.level level with
  | false => rfl
  | true =>
    cases isExcluded e.event.target with
    | false => rfl
    | true => rfl

theorem passes_of_isExcluded {e : Emission} (h : isExcluded e.event.target = true) :
    e.passes level = false := by
  simp [Emission.passes, h]

/-- **One step**: what reaches the sink is a step of it, and anything else leaves it. -/
theorem step_reaching {s t : Sink LogEntry} {a : LayerAction} (h : step cfg level s a = some t) :
    (∃ b, reaching level a = some b ∧ Sink.step cfg s b = some t) ∨
      (reaching level a = none ∧ t = s) := by
  have hevent : ∀ e, onEvent cfg level s e = some t →
      (e.passes level = true ∧ Sink.step cfg s (.trySend e.entry) = some t) ∨
        (e.passes level = false ∧ t = s) := by
    intro e he
    rw [onEvent_eq] at he
    cases hpasses : e.passes level with
    | true =>
      rw [hpasses] at he
      exact Or.inl ⟨rfl, he⟩
    | false =>
      rw [hpasses] at he
      exact Or.inr ⟨rfl, (Option.some.inj he).symm⟩
  cases a with
  | app e =>
    simp only [step, Option.ite_none_left_eq_some] at h
    rcases hevent e h.2 with ⟨hpasses, hsend⟩ | ⟨hpasses, rfl⟩
    · exact Or.inl ⟨.trySend e.entry, by simp [reaching, hpasses], hsend⟩
    · exact Or.inr ⟨by simp [reaching, hpasses], rfl⟩
  | own e =>
    simp only [step] at h
    split at h
    · simp only [Option.ite_none_left_eq_some] at h
      rcases hevent e h.2 with ⟨hpasses, hsend⟩ | ⟨hpasses, rfl⟩
      · exact Or.inl ⟨.trySend e.entry, by simp [reaching, hpasses], hsend⟩
      · exact Or.inr ⟨by simp [reaching, hpasses], rfl⟩
    · cases h
  | work b =>
    refine Or.inl ⟨b, rfl, ?_⟩
    cases b with
    | trySend entry => cases h
    | _ => exact h

/-- **A run is a run of the sink**, of what reaches it. -/
theorem run_reaching {acts : List LayerAction} {s t : Sink LogEntry}
    (h : run (step cfg level) s acts = some t) :
    run (Sink.step cfg) s (acts.filterMap (reaching level)) = some t := by
  induction acts generalizing s with
  | nil => exact h
  | cons a acts ih =>
    obtain ⟨u, hu, hrest⟩ := Option.bind_eq_some_iff.mp h
    rcases step_reaching hu with ⟨b, hb, hstep⟩ | ⟨hnone, rfl⟩
    · rw [List.filterMap_cons_some hb]
      exact Option.bind_eq_some_iff.mpr ⟨u, hstep, ih hrest⟩
    · rw [List.filterMap_cons_none hnone]
      exact ih hrest

end Layer

namespace Sink

variable {ε : Type} {cfg : DatabaseSinkConfig}

/-- The entry a producer sends. -/
def sent : SinkAction ε → Option ε
  | .trySend entry => some entry
  | _ => none

/-- What is accepted has been sent, in this order. -/
theorem accepted_step {s t : Sink ε} {a : SinkAction ε} (h : Sink.step cfg s a = some t) :
    ∃ new, t.accepted = s.accepted ++ new ∧ new.Sublist (sent a).toList := by
  have hnone : s.accepted = s.accepted ++ [] := (List.append_nil _).symm
  cases step_cases h with
  | accept entry _ _ => exact ⟨[entry], rfl, List.Sublist.refl _⟩
  | recv entry rest _ _ => exact ⟨[], hnone, List.nil_sublist _⟩
  | _ => exact ⟨[], hnone, List.nil_sublist _⟩

theorem accepted_run {acts : List (SinkAction ε)} {s t : Sink ε}
    (h : run (Sink.step cfg) s acts = some t) :
    ∃ new, t.accepted = s.accepted ++ new ∧ new.Sublist (acts.filterMap sent) := by
  induction acts generalizing s with
  | nil =>
    obtain rfl : s = t := Option.some.inj h
    exact ⟨[], (List.append_nil _).symm, List.nil_sublist _⟩
  | cons a acts ih =>
    obtain ⟨u, hu, hrest⟩ := Option.bind_eq_some_iff.mp h
    obtain ⟨new, haccepted, hsub⟩ := accepted_step hu
    obtain ⟨later, haccepted', hsub'⟩ := ih hrest
    refine ⟨new ++ later, ?_, ?_⟩
    · rw [haccepted', haccepted, List.append_assoc]
    · rw [List.filterMap_cons]
      cases hsent : sent a with
      | none =>
        rw [hsent] at hsub
        rw [List.sublist_nil.mp hsub]
        exact hsub'
      | some entry =>
        rw [hsent] at hsub
        exact hsub.append hsub'

/-- The entries that are still to be flushed. -/
def waiting (s : Sink ε) : Nat := s.queue.length + s.unflushed.length

/-- The calls of `flush_batch` in an action. -/
def flushes : SinkAction ε → Nat
  | .flush => 1
  | _ => 0

/-- **One step of the worker**: a flush takes at least one of the entries waiting, and
nothing but a send adds one. -/
theorem waiting_step {s t : Sink ε} {a : SinkAction ε} (h : Sink.step cfg s a = some t)
    (hsent : sent a = none) :
    t.waiting + flushes a ≤ s.waiting := by
  have hidle {u : Sink ε} (hu : ∀ last, u.phase ≠ .flushing last) :
      u.waiting = u.queue.length + u.batch.length := by
    rw [waiting, (u.idle hu).1]
  cases step_cases h with
  | accept entry _ _ => cases hsent
  | refuse entry _ _ => cases hsent
  | count _ => exact Nat.le_refl _
  | close _ _ => exact Nat.le_refl _
  | arm hphase =>
    rw [hidle (by simp), hidle (by simp [hphase])]
    exact Nat.le_refl _
  | recv entry rest hphase hqueue =>
    have hlength : (s.batch ++ [entry]).length = s.batch.length + 1 := List.length_append
    rw [hidle (u := s) (by simp [hphase]), hqueue, List.length_cons]
    rcases s.received_cases cfg entry rest with ⟨-, heq⟩ | ⟨-, heq⟩
    · rw [heq, hidle (by simp)]
      show rest.length + (s.batch ++ [entry]).length + 0 ≤ _
      omega
    · rw [heq, hidle (by simp)]
      show rest.length + (s.batch ++ [entry]).length + 0 ≤ _
      omega
  | disconnected hphase _ _ =>
    rw [hidle (by simp), hidle (by simp [hphase])]
    exact Nat.le_refl _
  | expire hphase =>
    rw [hidle (by simp), hidle (by simp [hphase])]
    exact Nat.le_refl _
  | report hphase _ =>
    rw [hidle (by simp), hidle (by simp [hphase])]
    exact Nat.le_refl _
  | flush hphase hbatch =>
    have hs : s.waiting = s.queue.length + s.batch.length :=
      hidle fun last hflushing => by simp [hflushing] at hphase
    have hpos := List.length_pos_iff.mpr hbatch
    rw [hs]
    show s.queue.length + 0 + 1 ≤ _
    omega
  | delivered answer last hphase =>
    have hnone : (s.flushEnded cfg last answer).unflushed = [] := by
      cases last <;> rfl
    rw [waiting, hnone]
    exact Nat.le_add_right _ _
  | exit hphase _ =>
    rw [hidle (by simp), hidle (by simp [hphase])]
    exact Nat.le_refl _

end Sink

namespace Layer

variable {cfg : DatabaseSinkConfig} {level : LevelFilter}

/-! ### No feedback -/

/-- An own event that does not pass does nothing. -/
theorem own_eq {s t : Sink LogEntry} {e : Emission} (h : e.passes level = false)
    (hstep : step cfg level s (.own e) = some t) : t = s := by
  rcases step_reaching hstep with ⟨b, hb, -⟩ | ⟨-, heq⟩
  · simp [reaching, h] at hb
  · exact heq

/-- Own events that do not pass may be left out of a run. -/
theorem run_without_own {acts : List LayerAction} {s t : Sink LogEntry}
    (hown : ∀ e, .own e ∈ acts → e.passes level = false)
    (h : run (step cfg level) s acts = some t) :
    run (step cfg level) s (acts.filter fun a => !isOwn a) = some t := by
  induction acts generalizing s with
  | nil => exact h
  | cons a acts ih =>
    obtain ⟨u, hu, hrest⟩ := Option.bind_eq_some_iff.mp h
    have hrun := ih (fun e he => hown e (List.mem_cons_of_mem a he)) hrest
    cases a with
    | own e =>
      obtain rfl := own_eq (hown e List.mem_cons_self) hu
      rwa [List.filter_cons_of_neg (by simp [isOwn])]
    | app e =>
      rw [List.filter_cons_of_pos (by simp [isOwn])]
      exact Option.bind_eq_some_iff.mpr ⟨u, hu, hrun⟩
    | work b =>
      rw [List.filter_cons_of_pos (by simp [isOwn])]
      exact Option.bind_eq_some_iff.mpr ⟨u, hu, hrun⟩

/-- The worker sends nothing itself. -/
theorem sent_work {s t : Sink LogEntry} {b : SinkAction LogEntry}
    (h : step cfg level s (.work b) = some t) : Sink.sent b = none := by
  cases b with
  | trySend entry => cases h
  | _ => rfl

/-- What is sent to the sink is what the application logs. -/
theorem sent_reaching {acts : List LayerAction} {s t : Sink LogEntry}
    (hown : ∀ e, .own e ∈ acts → e.passes level = false)
    (h : run (step cfg level) s acts = some t) :
    (acts.filterMap (reaching level)).filterMap Sink.sent = acts.filterMap (appEntry level) := by
  induction acts generalizing s with
  | nil => rfl
  | cons a acts ih =>
    obtain ⟨u, hu, hrest⟩ := Option.bind_eq_some_iff.mp h
    have hlater := ih (fun e he => hown e (List.mem_cons_of_mem a he)) hrest
    cases a with
    | app e =>
      cases hpasses : e.passes level with
      | true => simp [reaching, appEntry, hpasses, Sink.sent, hlater]
      | false => simp [reaching, appEntry, hpasses, hlater]
    | own e =>
      rw [List.filterMap_cons_none (f := reaching level)
        (by simp [reaching, hown e List.mem_cons_self]),
        List.filterMap_cons_none (f := appEntry level) rfl, hlater]
    | work b =>
      rw [List.filterMap_cons_some (f := reaching level) rfl,
        List.filterMap_cons_none (f := Sink.sent) (sent_work hu),
        List.filterMap_cons_none (f := appEntry level) rfl, hlater]

/-- **No feedback.**  Where the worker's own events have excluded targets, a run is the
same without them: what the sink accepts, and what its worker flushes, are the
application's events that pass the layer, in order. -/
theorem flushed_app {acts : List LayerAction} {s : Sink LogEntry}
    (hrun : run (step cfg level) Sink.init acts = some s)
    (hown : ∀ e, .own e ∈ acts → isExcluded e.event.target = true) :
    run (step cfg level) Sink.init (acts.filter fun a => !isOwn a) = some s ∧
      s.flushed.flatten <+: s.accepted ∧
      s.accepted.Sublist (acts.filterMap (appEntry level)) := by
  have hblocked : ∀ e, .own e ∈ acts → e.passes level = false :=
    fun e he => passes_of_isExcluded (hown e he)
  have hsink := run_reaching hrun
  refine ⟨run_without_own hblocked hrun, ?_, ?_⟩
  · have hs : s.Delivering cfg := (reach_of_run hsink).invariant (Sink.delivering_init cfg)
      fun _ _ _ hu _ hstep => hu.step hstep
    rw [hs.order, List.append_assoc]
    exact List.prefix_append ..
  · obtain ⟨new, haccepted, hsub⟩ := Sink.accepted_run hsink
    rw [sent_reaching hblocked hrun] at hsub
    rw [haccepted]
    exact hsub

/-- A request is logged. -/
def requestLogged : Emission :=
  ⟨⟨.info, "app::http", [("message", .str "GET /"), ("status", .u64 200)]⟩, none, 0⟩

/-- `sqlx` logs a statement. -/
def statementLogged : Emission :=
  ⟨⟨.info, "sqlx::query", [("message", .debug "insert into log_entries")]⟩, none, 1⟩

/-- The request is inserted, and the insert is logged. -/
def insertLogged : List LayerAction :=
  [.app requestLogged, .work .arm, .work .recv, .work .expire, .work .flush, .own statementLogged,
    .work (.delivered (.available fun _ => .ok ()))]

theorem flushed_insertLogged : ∃ s, run (step Sink.pairs .info) Sink.init insertLogged = some s ∧
    s.flushed.flatten = [requestLogged.entry] ∧
    s.accepted.Sublist (insertLogged.filterMap (appEntry .info)) := by
  obtain ⟨s, hs, hflushed⟩ : ∃ s,
      run (step Sink.pairs .info) Sink.init insertLogged = some s ∧
        s.flushed.flatten = [requestLogged.entry] := ⟨_, rfl, rfl⟩
  refine ⟨s, hs, hflushed, (flushed_app hs ?_).2.2⟩
  intro e he
  simp only [insertLogged, List.mem_cons, reduceCtorEq, LayerAction.own.injEq, List.not_mem_nil,
    or_false, false_or] at he
  subst he
  decide

/-! ### Feedback -/

/-- The worker and its own events, the application being quiet. -/
def Quiet (e : Emission) (acts : List LayerAction) : Prop :=
  ∀ a ∈ acts, a = .own e ∨ ∃ b, a = .work b

/-- A single entry is waiting for the worker to begin. -/
structure Single (s : Sink LogEntry) : Prop where
  phase : s.phase = .starting
  batch : s.batch = []
  queue : ∃ entry, s.queue = [entry]
  opened : s.closed = false

theorem Single.waiting {s : Sink LogEntry} (h : Single s) : s.waiting = 1 := by
  obtain ⟨entry, hqueue⟩ := h.queue
  rw [Sink.waiting, hqueue, (s.idle (by simp [h.phase])).1, h.batch]
  rfl

/-- In a quiet run each flush takes an entry. -/
theorem flushes_le {e : Emission} (he : e.passes level = false) {acts : List LayerAction}
    (hquiet : Quiet e acts) {s t : Sink LogEntry} (h : run (step cfg level) s acts = some t) :
    acts.countP isFlush + t.waiting ≤ s.waiting := by
  induction acts generalizing s with
  | nil =>
    obtain rfl : s = t := Option.some.inj h
    simp
  | cons a acts ih =>
    obtain ⟨u, hu, hrest⟩ := Option.bind_eq_some_iff.mp h
    have hlater := ih (fun b hb => hquiet b (List.mem_cons_of_mem a hb)) hrest
    rw [List.countP_cons]
    rcases hquiet a List.mem_cons_self with rfl | ⟨b, rfl⟩
    · obtain rfl := own_eq he hu
      simpa [isFlush] using hlater
    · have hsent := sent_work hu
      rcases step_reaching hu with ⟨b', hb', hstep⟩ | ⟨hnone, -⟩
      · obtain rfl := Option.some.inj hb'
        have hstep' := Sink.waiting_step hstep hsent
        have hflush : (if isFlush (.work b) then 1 else 0) = Sink.flushes b := by
          cases b <;> rfl
        omega
      · cases hnone

/-- One round of the worker that logs an event of its own: the entry is flushed, and the
event takes its place. -/
theorem round_of_passes (hroom : 0 < cfg.channelCapacity) {e : Emission}
    (he : e.passes level = true) {s : Sink LogEntry} (hs : Single s) :
    ∃ acts t, Quiet e acts ∧ run (step cfg level) s acts = some t ∧ Single t ∧
      acts.countP isFlush = 1 := by
  obtain ⟨queue, closed, pending, counter, phase, batch, backoffSecs, printed, accepted, failed,
    flushed, deliveries⟩ := s
  obtain ⟨rfl, rfl, ⟨entry, rfl⟩, rfl⟩ := hs
  by_cases hfull : cfg.batchSize ≤ 1
  · refine ⟨[.work .arm, .work .recv, .work .flush, .own e,
      .work (.delivered (.available fun _ => .ok ()))], ?t, ?quiet, ?run, ?single, rfl⟩
    case run =>
      simp [run, step, Sink.step, Sink.received, hfull, Sink.flushBegun, Sink.swapped, onEvent_eq, he,
        hroom, Sink.accept, Sink.flushEnded]
      rfl
    case quiet => simp [Quiet]
    case single => exact ⟨rfl, rfl, ⟨e.entry, rfl⟩, rfl⟩
  · refine ⟨[.work .arm, .work .recv, .work .expire, .work .flush, .own e,
      .work (.delivered (.available fun _ => .ok ()))], ?t, ?quiet, ?run, ?single, rfl⟩
    case run =>
      simp [run, step, Sink.step, Sink.received, hfull, Sink.flushBegun, Sink.swapped, onEvent_eq, he,
        hroom, Sink.accept, Sink.flushEnded]
    case quiet => simp [Quiet]
    case single => exact ⟨rfl, rfl, ⟨e.entry, rfl⟩, rfl⟩

theorem rounds_of_passes (hroom : 0 < cfg.channelCapacity) {e : Emission}
    (he : e.passes level = true) (n : Nat) {s : Sink LogEntry} (hs : Single s) :
    ∃ acts t, Quiet e acts ∧ run (step cfg level) s acts = some t ∧ acts.countP isFlush = n := by
  induction n generalizing s with
  | zero => exact ⟨[], s, by simp [Quiet], rfl, rfl⟩
  | succ n ih =>
    obtain ⟨first, u, hquiet, hrun, hu, hcount⟩ := round_of_passes hroom he hs
    obtain ⟨rest, t, hquiet', hrun', hcount'⟩ := ih hu
    refine ⟨first ++ rest, t, ?_, ?_, ?_⟩
    · intro a ha
      rcases List.mem_append.mp ha with ha | ha
      · exact hquiet a ha
      · exact hquiet' a ha
    · rw [run_append, hrun]
      exact hrun'
    · rw [List.countP_append, hcount, hcount']
      omega

/-- **When one entry keeps the worker busy for ever.**  With a single entry waiting and the
application quiet, the number of flushes is bounded exactly when the event that the
worker's own inserts emit does not pass the layer. -/
theorem feedback_bounded_iff (hroom : 0 < cfg.channelCapacity) {s : Sink LogEntry}
    (hs : Single s) (e : Emission) :
    (∃ bound, ∀ acts t, Quiet e acts → run (step cfg level) s acts = some t →
      acts.countP isFlush ≤ bound) ↔
    levelPasses e.event.level level = false ∨ isExcluded e.event.target = true := by
  have hpasses : e.passes level = false ↔
      levelPasses e.event.level level = false ∨ isExcluded e.event.target = true := by
    unfold Emission.passes
    cases levelPasses e.event.level level <;> cases isExcluded e.event.target <;> simp
  rw [← hpasses]
  constructor
  · intro h
    obtain ⟨bound, hbound⟩ := h
    by_contra hnot
    obtain ⟨acts, t, hquiet, hrun, hcount⟩ :=
      rounds_of_passes hroom (Bool.not_eq_false _ ▸ hnot) (bound + 1) hs
    have hle := hbound acts t hquiet hrun
    omega
  · intro he
    refine ⟨1, ?_⟩
    intro acts t hquiet hrun
    have hle := flushes_le he hquiet hrun
    rw [hs.waiting] at hle
    omega

/-- The sink once a request has been accepted. -/
def oneWaiting : Sink LogEntry :=
  { Sink.init with queue := [requestLogged.entry], accepted := [requestLogged.entry] }

theorem statement_bounded : ∃ bound, ∀ acts t, Quiet statementLogged acts →
    run (step Sink.pairs .info) oneWaiting acts = some t → acts.countP isFlush ≤ bound :=
  (feedback_bounded_iff (by decide) ⟨rfl, rfl, ⟨_, rfl⟩, rfl⟩ statementLogged).mpr
    (Or.inr (by decide))

end Layer

end Kolas.Logging

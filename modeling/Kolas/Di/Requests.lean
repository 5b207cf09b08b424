import Kolas.Di.Instances
import Kolas.Di.Traversal
import Kolas.Routing.Order

/-!
# Requests

`di/extractor.rs` and `di/scope_middleware.rs` over a router and the container, for any
number of requests at once.  `ScopeMiddleware::handle` runs what it wraps in a scope of its
own; the extractors of a handler, `Inject` and `InjectAll`, are resolved one after another
in the scope of the innermost one, and the first that fails rejects the request.  The error
is logged, and the response does not depend on it.

* `Server.step`: the machine, with factories that end as they will (`freeStep`), and the
  requests that call into it.
* `Server.serving_of_reach`: no two requests are in one scope, and what a request has
  extracted are the results of calls in its scope.
-/

namespace Kolas.Di

open Kolas.Lib Kolas.Routing

/-- `Inject<T, Tag>` and `InjectAll<T, Group>`, with the `NAME` of the marker. -/
inductive Extractor (τ : Type)
  | inject (typeId : τ) (tag : Option String)
  | injectAll (typeId : τ) (group : Option String)
  deriving DecidableEq, Repr

/-- What `from_request_parts` resolves. -/
def Extractor.node {τ : Type} : Extractor τ → Node τ
  | .inject typeId tag => .single ⟨typeId, tag⟩
  | .injectAll typeId group => .group ⟨typeId, group⟩

/-- `DiRejection::into_response`, less the log line. -/
def rejection (_ : DiError) : Nat × String := (500, "internal server error")

/-- What the handlers extract, and which middleware is `ScopeMiddleware`. -/
structure Application (τ μ ℓ χ : Type) where
  router : Router μ ℓ χ
  isScope : μ → Bool
  extractors : χ → List (Extractor τ)

/-- Where a request is.

* `extracting`: between two extractors.
* `waiting c`: in an extractor that has made the call `c`.
* `handling`: in the handler. -/
inductive RequestPhase
  | extracting
  | waiting (call : Nat)
  | handling
  | rejected (status : Nat) (body : String)
  | abandoned
  deriving DecidableEq, Repr

/-- A request that got to its endpoint; `extracted` has the calls of the extractors that are
done, with their values. -/
structure Request (τ υ μ ℓ χ : Type) where
  endpoint : Endpoint μ ℓ χ
  scope : Option Nat
  extracted : List (Nat × List (Inst υ))
  phase : RequestPhase

/-- The container, the number of scopes so far, the requests, and the errors logged. -/
structure Server (τ υ μ ℓ χ : Type) where
  di : State τ υ
  scopes : Nat
  requests : List (Request τ υ μ ℓ χ)
  logged : List DiError

/-- The steps of the requests.  Middleware and handlers may also call the container
themselves (`resolve`), in a scope they are in or, from a task they have spawned, in none. -/
inductive ServerAction (τ : Type)
  | arrive (path : String) (method : Method)
  | extract (i : Nat)
  | extracted (i : Nat)
  | abandon (i : Nat)
  | resolve (scope : Option Nat) (node : Node τ)
  | di (a : Action τ)

variable {τ υ φ μ ℓ χ : Type}

/-- The layer is `ScopeMiddleware`. -/
def Application.scoping (app : Application τ μ ℓ χ) : Layer μ ℓ → Bool
  | .fromFn middleware => app.isScope middleware.val
  | .tower _ => false

/-- Through the layers, from the outermost one: the current scope, and the number of scopes. -/
def Application.enterScopes (app : Application τ μ ℓ χ) (layers : List (Layer μ ℓ)) (scopes : Nat) :
    Option Nat × Nat :=
  layers.foldr (fun layer at_ => if app.scoping layer then (some at_.2, at_.2 + 1) else at_)
    (none, scopes)

/-- An action that is not a call from outside. -/
def Action.isCall : Action τ → Bool
  | .call _ _ => true
  | _ => false

namespace Server

/-- No request has arrived. -/
def start (τ υ μ ℓ χ : Type) : Server τ υ μ ℓ χ := ⟨State.start τ υ, 0, [], []⟩

def setRequest (s : Server τ υ μ ℓ χ) (i : Nat) (request : Request τ υ μ ℓ χ) :
    Server τ υ μ ℓ χ :=
  { s with requests := s.requests.set i request }

section

variable [DecidableEq τ] [TypeName τ] (app : Application τ μ ℓ χ) (C : Container τ υ φ)
  (resolves : φ → Node τ → Bool)

/-- The request goes on to its next extractor, or to its handler. -/
def extract (s : Server τ υ μ ℓ χ) (i : Nat) (request : Request τ υ μ ℓ χ) : Server τ υ μ ℓ χ :=
  match (app.extractors request.endpoint.handler)[request.extracted.length]? with
  | some extractor =>
    { s.setRequest i { request with phase := .waiting s.di.calls.length } with
      di := s.di.addCall (.top extractor.node request.scope) }
  | none => s.setRequest i { request with phase := .handling }

/-- The call of the request's extractor has returned. -/
def extracted (s : Server τ υ μ ℓ χ) (i : Nat) (request : Request τ υ μ ℓ χ) (c : Nat) :
    Except DiError (List (Inst υ)) → Server τ υ μ ℓ χ
  | .ok values =>
    s.setRequest i { request with
      extracted := request.extracted ++ [(c, values)]
      phase := .extracting }
  | .error e =>
    { s.setRequest i { request with phase := .rejected (rejection e).1 (rejection e).2 } with
      logged := s.logged ++ [e] }

def step (s : Server τ υ μ ℓ χ) : ServerAction τ → Option (Server τ υ μ ℓ χ)
  | .arrive path method =>
    (app.router.endpoint path method).map fun e =>
      let at_ := app.enterScopes e.layers s.scopes
      { s with
        scopes := at_.2
        requests := s.requests ++ [⟨e, at_.1, [], .extracting⟩] }
  | .extract i =>
    match s.requests[i]? with
    | some request => if request.phase = .extracting then some (s.extract app i request) else none
    | none => none
  | .extracted i =>
    match s.requests[i]? with
    | some request =>
      match request.phase with
      | .waiting c =>
        match (s.di.calls[c]?).map Call.phase with
        | some (.done result) => some (s.extracted i request c result)
        | _ => none
      | _ => none
    | none => none
  | .abandon i =>
    match s.requests[i]? with
    | some request =>
      match request.phase with
      | .extracting => some (s.setRequest i { request with phase := .abandoned })
      -- the call in hand has been dropped with its future
      | .waiting c =>
        match (s.di.calls[c]?).map Call.phase with
        | some .dropped => some (s.setRequest i { request with phase := .abandoned })
        | _ => none
      | _ => none
    | none => none
  | .resolve scope node =>
    if scope.all (· < s.scopes) then some { s with di := s.di.addCall (.top node scope) } else none
  | .di a => if a.isCall then none else (freeStep C resolves s.di a).map fun di => { s with di }

/-- **What a step does.** -/
inductive Step (s : Server τ υ μ ℓ χ) : ServerAction τ → Server τ υ μ ℓ χ → Prop
  | arrive {path : String} {method : Method} {e : Endpoint μ ℓ χ}
      (he : app.router.endpoint path method = some e) :
      Step s (.arrive path method)
        { s with
          scopes := (app.enterScopes e.layers s.scopes).2
          requests := s.requests ++ [⟨e, (app.enterScopes e.layers s.scopes).1, [], .extracting⟩] }
  | extract {i : Nat} {request : Request τ υ μ ℓ χ} {extractor : Extractor τ}
      (hi : s.requests[i]? = some request) (hphase : request.phase = .extracting)
      (hx : (app.extractors request.endpoint.handler)[request.extracted.length]? = some extractor) :
      Step s (.extract i)
        { s.setRequest i { request with phase := .waiting s.di.calls.length } with
          di := s.di.addCall (.top extractor.node request.scope) }
  | handle {i : Nat} {request : Request τ υ μ ℓ χ} (hi : s.requests[i]? = some request)
      (hphase : request.phase = .extracting)
      (hx : (app.extractors request.endpoint.handler)[request.extracted.length]? = none) :
      Step s (.extract i) (s.setRequest i { request with phase := .handling })
  | take {i c : Nat} {request : Request τ υ μ ℓ χ} {call : Call τ υ} {values : List (Inst υ)}
      (hi : s.requests[i]? = some request) (hphase : request.phase = .waiting c)
      (hc : s.di.calls[c]? = some call) (hdone : call.phase = .done (.ok values)) :
      Step s (.extracted i) (s.setRequest i { request with
        extracted := request.extracted ++ [(c, values)]
        phase := .extracting })
  | reject {i c : Nat} {request : Request τ υ μ ℓ χ} {call : Call τ υ} {e : DiError}
      (hi : s.requests[i]? = some request) (hphase : request.phase = .waiting c)
      (hc : s.di.calls[c]? = some call) (hdone : call.phase = .done (.error e)) :
      Step s (.extracted i)
        { s.setRequest i { request with phase := .rejected 500 "internal server error" } with
          logged := s.logged ++ [e] }
  | abandon {i : Nat} {request : Request τ υ μ ℓ χ} (hi : s.requests[i]? = some request) :
      Step s (.abandon i) (s.setRequest i { request with phase := .abandoned })
  | resolve (scope : Option Nat) (node : Node τ) :
      Step s (.resolve scope node) { s with di := s.di.addCall (.top node scope) }
  | di {a : Action τ} {di : State τ υ} (hdi : freeStep C resolves s.di a = some di) :
      Step s (.di a) { s with di := di }

variable {app C resolves} {s t : Server τ υ μ ℓ χ}

theorem step_cases {a : ServerAction τ} (h : step app C resolves s a = some t) :
    Step app C resolves s a t := by
  cases a with
  | arrive path method =>
    obtain ⟨e, he, rfl⟩ := Option.map_eq_some_iff.mp h
    exact .arrive he
  | extract i =>
    simp only [step] at h
    split at h
    · rename_i request hi
      obtain ⟨hphase, h⟩ := Option.ite_none_right_eq_some.mp h
      obtain rfl := Option.some.inj h
      unfold Server.extract
      split
      · rename_i extractor hx
        exact .extract hi hphase hx
      · rename_i hx
        exact .handle hi hphase hx
    · cases h
  | extracted i =>
    simp only [step] at h
    split at h
    · rename_i request hi
      split at h
      · rename_i c hphase
        split at h
        · rename_i result hresult
          obtain ⟨call, hc, hdone⟩ := Option.map_eq_some_iff.mp hresult
          obtain rfl := Option.some.inj h
          cases result with
          | ok values => exact .take hi hphase hc hdone
          | error e => exact .reject hi hphase hc hdone
        · cases h
      · cases h
    · cases h
  | abandon i =>
    simp only [step] at h
    split at h
    · rename_i request hi
      split at h
      · obtain rfl := Option.some.inj h
        exact .abandon hi
      · split at h
        · obtain rfl := Option.some.inj h
          exact .abandon hi
        · cases h
      · cases h
    · cases h
  | resolve scope node =>
    obtain ⟨-, h⟩ := Option.ite_none_right_eq_some.mp h
    obtain rfl := Option.some.inj h
    exact .resolve scope node
  | di a =>
    obtain ⟨-, h⟩ := Option.ite_none_left_eq_some.mp h
    obtain ⟨di, hdi, rfl⟩ := Option.map_eq_some_iff.mp h
    exact .di hdi

end

end Server

/-! ### Scopes -/

/-- A request is in a scope if one of its layers is `ScopeMiddleware`; the scope is new. -/
theorem Application.enterScopes_cases (app : Application τ μ ℓ χ) (layers : List (Layer μ ℓ))
    (scopes : Nat) :
    ((app.enterScopes layers scopes).1 = none ∧ (app.enterScopes layers scopes).2 = scopes ∧
      ∀ layer ∈ layers, app.scoping layer = false) ∨
    ∃ sc, (app.enterScopes layers scopes).1 = some sc ∧ scopes ≤ sc ∧
      sc < (app.enterScopes layers scopes).2 ∧ ∃ layer ∈ layers, app.scoping layer = true := by
  induction layers with
  | nil => exact .inl ⟨rfl, rfl, nofun⟩
  | cons layer layers ih =>
    cases hlayer : app.scoping layer with
    | true =>
      have heq : app.enterScopes (layer :: layers) scopes =
          (some (app.enterScopes layers scopes).2, (app.enterScopes layers scopes).2 + 1) :=
        if_pos hlayer
      have hle : scopes ≤ (app.enterScopes layers scopes).2 := by
        rcases ih with ⟨-, hsame, -⟩ | ⟨sc, -, hle, hlt, -⟩ <;> omega
      rw [heq]
      exact .inr ⟨_, rfl, hle, Nat.lt_succ_self _, layer, List.mem_cons_self, hlayer⟩
    | false =>
      have heq : app.enterScopes (layer :: layers) scopes = app.enterScopes layers scopes :=
        if_neg (by simp [hlayer])
      rw [heq]
      rcases ih with ⟨hnone, hsame, hall⟩ | ⟨sc, hsome, hle, hlt, other, hmem, hother⟩
      · exact .inl ⟨hnone, hsame, List.forall_mem_cons.mpr ⟨hlayer, hall⟩⟩
      · exact .inr ⟨sc, hsome, hle, hlt, other, List.mem_cons_of_mem _ hmem, hother⟩

/-! ### Calls that are done -/

/-- A call later on; one that has returned stays as it is. -/
structure CallKept (call call' : Call τ υ) : Prop where
  same : SameCall call call'
  done : ∀ result, call.phase = .done result → call'.phase = .done result

/-- Every call is still there. -/
def CallsKept (s t : State τ υ) : Prop :=
  ∀ (d : Nat) (called : Call τ υ), s.calls[d]? = some called →
    ∃ called', t.calls[d]? = some called' ∧ CallKept called called'

theorem CallsKept.refl (s : State τ υ) : CallsKept s s :=
  fun _ called hd => ⟨called, hd, ⟨rfl, rfl, rfl, rfl⟩, fun _ => id⟩

theorem callsKept_addCall (s : State τ υ) (call : Call τ υ) : CallsKept s (s.addCall call) :=
  fun _ called hd => ⟨called, getElem?_concat_of_some hd, ⟨rfl, rfl, rfl, rfl⟩, fun _ => id⟩

theorem callsKept_set {s t : State τ υ} {c : Nat} {call call' : Call τ υ}
    (ht : t.calls = s.calls.set c call') (hc : s.calls[c]? = some call)
    (hsame : SameCall call call') (hopen : call.phase.finished = false) : CallsKept s t := by
  intro d called hd
  rw [ht]
  by_cases hdc : d = c
  · subst hdc
    obtain rfl := Option.some.inj (hc.symm.trans hd)
    refine ⟨call', getElem?_set_of_some hc, hsame, fun result hresult => ?_⟩
    rw [hresult] at hopen
    cases hopen
  · refine ⟨called, ?_, ⟨rfl, rfl, rfl, rfl⟩, fun _ => id⟩
    rw [List.getElem?_set_ne (Ne.symm hdc), hd]

/-- **No step takes a result back.** -/
theorem callsKept_step [DecidableEq τ] [TypeName τ] {C : Container τ υ φ}
    {resolves : φ → Node τ → Bool} {s t : State τ υ} {a : Action τ}
    (h : freeStep C resolves s a = some t) : CallsKept s t := by
  have hended : ∀ (call : Call τ υ) (j run : Nat) (e : RunEnd), SameCall call (e.call C call j run) :=
    fun call j run e => (endRun_grown call j run e).same
  rcases freeStep_ends h with ⟨c, j, run, call, x, e, hc, hphase, -, rfl⟩ | ⟨-, -, hmove⟩
  · exact callsKept_set rfl hc (hended call j run e) (by rw [hphase]; rfl)
  · cases hmove with
    | call node scope => exact callsKept_addCall s _
    | nested hp hphase he hf hr => exact callsKept_addCall s _
    | «local» hc hlocal => exact callsKept_set rfl hc hlocal.same hlocal.open
    | slotAdd hc hphase hs hn =>
      exact callsKept_set rfl hc ⟨rfl, rfl, rfl, rfl⟩ (by rw [hphase]; rfl)
    | startRun hc hstarts => exact callsKept_set rfl hc ⟨rfl, rfl, rfl, rfl⟩ hstarts.open
    | endRun hc hphase hidle herror =>
      exact callsKept_set rfl hc (hended _ _ _ _) (by rw [hphase]; rfl)

/-- A run may be watched. -/
theorem watched_of_reach [DecidableEq τ] [TypeName τ] {C : Container τ υ φ}
    {resolves : φ → Node τ → Bool} {s : State τ υ}
    (h : Reach (freeStep C resolves) (State.start τ υ) s) :
    ∃ w, w.machine = s ∧ Reach (watchedStep C resolves) (Watched.start τ υ) w := by
  refine h.invariant (P := fun s => ∃ w : Watched τ υ, w.machine = s ∧
    Reach (watchedStep C resolves) (Watched.start τ υ) w) ⟨_, rfl, Reaches.refl _⟩ ?_
  rintro - t a ⟨w, rfl, hw⟩ - ht
  exact ⟨_, rfl, hw.tail (a := a) trivial (by rw [watchedStep, ht]; rfl)⟩

/-! ### What a request has -/

/-- The call `c` is of the extractor, in the request's scope. -/
def Request.Calls (request : Request τ υ μ ℓ χ) (di : State τ υ) (extractor : Extractor τ)
    (c : Nat) (call : Call τ υ) : Prop :=
  di.calls[c]? = some call ∧ call.node = extractor.node ∧ call.scope = request.scope

structure Request.Backed (app : Application τ μ ℓ χ) (di : State τ υ)
    (request : Request τ υ μ ℓ χ) : Prop where
  held : ∀ (k c : Nat) (values : List (Inst υ)),
    request.extracted[k]? = some (c, values) → ∃ extractor call,
    (app.extractors request.endpoint.handler)[k]? = some extractor ∧
      request.Calls di extractor c call ∧ call.phase = .done (.ok values)
  waits : ∀ c, request.phase = .waiting c → ∃ extractor call,
    (app.extractors request.endpoint.handler)[request.extracted.length]? = some extractor ∧
      request.Calls di extractor c call
  all : request.phase = .handling →
    (app.extractors request.endpoint.handler).length = request.extracted.length
  fixed : ∀ status body, request.phase = .rejected status body →
    status = 500 ∧ body = "internal server error"
  «scoped» : request.scope.isSome ↔ ∃ layer ∈ request.endpoint.layers, app.scoping layer = true
  routed : ∃ path method, app.router.endpoint path method = some request.endpoint

theorem Request.Backed.mono {app : Application τ μ ℓ χ} {di di' : State τ υ}
    {request : Request τ υ μ ℓ χ} (h : request.Backed app di)
    (hkept : CallsKept di di') : request.Backed app di' := by
  refine { h with held := fun k c values hk => ?_, waits := fun c hphase => ?_ }
  · obtain ⟨extractor, call, hx, ⟨hc, hnode, hscope⟩, hdone⟩ := h.held k c values hk
    obtain ⟨call', hc', hsame, hdone'⟩ := hkept c call hc
    exact ⟨extractor, call', hx, ⟨hc', hsame.node.trans hnode, hsame.scope.trans hscope⟩,
      hdone' _ hdone⟩
  · obtain ⟨extractor, call, hx, hc, hnode, hscope⟩ := h.waits c hphase
    obtain ⟨call', hc', hsame, -⟩ := hkept c call hc
    exact ⟨extractor, call', hx, hc', hsame.node.trans hnode, hsame.scope.trans hscope⟩

theorem Request.Backed.length_le {app : Application τ μ ℓ χ} {di : State τ υ}
    {request : Request τ υ μ ℓ χ} (h : request.Backed app di) :
    request.extracted.length ≤ (app.extractors request.endpoint.handler).length := by
  by_contra hlt
  obtain ⟨⟨c, values⟩, hlast⟩ : ∃ e,
      request.extracted[(app.extractors request.endpoint.handler).length]? = some e :=
    ⟨_, List.getElem?_eq_getElem (by omega)⟩
  obtain ⟨extractor, call, hx, -⟩ := h.held _ c values hlast
  rw [List.getElem?_eq_none (Nat.le_refl _)] at hx
  cases hx

namespace Server

/-- What every step keeps. -/
structure Serving [DecidableEq τ] [TypeName τ] (app : Application τ μ ℓ χ) (C : Container τ υ φ)
    (resolves : φ → Node τ → Bool) (s : Server τ υ μ ℓ χ) : Prop where
  reach : Reach (freeStep C resolves) (State.start τ υ) s.di
  backed : ∀ request ∈ s.requests, request.Backed app s.di
  below : ∀ request ∈ s.requests, ∀ sc, request.scope = some sc → sc < s.scopes
  apart : ∀ (i j : Nat) (request request' : Request τ υ μ ℓ χ) (sc : Nat),
    s.requests[i]? = some request → s.requests[j]? = some request' →
      request.scope = some sc → request'.scope = some sc → i = j

section

variable [DecidableEq τ] [TypeName τ] {app : Application τ μ ℓ χ} {C : Container τ υ φ}
  {resolves : φ → Node τ → Bool} {s t : Server τ υ μ ℓ χ}

theorem serving_start : Serving app C resolves (start τ υ μ ℓ χ) where
  reach := Reaches.refl _
  backed := nofun
  below := nofun
  apart i j request request' sc hi := by cases hi

/-- A request goes on, in its scope. -/
theorem Serving.set (hs : Serving app C resolves s) {i : Nat}
    {request request' : Request τ υ μ ℓ χ} (hi : s.requests[i]? = some request)
    (ht : t.requests = s.requests.set i request') (hscopes : t.scopes = s.scopes)
    (hreach : Reach (freeStep C resolves) (State.start τ υ) t.di) (hkept : CallsKept s.di t.di)
    (hscope : request'.scope = request.scope) (hbacked : request'.Backed app t.di) :
    Serving app C resolves t := by
  -- a request of `t` is one of `s`, as for its scope
  have hpast : ∀ (j : Nat) (later : Request τ υ μ ℓ χ), t.requests[j]? = some later →
      ∃ old, s.requests[j]? = some old ∧ later.scope = old.scope := by
    intro j later hj
    rw [ht] at hj
    rcases getElem?_set_some hj with ⟨rfl, rfl⟩ | ⟨-, hj⟩
    · exact ⟨request, hi, hscope⟩
    · exact ⟨later, hj, rfl⟩
  refine ⟨hreach, ?_, ?_, ?_⟩
  · intro later hlater
    rw [ht] at hlater
    rcases List.mem_or_eq_of_mem_set hlater with hold | rfl
    · exact (hs.backed later hold).mono hkept
    · exact hbacked
  · intro later hlater sc hsc
    obtain ⟨j, hj⟩ := List.getElem?_of_mem hlater
    obtain ⟨old, hold, hsame⟩ := hpast j later hj
    rw [hscopes]
    exact hs.below old (List.mem_of_getElem? hold) sc (hsame.symm.trans hsc)
  · intro j k later later' sc hj hk hsc hsc'
    obtain ⟨old, hold, hsame⟩ := hpast j later hj
    obtain ⟨old', hold', hsame'⟩ := hpast k later' hk
    exact hs.apart j k old old' sc hold hold' (hsame.symm.trans hsc) (hsame'.symm.trans hsc')

/-- A request arrives, in a scope of its own or in none. -/
theorem Serving.arrive (hs : Serving app C resolves s) {e : Endpoint μ ℓ χ} {path : String}
    {method : Method} (he : app.router.endpoint path method = some e) :
    Serving app C resolves { s with
      scopes := (app.enterScopes e.layers s.scopes).2
      requests := s.requests ++ [⟨e, (app.enterScopes e.layers s.scopes).1, [], .extracting⟩] } := by
  have hcases := app.enterScopes_cases e.layers s.scopes
  have hle : s.scopes ≤ (app.enterScopes e.layers s.scopes).2 := by
    rcases hcases with ⟨-, hsame, -⟩ | ⟨sc, -, hle, hlt, -⟩ <;> omega
  -- the new scope is none of the old ones
  have hnew : ∀ sc, (app.enterScopes e.layers s.scopes).1 = some sc →
      s.scopes ≤ sc ∧ sc < (app.enterScopes e.layers s.scopes).2 := by
    intro sc hsc
    rcases hcases with ⟨hnone, -, -⟩ | ⟨sc', hsome, hle, hlt, -⟩
    · rw [hnone] at hsc
      cases hsc
    · obtain rfl := Option.some.inj (hsome.symm.trans hsc)
      exact ⟨hle, hlt⟩
  refine ⟨hs.reach, ?_, ?_, ?_⟩
  · intro request hrequest
    rcases List.mem_append.mp hrequest with hold | hlast
    · exact hs.backed request hold
    · obtain rfl := List.mem_singleton.mp hlast
      refine ⟨nofun, nofun, nofun, nofun, ?_, path, method, he⟩
      rcases hcases with ⟨hnone, -, hall⟩ | ⟨sc, hsome, -, -, hlayer⟩
      · refine iff_of_false (by simp [hnone]) fun hlayer => ?_
        obtain ⟨layer, hmem, hscoping⟩ := hlayer
        rw [hall layer hmem] at hscoping
        cases hscoping
      · rw [hsome]
        exact iff_of_true rfl hlayer
  · intro request hrequest sc hsc
    rcases List.mem_append.mp hrequest with hold | hlast
    · exact (hs.below request hold sc hsc).trans_le hle
    · obtain rfl := List.mem_singleton.mp hlast
      exact (hnew sc hsc).2
  · intro i j request request' sc hi hj hsc hsc'
    rcases getElem?_concat_some hi with hi | ⟨rfl, rfl⟩ <;>
      rcases getElem?_concat_some hj with hj | ⟨rfl, rfl⟩
    · exact hs.apart i j request request' sc hi hj hsc hsc'
    · have hbelow := hs.below request (List.mem_of_getElem? hi) sc hsc
      have hge := (hnew sc hsc').1
      omega
    · have hbelow := hs.below request' (List.mem_of_getElem? hj) sc hsc'
      have hge := (hnew sc hsc).1
      omega
    · rfl

theorem Serving.step {a : ServerAction τ} (hs : Serving app C resolves s)
    (h : step app C resolves s a = some t) : Serving app C resolves t := by
  have hreached : ∀ (node : Node τ) (scope : Option Nat),
      Reach (freeStep C resolves) (State.start τ υ) (s.di.addCall (.top node scope)) :=
    fun node scope => hs.reach.tail (a := .call node scope) trivial rfl
  cases step_cases h with
  | arrive he => exact hs.arrive he
  | @extract i request extractor hi hphase hx =>
    have hb := (hs.backed request (List.mem_of_getElem? hi)).mono
      (callsKept_addCall s.di (.top extractor.node request.scope))
    refine hs.set hi rfl rfl (hreached _ _) (callsKept_addCall _ _) rfl
      ⟨hb.held, ?_, nofun, nofun, hb.scoped, hb.routed⟩
    intro c hc
    obtain rfl := RequestPhase.waiting.inj hc
    exact ⟨extractor, _, hx, List.getElem?_concat_length, rfl, rfl⟩
  | @handle i request hi hphase hx =>
    have hb := hs.backed request (List.mem_of_getElem? hi)
    refine hs.set hi rfl rfl hs.reach (.refl _) rfl
      ⟨hb.held, nofun, fun _ => ?_, nofun, hb.scoped, hb.routed⟩
    exact le_antisymm (List.getElem?_eq_none_iff.mp hx) hb.length_le
  | @take i c request call values hi hphase hc hdone =>
    have hb := hs.backed request (List.mem_of_getElem? hi)
    refine hs.set hi rfl rfl hs.reach (.refl _) rfl
      ⟨?_, nofun, nofun, nofun, hb.scoped, hb.routed⟩
    intro k c' values' hk
    rcases getElem?_concat_some hk with hk | ⟨rfl, heq⟩
    · exact hb.held k c' values' hk
    · obtain ⟨rfl, rfl⟩ := Prod.mk.inj heq
      obtain ⟨extractor, call', hx, ⟨hc', hnode, hscope⟩⟩ := hb.waits c' hphase
      obtain rfl := Option.some.inj (hc'.symm.trans hc)
      exact ⟨extractor, call', hx, ⟨hc', hnode, hscope⟩, hdone⟩
  | @reject i c request call e hi hphase hc hdone =>
    have hb := hs.backed request (List.mem_of_getElem? hi)
    refine hs.set hi rfl rfl hs.reach (.refl _) rfl
      ⟨hb.held, nofun, nofun, ?_, hb.scoped, hb.routed⟩
    intro status body hrejected
    obtain ⟨rfl, rfl⟩ := RequestPhase.rejected.inj hrejected
    exact ⟨rfl, rfl⟩
  | @abandon i request hi =>
    have hb := hs.backed request (List.mem_of_getElem? hi)
    exact hs.set hi rfl rfl hs.reach (.refl _) rfl ⟨hb.held, nofun, nofun, nofun, hb.scoped, hb.routed⟩
  | resolve scope node =>
    refine ⟨hreached _ _, fun request hrequest => ?_, hs.below, hs.apart⟩
    exact (hs.backed request hrequest).mono (callsKept_addCall s.di _)
  | di hdi =>
    refine ⟨hs.reach.tail trivial hdi, fun request hrequest => ?_, hs.below, hs.apart⟩
    exact (hs.backed request hrequest).mono (callsKept_step hdi)

theorem serving_of_reach (h : Reach (step app C resolves) (start τ υ μ ℓ χ) s) :
    Serving app C resolves s :=
  h.invariant serving_start fun _ _ _ hu _ hstep => hu.step hstep

end

end Server

end Kolas.Di

import Kolas.Di.Needs

/-!
# Requests are kept apart

* `isolated_of_reach`: what is built in a scope, and not for a singleton, is held by one
  request only; a scoped registration is one instance for all extractors of a request; and a
  handler runs with the values of all its extractors, or not at all.
* `handled_iff`: a handler can run exactly if what it injects is registered and, where some of
  it is scoped, a `ScopeMiddleware` is added after its route.
-/

namespace Kolas.Di

open Kolas.Lib Kolas.Routing

variable {τ υ φ μ ℓ χ : Type}

namespace Server

section

variable [DecidableEq τ] [TypeName τ] {app : Application τ μ ℓ χ} {C : Container τ υ φ}
  {resolves : φ → Node τ → Bool} {s t : Server τ υ μ ℓ χ}

/-! ### Isolation -/

/-- The request has extracted the instance, for the registration `r`. -/
def Holds (app : Application τ μ ℓ χ) (request : Request τ υ μ ℓ χ) (r : EntryRef τ)
    (inst : Inst υ) : Prop :=
  ∃ (k c j : Nat) (values : List (Inst υ)) (extractor : Extractor τ),
    request.extracted[k]? = some (c, values) ∧ values[j]? = some inst ∧
      (app.extractors request.endpoint.handler)[k]? = some extractor ∧ extractor.node.ref j = r

theorem Serving.sound (hs : Serving app C resolves s) : Sound C s.di := by
  obtain ⟨w, hmachine, hw⟩ := watched_of_reach hs.reach
  exact hmachine ▸ (told_of_reach hw).1

/-- What a request holds, a call in its scope has returned. -/
theorem Serving.returned (hs : Serving app C resolves s) {request : Request τ υ μ ℓ χ}
    (hrequest : request ∈ s.requests) {r : EntryRef τ} {inst : Inst υ}
    (h : Holds app request r inst) :
    ∃ call, Returned s.di call r inst ∧ call.scope = request.scope := by
  obtain ⟨k, c, j, values, extractor, hk, hj, hx, href⟩ := h
  obtain ⟨extractor', call, hx', ⟨hc, hnode, hscope⟩, hdone⟩ :=
    (hs.backed request hrequest).held k c values hk
  obtain rfl := Option.some.inj (hx.symm.trans hx')
  refine ⟨call, ⟨List.mem_of_getElem? hc, j, values, hdone, hj, ?_⟩, hscope⟩
  rw [Call.ref, hnode, href]

/-- **Requests are kept apart.**  In every state of every run: what was built in a scope, and
not for a singleton, is held by one request only; a scoped registration is one instance for
all extractors of a request; a request in its handler has the values of all its extractors,
from calls made in its scope; and a rejection is the same whatever the error is. -/
theorem isolated_of_reach (h : Reach (step app C resolves) (start τ υ μ ℓ χ) s) :
    (∀ (i j n sc : Nat) (request request' : Request τ υ μ ℓ χ) (r r' : EntryRef τ)
        (run : FactoryRun τ), s.requests[i]? = some request → s.requests[j]? = some request' →
      Holds app request r (.built n) → Holds app request' r' (.built n) →
      s.di.runs[n]? = some run → (∀ f, C.entryOf run.ref ≠ some (.singleton f)) →
      run.scope = some sc → i = j) ∧
    (∀ request ∈ s.requests, ∀ (r : EntryRef τ) (f : φ) (inst inst' : Inst υ),
      C.entryOf r = some (.scoped f) → Holds app request r inst → Holds app request r inst' →
        inst = inst') ∧
    (∀ request ∈ s.requests, request.phase = .handling →
      ∀ (k : Nat) (extractor : Extractor τ),
        (app.extractors request.endpoint.handler)[k]? = some extractor →
          ∃ c values call, request.extracted[k]? = some (c, values) ∧
            request.Calls s.di extractor c call ∧ call.phase = .done (.ok values)) ∧
    ∀ request ∈ s.requests, ∀ status body, request.phase = .rejected status body →
      status = 500 ∧ body = "internal server error" := by
  have hs := serving_of_reach h
  refine ⟨?_, ?_, ?_, fun request hrequest => (hs.backed request hrequest).fixed⟩
  · intro i j n sc request request' r r' run hi hj hholds hholds' hn hrun hsc
    obtain ⟨call, hcall, hscope⟩ := hs.returned (List.mem_of_getElem? hi) hholds
    obtain ⟨call', hcall', hscope'⟩ := hs.returned (List.mem_of_getElem? hj) hholds'
    have hstays := hs.sound.stays hcall hn hrun
    have hstays' := hs.sound.stays hcall' hn hrun
    exact hs.apart i j request request' sc hi hj (hscope.symm.trans (hstays.trans hsc))
      (hscope'.symm.trans (hstays'.trans hsc))
  · intro request hrequest r f inst inst' hr hholds hholds'
    obtain ⟨call, hcall, hscope⟩ := hs.returned hrequest hholds
    obtain ⟨call', hcall', hscope'⟩ := hs.returned hrequest hholds'
    exact hs.sound.scoped_eq hr hcall hcall' (hscope.trans hscope'.symm)
  · intro request hrequest hphase k extractor hx
    have hb := hs.backed request hrequest
    have hlt : k < request.extracted.length := by
      rw [← hb.all hphase]
      exact (List.getElem?_eq_some_iff.mp hx).1
    obtain ⟨⟨c, values⟩, hk⟩ : ∃ e, request.extracted[k]? = some e :=
      ⟨_, List.getElem?_eq_getElem hlt⟩
    obtain ⟨extractor', call, hx', hcalls, hdone⟩ := hb.held k c values hk
    obtain rfl := Option.some.inj (hx.symm.trans hx')
    exact ⟨c, values, call, hk, hcalls, hdone⟩

/-! ### Which handlers can run -/

/-- The container goes on by itself. -/
theorem reach_di {di : State τ υ}
    (h : Reaches (freeStep C resolves) (fun _ a => a.isCall = false) s.di di) :
    Reach (step app C resolves) s { s with di := di } := by
  induction h with
  | refl => exact Reaches.refl s
  | @tail di di' _ hlast ih =>
    obtain ⟨a, ha, hdi⟩ := hlast
    have hstep : step app C resolves { s with di := di } (.di a) = some { s with di := di' } := by
      rw [step, ha, hdi]
      rfl
    exact ih.tail trivial hstep

omit [DecidableEq τ] [TypeName τ] in
/-- The layers of a route that are `ScopeMiddleware` are of the later calls. -/
theorem exists_scoping_iff {calls : List (Routing.Call μ ℓ χ)} {p : Nat} :
    (∃ layer ∈ layersAfter calls p, app.scoping layer = true) ↔
      ∃ q c' m, p < q ∧ calls[q]? = some c' ∧ (c' = .middleware m ∨ c' = .routeMiddleware m) ∧
        app.isScope m = true := by
  constructor
  · rintro ⟨layer, hlayer, hscoping⟩
    obtain ⟨q, c', hlt, hq, hl⟩ := mem_layersAfter.mp hlayer
    cases c' with
    | middleware m =>
      obtain rfl := Option.some.inj hl
      exact ⟨q, _, m, hlt, hq, .inl rfl, hscoping⟩
    | routeMiddleware m =>
      obtain rfl := Option.some.inj hl
      exact ⟨q, _, m, hlt, hq, .inr rfl, hscoping⟩
    | layer l =>
      obtain rfl := Option.some.inj hl
      cases hscoping
    | _ => cases hl
  · rintro ⟨q, c', m, hlt, hq, hc', hscope⟩
    refine ⟨.fromFn ⟨q, m⟩, mem_layersAfter.mpr ⟨q, c', hlt, hq, ?_⟩, hscope⟩
    rcases hc' with rfl | rfl
    · rfl
    · rfl

/-- The request is the only one, and no call is unfinished. -/
structure Lone (C : Container τ υ φ) (s : Server τ υ μ ℓ χ) (request : Request τ υ μ ℓ χ) :
    Prop where
  requests : s.requests = [request]
  settled : Settled C s.di

variable (app resolves) in
/-- **One extractor more.** -/
theorem Lone.extract {request : Request τ υ μ ℓ χ} (h : Lone C s request)
    (hphase : request.phase = .extracting) {extractor : Extractor τ}
    (hx : (app.extractors request.endpoint.handler)[request.extracted.length]? = some extractor)
    (hregistered : C.Registered extractor.node)
    (hscope : C.NeedsScope extractor.node → request.scope.isSome) :
    ∃ t got, Reach (step app C resolves) s t ∧ Lone C t { request with
      extracted := request.extracted ++ [got] } := by
  have hfirst : s.requests[0]? = some request := by rw [h.requests]; rfl
  -- the call is made, and returns
  have hcall : step app C resolves s (.extract 0) = some
      { s.setRequest 0 { request with phase := .waiting s.di.calls.length } with
        di := s.di.addCall (.top extractor.node request.scope) } := by
    simp only [step, hfirst, hphase, if_true, Server.extract, hx]
  obtain ⟨di, call, values, hbecomes, hdone⟩ :=
    (h.settled.addCall extractor.node request.scope).returns resolves hregistered hscope
  have hreturn : Reach (step app C resolves)
      { s.setRequest 0 { request with phase := .waiting s.di.calls.length } with
        di := s.di.addCall (.top extractor.node request.scope) }
      { s.setRequest 0 { request with phase := .waiting s.di.calls.length } with di := di } :=
    reach_di hbecomes.reach
  have htake : step app C resolves
      { s.setRequest 0 { request with phase := .waiting s.di.calls.length } with di := di }
      (.extracted 0) = some { s.setRequest 0 { request with
        extracted := request.extracted ++ [(s.di.calls.length, values)] } with di := di } := by
    simp [step, setRequest, h.requests, hbecomes.alone.here, hdone, Server.extracted, hphase]
  refine ⟨_, (s.di.calls.length, values),
    ((Reaches.single trivial hcall).trans hreturn).tail trivial htake, ?_⟩
  refine ⟨?_, hbecomes.alone.settled (by rw [hdone]; rfl)⟩
  simp [setRequest, h.requests]

variable (app resolves) in
/-- **All that are left**, and the handler. -/
theorem Lone.handles {request : Request τ υ μ ℓ χ} (h : Lone C s request)
    (hphase : request.phase = .extracting)
    (hregistered : ∀ x ∈ app.extractors request.endpoint.handler, C.Registered x.node)
    (hscope : ∀ x ∈ app.extractors request.endpoint.handler, C.NeedsScope x.node →
      request.scope.isSome) :
    ∃ t, Reach (step app C resolves) s t ∧
      ∃ request' ∈ t.requests, request'.endpoint = request.endpoint ∧ request'.phase = .handling := by
  induction hleft : (app.extractors request.endpoint.handler).length - request.extracted.length
    generalizing s request with
  | zero =>
    have hfirst : s.requests[0]? = some request := by rw [h.requests]; rfl
    have hnone : (app.extractors request.endpoint.handler)[request.extracted.length]? = none :=
      List.getElem?_eq_none (by omega)
    have hhandle : step app C resolves s (.extract 0) =
        some (s.setRequest 0 { request with phase := .handling }) := by
      simp only [step, hfirst, hphase, if_true, Server.extract, hnone]
    refine ⟨_, Reaches.single trivial hhandle, { request with phase := .handling }, ?_, rfl, rfl⟩
    simp [setRequest, h.requests]
  | succ left ih =>
    have hlt : request.extracted.length < (app.extractors request.endpoint.handler).length := by
      omega
    have hmem := List.getElem_mem hlt
    obtain ⟨t, got, hreach, hlone⟩ := h.extract app resolves hphase
      (List.getElem?_eq_getElem hlt) (hregistered _ hmem) (hscope _ hmem)
    have hshorter : (app.extractors request.endpoint.handler).length -
        (request.extracted ++ [got]).length = left := by
      rw [List.length_append, List.length_singleton]
      omega
    obtain ⟨u, hreach', hhandled⟩ := ih hlone hphase hregistered hscope hshorter
    exact ⟨u, hreach.trans hreach', hhandled⟩

variable (υ resolves) in
/-- A request of its own gets to the handler. -/
theorem exists_handled {e : Endpoint μ ℓ χ} {path : String} {method : Method}
    (he : app.router.endpoint path method = some e)
    (hregistered : ∀ x ∈ app.extractors e.handler, C.Registered x.node)
    (hscoping : ∀ x ∈ app.extractors e.handler, C.NeedsScope x.node →
      ∃ layer ∈ e.layers, app.scoping layer = true) :
    ∃ s, Reach (step app C resolves) (start τ υ μ ℓ χ) s ∧
      ∃ request ∈ s.requests, request.endpoint = e ∧ request.phase = .handling := by
  have harrive : step app C resolves (start τ υ μ ℓ χ) (.arrive path method) =
      some ⟨State.start τ υ, (app.enterScopes e.layers 0).2,
        [⟨e, (app.enterScopes e.layers 0).1, [], .extracting⟩], []⟩ := by
    simp only [step, he, Option.map_some]
    rfl
  have hlone : Lone C (⟨State.start τ υ, (app.enterScopes e.layers 0).2,
      [⟨e, (app.enterScopes e.layers 0).1, [], .extracting⟩], []⟩ : Server τ υ μ ℓ χ)
      ⟨e, (app.enterScopes e.layers 0).1, [], .extracting⟩ :=
    ⟨rfl, settled_start C⟩
  obtain ⟨s, hreach, hhandled⟩ := hlone.handles app resolves rfl hregistered fun x hx hneeds => by
    rcases app.enterScopes_cases e.layers 0 with ⟨-, -, hall⟩ | ⟨sc, hsome, -⟩
    · obtain ⟨layer, hmem, htrue⟩ := hscoping x hx hneeds
      rw [hall layer hmem] at htrue
      cases htrue
    · exact Option.isSome_of_eq_some hsome
  exact ⟨s, (Reaches.single trivial harrive).trans hreach, hhandled⟩

/-- **Which handlers can run.**  A handler can run in some run exactly if what it injects is
registered and, where some of it is scoped, `ScopeMiddleware` is added after its route. -/
theorem handled_iff {calls : List (Routing.Call μ ℓ χ)} {p : Nat} {c : Routing.Call μ ℓ χ}
    {path : String} {method : Method} {handler : χ} (hrouter : router calls = some app.router)
    (hc : calls[p]? = some c) (hr : c.registers = some (path, method, handler)) :
    (∃ s, Reach (step app C resolves) (start τ υ μ ℓ χ) s ∧ ∃ request ∈ s.requests,
      request.endpoint.path = path ∧ request.endpoint.method = method ∧
        request.phase = .handling) ↔
    ∀ x ∈ app.extractors handler, C.Registered x.node ∧
      (C.NeedsScope x.node → ∃ q c' m, p < q ∧ calls[q]? = some c' ∧
        (c' = .middleware m ∨ c' = .routeMiddleware m) ∧ app.isScope m = true) := by
  have he := endpoint_of_router hrouter hc hr
  rw [← exists_scoping_iff]
  constructor
  · rintro ⟨s, hreach, request, hrequest, rfl, rfl, hphase⟩ x hmem
    have hs := serving_of_reach hreach
    have hb := hs.backed request hrequest
    obtain ⟨path', method', hroute⟩ := hb.routed
    have hat := List.find?_some hroute
    simp only [Endpoint.at, Bool.and_eq_true, beq_iff_eq] at hat
    obtain ⟨rfl, rfl⟩ := hat
    have hendpoint := Option.some.inj (hroute.symm.trans he)
    have hhandler : request.endpoint.handler = handler := by rw [hendpoint]
    rw [← hhandler] at hmem
    -- the extractor is done, by a call in the request's scope
    obtain ⟨k, hk⟩ := List.getElem?_of_mem hmem
    obtain ⟨⟨c, values⟩, hheld⟩ : ∃ e, request.extracted[k]? = some e := by
      refine ⟨_, List.getElem?_eq_getElem ?_⟩
      rw [← hb.all hphase]
      exact (List.getElem?_eq_some_iff.mp hk).1
    obtain ⟨x', call, hk', ⟨hcall, hnode, hscope⟩, hdone⟩ := hb.held k c values hheld
    obtain rfl := Option.some.inj (hk.symm.trans hk')
    rw [← hnode]
    refine ⟨registered_of_returned hs.reach hcall hdone, fun hneeds => ?_⟩
    have hsome := scope_of_returned hs.reach hcall hdone hneeds
    rw [hscope] at hsome
    have hlayers := hb.scoped.mp hsome
    rwa [hendpoint] at hlayers
  · intro hall
    obtain ⟨s, hreach, request, hrequest, hendpoint, hphase⟩ :=
      exists_handled υ resolves he (fun x hx => (hall x hx).1) fun x hx => (hall x hx).2
    exact ⟨s, hreach, request, hrequest, by rw [hendpoint], by rw [hendpoint], hphase⟩

/-! ### A session for each request -/

/-- A route, with `ScopeMiddleware` after it. -/
def scopedCalls : List (Routing.Call Unit Unit Unit) := [.get "/" (), .middleware ()]

def sessions : Application String Unit Unit Unit where
  router := ⟨[⟨"/", .get, (), layersAfter scopedCalls 0⟩]⟩
  isScope _ := true
  extractors _ := [.inject "Session" none]

/-- Two requests get a session each, at the same time. -/
def twoRequests : List (ServerAction String) :=
  [.arrive "/" .get, .arrive "/" .get, .extract 0, .extract 1, .di (.poll 0), .di (.poll 1),
    .di (.poll 1), .di (.poll 0), .di (.poll 0), .di (.poll 1), .di (.poll 0), .di (.poll 1),
    .di (.finish 1 (.ok ())), .di (.finish 0 (.ok ())), .extracted 1, .extracted 0, .extract 0,
    .extract 1]

theorem isolated_twoRequests : ∃ s, run (step sessions
      (containerOf [.scoped "Session" true] : Container String Unit Bool) sessionUses)
      (start String Unit Unit Unit Unit) twoRequests = some s ∧
    (∃ request, s.requests[0]? = some request ∧
      Holds sessions request (.single ⟨"Session", none⟩) (.built 0)) ∧
    ∀ i request r, s.requests[i]? = some request → Holds sessions request r (.built 0) → i = 0 := by
  obtain ⟨s, hs, request, hrequest, hextracted, built, hbuilt, href, hscope⟩ : ∃ s,
      run (step sessions (containerOf [.scoped "Session" true] : Container String Unit Bool)
        sessionUses) (start String Unit Unit Unit Unit) twoRequests = some s ∧ ∃ request,
      s.requests[0]? = some request ∧ request.extracted[0]? = some (0, [.built 0]) ∧ ∃ built,
      s.di.runs[0]? = some built ∧ built.ref = .single ⟨"Session", none⟩ ∧ built.scope = some 0 :=
    ⟨_, rfl, _, rfl, rfl, _, rfl, rfl, rfl⟩
  have hholds : Holds sessions request (.single ⟨"Session", none⟩) (.built 0) :=
    ⟨0, 0, 0, [.built 0], .inject "Session" none, hextracted, rfl, rfl, rfl⟩
  refine ⟨s, hs, ⟨request, hrequest, hholds⟩, fun i request' r hi hr => ?_⟩
  refine (isolated_of_reach (reach_of_run hs)).1 i 0 0 0 request' request r _ built hi hrequest hr
    hholds hbuilt ?_ hscope
  intro f hf
  rw [href] at hf
  cases hf

theorem handled_session : ∃ s, Reach (step sessions
      (containerOf [.scoped "Session" true] : Container String Unit Bool) sessionUses)
      (start String Unit Unit Unit Unit) s ∧
    ∃ request ∈ s.requests, request.endpoint.path = "/" ∧ request.endpoint.method = .get ∧
      request.phase = .handling := by
  have hrouter : router scopedCalls = some sessions.router := rfl
  refine (handled_iff (p := 0) (c := .get "/" ()) hrouter rfl rfl).mpr fun x hx => ?_
  obtain rfl := List.mem_singleton.mp hx
  exact ⟨rfl, fun _ => ⟨1, .middleware (), (), Nat.zero_lt_one, rfl, .inl rfl, rfl⟩⟩

end

end Server

end Kolas.Di

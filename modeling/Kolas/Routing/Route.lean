import Mathlib.Data.List.Basic

/-!
# The route builder

`routing/route.rs` and `http/middleware/mod.rs` over the part of `axum::Router`
they use.  A router is the list of its endpoints, each with the layers it is
wrapped in, the innermost first.  `Router::route` adds an unwrapped endpoint (it
panics on a path that already has the method), `Router::layer` wraps every
endpoint there is, and `Router::route_layer` does the same but panics on a router
without routes.  A panic is `none`.

`apply_layer` and `apply_route_layer` move the middleware into a fresh `Arc` and
make a `from_fn` layer of it.  The `i`-th call on the builder allocates at the
address `i`, so that the layers of two calls are told apart even if they were
given equal middleware.
-/

namespace Kolas.Routing

inductive Method
  | get | post | put | patch | delete
  deriving DecidableEq, Repr

/-- A value behind `Arc::new`, with the address it was allocated at. -/
structure Arc (α : Type*) where
  addr : Nat
  val : α
  deriving DecidableEq, Repr

/-- What an endpoint can be wrapped in: `middleware::from_fn` of an application
middleware, or a Tower layer. -/
inductive Layer (μ ℓ : Type*)
  | fromFn (middleware : Arc μ)
  | tower (layer : ℓ)
  deriving DecidableEq, Repr

variable {μ ℓ χ : Type*}

/-- A handler registered for one method of one path, and the layers around it,
the innermost first. -/
structure Endpoint (μ ℓ χ : Type*) where
  path : String
  method : Method
  handler : χ
  layers : List (Layer μ ℓ)
  deriving DecidableEq, Repr

/-- `axum::Router`. -/
structure Router (μ ℓ χ : Type*) where
  endpoints : List (Endpoint μ ℓ χ)
  deriving DecidableEq, Repr

def Endpoint.at (e : Endpoint μ ℓ χ) (path : String) (method : Method) : Bool :=
  e.path == path && e.method == method

def Endpoint.wrap (layer : Layer μ ℓ) (e : Endpoint μ ℓ χ) : Endpoint μ ℓ χ :=
  { e with layers := e.layers ++ [layer] }

namespace Router

def new : Router μ ℓ χ := ⟨[]⟩

def route (r : Router μ ℓ χ) (path : String) (method : Method) (handler : χ) :
    Option (Router μ ℓ χ) :=
  if r.endpoints.any (·.at path method) then none
  else some ⟨r.endpoints ++ [⟨path, method, handler, []⟩]⟩

def layer (r : Router μ ℓ χ) (layer : Layer μ ℓ) : Router μ ℓ χ :=
  ⟨r.endpoints.map (·.wrap layer)⟩

def routeLayer (r : Router μ ℓ χ) (layer : Layer μ ℓ) : Option (Router μ ℓ χ) :=
  if r.endpoints.isEmpty then none else some (r.layer layer)

/-- The endpoint that answers a request. -/
def endpoint (r : Router μ ℓ χ) (path : String) (method : Method) : Option (Endpoint μ ℓ χ) :=
  r.endpoints.find? (·.at path method)

/-- A request for `method` of `path` reaches its handler through `layer`. -/
def PassesThrough (r : Router μ ℓ χ) (path : String) (method : Method) (layer : Layer μ ℓ) :
    Prop :=
  ∃ e, r.endpoint path method = some e ∧ layer ∈ e.layers

end Router

def applyLayer (router : Router μ ℓ χ) (middleware : Arc μ) : Router μ ℓ χ :=
  router.layer (.fromFn middleware)

def applyRouteLayer (router : Router μ ℓ χ) (middleware : Arc μ) : Option (Router μ ℓ χ) :=
  router.routeLayer (.fromFn middleware)

/-- `Route`, and the number of calls made on it so far. -/
structure Route (μ ℓ χ : Type*) where
  router : Router μ ℓ χ
  calls : Nat

namespace Route

def new : Route μ ℓ χ := ⟨.new, 0⟩

/-- The common body of `get`, `post`, `put`, `patch` and `delete`. -/
def verb (method : Method) (r : Route μ ℓ χ) (path : String) (handler : χ) :
    Option (Route μ ℓ χ) :=
  (r.router.route path method handler).map (⟨·, r.calls + 1⟩)

def get : Route μ ℓ χ → String → χ → Option (Route μ ℓ χ) := verb .get
def post : Route μ ℓ χ → String → χ → Option (Route μ ℓ χ) := verb .post
def put : Route μ ℓ χ → String → χ → Option (Route μ ℓ χ) := verb .put
def patch : Route μ ℓ χ → String → χ → Option (Route μ ℓ χ) := verb .patch
def delete : Route μ ℓ χ → String → χ → Option (Route μ ℓ χ) := verb .delete

def middleware (r : Route μ ℓ χ) (middleware : μ) : Route μ ℓ χ :=
  ⟨applyLayer r.router ⟨r.calls, middleware⟩, r.calls + 1⟩

def layer (r : Route μ ℓ χ) (layer : ℓ) : Route μ ℓ χ :=
  ⟨r.router.layer (.tower layer), r.calls + 1⟩

def routeMiddleware (r : Route μ ℓ χ) (middleware : μ) : Option (Route μ ℓ χ) :=
  (applyRouteLayer r.router ⟨r.calls, middleware⟩).map (⟨·, r.calls + 1⟩)

def intoRouter (r : Route μ ℓ χ) : Router μ ℓ χ := r.router

end Route

/-- A call on the builder. -/
inductive Call (μ ℓ χ : Type*)
  | get (path : String) (handler : χ)
  | post (path : String) (handler : χ)
  | put (path : String) (handler : χ)
  | patch (path : String) (handler : χ)
  | delete (path : String) (handler : χ)
  | middleware (middleware : μ)
  | layer (layer : ℓ)
  | routeMiddleware (middleware : μ)

def Call.apply (r : Route μ ℓ χ) : Call μ ℓ χ → Option (Route μ ℓ χ)
  | .get path handler => r.get path handler
  | .post path handler => r.post path handler
  | .put path handler => r.put path handler
  | .patch path handler => r.patch path handler
  | .delete path handler => r.delete path handler
  | .middleware m => some (r.middleware m)
  | .layer l => some (r.layer l)
  | .routeMiddleware m => r.routeMiddleware m

/-- `Route::new()` followed by the calls. -/
def built (calls : List (Call μ ℓ χ)) : Option (Route μ ℓ χ) :=
  calls.foldlM Call.apply .new

/-- The router the calls end in, if none of them panics. -/
def router (calls : List (Call μ ℓ χ)) : Option (Router μ ℓ χ) :=
  (built calls).map Route.intoRouter

/-- The endpoint a call registers. -/
def Call.registers : Call μ ℓ χ → Option (String × Method × χ)
  | .get path handler => some (path, .get, handler)
  | .post path handler => some (path, .post, handler)
  | .put path handler => some (path, .put, handler)
  | .patch path handler => some (path, .patch, handler)
  | .delete path handler => some (path, .delete, handler)
  | _ => none

/-- The layer the `i`-th call on the builder makes. -/
def Call.layer? (i : Nat) : Call μ ℓ χ → Option (Layer μ ℓ)
  | .middleware m => some (.fromFn ⟨i, m⟩)
  | .layer l => some (.tower l)
  | .routeMiddleware m => some (.fromFn ⟨i, m⟩)
  | _ => none

/-- **What a call does**: add an unwrapped endpoint whose path and method are
new, or wrap every endpoint there is. -/
theorem Call.apply_cases {r r' : Route μ ℓ χ} {c : Call μ ℓ χ} (h : c.apply r = some r') :
    r'.calls = r.calls + 1 ∧
      ((∃ path method handler, c.registers = some (path, method, handler) ∧
          c.layer? r.calls = none ∧ r.router.endpoints.any (·.at path method) = false ∧
          r'.router.endpoints = r.router.endpoints ++ [⟨path, method, handler, []⟩]) ∨
        (∃ layer, c.registers = none ∧ c.layer? r.calls = some layer ∧
          r'.router.endpoints = r.router.endpoints.map (·.wrap layer))) := by
  have hverb : ∀ {method path handler}, Route.verb method r path handler = some r' →
      r'.calls = r.calls + 1 ∧ r.router.endpoints.any (·.at path method) = false ∧
        r'.router.endpoints = r.router.endpoints ++ [⟨path, method, handler, []⟩] := by
    intro method path handler hv
    simp only [Route.verb, Router.route] at hv
    split at hv
    · cases hv
    · rename_i hnew
      cases hv
      exact ⟨rfl, by simpa using hnew, rfl⟩
  cases c with
  | get path handler =>
    obtain ⟨hc, hnew, he⟩ := hverb h
    exact ⟨hc, Or.inl ⟨path, .get, handler, rfl, rfl, hnew, he⟩⟩
  | post path handler =>
    obtain ⟨hc, hnew, he⟩ := hverb h
    exact ⟨hc, Or.inl ⟨path, .post, handler, rfl, rfl, hnew, he⟩⟩
  | put path handler =>
    obtain ⟨hc, hnew, he⟩ := hverb h
    exact ⟨hc, Or.inl ⟨path, .put, handler, rfl, rfl, hnew, he⟩⟩
  | patch path handler =>
    obtain ⟨hc, hnew, he⟩ := hverb h
    exact ⟨hc, Or.inl ⟨path, .patch, handler, rfl, rfl, hnew, he⟩⟩
  | delete path handler =>
    obtain ⟨hc, hnew, he⟩ := hverb h
    exact ⟨hc, Or.inl ⟨path, .delete, handler, rfl, rfl, hnew, he⟩⟩
  | middleware m =>
    cases h
    exact ⟨rfl, Or.inr ⟨_, rfl, rfl, rfl⟩⟩
  | layer l =>
    cases h
    exact ⟨rfl, Or.inr ⟨_, rfl, rfl, rfl⟩⟩
  | routeMiddleware m =>
    simp only [Call.apply, Route.routeMiddleware, applyRouteLayer, Router.routeLayer] at h
    split at h
    · cases h
    · cases h
      exact ⟨rfl, Or.inr ⟨_, rfl, rfl, rfl⟩⟩

end Kolas.Routing

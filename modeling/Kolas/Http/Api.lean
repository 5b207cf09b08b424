import Kolas.Http.Seen
import Kolas.Routing.Order

/-!
# The routes of the application

`routes/api.rs`, and `TrimStrings` as a layer of any router that `routing/route.rs` builds.
The Tower layers are parameters: whatever they do with a request, they call the inner
service at most once.

* `apiCalls_serves_iff`: trace → CORS → compression → `TrimStrings` → handlers.
* `handler_sees_trimmed`: what a handler below `TrimStrings` is given is what the outer layers
  hand on, decoded and trimmed.
-/

namespace Kolas.Http

open Kolas.Lib Kolas.Routing

variable {ν μ ℓ χ R : Type}

/-- The middleware of an application. -/
inductive AppMiddleware (μ : Type)
  | trimStrings
  | other (middleware : μ)

section

variable (C : Codecs ν) (respond : Nat → String → R) (others : μ → Wrapper Request R)
  (tower : ℓ → Wrapper Request R)

/-- `TrimStrings`; `respond` makes a response of a status and a text. -/
def trimStrings : Wrapper Request R where
  before request := match handle C request with
    | .forwarded next => .inr (next, id)
    | .answered status text => .inl (respond status text)

/-- What the layers do. -/
def layerOf : Layer (AppMiddleware μ) ℓ → Wrapper Request R
  | .fromFn middleware => match middleware.val with
    | .trimStrings => trimStrings C respond
    | .other m => others m
  | .tower layer => tower layer

end

variable {C : Codecs ν} {respond : Nat → String → R} {others : μ → Wrapper Request R}
  {tower : ℓ → Wrapper Request R}

theorem trimStrings_hands_iff {request next : Request} :
    (trimStrings C respond).Hands request next ↔ handle C request = .forwarded next := by
  unfold Wrapper.Hands trimStrings
  dsimp only
  cases handle C request with
  | forwarded next' => simp
  | answered status text => simp

/-- **What a handler below `TrimStrings` is given**: the outer layers hand a request on,
the middleware trims what is decoded of it, and leaves its method and its headers; the
inner layers get that. -/
theorem handler_sees_trimmed (hC : C.RoundTrips) (hempty : C.Empties)
    {calls : List (Routing.Call (AppMiddleware μ) ℓ χ)} {r : Router (AppMiddleware μ) ℓ χ}
    (h : router calls = some r) {p i : Nat} {c : Routing.Call (AppMiddleware μ) ℓ χ} {path : String}
    {method : Routing.Method} {handler : χ} (hc : calls[p]? = some c)
    (hr : c.registers = some (path, method, handler)) (hp : p < i)
    (hi : calls[i]? = some (.middleware .trimStrings)) {q q' : Request}
    (hserves : r.Serves (layerOf C respond others tower) path method q q') :
    ∃ q₁ q₂, (throughAll (layerOf C respond others tower) (layersAfter calls i)).Hands q q₁ ∧
      (q₁.uri.PathEnds → q₁.uri.Rebuilt C → q₂.seen C = (q₁.seen C).trimmed q₁.method) ∧
      q₂.method = q₁.method ∧ q₂.headers = q₁.headers ∧
      (throughAll (layerOf C respond others tower) (layersAfter (calls.take i) p)).Hands q₂ q' := by
  obtain ⟨q₁, q₂, houter, hlayer, hinner⟩ := (serves_iff h hc hr hp hi rfl q q').mp hserves
  have hhandle : handle C q₁ = .forwarded q₂ := trimStrings_hands_iff.mp hlayer
  obtain ⟨hmethod, hheaders⟩ := kept_of_forwarded hhandle
  refine ⟨q₁, q₂, houter, ?_, hmethod, hheaders, hinner⟩
  intro hpath hrebuilt
  exact seen_of_forwarded hC hempty hpath hrebuilt hhandle

/-- A form for John, under the middleware and inside a layer that hands everything on. -/
def echoCalls : List (Routing.Call (AppMiddleware Unit) Unit Unit) :=
  [.post "/echo" (), .middleware .trimStrings, .layer ()]

theorem handler_sees_john : ∃ r q', router echoCalls = some r ∧
    r.Serves (layerOf johnForm (fun status text => (status, text)) (fun _ => 1) fun _ => 1) "/echo"
      .post (formPost ⟨"/echo", some "name=+john+"⟩ (ascii "name=+john+")) q' ∧
    (q'.seen johnForm).form = [("name", "john")] ∧
    (q'.seen johnForm).query = [("name", "john")] := by
  obtain ⟨next, hnext⟩ : ∃ next,
      handle johnForm (formPost ⟨"/echo", some "name=+john+"⟩ (ascii "name=+john+")) =
        .forwarded next := ⟨_, rfl⟩
  have hempty : johnForm.Empties := by
    refine ⟨?_, rfl⟩
    intro pairs hpairs
    have hnone : johnForm.formFromBytes [] = none := by decide
    rw [hnone] at hpairs
    cases hpairs
  have hrebuilt : (formPost ⟨"/echo", some "name=+john+"⟩ (ascii "name=+john+")).uri.Rebuilt
      johnForm := ⟨fun pairs => ⟨_, _, rfl, rfl⟩, ⟨_, _, rfl, rfl⟩⟩
  have hround : johnForm.RoundTrips := oneForm_roundTrips _ _
  obtain ⟨r, hrouter⟩ : ∃ r, router echoCalls = some r := ⟨_, rfl⟩
  have hserves : r.Serves (layerOf johnForm (fun status text => (status, text)) (fun _ => 1)
      fun _ => 1) "/echo" .post (formPost ⟨"/echo", some "name=+john+"⟩ (ascii "name=+john+"))
      next := by
    refine (serves_iff hrouter rfl rfl Nat.zero_lt_one rfl rfl _ _).mpr ⟨_, next,
      Wrapper.hands_one.mpr rfl, trimStrings_hands_iff.mpr hnext, Wrapper.hands_one.mpr rfl⟩
  obtain ⟨q₁, q₂, houter, hseen, -, -, hinner⟩ :=
    handler_sees_trimmed hround hempty hrouter rfl rfl Nat.zero_lt_one rfl hserves
  obtain rfl := Wrapper.hands_one.mp houter
  obtain rfl := Wrapper.hands_one.mp hinner
  have hseen := hseen ⟨by decide, by decide⟩ hrebuilt
  refine ⟨r, _, hrouter, hserves, ?_, ?_⟩
  · rw [hseen]
    decide
  · rw [hseen]
    decide

/-! ### The repository's routes -/

inductive TowerLayer
  | compression
  | cors
  | trace
  deriving DecidableEq, Repr

inductive Handler
  | helloWorldIndex
  deriving DecidableEq, Repr

/-- The calls of `routes`. -/
def apiCalls : List (Routing.Call (AppMiddleware μ) TowerLayer Handler) :=
  [.get "/" .helloWorldIndex, .get "/hello" .helloWorldIndex, .middleware .trimStrings,
    .layer .compression, .layer .cors, .layer .trace]

/-- **The order of the repository's layers**: a request is traced, then goes through CORS,
then through the compression, and is trimmed last, before the handler. -/
theorem apiCalls_serves_iff {r : Router (AppMiddleware μ) TowerLayer Handler}
    (h : router apiCalls = some r) {path : String} (hpath : path = "/" ∨ path = "/hello")
    {tower : TowerLayer → Wrapper Request R} (q q' : Request) :
    r.Serves (layerOf C respond others tower) path .get q q' ↔ ∃ traced checked compressed,
      (tower .trace).Hands q traced ∧ (tower .cors).Hands traced checked ∧
        (tower .compression).Hands checked compressed ∧ handle C compressed = .forwarded q' := by
  have hserves : r.Serves (layerOf C respond others tower) path .get q q' ↔ ∃ compressed next,
      (tower .compression * (tower .cors * (tower .trace * 1))).Hands q compressed ∧
        (trimStrings C respond).Hands compressed next ∧ (1 : Wrapper Request R).Hands next q' := by
    rcases hpath with rfl | rfl
    · have hp : 0 < 2 := by omega
      exact serves_iff h rfl rfl hp rfl rfl q q'
    · have hp : 1 < 2 := by omega
      exact serves_iff h rfl rfl hp rfl rfl q q'
  rw [hserves]
  constructor
  · rintro ⟨compressed, next, houter, htrim, hlast⟩
    obtain rfl := Wrapper.hands_one.mp hlast
    obtain ⟨checked, hrest, hcompression⟩ := Wrapper.hands_mul.mp houter
    obtain ⟨traced, hrest, hcors⟩ := Wrapper.hands_mul.mp hrest
    rw [mul_one] at hrest
    exact ⟨traced, checked, compressed, hrest, hcors, hcompression,
      trimStrings_hands_iff.mp htrim⟩
  · rintro ⟨traced, checked, compressed, htrace, hcors, hcompression, hhandle⟩
    refine ⟨compressed, q', ?_, trimStrings_hands_iff.mpr hhandle, Wrapper.hands_one.mpr rfl⟩
    refine Wrapper.hands_mul.mpr ⟨checked, Wrapper.hands_mul.mpr ⟨traced, ?_, hcors⟩, hcompression⟩
    rw [mul_one]
    exact htrace

def getHello : Request :=
  { formPost ⟨"/hello", some "name=+john+"⟩ [] with method := Method.get }

theorem apiCalls_serves_hello : ∃ r q',
    router (apiCalls : List (Routing.Call (AppMiddleware Unit) TowerLayer Handler)) = some r ∧
      r.Serves (layerOf johnForm (fun status text => (status, text)) (fun _ => 1) fun _ => 1)
        "/hello" .get getHello q' ∧ q'.uri.query = some "name=john" := by
  obtain ⟨next, hnext, hquery⟩ : ∃ next, handle johnForm getHello = .forwarded next ∧
      next.uri.query = some "name=john" := ⟨_, rfl, by decide⟩
  refine ⟨_, next, rfl, ?_, hquery⟩
  exact (apiCalls_serves_iff rfl (Or.inr rfl) getHello next).mpr ⟨_, _, _,
    Wrapper.hands_one.mpr rfl, Wrapper.hands_one.mpr rfl, Wrapper.hands_one.mpr rfl, hnext⟩

end Kolas.Http

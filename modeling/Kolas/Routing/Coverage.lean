import Kolas.Routing.Route
import Mathlib.Data.List.Induction
import Mathlib.Data.List.Nodup

/-!
# What a request passes through

`built_spec`: after any sequence of calls the endpoints are the registered ones,
in order, each wrapped in exactly the layers of the calls made *after* its
registration.  So `Route::middleware` covers the endpoints registered before the
call and no others: `covers_iff` says that every endpoint is covered by every
middleware exactly when no endpoint is registered after a call of `middleware`.
-/

namespace Kolas.Routing

variable {μ ℓ χ : Type*}

/-! ### The endpoints of a sequence of calls -/

/-- The layers made by the calls after the `p`-th, in order. -/
def layersAfter (calls : List (Call μ ℓ χ)) (p : Nat) : List (Layer μ ℓ) :=
  (calls.zipIdx.drop (p + 1)).filterMap fun c => c.1.layer? c.2

/-- The endpoint registered by the call `c.1`, made as the `c.2`-th, when the
calls have all been made. -/
def endpointOf (calls : List (Call μ ℓ χ)) (c : Call μ ℓ χ × Nat) : Option (Endpoint μ ℓ χ) :=
  c.1.registers.map fun e => ⟨e.1, e.2.1, e.2.2, layersAfter calls c.2⟩

def registered (calls : List (Call μ ℓ χ)) : List (Endpoint μ ℓ χ) :=
  calls.zipIdx.filterMap (endpointOf calls)

theorem layersAfter_append {calls : List (Call μ ℓ χ)} {p : Nat} (hp : p < calls.length)
    (c : Call μ ℓ χ) :
    layersAfter (calls ++ [c]) p = layersAfter calls p ++ (c.layer? calls.length).toList := by
  have hle : p + 1 ≤ calls.zipIdx.length := by rw [List.length_zipIdx]; omega
  rw [layersAfter, List.zipIdx_append, List.drop_append_of_le_length hle, List.filterMap_append]
  congr 1
  cases h : c.layer? calls.length <;> simp [h]

theorem layersAfter_last (calls : List (Call μ ℓ χ)) (c : Call μ ℓ χ) :
    layersAfter (calls ++ [c]) calls.length = [] := by
  rw [layersAfter, List.drop_of_length_le (by simp), List.filterMap_nil]

/-- One more call wraps the endpoints there are and adds the one it registers. -/
theorem registered_append (calls : List (Call μ ℓ χ)) (c : Call μ ℓ χ) :
    registered (calls ++ [c]) =
      (registered calls).map (fun e => { e with
        layers := e.layers ++ (c.layer? calls.length).toList }) ++
      (c.registers.map fun e => ⟨e.1, e.2.1, e.2.2, []⟩).toList := by
  rw [registered, List.zipIdx_append, List.filterMap_append]
  congr 1
  · rw [registered, List.map_filterMap]
    refine List.filterMap_congr fun ci hci => ?_
    have hlt : ci.2 < calls.length := by
      have := (List.mem_zipIdx_iff_getElem?.mp hci)
      exact (List.getElem?_eq_some_iff.mp this).1
    simp only [endpointOf, layersAfter_append hlt, Option.map_map]
    rfl
  · cases h : c.registers <;> simp [h, endpointOf, layersAfter_last]

theorem mem_registered {calls : List (Call μ ℓ χ)} {e : Endpoint μ ℓ χ} :
    e ∈ registered calls ↔ ∃ p c, calls[p]? = some c ∧
      c.registers = some (e.path, e.method, e.handler) ∧ e.layers = layersAfter calls p := by
  simp only [registered, List.mem_filterMap, endpointOf, Option.map_eq_some_iff]
  constructor
  · intro h
    obtain ⟨⟨c, p⟩, hc, ⟨path, method, handler⟩, hr, rfl⟩ := h
    exact ⟨p, c, List.mem_zipIdx_iff_getElem?.mp hc, hr, rfl⟩
  · intro h
    obtain ⟨p, c, hc, hr, hl⟩ := h
    refine ⟨(c, p), List.mem_zipIdx_iff_getElem?.mpr hc, _, hr, ?_⟩
    cases e
    cases hl
    rfl

theorem mem_layersAfter {calls : List (Call μ ℓ χ)} {p : Nat} {layer : Layer μ ℓ} :
    layer ∈ layersAfter calls p ↔ ∃ j c, p < j ∧ calls[j]? = some c ∧ c.layer? j = some layer := by
  simp only [layersAfter, List.mem_filterMap]
  constructor
  · intro h
    obtain ⟨⟨c, j⟩, hc, hl⟩ := h
    obtain ⟨n, hn⟩ := List.mem_iff_getElem?.mp hc
    rw [List.getElem?_drop, List.getElem?_zipIdx, Option.map_eq_some_iff] at hn
    obtain ⟨c', hc', he⟩ := hn
    cases he
    exact ⟨_, _, by omega, by simpa using hc', hl⟩
  · intro h
    obtain ⟨j, c, hj, hc, hl⟩ := h
    refine ⟨(c, j), List.mem_iff_getElem?.mpr ⟨j - (p + 1), ?_⟩, hl⟩
    rw [List.getElem?_drop, List.getElem?_zipIdx, show p + 1 + (j - (p + 1)) = j by omega, hc]
    simp

/-! ### The calls build them -/

/-- The path and the method an endpoint answers. -/
def Endpoint.key (e : Endpoint μ ℓ χ) : String × Method := (e.path, e.method)

theorem Endpoint.at_iff {e : Endpoint μ ℓ χ} {path : String} {method : Method} :
    e.at path method = true ↔ e.key = (path, method) := by
  simp [Endpoint.at, Endpoint.key]

/-- **What the calls build**: the registered endpoints, no two with the same path
and method. -/
theorem built_spec {calls : List (Call μ ℓ χ)} {r : Route μ ℓ χ} (h : built calls = some r) :
    r.calls = calls.length ∧ r.router.endpoints = registered calls ∧
      (r.router.endpoints.map Endpoint.key).Nodup := by
  induction calls using List.reverseRecOn generalizing r with
  | nil =>
    cases h
    exact ⟨rfl, rfl, List.nodup_nil⟩
  | append_singleton calls c ih =>
    simp only [built, List.foldlM_append] at h
    obtain ⟨r₀, hr₀, hc⟩ := Option.bind_eq_some_iff.mp h
    obtain ⟨hlen, hreg, hnd⟩ := ih hr₀
    have happly : c.apply r₀ = some r := by simpa using hc
    obtain ⟨hcalls, hcase⟩ := Call.apply_cases happly
    rw [hlen] at hcalls hcase
    refine ⟨by rw [hcalls, List.length_append, List.length_singleton], ?_⟩
    rcases hcase with ⟨path, method, handler, hr, hl, hnew, he⟩ | ⟨layer, hr, hl, he⟩
    · refine ⟨?_, ?_⟩
      · rw [he, registered_append, hr, hl, hreg]
        simp
      · rw [he, List.map_append, List.nodup_append]
        refine ⟨hnd, List.nodup_singleton _, ?_⟩
        rintro k hk k' hk' rfl
        obtain ⟨e, hemem, hek⟩ := List.mem_map.mp hk
        have hkey : e.key = (path, method) := by
          rw [hek]
          simpa [Endpoint.key] using hk'
        rw [List.any_eq_false] at hnew
        exact hnew e hemem (Endpoint.at_iff.mpr hkey)
    · refine ⟨?_, ?_⟩
      · rw [he, registered_append, hr, hl, hreg]
        simp [Endpoint.wrap]
      · rw [he, List.map_map]
        exact hnd

theorem find?_of_nodup_key {es : List (Endpoint μ ℓ χ)} (h : (es.map Endpoint.key).Nodup)
    {e : Endpoint μ ℓ χ} (he : e ∈ es) : es.find? (·.at e.path e.method) = some e := by
  induction es with
  | nil => cases he
  | cons a es ih =>
    rw [List.map_cons, List.nodup_cons] at h
    by_cases ha : a.at e.path e.method = true
    · simp only [List.find?_cons, ha]
      rcases List.mem_cons.mp he with rfl | hmem
      · rfl
      · exact absurd (List.mem_map.mpr ⟨e, hmem, (Endpoint.at_iff.mp ha).symm⟩) h.1
    · rw [Bool.not_eq_true] at ha
      simp only [List.find?_cons, ha]
      rcases List.mem_cons.mp he with rfl | hmem
      · rw [Endpoint.at_iff.mpr rfl] at ha
        cases ha
      · exact ih h.2 hmem

/-- The `p`-th call registers an endpoint for `method` of `path`. -/
def RegisteredAt (calls : List (Call μ ℓ χ)) (p : Nat) (path : String) (method : Method) : Prop :=
  ∃ c handler, calls[p]? = some c ∧ c.registers = some (path, method, handler)

/-- **Which layers a request passes through**: those of the calls made after the
endpoint was registered. -/
theorem passesThrough_iff {calls : List (Call μ ℓ χ)} {r : Router μ ℓ χ}
    (h : router calls = some r) {p : Nat} {path : String} {method : Method}
    (hreg : RegisteredAt calls p path method) {layer : Layer μ ℓ} :
    r.PassesThrough path method layer ↔
      ∃ j c, p < j ∧ calls[j]? = some c ∧ c.layer? j = some layer := by
  obtain ⟨c, handler, hc, hr⟩ := hreg
  obtain ⟨route, hroute, rfl⟩ := Option.map_eq_some_iff.mp h
  obtain ⟨-, hes, hnd⟩ := built_spec hroute
  have hmem : (⟨path, method, handler, layersAfter calls p⟩ : Endpoint μ ℓ χ) ∈
      route.router.endpoints := hes ▸ mem_registered.mpr ⟨p, c, hc, hr, rfl⟩
  have hfind : route.intoRouter.endpoint path method = some ⟨path, method, handler, _⟩ :=
    find?_of_nodup_key hnd hmem
  rw [← mem_layersAfter, Router.PassesThrough, hfind]
  simp

/-! ### Coverage -/

/-- Every request passes through every middleware given to `Route::middleware`. -/
def Covers (calls : List (Call μ ℓ χ)) (r : Router μ ℓ χ) : Prop :=
  ∀ p path method, RegisteredAt calls p path method →
    ∀ i m, calls[i]? = some (.middleware m) → r.PassesThrough path method (.fromFn ⟨i, m⟩)

/-- A middleware given to `route_middleware` wraps exactly the endpoints
registered before it. -/
def WrapsEarlier (calls : List (Call μ ℓ χ)) (r : Router μ ℓ χ) : Prop :=
  ∀ p path method, RegisteredAt calls p path method →
    ∀ i m, calls[i]? = some (.routeMiddleware m) →
      (r.PassesThrough path method (.fromFn ⟨i, m⟩) ↔ p < i)

/-- No endpoint is registered after a call of `Route::middleware`. -/
def MiddlewareLast (calls : List (Call μ ℓ χ)) : Prop :=
  ∀ p path method, RegisteredAt calls p path method →
    ∀ i m, calls[i]? = some (.middleware m) → p < i

theorem layer?_fromFn {c : Call μ ℓ χ} {j i : Nat} {m : μ}
    (h : c.layer? j = some (.fromFn ⟨i, m⟩)) : j = i := by
  cases c with
  | middleware _ =>
    cases h
    rfl
  | routeMiddleware _ =>
    cases h
    rfl
  | _ => cases h

/-- The layer of the `i`-th call is passed through exactly when that call came
after the registration. -/
theorem passesThrough_fromFn {calls : List (Call μ ℓ χ)} {r : Router μ ℓ χ}
    (h : router calls = some r) {p : Nat} {path : String} {method : Method}
    (hreg : RegisteredAt calls p path method) {i : Nat} {c : Call μ ℓ χ}
    (hc : calls[i]? = some c) {m : μ} (hl : c.layer? i = some (.fromFn ⟨i, m⟩)) :
    r.PassesThrough path method (.fromFn ⟨i, m⟩) ↔ p < i := by
  rw [passesThrough_iff h hreg]
  constructor
  · intro g
    obtain ⟨j, d, hj, -, hd⟩ := g
    rwa [layer?_fromFn hd] at hj
  · intro hlt
    exact ⟨i, c, hlt, hc, hl⟩

theorem wrapsEarlier {calls : List (Call μ ℓ χ)} {r : Router μ ℓ χ} (h : router calls = some r) :
    WrapsEarlier calls r := by
  intro p path method hreg i m hi
  exact passesThrough_fromFn h hreg hi rfl

theorem covers_of_middlewareLast {calls : List (Call μ ℓ χ)} {r : Router μ ℓ χ}
    (h : router calls = some r) (hlast : MiddlewareLast calls) : Covers calls r := by
  intro p path method hreg i m hi
  exact (passesThrough_fromFn h hreg hi rfl).mpr (hlast p path method hreg i m hi)

theorem middlewareLast_of_covers {calls : List (Call μ ℓ χ)} {r : Router μ ℓ χ}
    (h : router calls = some r) (hcov : Covers calls r) : MiddlewareLast calls := by
  intro p path method hreg i m hi
  exact (passesThrough_fromFn h hreg hi rfl).mp (hcov p path method hreg i m hi)

/-- **When the builder covers every route.**  For calls that end in a router,
every endpoint is covered by every middleware, and by the route middleware given
after it and no other, exactly when no endpoint is registered after a call of
`Route::middleware`. -/
theorem covers_iff {calls : List (Call μ ℓ χ)} {r : Router μ ℓ χ} (h : router calls = some r) :
    (Covers calls r ∧ WrapsEarlier calls r) ↔ MiddlewareLast calls := by
  constructor
  · intro g
    obtain ⟨hcov, -⟩ := g
    exact middlewareLast_of_covers h hcov
  · intro hlast
    exact ⟨covers_of_middlewareLast h hlast, wrapsEarlier h⟩

/-- A builder chain like that of `routes/api.rs`: the route, then the middleware. -/
def coveredCalls : List (Call String String String) :=
  [.get "/" "index", .middleware "auth", .layer "trace"]

theorem covers_coveredCalls : ∃ r, router coveredCalls = some r ∧
    ((Covers coveredCalls r ∧ WrapsEarlier coveredCalls r) ↔ MiddlewareLast coveredCalls) :=
  ⟨_, rfl, covers_iff rfl⟩

/-- A route added after `Route::middleware`. -/
def uncoveredCalls : List (Call String String String) :=
  [.get "/" "index", .middleware "auth", .get "/admin" "admin"]

/-- **A later route is not covered**: a request for it does not pass through the
middleware. -/
theorem not_covers_uncoveredCalls :
    ∃ r, router uncoveredCalls = some r ∧ ¬ Covers uncoveredCalls r := by
  refine ⟨_, rfl, fun hcov => ?_⟩
  have hreg : RegisteredAt uncoveredCalls 2 "/admin" .get := ⟨_, _, rfl, rfl⟩
  obtain ⟨e, he, hmem⟩ := hcov 2 "/admin" .get hreg 1 "auth" rfl
  have he' : some _ = some e := he
  cases he'
  cases hmem

end Kolas.Routing

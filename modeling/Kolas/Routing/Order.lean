import Kolas.Lib.Lists
import Kolas.Lib.Wrapper
import Kolas.Routing.Coverage

/-!
# The order on the wire

What a router of `routing/route.rs` does with a request.  Each call of the builder wraps
the endpoints there are once more, so a request meets the layers of the later calls
first.  A middleware is given `Next` by value, and so calls the inner service at most
once: a layer is a `Wrapper`, by `interp`.

* `answer_eq`: the answer of a route is that of its handler, wrapped in the layers of the
  calls after its registration.
* `serves_iff`: what a handler is given has passed, for every later layer, first the layers
  of the calls after that one, then the layer, then those before it.
-/

namespace Kolas.Routing

open Kolas.Lib

variable {μ ℓ χ Q R : Type*}

section

variable (interp : Layer μ ℓ → Wrapper Q R) (service : χ → Q → R)

/-- The handler of an endpoint, wrapped once for every layer. -/
def Endpoint.answer (e : Endpoint μ ℓ χ) : Q → R :=
  e.layers.foldl (fun inner layer => (interp layer).wrap inner) (service e.handler)

/-- The answer to a request for a registered path and method. -/
def Router.answer (r : Router μ ℓ χ) (path : String) (method : Method) (q : Q) : Option R :=
  (r.endpoint path method).map fun e => e.answer interp service q

/-- The layers as one wrapper. -/
def throughAll (layers : List (Layer μ ℓ)) : Wrapper Q R := (layers.map interp).prod

/-- The handler is given `q'` for the request `q`. -/
def Router.Serves (r : Router μ ℓ χ) (path : String) (method : Method) (q q' : Q) : Prop :=
  ∃ e, r.endpoint path method = some e ∧ (throughAll interp e.layers).Hands q q'

end

variable {interp : Layer μ ℓ → Wrapper Q R} {service : χ → Q → R}
  {calls : List (Call μ ℓ χ)} {r : Router μ ℓ χ} {p i : Nat} {c c' : Call μ ℓ χ}
  {path : String} {method : Method} {handler : χ} {layer : Layer μ ℓ} {q q' : Q}

theorem Endpoint.answer_eq (e : Endpoint μ ℓ χ) :
    e.answer interp service = (throughAll interp e.layers).wrap (service e.handler) := by
  rw [throughAll, Wrapper.prod_wrap, List.foldl_map]
  rfl

/-- The endpoint of a registration. -/
theorem endpoint_of_router (h : router calls = some r) (hc : calls[p]? = some c)
    (hr : c.registers = some (path, method, handler)) :
    r.endpoint path method = some ⟨path, method, handler, layersAfter calls p⟩ := by
  obtain ⟨route, hroute, rfl⟩ := Option.map_eq_some_iff.mp h
  obtain ⟨-, hes, hnd⟩ := built_spec hroute
  have hmem : (⟨path, method, handler, layersAfter calls p⟩ : Endpoint μ ℓ χ) ∈
      route.router.endpoints := hes ▸ mem_registered.mpr ⟨p, c, hc, hr, rfl⟩
  exact find?_of_nodup_key hnd hmem

/-- **The answer of a route.** -/
theorem answer_eq (h : router calls = some r) (hc : calls[p]? = some c)
    (hr : c.registers = some (path, method, handler)) (q : Q) :
    r.answer interp service path method q =
      some ((throughAll interp (layersAfter calls p)).wrap (service handler) q) := by
  rw [Router.answer, endpoint_of_router h hc hr, Option.map_some, Endpoint.answer_eq]

/-- The layers around one, and those inside it. -/
theorem layersAfter_split (hp : p < i) (hi : calls[i]? = some c') (hl : c'.layer? i = some layer) :
    layersAfter calls p = layersAfter (calls.take i) p ++ layer :: layersAfter calls i := by
  obtain ⟨hlt, rfl⟩ := List.getElem?_eq_some_iff.mp hi
  have hle : p + 1 ≤ (calls.zipIdx.take i).length := by
    rw [List.length_take, List.length_zipIdx]
    omega
  have hlast : calls.zipIdx.drop i = (calls[i], i) :: calls.zipIdx.drop (i + 1) := by
    rw [List.drop_eq_getElem_cons (by rwa [List.length_zipIdx]), List.getElem_zipIdx, Nat.zero_add]
  have hparts : calls.zipIdx.drop (p + 1) =
      (calls.take i).zipIdx.drop (p + 1) ++ (calls[i], i) :: calls.zipIdx.drop (i + 1) := by
    rw [← hlast, zipIdx_take, ← List.drop_append_of_le_length hle, List.take_append_drop]
  have hsome : Call.layer? (calls[i], i).2 (calls[i], i).1 = some layer := hl
  rw [layersAfter, hparts, List.filterMap_append, List.filterMap_cons, hsome]
  rfl

/-- **What a handler is given**, seen from any one of its layers. -/
theorem serves_iff (h : router calls = some r) (hc : calls[p]? = some c)
    (hr : c.registers = some (path, method, handler)) (hp : p < i) (hi : calls[i]? = some c')
    (hl : c'.layer? i = some layer) (q q' : Q) :
    r.Serves interp path method q q' ↔ ∃ q₁ q₂,
      (throughAll interp (layersAfter calls i)).Hands q q₁ ∧ (interp layer).Hands q₁ q₂ ∧
        (throughAll interp (layersAfter (calls.take i) p)).Hands q₂ q' := by
  have hsplit : throughAll interp (layersAfter calls p) =
      throughAll interp (layersAfter (calls.take i) p) *
        (interp layer * throughAll interp (layersAfter calls i)) := by
    rw [layersAfter_split hp hi hl, throughAll, List.map_append, List.map_cons, List.prod_append,
      List.prod_cons]
    rfl
  have hserves : r.Serves interp path method q q' ↔
      (throughAll interp (layersAfter calls p)).Hands q q' := by
    unfold Router.Serves
    rw [endpoint_of_router h hc hr]
    simp
  rw [hserves, hsplit, Wrapper.hands_mul]
  constructor
  · rintro ⟨q₂, houter, hinner⟩
    obtain ⟨q₁, hfirst, hlayer⟩ := Wrapper.hands_mul.mp houter
    exact ⟨q₁, q₂, hfirst, hlayer, hinner⟩
  · rintro ⟨q₁, q₂, hfirst, hlayer, hinner⟩
    exact ⟨q₂, Wrapper.hands_mul.mpr ⟨q₁, hfirst, hlayer⟩, hinner⟩

end Kolas.Routing

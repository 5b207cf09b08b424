import Mathlib.Algebra.BigOperators.Group.List.Basic

/-!
# Wrapped services

A service answers requests.  A wrapper around it looks at a request first: it answers by
itself, or hands a request on, once, and may change the answer.  Wrappers are a monoid,
with the inner one on the left, that acts on services.

* `mul_wrap`, `prod_wrap`: wrapping one after the other is wrapping with the product.
* `hands_mul`: a request gets through a product from the outside in.
-/

namespace Kolas.Lib

variable {Q R : Type*}

/-- An answer, or the request handed on and what is made of its answer. -/
@[ext]
structure Wrapper (Q R : Type*) where
  before : Q → R ⊕ (Q × (R → R))

namespace Wrapper

/-- The service inside the wrapper. -/
def wrap (w : Wrapper Q R) (service : Q → R) (q : Q) : R :=
  match w.before q with
  | .inl r => r
  | .inr (q', after) => after (service q')

/-- The wrapper hands `q'` on for `q`. -/
def Hands (w : Wrapper Q R) (q q' : Q) : Prop := ∃ after, w.before q = .inr (q', after)

/-- `outer` around `inner`. -/
def around (inner outer : Wrapper Q R) (q : Q) : R ⊕ (Q × (R → R)) :=
  match outer.before q with
  | .inl r => .inl r
  | .inr (q', after) =>
    match inner.before q' with
    | .inl r => .inl (after r)
    | .inr (q'', after') => .inr (q'', after ∘ after')

instance : One (Wrapper Q R) := ⟨⟨fun q => .inr (q, id)⟩⟩

instance : Mul (Wrapper Q R) := ⟨fun inner outer => ⟨around inner outer⟩⟩

theorem before_one (q : Q) : (1 : Wrapper Q R).before q = .inr (q, id) := rfl

theorem before_mul (inner outer : Wrapper Q R) (q : Q) :
    (inner * outer).before q = around inner outer q := rfl

instance : Monoid (Wrapper Q R) where
  mul_assoc u v w := by
    ext1
    funext q
    simp only [before_mul, around]
    cases w.before q with
    | inl r => rfl
    | inr handed =>
      obtain ⟨q', after⟩ := handed
      dsimp only
      cases v.before q' with
      | inl r => rfl
      | inr handed' =>
        obtain ⟨q'', after'⟩ := handed'
        dsimp only
        cases u.before q'' <;> rfl
  one_mul w := by
    ext1
    funext q
    simp only [before_mul, around]
    cases w.before q <;> rfl
  mul_one w := by
    ext1
    funext q
    simp only [before_mul, around]
    cases w.before q <;> rfl

variable {w inner outer : Wrapper Q R} {q q' q'' : Q}

/-- **Wrapping twice.** -/
theorem mul_wrap (inner outer : Wrapper Q R) (service : Q → R) :
    (inner * outer).wrap service = outer.wrap (inner.wrap service) := by
  funext q
  simp only [wrap, before_mul, around]
  cases outer.before q with
  | inl r => rfl
  | inr handed =>
    obtain ⟨q', after⟩ := handed
    dsimp only
    cases inner.before q' <;> rfl

/-- **Wrapping one after the other**, from the inside out. -/
theorem prod_wrap (ws : List (Wrapper Q R)) (service : Q → R) :
    ws.prod.wrap service = ws.foldl (fun s w => w.wrap s) service := by
  induction ws generalizing service with
  | nil => rfl
  | cons w ws ih => rw [List.prod_cons, mul_wrap, ih, List.foldl_cons]

theorem hands_one : (1 : Wrapper Q R).Hands q q' ↔ q' = q := by
  unfold Hands
  rw [before_one]
  constructor
  · rintro ⟨after, h⟩
    exact (Prod.mk.inj (Sum.inr.inj h)).1.symm
  · rintro rfl
    exact ⟨id, rfl⟩

/-- **From the outside in.** -/
theorem hands_mul : (inner * outer).Hands q q'' ↔ ∃ q', outer.Hands q q' ∧ inner.Hands q' q'' := by
  unfold Hands
  rw [before_mul, around]
  constructor
  · rintro ⟨after, h⟩
    split at h
    · cases h
    · rename_i q' first houter
      split at h
      · cases h
      · rename_i q₁ second hinner
        obtain ⟨rfl, -⟩ := Prod.mk.inj (Sum.inr.inj h)
        exact ⟨q', ⟨first, houter⟩, second, hinner⟩
  · rintro ⟨q', ⟨first, houter⟩, second, hinner⟩
    exact ⟨first ∘ second, by rw [houter]; dsimp only; rw [hinner]⟩

end Wrapper

end Kolas.Lib

import Mathlib.Data.List.Nodup
import Mathlib.Data.List.Perm.Basic

/-!
# Reordering the actions of a fold

`f` performs an action on a state.  Two actions that do not `clash` may be
performed in either order.  `foldl_eq_of_perm`: a permutation of a list of
distinct actions that keeps the order of any two that clash has the same effect.
-/

namespace Kolas.Lib

variable {σ α : Type*} {f : σ → α → σ} {clash : α → α → Prop}

/-- An action that clashes with none of `x` may be performed before them. -/
theorem foldl_move_to_front (hcomm : ∀ a b, ¬ clash a b → ∀ s, f (f s a) b = f (f s b) a)
    {a : α} {x : List α} (h : ∀ b ∈ x, ¬ clash a b) (s : σ) :
    f (x.foldl f s) a = x.foldl f (f s a) := by
  induction x generalizing s with
  | nil => rfl
  | cons b x ih =>
    rw [List.foldl_cons, List.foldl_cons, hcomm a b (h b List.mem_cons_self)]
    exact ih (fun c hc => h c (List.mem_cons_of_mem _ hc)) (f s b)

/-- Where `a` stands only once, what follows it in a sublist follows it there. -/
theorem sublist_of_cons_sublist_append {a : α} {r x y : List α} (hx : a ∉ x)
    (h : (a :: r).Sublist (x ++ a :: y)) : r.Sublist y := by
  induction x with
  | nil => exact List.cons_sublist_cons.mp h
  | cons c x ih =>
    rcases List.sublist_cons_iff.mp h with hsub | ⟨r', hr', -⟩
    · exact ih (fun hmem => hx (List.mem_cons_of_mem _ hmem)) hsub
    · obtain ⟨rfl, -⟩ := List.cons.inj hr'
      exact absurd List.mem_cons_self hx

theorem sublist_append_of_notMem {a : α} {r x y : List α} (hr : a ∉ r)
    (h : r.Sublist (x ++ a :: y)) : r.Sublist (x ++ y) := by
  obtain ⟨r₁, r₂, rfl, h₁, h₂⟩ := List.sublist_append_iff.mp h
  rcases List.sublist_cons_iff.mp h₂ with h₂ | ⟨r', rfl, -⟩
  · exact h₁.append h₂
  · exact absurd (List.mem_append_right _ List.mem_cons_self) hr

/-- **A permutation that keeps the order of clashing actions has the same effect.** -/
theorem foldl_eq_of_perm (hcomm : ∀ a b, ¬ clash a b → ∀ s, f (f s a) b = f (f s b) a)
    {l₁ l₂ : List α} (hp : l₁.Perm l₂) (hnodup : l₁.Nodup)
    (horder : ∀ a b, clash a b → [a, b].Sublist l₁ → [a, b].Sublist l₂) (s : σ) :
    l₁.foldl f s = l₂.foldl f s := by
  induction l₁ generalizing l₂ s with
  | nil => rw [hp.nil_eq]
  | cons a t ih =>
    obtain ⟨x, y, rfl⟩ := List.append_of_mem (hp.subset List.mem_cons_self)
    obtain ⟨hat, ht⟩ := List.nodup_cons.mp hnodup
    have hp' : t.Perm (x ++ y) := (hp.trans List.perm_middle).cons_inv
    obtain ⟨-, -, hdisj⟩ := List.nodup_append.mp (hp.nodup hnodup)
    have hay : a ∉ x ++ y := fun h => hat (hp'.symm.subset h)
    -- what stands before `a` in the permutation came after it, so does not clash with it
    have hfront : ∀ b ∈ x, ¬ clash a b := by
      intro b hb hclash
      have hbt : b ∈ t := hp'.symm.subset (List.mem_append_left _ hb)
      have hsub := horder a b hclash ((List.singleton_sublist.mpr hbt).cons_cons a)
      have hax : a ∉ x := fun h => hay (List.mem_append_left _ h)
      have hby := List.singleton_sublist.mp (sublist_of_cons_sublist_append hax hsub)
      exact hdisj b hb b (List.mem_cons_of_mem _ hby) rfl
    rw [List.foldl_append, List.foldl_cons, List.foldl_cons, foldl_move_to_front hcomm hfront,
      ← List.foldl_append]
    refine ih hp' ht ?_ (f s a)
    intro c d hclash hsub
    have hacd : a ∉ [c, d] := fun h => hat (hsub.subset h)
    exact sublist_append_of_notMem hacd (horder c d hclash (hsub.cons a))

end Kolas.Lib

import Mathlib.Data.Fintype.Card
import Mathlib.Data.Set.Finite.List
import Mathlib.Logic.Relation
import Mathlib.Order.WellFounded

/-!
# Cycles of a relation

* `acyclic_of_rank`: a relation that lowers a rank has no cycles.
* `exists_cycle`: one that leads from every element of a nonempty list to an
  element of the list has one.
-/

namespace Kolas.Lib

variable {α : Type*} {r : α → α → Prop}

/-- No path leads back to where it starts. -/
def Acyclic (r : α → α → Prop) : Prop := ∀ a, ¬ Relation.TransGen r a a

theorem acyclic_of_rank (rank : α → Nat) (h : ∀ a b, r a b → rank b < rank a) : Acyclic r := by
  have hlt : ∀ a b, Relation.TransGen r a b → rank b < rank a := by
    intro a b hab
    induction hab with
    | single hab => exact h _ _ hab
    | tail _ hbc ih => exact (h _ _ hbc).trans ih
  exact fun a ha => lt_irrefl _ (hlt a a ha)

/-- **In a finite set that is never left there is a cycle.** -/
theorem exists_cycle {l : List α} (hne : l ≠ []) (h : ∀ a ∈ l, ∃ b ∈ l, r a b) :
    ∃ a ∈ l, Relation.TransGen r a a := by
  by_contra hno
  -- without cycles the paths order the list, and a minimal element leads nowhere
  let path : {a // a ∈ l} → {a // a ∈ l} → Prop := fun a b => Relation.TransGen r b.1 a.1
  have : IsTrans {a // a ∈ l} path := ⟨fun _ _ _ hab hbc => hbc.trans hab⟩
  have : Std.Irrefl path := ⟨fun a ha => hno ⟨a.1, a.2, ha⟩⟩
  have : Finite {a // a ∈ l} := l.finite_toSet
  have hwf : WellFounded path := Finite.wellFounded_of_trans_of_irrefl path
  obtain ⟨a, ha⟩ := List.exists_mem_of_ne_nil l hne
  obtain ⟨m, -, hmin⟩ := hwf.has_min Set.univ ⟨⟨a, ha⟩, trivial⟩
  obtain ⟨b, hb, hmb⟩ := h m.1 m.2
  exact hmin ⟨b, hb⟩ trivial (.single hmb)

end Kolas.Lib

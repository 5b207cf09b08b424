import Mathlib.Data.List.Basic
import Mathlib.Order.Lattice

/-!
# All but the greatest

`beyond key k l` sorts a list from the greatest key down, the sort being stable, and
drops the first `k`.

* `length_beyond`: how many that leaves.
* `le_of_not_mem_beyond`: whatever is not left has a key at least as great.
* `not_mem_beyond_of_greatest`: an element with the greatest key is not left, if any
  is dropped.
-/

namespace Kolas.Lib

variable {α κ : Type*} [LinearOrder κ] (key : α → κ)

def descending (l : List α) : List α := l.mergeSort fun a b => decide (key b ≤ key a)

def beyond (k : Nat) (l : List α) : List α := (descending key l).drop k

variable {key} {k : Nat} {l : List α}

theorem pairwise_descending (l : List α) :
    (descending key l).Pairwise fun a b => key b ≤ key a := by
  have h : (descending key l).Pairwise fun a b => decide (key b ≤ key a) = true := by
    refine List.pairwise_mergeSort ?_ ?_ l
    · intro a b c hab hbc
      exact decide_eq_true (le_trans (of_decide_eq_true hbc) (of_decide_eq_true hab))
    · intro a b
      simpa using le_total (key b) (key a)
  exact h.imp of_decide_eq_true

theorem descending_perm (l : List α) : (descending key l).Perm l := List.mergeSort_perm l _

theorem length_beyond (k : Nat) (l : List α) :
    (beyond key k l).length = l.length - min k l.length := by
  rw [beyond, List.length_drop, (descending_perm l).length_eq]
  omega

theorem beyond_sublist : (beyond key k l).Sublist (descending key l) := List.drop_sublist ..

theorem mem_of_mem_beyond {a : α} (h : a ∈ beyond key k l) : a ∈ l :=
  (descending_perm l).mem_iff.mp (beyond_sublist.mem h)

/-- **What is not left has a key at least as great** as anything that is. -/
theorem le_of_not_mem_beyond {a b : α} (ha : a ∈ l) (hnot : a ∉ beyond key k l)
    (hb : b ∈ beyond key k l) : key b ≤ key a := by
  have hsplit := (descending key l).take_append_drop k
  have hsorted : (descending key l).Pairwise fun a b => key b ≤ key a := pairwise_descending l
  have hmem : a ∈ descending key l := (descending_perm l).mem_iff.mpr ha
  rw [← hsplit] at hsorted hmem
  rcases List.mem_append.mp hmem with htake | hdrop
  · exact (List.pairwise_append.mp hsorted).2.2 a htake b hb
  · exact absurd hdrop hnot

/-- **The greatest is dropped first.** -/
theorem not_mem_beyond_of_greatest (hk : 0 < k) (hl : l.Nodup) {a : α} (ha : a ∈ l)
    (hgreatest : ∀ b ∈ l, b ≠ a → key b < key a) : a ∉ beyond key k l := by
  intro hleft
  have hsplit := (descending key l).take_append_drop k
  have hsorted : (descending key l).Pairwise fun a b => key b ≤ key a := pairwise_descending l
  have hnodup : (descending key l).Nodup := (descending_perm l).nodup_iff.mpr hl
  rw [← hsplit] at hsorted hnodup
  obtain ⟨b, hb⟩ : ∃ b, b ∈ (descending key l).take k := by
    refine List.exists_mem_of_length_pos ?_
    rw [List.length_take, (descending_perm l).length_eq]
    have hpos := List.length_pos_of_mem ha
    omega
  by_cases hba : b = a
  · rw [hba] at hb
    exact (List.nodup_append.mp hnodup).2.2 a hb a hleft rfl
  · have hmem : b ∈ l := (descending_perm l).mem_iff.mp (List.mem_of_mem_take hb)
    have hle := (List.pairwise_append.mp hsorted).2.2 b hb a hleft
    exact absurd (hgreatest b hmem hba) (not_lt.mpr hle)

end Kolas.Lib

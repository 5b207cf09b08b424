import Mathlib.Data.List.FinRange
import Mathlib.Data.List.Sort
import Mathlib.Logic.Function.Basic

/-!
# Maps made from lists of pairs

A list of pairs is read into a map, either by keeping the last value of each key
(`foldl_update`) or by collecting the values of each key in order
(`foldl_collect`).  Either map knows only `valuesAt key`, and so is the same after
any reordering that keeps the order of the pairs with one key (`filter_reorder`).
-/

namespace Kolas.Lib

section

variable {K V : Type*} [DecidableEq K]

/-- The values paired with a key, in order. -/
def valuesAt (key : K) (l : List (K × V)) : List V := (l.filter fun e => e.1 = key).map Prod.snd

theorem valuesAt_cons_self (key : K) (v : V) (l : List (K × V)) :
    valuesAt key ((key, v) :: l) = v :: valuesAt key l := by simp [valuesAt]

theorem valuesAt_cons_of_ne {key key' : K} (h : key' ≠ key) (v : V) (l : List (K × V)) :
    valuesAt key ((key', v) :: l) = valuesAt key l := by simp [valuesAt, h]

theorem valuesAt_eq_nil {key : K} {l : List (K × V)} (h : key ∉ l.map Prod.fst) :
    valuesAt key l = [] := by
  rw [valuesAt, List.map_eq_nil_iff, List.filter_eq_nil_iff]
  intro e he hkey
  exact h (List.mem_map.mpr ⟨e, he, of_decide_eq_true hkey⟩)

/-- Where the keys are distinct, each has one value. -/
theorem valuesAt_of_nodup {l : List (K × V)} (h : (l.map Prod.fst).Nodup) {key : K} {v : V}
    (hmem : (key, v) ∈ l) : valuesAt key l = [v] := by
  induction l with
  | nil => cases hmem
  | cons e l ih =>
    rw [List.map_cons, List.nodup_cons] at h
    rcases List.mem_cons.mp hmem with rfl | hmem
    · rw [valuesAt_cons_self, valuesAt_eq_nil h.1]
    · have hne : e.1 ≠ key := by
        rintro rfl
        exact h.1 (List.mem_map.mpr ⟨_, hmem, rfl⟩)
      rw [valuesAt_cons_of_ne hne, ih h.2 hmem]

theorem mem_valuesAt {key : K} {v : V} {l : List (K × V)} :
    v ∈ valuesAt key l ↔ (key, v) ∈ l := by
  simp only [valuesAt, List.mem_map, List.mem_filter, decide_eq_true_eq]
  constructor
  · rintro ⟨e, ⟨he, rfl⟩, rfl⟩
    exact he
  · intro h
    exact ⟨(key, v), ⟨h, rfl⟩, rfl⟩

/-- **The last pair with a key stays.** -/
theorem foldl_update (l : List (K × V)) (map : K → Option V) (key : K) :
    l.foldl (fun map (e : K × V) => Function.update map e.1 (some e.2)) map key =
      (valuesAt key l).getLast?.or (map key) := by
  induction l generalizing map with
  | nil => rfl
  | cons e l ih =>
    obtain ⟨key', v⟩ := e
    rw [List.foldl_cons, ih]
    by_cases h : key' = key
    · subst h
      rw [valuesAt_cons_self, List.getLast?_cons, Function.update_self]
      cases (valuesAt key' l).getLast? <;> rfl
    · rw [valuesAt_cons_of_ne h, Function.update_of_ne (Ne.symm h)]

/-- **All pairs with a key are collected, in order.** -/
theorem foldl_collect (l : List (K × V)) (map : K → Option (List V)) (key : K) :
    l.foldl (fun map (e : K × V) =>
        Function.update map e.1 (some ((map e.1).getD [] ++ [e.2]))) map key =
      if valuesAt key l = [] then map key else some ((map key).getD [] ++ valuesAt key l) := by
  induction l generalizing map with
  | nil => rfl
  | cons e l ih =>
    obtain ⟨key', v⟩ := e
    rw [List.foldl_cons, ih]
    by_cases h : key' = key
    · subst h
      rw [valuesAt_cons_self, Function.update_self, if_neg (List.cons_ne_nil _ _)]
      by_cases hnil : valuesAt key' l = []
      · rw [if_pos hnil, hnil]
      · rw [if_neg hnil, Option.getD_some, List.append_assoc, List.singleton_append]
    · rw [valuesAt_cons_of_ne h, Function.update_of_ne (Ne.symm h)]

end

/-- **A reordering that keeps the order within a class keeps the list of the
class.**  The reordering is the list of the positions that are read. -/
theorem filter_reorder {α : Type*} {l : List α} {order : List (Fin l.length)}
    (hperm : order.Perm (List.finRange l.length)) (p : α → Bool)
    (horder : order.Pairwise fun i j => p (l.get i) = true → p (l.get j) = true → i < j) :
    (order.map l.get).filter p = l.filter p := by
  have hsorted : (order.filter (p ∘ l.get)).Pairwise (· < ·) := by
    rw [List.pairwise_filter]
    exact horder.imp fun h hi hj => h hi hj
  have hfin : ((List.finRange l.length).filter (p ∘ l.get)).Pairwise (· < ·) :=
    (List.pairwise_lt_finRange _).filter _
  have heq : order.filter (p ∘ l.get) = (List.finRange l.length).filter (p ∘ l.get) := by
    refine (hperm.filter (p ∘ l.get)).eq_of_pairwise ?_ hsorted hfin
    intro i j _ _ hij hji
    omega
  rw [List.filter_map, heq, ← List.filter_map, List.map_get_finRange]

end Kolas.Lib

import Mathlib.Data.List.Basic
import Mathlib.Data.List.Induction
import Mathlib.Data.String.Basic
import Mathlib.Order.Lattice

/-!
# Maps as lists sorted by key

`insert k v l` puts the entry `(k, v)` before the first entry with a larger key,
replacing an entry with the key `k`; `List.lookup` reads.  On the lists that
`insert` makes the keys increase (`Sorted`), and the list is what iterating over
the map gives.

The laws `lookup_insert_self`, `lookup_insert_of_ne`, `insert_insert_self` and
`insert_comm` hold on every list, sorted or not.  `ofList` inserts the entries of a list
one after another; two sorted lists that read alike are equal (`eq_of_lookup`).
-/

namespace Kolas.Lib.SortedMap

variable {K V : Type*} [LinearOrder K]

def insert (k : K) (v : V) : List (K × V) → List (K × V)
  | [] => [(k, v)]
  | (k', v') :: rest =>
    if k < k' then (k, v) :: (k', v') :: rest
    else if k = k' then (k, v) :: rest
    else (k', v') :: insert k v rest

/-- The keys increase. -/
def Sorted (l : List (K × V)) : Prop := l.Pairwise fun a b => a.1 < b.1

theorem insert_cons_lt {k k' : K} (h : k < k') (v v' : V) (rest : List (K × V)) :
    insert k v ((k', v') :: rest) = (k, v) :: (k', v') :: rest := by
  rw [insert, if_pos h]

theorem insert_cons_self (k : K) (v v' : V) (rest : List (K × V)) :
    insert k v ((k, v') :: rest) = (k, v) :: rest := by
  rw [insert, if_neg (lt_irrefl k), if_pos rfl]

theorem insert_cons_gt {k k' : K} (h : k' < k) (v v' : V) (rest : List (K × V)) :
    insert k v ((k', v') :: rest) = (k', v') :: insert k v rest := by
  rw [insert, if_neg h.not_gt, if_neg h.ne']

theorem mem_insert {k : K} {v : V} {e : K × V} {l : List (K × V)} (h : e ∈ insert k v l) :
    e = (k, v) ∨ e ∈ l := by
  induction l with
  | nil => exact Or.inl (List.mem_singleton.mp h)
  | cons e' rest ih =>
    obtain ⟨k', v'⟩ := e'
    rcases lt_trichotomy k k' with hlt | rfl | hgt
    · rw [insert_cons_lt hlt] at h
      exact List.mem_cons.mp h
    · rw [insert_cons_self] at h
      rcases List.mem_cons.mp h with he | hmem
      · exact Or.inl he
      · exact Or.inr (List.mem_cons_of_mem _ hmem)
    · rw [insert_cons_gt hgt] at h
      rcases List.mem_cons.mp h with he | hmem
      · exact Or.inr (he ▸ List.mem_cons_self)
      · exact (ih hmem).imp_right (List.mem_cons_of_mem _)

theorem sorted_insert (k : K) (v : V) {l : List (K × V)} (h : Sorted l) :
    Sorted (insert k v l) := by
  induction l with
  | nil => exact List.pairwise_singleton _ _
  | cons e' rest ih =>
    obtain ⟨k', v'⟩ := e'
    obtain ⟨hhead, hrest⟩ := List.pairwise_cons.mp h
    rcases lt_trichotomy k k' with hlt | rfl | hgt
    · rw [insert_cons_lt hlt]
      refine List.pairwise_cons.mpr ⟨?_, h⟩
      intro e he
      rcases List.mem_cons.mp he with rfl | he
      · exact hlt
      · exact hlt.trans (hhead e he)
    · rw [insert_cons_self]
      exact List.pairwise_cons.mpr ⟨hhead, hrest⟩
    · rw [insert_cons_gt hgt]
      refine List.pairwise_cons.mpr ⟨?_, ih hrest⟩
      intro e he
      rcases mem_insert he with rfl | he
      · exact hgt
      · exact hhead e he

/-! ### Reading -/

theorem lookup_insert_self (k : K) (v : V) (l : List (K × V)) :
    (insert k v l).lookup k = some v := by
  induction l with
  | nil => simp [insert]
  | cons e' rest ih =>
    obtain ⟨k', v'⟩ := e'
    rcases lt_trichotomy k k' with hlt | rfl | hgt
    · rw [insert_cons_lt hlt, List.lookup_cons_self]
    · rw [insert_cons_self, List.lookup_cons_self]
    · rw [insert_cons_gt hgt, List.lookup_cons, beq_false_of_ne hgt.ne', ih]

theorem lookup_insert_of_ne {k k' : K} (h : k' ≠ k) (v : V) (l : List (K × V)) :
    (insert k v l).lookup k' = l.lookup k' := by
  induction l with
  | nil => rw [insert, List.lookup_cons, beq_false_of_ne h]
  | cons e' rest ih =>
    obtain ⟨k₁, v₁⟩ := e'
    rcases lt_trichotomy k k₁ with hlt | rfl | hgt
    · rw [insert_cons_lt hlt, List.lookup_cons, beq_false_of_ne h]
    · rw [insert_cons_self, List.lookup_cons, List.lookup_cons, beq_false_of_ne h]
    · rw [insert_cons_gt hgt, List.lookup_cons, List.lookup_cons, ih]

theorem mem_of_lookup {k : K} {v : V} {l : List (K × V)} (h : l.lookup k = some v) :
    (k, v) ∈ l := by
  induction l with
  | nil => simp at h
  | cons e' rest ih =>
    obtain ⟨k', v'⟩ := e'
    rw [List.lookup_cons] at h
    by_cases hk : k = k'
    · subst hk
      simp only [beq_self_eq_true, Option.some.injEq] at h
      rw [h]
      exact List.mem_cons_self
    · rw [beq_false_of_ne hk] at h
      exact List.mem_cons_of_mem _ (ih h)

theorem lookup_of_mem {k : K} {v : V} {l : List (K × V)} (hl : Sorted l) (h : (k, v) ∈ l) :
    l.lookup k = some v := by
  induction l with
  | nil => cases h
  | cons e' rest ih =>
    obtain ⟨hhead, hrest⟩ := List.pairwise_cons.mp hl
    rcases List.mem_cons.mp h with rfl | hmem
    · exact List.lookup_cons_self
    · rw [List.lookup_cons, beq_false_of_ne (hhead _ hmem).ne']
      exact ih hrest hmem

/-- Where the key is there already, the keys stay as they are. -/
theorem keys_insert_of_mem {k : K} {l : List (K × V)} (hl : Sorted l) (h : k ∈ l.map Prod.fst)
    (v : V) : (insert k v l).map Prod.fst = l.map Prod.fst := by
  induction l with
  | nil => cases h
  | cons e' rest ih =>
    obtain ⟨k', v'⟩ := e'
    obtain ⟨hhead, hrest⟩ := List.pairwise_cons.mp hl
    rcases List.mem_cons.mp h with hk | hmem
    · obtain rfl : k = k' := hk
      rw [insert_cons_self, List.map_cons, List.map_cons]
    · obtain ⟨e, he, rfl⟩ := List.mem_map.mp hmem
      rw [insert_cons_gt (hhead e he), List.map_cons, List.map_cons, ih hrest hmem]

/-! ### Two insertions -/

theorem insert_insert_self (k : K) (v v' : V) (l : List (K × V)) :
    insert k v (insert k v' l) = insert k v l := by
  induction l with
  | nil => rw [insert, insert_cons_self, insert]
  | cons e' rest ih =>
    obtain ⟨k₁, v₁⟩ := e'
    rcases lt_trichotomy k k₁ with hlt | rfl | hgt
    · rw [insert_cons_lt hlt, insert_cons_lt hlt, insert_cons_self]
    · rw [insert_cons_self, insert_cons_self, insert_cons_self]
    · rw [insert_cons_gt hgt, insert_cons_gt hgt, insert_cons_gt hgt, ih]

theorem insert_comm_of_lt {k k' : K} (h : k < k') (v v' : V) (l : List (K × V)) :
    insert k v (insert k' v' l) = insert k' v' (insert k v l) := by
  induction l with
  | nil => rw [insert, insert, insert_cons_lt h, insert_cons_gt h, insert]
  | cons e' rest ih =>
    obtain ⟨k₁, v₁⟩ := e'
    rcases lt_trichotomy k k₁ with hlt | rfl | hgt
    · rw [insert_cons_lt hlt, insert_cons_gt h]
      rcases lt_trichotomy k' k₁ with hlt' | rfl | hgt'
      · rw [insert_cons_lt hlt', insert_cons_lt h]
      · rw [insert_cons_self, insert_cons_lt h]
      · rw [insert_cons_gt hgt', insert_cons_lt hlt]
    · rw [insert_cons_gt h, insert_cons_self, insert_cons_self, insert_cons_gt h]
    · rw [insert_cons_gt hgt, insert_cons_gt (hgt.trans h), insert_cons_gt (hgt.trans h),
        insert_cons_gt hgt, ih]

/-- **Insertions at different keys commute.** -/
theorem insert_comm {k k' : K} (h : k ≠ k') (v v' : V) (l : List (K × V)) :
    insert k v (insert k' v' l) = insert k' v' (insert k v l) := by
  rcases lt_or_gt_of_ne h with hlt | hgt
  · exact insert_comm_of_lt hlt v v' l
  · exact (insert_comm_of_lt hgt v' v l).symm

/-! ### Maps of lists -/

/-- The map that inserting one entry after another makes. -/
def ofList (l : List (K × V)) : List (K × V) := l.foldl (fun m e => insert e.1 e.2 m) []

theorem ofList_append_singleton (l : List (K × V)) (e : K × V) :
    ofList (l ++ [e]) = insert e.1 e.2 (ofList l) := by
  rw [ofList, List.foldl_append]
  rfl

theorem sorted_ofList (l : List (K × V)) : Sorted (ofList l) := by
  induction l using List.reverseRecOn with
  | nil => exact List.Pairwise.nil
  | append_singleton l e ih =>
    rw [ofList_append_singleton]
    exact sorted_insert e.1 e.2 ih

/-- **The last entry of a key wins.** -/
theorem lookup_ofList (l : List (K × V)) (k : K) : (ofList l).lookup k = l.reverse.lookup k := by
  induction l using List.reverseRecOn with
  | nil => rfl
  | append_singleton l e ih =>
    rw [ofList_append_singleton, List.reverse_append, List.reverse_singleton, List.singleton_append,
      List.lookup_cons]
    by_cases hk : k = e.1
    · subst hk
      rw [lookup_insert_self, beq_self_eq_true]
    · rw [lookup_insert_of_ne hk, beq_false_of_ne hk, ih]

/-- **Maps that read alike are the same list.** -/
theorem eq_of_lookup {l l' : List (K × V)} (hl : Sorted l) (hl' : Sorted l')
    (h : ∀ k, l.lookup k = l'.lookup k) : l = l' := by
  have hne : ∀ {m : List (K × V)}, Sorted m → m.Nodup := by
    intro m hm
    refine List.Pairwise.imp ?_ hm
    rintro a b hlt rfl
    exact lt_irrefl _ hlt
  have hperm : l.Perm l' := by
    refine (List.perm_ext_iff_of_nodup (hne hl) (hne hl')).mpr ?_
    rintro ⟨k, v⟩
    constructor
    · intro hmem
      exact mem_of_lookup ((h k).symm.trans (lookup_of_mem hl hmem))
    · intro hmem
      exact mem_of_lookup ((h k).trans (lookup_of_mem hl' hmem))
  refine hperm.eq_of_pairwise ?_ hl hl'
  intro a b _ _ hab hba
  exact absurd (hab.trans hba) (lt_irrefl _)

end Kolas.Lib.SortedMap

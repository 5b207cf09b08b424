import Kolas.Database.Driver
import Mathlib.Data.Finset.Sort

/-!
# Rolling back

`rollback` of `database/migrate.rs`.  The applied migrations are a set of versions;
opening the directory and the connection, listing the set and undoing down to a
version are SQLx's, a parameter (`Migrator`), and `Migrator.Lawful` is what is
assumed of them.

* `withoutNewest` is what a rollback is for: the set without its greatest version.
* `rollback_cases`: what a rollback does with the two newest versions.
* `rollback_iff`: it is right except for a single version that is not positive, and
  a chain of rollbacks is right when all the versions are positive.
-/

namespace Kolas.Database

/-! ### The set without its newest element -/

section

variable {α : Type*} [LinearOrder α]

def withoutNewest (s : Finset α) : Finset α := s.filter fun v => ∃ w ∈ s, v < w

theorem withoutNewest_of_isGreatest {s : Finset α} {v : α} (h : IsGreatest (s : Set α) v) :
    withoutNewest s = s.erase v := by
  ext u
  rw [withoutNewest, Finset.mem_filter, Finset.mem_erase]
  constructor
  · intro hu
    obtain ⟨hmem, w, hw, hlt⟩ := hu
    exact ⟨(lt_of_lt_of_le hlt (h.2 hw)).ne, hmem⟩
  · intro hu
    obtain ⟨hne, hmem⟩ := hu
    exact ⟨hmem, v, h.1, lt_of_le_of_ne (h.2 hmem) hne⟩

theorem withoutNewest_singleton (v : α) : withoutNewest ({v} : Finset α) = ∅ := by
  rw [withoutNewest_of_isGreatest (v := v) (by simp), Finset.erase_singleton]

theorem withoutNewest_subset (s : Finset α) : withoutNewest s ⊆ s := Finset.filter_subset _ s

theorem card_withoutNewest (s : Finset α) : (withoutNewest s).card = s.card - 1 := by
  rcases s.eq_empty_or_nonempty with rfl | hne
  · rfl
  · have hmax := s.isGreatest_max' hne
    rw [withoutNewest_of_isGreatest hmax, Finset.card_erase_of_mem hmax.1]

theorem card_withoutNewest_iterate (s : Finset α) (n : Nat) :
    (withoutNewest^[n] s).card = s.card - n := by
  induction n with
  | zero => rfl
  | succ n ih =>
    rw [Function.iterate_succ_apply', card_withoutNewest, ih]
    omega

theorem withoutNewest_iterate_subset (s : Finset α) (n : Nat) : withoutNewest^[n] s ⊆ s := by
  induction n with
  | zero => exact subset_rfl
  | succ n ih =>
    rw [Function.iterate_succ_apply']
    exact (withoutNewest_subset _).trans ih

/-- The least element is the last to go. -/
theorem isLeast_mem_iterate {s : Finset α} {m : α} (hm : IsLeast (s : Set α) m) {n : Nat}
    (hn : n < s.card) : m ∈ withoutNewest^[n] s := by
  induction n with
  | zero => exact hm.1
  | succ n ih =>
    have hmem := ih (by omega)
    have hcard := card_withoutNewest_iterate s n
    obtain ⟨w, hw, hne⟩ := Finset.exists_mem_ne (show 1 < (withoutNewest^[n] s).card by omega) m
    rw [Function.iterate_succ_apply', withoutNewest, Finset.mem_filter]
    exact ⟨hmem, w, hw, lt_of_le_of_ne (hm.2 (withoutNewest_iterate_subset s n hw)) hne.symm⟩

end

/-! ### The command -/

/-- What `rollback` calls. -/
structure Migrator where
  openDir : Except DatabaseError Unit
  connect : Except DatabaseError Unit
  listApplied : Finset Int → Except DatabaseError (List Int)
  undo : Finset Int → Int → Except DatabaseError (Finset Int)

/-- The directory and the database are there; the applied versions are listed in
some order, and those above the target are undone. -/
structure Migrator.Lawful (M : Migrator) : Prop where
  openDir : M.openDir = .ok ()
  connect : M.connect = .ok ()
  listApplied : ∀ applied, ∃ listed, M.listApplied applied = .ok listed ∧ listed.Nodup ∧
    ∀ v, v ∈ listed ↔ v ∈ applied
  undo : ∀ applied target, M.undo applied target = .ok (applied.filter (· ≤ target))

variable (M : Migrator)

/-- Newest first, as `sort_by` and `truncate` leave them. -/
def lastAppliedVersions (applied : Finset Int) (limit : Nat) : Except DatabaseError (List Int) := do
  let listed ← M.listApplied applied
  return (listed.mergeSort fun a b => decide (b ≤ a)).take limit

/-- The versions that are applied afterwards. -/
def rollback (applied : Finset Int) : Except DatabaseError (Finset Int) := do
  M.openDir
  M.connect
  let versions ← lastAppliedVersions M applied 2
  match versions with
  | [] => return applied
  | [_] => M.undo applied 0
  | _ :: target :: _ => M.undo applied target

/-- Calls one after another. -/
def rollbackTimes (applied : Finset Int) : Nat → Except DatabaseError (Finset Int)
  | 0 => .ok applied
  | n + 1 => do rollback M (← rollbackTimes applied n)

/-- The call undoes the newest migration. -/
def UndoesNewest (applied : Finset Int) : Prop :=
  rollback M applied = .ok (withoutNewest applied)

/-- Any number of calls undo the newest migrations, one each. -/
def UndoesEach (applied : Finset Int) : Prop :=
  ∀ n, rollbackTimes M applied n = .ok (withoutNewest^[n] applied)

/-! ### What a rollback does -/

section

variable {M} {applied : Finset Int}

theorem mergeSort_descending (versions : List Int) :
    (versions.mergeSort fun a b => decide (b ≤ a)).Pairwise (fun a b => b ≤ a) := by
  have hpair : (versions.mergeSort fun a b => decide (b ≤ a)).Pairwise
      (fun a b => decide (b ≤ a) = true) := by
    apply List.pairwise_mergeSort
    · intro a b c hba hcb
      rw [decide_eq_true_eq] at hba hcb ⊢
      exact le_trans hcb hba
    · intro a b
      rw [Bool.or_eq_true, decide_eq_true_eq, decide_eq_true_eq]
      exact le_total b a
  simpa using hpair

/-- A set listed from the top has its greatest element first. -/
theorem isGreatest_of_descending {v : Int} {rest : List Int}
    (hsorted : (v :: rest).Pairwise (fun a b => b ≤ a)) (hmem : ∀ u, u ∈ v :: rest ↔ u ∈ applied) :
    IsGreatest (applied : Set Int) v := by
  refine ⟨(hmem v).mp List.mem_cons_self, ?_⟩
  intro u hu
  rcases List.mem_cons.mp ((hmem u).mpr hu) with rfl | hu
  · exact le_rfl
  · exact List.rel_of_pairwise_cons hsorted hu

/-- The two newest versions, by how many there are. -/
theorem lastAppliedVersions_cases (hM : M.Lawful) (applied : Finset Int) :
    (applied = ∅ ∧ lastAppliedVersions M applied 2 = .ok []) ∨
      (∃ v, applied = {v} ∧ lastAppliedVersions M applied 2 = .ok [v]) ∨
      ∃ v w, IsGreatest (applied : Set Int) v ∧ IsGreatest (applied.erase v : Set Int) w ∧
        lastAppliedVersions M applied 2 = .ok [v, w] := by
  obtain ⟨listed, hlisted, hnodup, hmem⟩ := hM.listApplied applied
  have hversions : lastAppliedVersions M applied 2 =
      .ok ((listed.mergeSort fun a b => decide (b ≤ a)).take 2) := by
    unfold lastAppliedVersions
    rw [hlisted]
    rfl
  have hsorted := mergeSort_descending listed
  have hperm := List.mergeSort_perm listed fun a b => decide (b ≤ a)
  have hnodup' := hperm.nodup_iff.mpr hnodup
  have hmem' : ∀ v, v ∈ listed.mergeSort (fun a b => decide (b ≤ a)) ↔ v ∈ applied :=
    fun v => hperm.mem_iff.trans (hmem v)
  rw [hversions]
  generalize listed.mergeSort (fun a b => decide (b ≤ a)) = sorted at *
  match sorted with
  | [] =>
    refine .inl ⟨Finset.eq_empty_of_forall_notMem ?_, rfl⟩
    intro v hv
    exact List.not_mem_nil ((hmem' v).mpr hv)
  | [v] =>
    refine .inr (.inl ⟨v, ?_, rfl⟩)
    ext u
    rw [← hmem' u, List.mem_singleton, Finset.mem_singleton]
  | v :: w :: rest =>
    have herase : ∀ u, u ∈ w :: rest ↔ u ∈ applied.erase v := by
      intro u
      rw [Finset.mem_erase, ← hmem' u]
      constructor
      · intro hu
        exact ⟨fun heq => (List.nodup_cons.mp hnodup').1 (heq ▸ hu), List.mem_cons_of_mem v hu⟩
      · exact fun hu => (List.mem_cons.mp hu.2).resolve_left hu.1
    exact .inr (.inr ⟨v, w, isGreatest_of_descending hsorted hmem',
      isGreatest_of_descending (List.pairwise_cons.mp hsorted).2 herase, rfl⟩)

/-- **What a rollback does**: nothing to an empty set, to a single version what
undoing down to zero does, and otherwise undoing down to the newest but one. -/
theorem rollback_cases (hM : M.Lawful) (applied : Finset Int) :
    (applied = ∅ ∧ rollback M applied = .ok ∅) ∨
      (∃ v, applied = {v} ∧ rollback M applied = .ok (({v} : Finset Int).filter (· ≤ 0))) ∨
      ∃ v w, IsGreatest (applied : Set Int) v ∧ IsGreatest (applied.erase v : Set Int) w ∧
        rollback M applied = .ok (applied.filter (· ≤ w)) := by
  unfold rollback
  rw [hM.openDir, hM.connect]
  rcases lastAppliedVersions_cases hM applied with
    ⟨rfl, hversions⟩ | ⟨v, rfl, hversions⟩ | ⟨v, w, hv, hw, hversions⟩
  · exact .inl ⟨rfl, by rw [hversions]; rfl⟩
  · exact .inr (.inl ⟨v, rfl, by rw [hversions, ← hM.undo]; rfl⟩)
  · exact .inr (.inr ⟨v, w, hv, hw, by rw [hversions, ← hM.undo]; rfl⟩)

theorem filter_le_of_isGreatest {v w : Int} (hv : IsGreatest (applied : Set Int) v)
    (hw : IsGreatest (applied.erase v : Set Int) w) :
    applied.filter (· ≤ w) = applied.erase v := by
  obtain ⟨hwv, hwmem⟩ := Finset.mem_erase.mp (Finset.mem_coe.mp hw.1)
  have hlt : w < v := lt_of_le_of_ne (hv.2 hwmem) hwv
  ext u
  rw [Finset.mem_filter, Finset.mem_erase]
  constructor
  · intro hu
    obtain ⟨hmem, hle⟩ := hu
    exact ⟨(lt_of_le_of_lt hle hlt).ne, hmem⟩
  · intro hu
    obtain ⟨hne, hmem⟩ := hu
    exact ⟨hmem, hw.2 (Finset.mem_coe.mpr (Finset.mem_erase.mpr ⟨hne, hmem⟩))⟩

/-- **When a rollback undoes the newest migration**: unless it is the only one and
its version is not positive. -/
theorem undoesNewest_iff (hM : M.Lawful) (applied : Finset Int) :
    UndoesNewest M applied ↔ ¬ ∃ v ≤ 0, applied = {v} := by
  unfold UndoesNewest
  rcases rollback_cases hM applied with
    ⟨rfl, hrollback⟩ | ⟨v, rfl, hrollback⟩ | ⟨v, w, hv, hw, hrollback⟩
  · rw [hrollback]
    refine iff_of_true rfl ?_
    intro h
    obtain ⟨v, -, hv⟩ := h
    exact Finset.singleton_ne_empty v hv.symm
  · rw [hrollback, withoutNewest_singleton, Except.ok.injEq, Finset.filter_singleton]
    by_cases hpos : v ≤ 0
    · simp [hpos]
    · simp [hpos]
  · rw [hrollback, withoutNewest_of_isGreatest hv, filter_le_of_isGreatest hv hw]
    refine iff_of_true rfl ?_
    intro h
    obtain ⟨u, -, rfl⟩ := h
    obtain ⟨hne, hmem⟩ := Finset.mem_erase.mp (Finset.mem_coe.mp hw.1)
    rw [Finset.mem_singleton] at hmem
    obtain rfl : v = u := by simpa using hv.1
    exact hne hmem

/-- **When a chain of rollbacks undoes one migration at a time**: when all versions
are positive.  The last to be undone is the least. -/
theorem undoesEach_iff (hM : M.Lawful) (applied : Finset Int) :
    UndoesEach M applied ↔ ∀ v ∈ applied, 0 < v := by
  constructor
  · intro h v hv
    by_contra hpos
    have hne : applied.Nonempty := ⟨v, hv⟩
    have hleast := applied.isLeast_min' hne
    obtain ⟨n, hn⟩ : ∃ n, applied.card = n + 1 := Nat.exists_eq_succ_of_ne_zero hne.card_ne_zero
    have hmem := isLeast_mem_iterate hleast (show n < applied.card by omega)
    have hcard : (withoutNewest^[n] applied).card = 1 := by
      rw [card_withoutNewest_iterate, hn]
      omega
    obtain ⟨u, hu⟩ := Finset.card_eq_one.mp hcard
    rw [hu, Finset.mem_singleton] at hmem
    have hundoes : UndoesNewest M {u} := by
      have hnext := h (n + 1)
      rw [rollbackTimes, h n, Function.iterate_succ_apply', hu] at hnext
      exact hnext
    refine (undoesNewest_iff hM {u}).mp hundoes ⟨u, ?_, rfl⟩
    have hle : applied.min' hne ≤ v := hleast.2 hv
    omega
  · intro hpos n
    induction n with
    | zero => rfl
    | succ n ih =>
      have hundoes : UndoesNewest M (withoutNewest^[n] applied) := by
        rw [undoesNewest_iff hM]
        intro h
        obtain ⟨v, hv, hset⟩ := h
        have hmem := withoutNewest_iterate_subset applied n (hset ▸ Finset.mem_singleton_self v)
        have hlt := hpos v hmem
        omega
      rw [rollbackTimes, ih, Function.iterate_succ_apply']
      exact hundoes

/-- **When rollbacks are right**: one, unless it is for a single version that is not
positive, and a chain of them when all versions are positive; it then ends with
nothing applied. -/
theorem rollback_iff (hM : M.Lawful) (applied : Finset Int) :
    (UndoesNewest M applied ↔ ¬ ∃ v ≤ 0, applied = {v}) ∧
      (UndoesEach M applied ↔ ∀ v ∈ applied, 0 < v) ∧
      (UndoesEach M applied → rollbackTimes M applied applied.card = .ok ∅) := by
  refine ⟨undoesNewest_iff hM applied, undoesEach_iff hM applied, ?_⟩
  intro h
  have hempty : withoutNewest^[applied.card] applied = ∅ := by
    rw [← Finset.card_eq_zero, card_withoutNewest_iterate, Nat.sub_self]
  rw [h applied.card, hempty]

/-- A directory whose versions are listed from the oldest on. -/
def directory : Migrator where
  openDir := .ok ()
  connect := .ok ()
  listApplied applied := .ok (applied.sort (· ≤ ·))
  undo applied target := .ok (applied.filter (· ≤ target))

theorem directory_lawful : directory.Lawful where
  openDir := rfl
  connect := rfl
  listApplied applied := ⟨_, rfl, applied.sort_nodup _, fun _ => Finset.mem_sort _⟩
  undo _ _ := rfl

theorem undoesEach_directory :
    UndoesNewest directory {20260628161504914, 20260701090000000, 0} ∧
      UndoesEach directory {20260628161504914, 20260701090000000} := by
  refine ⟨(rollback_iff directory_lawful _).1.mpr ?_, (rollback_iff directory_lawful _).2.1.mpr ?_⟩
  · intro h
    obtain ⟨v, -, hv⟩ := h
    have hcard := congrArg Finset.card hv
    rw [Finset.card_singleton] at hcard
    revert hcard
    decide
  · decide

/-- The migration with version zero is not undone. -/
theorem not_undoesNewest : ¬ UndoesNewest directory {0} := by
  rw [undoesNewest_iff directory_lawful]
  exact fun h => h ⟨0, le_rfl, rfl⟩

end

end Kolas.Database

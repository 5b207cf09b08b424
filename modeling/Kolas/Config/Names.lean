import Kolas.Config.Config

/-!
# Names made of segments

A variable's name is its segments joined by `__`, and `splitDunder` takes it
apart again.  It splits at the leftmost `__`, so a segment that ends with `_` is
cut one character too early: `splitDunder_append` is about a segment that does
not, and `cut_of_split` about all of a name's segments.
-/

set_option linter.dupNamespace false

namespace Kolas.Config

/-- Segments joined by `__`. -/
def joinDunder (segments : List (List Char)) : List Char := ['_', '_'].intercalate segments

theorem joinDunder_cons (seg next : List Char) (segments : List (List Char)) :
    joinDunder (seg :: next :: segments) = seg ++ '_' :: '_' :: joinDunder (next :: segments) := by
  simp [joinDunder, List.intercalate_cons_cons]

/-- Not at a `__`. -/
def Apart (c : Char) (rest : List Char) : Prop := ¬ (c = '_' ∧ rest.head? = some '_')

theorem splitDunder_cons {c : Char} {rest : List Char} (h : Apart c rest) {part : List Char}
    {parts : List (List Char)} (hrest : splitDunder rest = part :: parts) :
    splitDunder (c :: rest) = (c :: part) :: parts := by
  rw [splitDunder, hrest]
  rintro rest' rfl rfl
  exact h ⟨rfl, rfl⟩

theorem containsDunder_cons {c : Char} {rest : List Char} (h : Apart c rest) :
    containsDunder (c :: rest) = containsDunder rest := by
  rw [containsDunder]
  rintro rest' rfl rfl
  exact h ⟨rfl, rfl⟩

theorem apart_of_containsDunder {c : Char} {rest : List Char}
    (h : containsDunder (c :: rest) = false) : Apart c rest ∧ containsDunder rest = false := by
  have hapart : Apart c rest := by
    rintro ⟨rfl, hhead⟩
    cases rest with
    | nil => cases hhead
    | cons d rest =>
      obtain rfl := Option.some.inj hhead
      cases h
  exact ⟨hapart, (containsDunder_cons hapart).symm.trans h⟩

theorem containsDunder_append (part rest : List Char) :
    containsDunder (part ++ '_' :: '_' :: rest) = true := by
  induction part with
  | nil => rfl
  | cons c part ih =>
    by_cases hapart : Apart c (part ++ '_' :: '_' :: rest)
    · rw [List.cons_append, containsDunder_cons hapart, ih]
    · by_contra hnot
      exact hapart (apart_of_containsDunder (Bool.eq_false_iff.mpr hnot)).1

theorem containsDunder_append_left {part : List Char} (h : '_' ∉ part) (rest : List Char) :
    containsDunder (part ++ rest) = containsDunder rest := by
  induction part with
  | nil => rfl
  | cons c part ih =>
    have hapart : Apart c (part ++ rest) := fun hand => h (hand.1 ▸ List.mem_cons_self)
    rw [List.cons_append, containsDunder_cons hapart,
      ih fun hmem => h (List.mem_cons_of_mem _ hmem)]

theorem splitDunder_of_not {part : List Char} (h : containsDunder part = false) :
    splitDunder part = [part] := by
  induction part with
  | nil => rfl
  | cons c part ih =>
    obtain ⟨hapart, hpart⟩ := apart_of_containsDunder h
    exact splitDunder_cons hapart (ih hpart)

/-- **A segment that does not end with `_` is cut off as it is.** -/
theorem splitDunder_append {part : List Char} (h : containsDunder part = false)
    (hlast : part.getLast? ≠ some '_') (rest : List Char) :
    splitDunder (part ++ '_' :: '_' :: rest) = part :: splitDunder rest := by
  induction part with
  | nil => rfl
  | cons c part ih =>
    obtain ⟨hapart, hpart⟩ := apart_of_containsDunder h
    cases part with
    | nil =>
      refine splitDunder_cons ?_ rfl
      rintro ⟨rfl, -⟩
      exact hlast rfl
    | cons d part =>
      have hapart' : Apart c (d :: part ++ '_' :: '_' :: rest) := hapart
      exact splitDunder_cons hapart' (ih hpart hlast)

/-- A segment without underscores. -/
theorem splitDunder_append_of_notMem {part : List Char} (h : '_' ∉ part) (rest : List Char) :
    splitDunder (part ++ '_' :: '_' :: rest) = part :: splitDunder rest := by
  refine splitDunder_append ?_ (fun hlast => h (List.mem_of_getLast? hlast)) rest
  have hplain := containsDunder_append_left h []
  rwa [List.append_nil] at hplain

theorem containsDunder_dropLast {part : List Char} (h : containsDunder part = false) :
    containsDunder part.dropLast = false := by
  induction part with
  | nil => rfl
  | cons c part ih =>
    obtain ⟨hapart, hpart⟩ := apart_of_containsDunder h
    cases part with
    | nil => rfl
    | cons d part =>
      rw [List.dropLast_cons_cons, containsDunder_cons, ih hpart]
      cases part with
      | nil => exact fun hand => nomatch hand.2
      | cons e part => exact hapart

/-- **A segment that ends with `_` loses it.** -/
theorem splitDunder_append_underscore {part : List Char} (h : containsDunder part = false)
    (hlast : part.getLast? = some '_') (rest : List Char) :
    splitDunder (part ++ '_' :: '_' :: rest) = part.dropLast :: splitDunder ('_' :: rest) := by
  obtain ⟨init, rfl⟩ := List.getLast?_eq_some_iff.mp hlast
  rw [List.dropLast_concat, List.append_assoc]
  have hinit : containsDunder init = false := by
    have := containsDunder_dropLast h
    rwa [List.dropLast_concat] at this
  refine splitDunder_append hinit ?_ _
  intro hend
  obtain ⟨front, rfl⟩ := List.getLast?_eq_some_iff.mp hend
  have htwo := containsDunder_append front []
  rw [List.append_assoc] at h
  exact absurd (htwo.symm.trans h) (by decide)

/-- Segments none of which but the last ends with `_`. -/
def Cut (segments : List (List Char)) : Prop :=
  ∀ seg ∈ segments.dropLast, seg.getLast? ≠ some '_'

theorem cut_cons {seg next : List Char} {segments : List (List Char)} :
    Cut (seg :: next :: segments) ↔ seg.getLast? ≠ some '_' ∧ Cut (next :: segments) := by
  unfold Cut
  rw [List.dropLast_cons_cons]
  exact List.forall_mem_cons

/-- **Where segments are cut as they were joined, splitting gives them back.** -/
theorem split_of_cut {segments : List (List Char)} (hne : segments ≠ [])
    (h : ∀ seg ∈ segments, containsDunder seg = false) (hcut : Cut segments) :
    splitDunder (joinDunder segments) = segments := by
  induction segments with
  | nil => exact absurd rfl hne
  | cons seg segments ih =>
    have hseg := h seg List.mem_cons_self
    cases segments with
    | nil =>
      rw [joinDunder, List.intercalate_singleton]
      exact splitDunder_of_not hseg
    | cons next segments =>
      obtain ⟨hlast, hcut⟩ := cut_cons.mp hcut
      rw [joinDunder_cons, splitDunder_append hseg hlast]
      congr 1
      exact ih (List.cons_ne_nil _ _) (fun s hs => h s (List.mem_cons_of_mem _ hs)) hcut

/-- **Where the parts have as many underscores as the segments, the segments were
cut as they were joined.** -/
theorem cut_of_split {segments : List (List Char)}
    (h : ∀ seg ∈ segments, containsDunder seg = false)
    (hcount : (splitDunder (joinDunder segments)).map (List.count '_') =
      segments.map (List.count '_')) : Cut segments := by
  induction segments with
  | nil => exact nofun
  | cons seg segments ih =>
    have hseg := h seg List.mem_cons_self
    cases segments with
    | nil => exact nofun
    | cons next segments =>
      rw [joinDunder_cons] at hcount
      by_cases hlast : seg.getLast? = some '_'
      · rw [splitDunder_append_underscore hseg hlast, List.map_cons, List.map_cons] at hcount
        obtain ⟨init, rfl⟩ := List.getLast?_eq_some_iff.mp hlast
        have hfewer := (List.cons.inj hcount).1
        rw [List.dropLast_concat, List.count_append] at hfewer
        have hone : List.count '_' ['_'] = 1 := rfl
        omega
      · rw [splitDunder_append hseg hlast, List.map_cons, List.map_cons] at hcount
        refine cut_cons.mpr ⟨hlast, ih (fun s hs => h s (List.mem_cons_of_mem _ hs)) ?_⟩
        exact (List.cons.inj hcount).2

end Kolas.Config

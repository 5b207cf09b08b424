import Mathlib.Data.List.Basic
import Mathlib.Data.List.DropRight
import Mathlib.Data.List.TakeWhile

/-!
# Words

The words of a list are the non-empty pieces between its separators, the elements
at which `p` holds.

* `mem_words`: a word is not empty and has no separator in it.
* `words_intercalate`: words that are joined with a separator are found again.

`cut` parts a list at the first place of an element.

* `cut_append_cons`, `cut_eq_none`: where it does, and when it does not.

`trim` takes the separators off both ends of a list; they are `around` it.

* `trim_eq_self`: a list with no separator in it is left as it is.
* `trim_trim`: there is nothing more to take off.
* `length_flatMap_trim`: what is left and what is taken off are the whole list, also
  after every element has been written out.
-/

namespace Kolas.Lib

variable {α : Type*} {p : α → Bool}

def words (p : α → Bool) (l : List α) : List (List α) := (l.splitOnP p).filter (· ≠ [])

/-- What a word is made of. -/
def IsWord (p : α → Bool) (w : List α) : Prop := w ≠ [] ∧ ∀ x ∈ w, p x = false

theorem not_sep_of_mem_splitOnP {l w : List α} (hw : w ∈ l.splitOnP p) : ∀ x ∈ w, p x = false := by
  induction l generalizing w with
  | nil =>
    rw [List.splitOnP_nil, List.mem_singleton] at hw
    simp [hw]
  | cons a l ih =>
    rw [List.splitOnP_cons_eq_if_modifyHead] at hw
    split at hw
    · rcases List.mem_cons.mp hw with rfl | hw
      · simp
      · exact ih hw
    · rename_i ha
      cases hl : l.splitOnP p with
      | nil => exact absurd hl (List.splitOnP_ne_nil p l)
      | cons v vs =>
        rw [hl, List.modifyHead_cons, List.mem_cons] at hw
        rcases hw with rfl | hw
        · intro x hx
          rcases List.mem_cons.mp hx with rfl | hx
          · exact Bool.eq_false_iff.mpr ha
          · exact ih (hl ▸ List.mem_cons_self) x hx
        · exact ih (hl ▸ List.mem_cons_of_mem v hw)

/-- **What a word is.** -/
theorem mem_words {l w : List α} (hw : w ∈ words p l) : IsWord p w := by
  obtain ⟨hmem, hne⟩ := List.mem_filter.mp hw
  exact ⟨of_decide_eq_true hne, not_sep_of_mem_splitOnP hmem⟩

theorem isWord_append {v w : List α} (hv : IsWord p v) (hw : IsWord p w) : IsWord p (v ++ w) := by
  refine ⟨List.append_ne_nil_of_left_ne_nil hv.1 w, ?_⟩
  intro x hx
  rcases List.mem_append.mp hx with hx | hx
  · exact hv.2 x hx
  · exact hw.2 x hx

/-- **Joined words are found again.** -/
theorem words_intercalate {sep : α} (hsep : p sep = true) {ws : List (List α)}
    (h : ∀ w ∈ ws, IsWord p w) : words p ([sep].intercalate ws) = ws := by
  unfold words
  induction ws with
  | nil => simp
  | cons w ws ih =>
    obtain ⟨hne, hw⟩ := h w List.mem_cons_self
    cases ws with
    | nil =>
      rw [List.intercalate_singleton, List.splitOnP_eq_singleton hw]
      simp [hne]
    | cons v ws =>
      have hrest := ih fun u hu => h u (List.mem_cons_of_mem w hu)
      rw [List.intercalate_cons_cons, List.append_assoc, List.singleton_append,
        List.splitOnP_append_cons_of_forall_mem hw _ hsep, List.filter_cons, hrest]
      simp [hne]

section

variable [DecidableEq α]

/-- What is before and after the first `a`, if there is one. -/
def cut (a : α) (l : List α) : Option (List α × List α) :=
  match l.dropWhile (· ≠ a) with
  | [] => none
  | _ :: rest => some (l.takeWhile (· ≠ a), rest)

theorem cut_append_cons {a : α} {xs : List α} (h : a ∉ xs) (ys : List α) :
    cut a (xs ++ a :: ys) = some (xs, ys) := by
  have hne : ∀ x ∈ xs, decide (x ≠ a) = true :=
    fun x hx => decide_eq_true fun heq => h (heq ▸ hx)
  unfold cut
  rw [List.dropWhile_append_of_pos hne, List.takeWhile_append_of_pos hne]
  simp

theorem cut_eq_none {a : α} {l : List α} (h : a ∉ l) : cut a l = none := by
  have hne : ∀ x ∈ l, decide (x ≠ a) = true :=
    fun x hx => decide_eq_true fun heq => h (heq ▸ hx)
  unfold cut
  rw [List.dropWhile_eq_nil_iff.mpr hne]

end

def trim (p : α → Bool) (l : List α) : List α := (l.dropWhile p).rdropWhile p

theorem trim_eq_self {l : List α} (h : ∀ x ∈ l, p x = false) : trim p l = l := by
  have hdrop : l.dropWhile p = l := by
    rw [List.dropWhile_eq_self_iff]
    intro hl
    rw [h _ (List.getElem_mem hl)]
    decide
  rw [trim, hdrop, List.rdropWhile_eq_self_iff]
  intro hl
  rw [h _ (List.getLast_mem hl)]
  decide

theorem trim_trim (l : List α) : trim p (trim p l) = trim p l := by
  have hdrop : (trim p l).dropWhile p = trim p l := by
    rw [List.dropWhile_eq_self_iff]
    intro hl
    obtain ⟨rest, hrest⟩ : trim p l <+: l.dropWhile p := List.rdropWhile_prefix p _
    have hpos : 0 < (l.dropWhile p).length := by
      rw [← hrest, List.length_append]
      omega
    have hhead : (trim p l)[0] = (l.dropWhile p)[0] := by
      simp only [← hrest, List.getElem_append_left hl]
    rw [hhead]
    exact List.dropWhile_get_zero_not p l hpos
  calc trim p (trim p l)
      = ((trim p l).dropWhile p).rdropWhile p := rfl
    _ = (trim p l).rdropWhile p := by rw [hdrop]
    _ = trim p l := List.rdropWhile_idempotent p _

/-- What `trim` takes off. -/
def around (p : α → Bool) (l : List α) : List α := l.takeWhile p ++ (l.dropWhile p).rtakeWhile p

theorem rdropWhile_append_rtakeWhile (l : List α) : l.rdropWhile p ++ l.rtakeWhile p = l := by
  unfold List.rdropWhile List.rtakeWhile
  rw [← List.reverse_append, List.takeWhile_append_dropWhile, List.reverse_reverse]

theorem length_flatMap_trim {β : Type*} (f : α → List β) (l : List α) :
    ((trim p l).flatMap f).length + ((around p l).flatMap f).length = (l.flatMap f).length := by
  have hend : (l.dropWhile p).flatMap f =
      (trim p l).flatMap f ++ ((l.dropWhile p).rtakeWhile p).flatMap f := by
    rw [← List.flatMap_append]
    exact congrArg (List.flatMap f) (rdropWhile_append_rtakeWhile _).symm
  have hwhole : l.flatMap f = (l.takeWhile p).flatMap f ++ (l.dropWhile p).flatMap f := by
    rw [← List.flatMap_append, List.takeWhile_append_dropWhile]
  unfold around
  rw [hwhole, hend, List.flatMap_append]
  simp only [List.length_append]
  omega

end Kolas.Lib

import Mathlib.Data.List.Sigma

/-!
# Lists and folds over them

* `foldl_first`: a fold that keeps the first value it finds.
* `foldl_last`: a fold that keeps the last one.
* `foldlM_read`: a loop that reads and acts, and stops at what it cannot read.
* `mapM_eq_ok`, `mapM_eq_some`: a list is read exactly when each of its items is.
-/

namespace Kolas.Lib

variable {α β σ : Type*}

theorem filterMap_filter_of_none {f : α → Option β} {keep : α → Bool} {l : List α}
    (h : ∀ a ∈ l, keep a = false → f a = none) : (l.filter keep).filterMap f = l.filterMap f := by
  induction l with
  | nil => rfl
  | cons a l ih =>
    obtain ⟨ha, hl⟩ := List.forall_mem_cons.mp h
    by_cases hkeep : keep a = true
    · rw [List.filter_cons_of_pos hkeep, List.filterMap_cons, List.filterMap_cons, ih hl]
    · rw [List.filter_cons_of_neg hkeep, ih hl, List.filterMap_cons_none]
      exact ha (by simpa using hkeep)

/-- What a `filterMap` keeps stands in the order of the list. -/
theorem map_filterMap_sublist {γ : Type*} {f : α → Option β} {g : β → γ} {g' : α → γ}
    (h : ∀ a b, f a = some b → g b = g' a) (l : List α) :
    ((l.filterMap f).map g).Sublist (l.map g') := by
  induction l with
  | nil => exact List.Sublist.refl _
  | cons a l ih =>
    cases hf : f a with
    | none =>
      rw [List.filterMap_cons_none hf]
      exact ih.trans (List.sublist_cons_self _ _)
    | some b =>
      rw [List.filterMap_cons_some hf, List.map_cons, List.map_cons, h a b hf]
      exact ih.cons_cons _

/-- In a numbered list, every number is met once. -/
theorem exists_zipIdx_eq_append {l : List α} {i : Nat} {x : α} (h : l[i]? = some x) :
    ∃ pre post, l.zipIdx = pre ++ (x, i) :: post ∧ (∀ entry ∈ pre, entry.2 ≠ i) ∧
      ∀ entry ∈ post, entry.2 ≠ i := by
  obtain ⟨pre, post, hsplit⟩ := List.append_of_mem (List.mk_mem_zipIdx_iff_getElem?.mpr h)
  have hnodup := List.nodup_zipIdx_map_snd l
  rw [hsplit, List.map_append, List.map_cons, List.nodup_middle, List.nodup_cons,
    List.mem_append] at hnodup
  refine ⟨pre, post, hsplit, ?_, ?_⟩
  · intro entry hentry heq
    exact hnodup.1 (.inl (List.mem_map.mpr ⟨entry, hentry, heq⟩))
  · intro entry hentry heq
    exact hnodup.1 (.inr (List.mem_map.mpr ⟨entry, hentry, heq⟩))

theorem snd_lt_of_mem_take_zipIdx {l : List α} {n : Nat} {entry : α × Nat}
    (h : entry ∈ l.zipIdx.take n) : entry.2 < n := by
  obtain ⟨i, hi, rfl⟩ := List.mem_iff_getElem.mp h
  rw [List.length_take] at hi
  rw [List.getElem_take, List.getElem_zipIdx]
  dsimp only
  omega

theorem zipIdx_take (l : List α) (n : Nat) : (l.take n).zipIdx = l.zipIdx.take n := by
  refine List.ext_getElem? fun i => ?_
  rw [List.getElem?_zipIdx, List.getElem?_take, List.getElem?_take, List.getElem?_zipIdx]
  split <;> rfl

theorem set_of_getElem? {l : List α} {i : Nat} {a : α} (h : l[i]? = some a) : l.set i a = l := by
  obtain ⟨hi, rfl⟩ := List.getElem?_eq_some_iff.mp h
  exact List.set_getElem_self hi

/-- Where no key stands twice, an entry is found by its key. -/
theorem lookup_of_mem [DecidableEq α] {l : List (α × β)} (hl : (l.map Prod.fst).Nodup) {a : α}
    {b : β} (h : (a, b) ∈ l) : l.lookup a = some b := by
  obtain ⟨before, after, rfl⟩ := List.append_of_mem h
  rw [List.map_append, List.map_cons, List.nodup_middle, List.nodup_cons, List.mem_append] at hl
  refine List.lookup_eq_some_iff.mpr ⟨before, after, rfl, ?_⟩
  intro entry hentry
  refine bne_iff_ne.mpr ?_
  intro heq
  exact hl.1 (.inl (List.mem_map.mpr ⟨entry, hentry, heq.symm⟩))

/-- Pushing what is not there yet. -/
theorem foldl_push_absent [DecidableEq α] {l : List α} (hl : l.Nodup) (names : List α) :
    l.foldl (fun names a => if a ∈ names then names else names ++ [a]) names =
      names ++ l.filter fun a => a ∉ names := by
  induction l generalizing names with
  | nil => simp
  | cons a l ih =>
    obtain ⟨ha, hl⟩ := List.nodup_cons.mp hl
    rw [List.foldl_cons]
    by_cases hmem : a ∈ names
    · rw [if_pos hmem, ih hl, List.filter_cons_of_neg (by simpa using hmem)]
    · rw [if_neg hmem, ih hl, List.filter_cons_of_pos (by simpa using hmem), List.append_assoc]
      refine congrArg (fun rest => names ++ a :: rest) (List.filter_congr ?_)
      intro b hb
      have hne : b ≠ a := fun heq => ha (heq ▸ hb)
      simp [hne]

/-- **What is kept is the first value**, or the one there was. -/
theorem foldl_first (get : σ → Option β) {step : σ → α → σ} {f : α → Option β}
    (hstep : ∀ s a, get (step s a) = (get s).or (f a)) (l : List α) (s : σ) :
    get (l.foldl step s) = (get s).or (l.findSome? f) := by
  induction l generalizing s with
  | nil => simp
  | cons a l ih =>
    rw [List.foldl_cons, ih, hstep, List.findSome?_cons, Option.or_assoc]
    cases f a with
    | none => rfl
    | some b => rfl

/-- **What is kept is the last value**, or the one there was. -/
theorem foldl_last (get : σ → Option β) {step : σ → α → σ} {f : α → Option β}
    (hstep : ∀ s a, get (step s a) = (f a).or (get s)) (l : List α) (s : σ) :
    get (l.foldl step s) = (l.filterMap f).getLast?.or (get s) := by
  induction l generalizing s with
  | nil => rfl
  | cons a l ih =>
    rw [List.foldl_cons, ih, hstep]
    cases hf : f a with
    | none => rw [List.filterMap_cons_none hf, Option.none_or]
    | some b =>
      rw [List.filterMap_cons_some hf, List.getLast?_cons]
      cases (l.filterMap f).getLast? with
      | none => rfl
      | some c => rfl

/-! ### Loops that may fail -/

/-- **A loop that reads and acts** reads everything, and then acts on what it has read. -/
theorem foldlM_read {ε : Type*} (read : α → Except ε β) (act : σ → β → σ) (l : List α) (s : σ) :
    l.foldlM (fun s a => (read a).map (act s)) s = (l.mapM read).map fun bs => bs.foldl act s := by
  induction l generalizing s with
  | nil => rfl
  | cons a l ih =>
    rw [List.foldlM_cons, List.mapM_cons]
    cases read a with
    | error e => rfl
    | ok b =>
      show l.foldlM _ (act s b) = _
      rw [ih]
      show _ = Except.map _ ((l.mapM read).bind fun bs => .ok (b :: bs))
      cases l.mapM read with
      | error e => rfl
      | ok bs => rfl

theorem mapM_eq_ok {ε : Type*} {read : α → Except ε β} {l : List α} {bs : List β} :
    l.mapM read = .ok bs ↔ List.Forall₂ (fun a b => read a = .ok b) l bs := by
  induction l generalizing bs with
  | nil =>
    rw [List.mapM_nil, List.forall₂_nil_left_iff]
    exact ⟨fun h => (Except.ok.inj h).symm, fun h => h ▸ rfl⟩
  | cons a l ih =>
    rw [List.mapM_cons, List.forall₂_cons_left_iff]
    cases hread : read a with
    | error e =>
      constructor
      · intro h
        cases h
      · rintro ⟨b, _, hb, -⟩
        cases hb
    | ok b =>
      show (l.mapM read).bind (fun bs => .ok (b :: bs)) = _ ↔ _
      cases hrest : l.mapM read with
      | error e =>
        constructor
        · intro h
          cases h
        · rintro ⟨_, bs', -, hbs', -⟩
          rw [ih.mpr hbs'] at hrest
          cases hrest
      | ok bs' =>
        constructor
        · intro h
          exact ⟨b, bs', rfl, ih.mp hrest, (Except.ok.inj h).symm⟩
        · rintro ⟨_, bs'', hb, hbs'', rfl⟩
          obtain rfl := Except.ok.inj hb
          obtain rfl := Except.ok.inj (hrest.symm.trans (ih.mpr hbs''))
          rfl

theorem exists_mapM_eq_ok {ε : Type*} {read : α → Except ε β} {l : List α}
    (h : ∀ a ∈ l, ∃ b, read a = .ok b) : ∃ bs, l.mapM read = .ok bs := by
  induction l with
  | nil => exact ⟨[], rfl⟩
  | cons a l ih =>
    obtain ⟨⟨b, hb⟩, hl⟩ := List.forall_mem_cons.mp h
    obtain ⟨bs, hbs⟩ := ih hl
    exact ⟨b :: bs, mapM_eq_ok.mpr (.cons hb (mapM_eq_ok.mp hbs))⟩

theorem mapM_eq_some {read : α → Option β} {l : List α} {bs : List β} :
    l.mapM read = some bs ↔ List.Forall₂ (fun a b => read a = some b) l bs := by
  induction l generalizing bs with
  | nil =>
    rw [List.mapM_nil, List.forall₂_nil_left_iff]
    exact ⟨fun h => (Option.some.inj h).symm, fun h => h ▸ rfl⟩
  | cons a l ih =>
    rw [List.mapM_cons, List.forall₂_cons_left_iff]
    constructor
    · intro h
      obtain ⟨b, hb, h⟩ := Option.bind_eq_some_iff.mp h
      obtain ⟨bs', hbs', h⟩ := Option.bind_eq_some_iff.mp h
      exact ⟨b, bs', hb, ih.mp hbs', (Option.some.inj h).symm⟩
    · rintro ⟨b, bs', hb, hbs', rfl⟩
      exact Option.bind_eq_some_iff.mpr ⟨b, hb, Option.bind_eq_some_iff.mpr ⟨bs', ih.mpr hbs', rfl⟩⟩

theorem exists_of_forall₂ {R : α → β → Prop} {l : List α} {l' : List β} (h : List.Forall₂ R l l')
    {a : α} (ha : a ∈ l) : ∃ b ∈ l', R a b := by
  induction h with
  | nil => cases ha
  | @cons a' b l l' hab _ ih =>
    rcases List.mem_cons.mp ha with rfl | ha
    · exact ⟨b, List.mem_cons_self, hab⟩
    · obtain ⟨b', hb', hab'⟩ := ih ha
      exact ⟨b', List.mem_cons_of_mem _ hb', hab'⟩

theorem exists_of_mem_mapM {read : α → Option β} {l : List α} {bs : List β}
    (h : l.mapM read = some bs) {b : β} (hb : b ∈ bs) : ∃ a ∈ l, read a = some b :=
  exists_of_forall₂ (mapM_eq_some.mp h).flip hb

end Kolas.Lib

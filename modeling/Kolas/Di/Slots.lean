import Kolas.Di.Instances
import Kolas.Lib.Digits

/-!
# Slots of scoped registrations

A singular scoped registration is cached under its own key, a member of a group
under a key made of the group's label and the member's index.

* `memberTag_inj`: the tag of a member determines the label and the index, for
  all labels: the index is what follows the last colon.
* `distinctSlots_iff_apart`: scoped registrations have slots of their own, and no
  call returns what the factory of another one built, if and only if no scoped
  registration is tagged as a scoped member of a group of its type, and no type
  has scoped members with the same index in the default group and in the group
  with the empty name (`SlotsApart`).
-/

namespace Kolas.Di

open Kolas.Lib

variable {τ υ φ : Type}

/-! ### Tags of members -/

/-- What stands before and after the last `a` of a list. -/
theorem append_cons_inj_of_last {α : Type*} {l l' d d' : List α} {a : α}
    (h : l ++ a :: d = l' ++ a :: d') (hd : a ∉ d) (hd' : a ∉ d') : l = l' ∧ d = d' := by
  rcases List.append_eq_append_iff.mp h with ⟨m, hl, hm⟩ | ⟨m, hl, hm⟩
  · cases m with
    | nil =>
      rw [List.append_nil] at hl
      exact ⟨hl.symm, (List.cons.inj hm).2⟩
    | cons b m =>
      refine absurd ?_ hd
      rw [(List.cons.inj hm).2]
      exact List.mem_append_right m List.mem_cons_self
  · cases m with
    | nil =>
      rw [List.append_nil] at hl
      exact ⟨hl, (List.cons.inj hm).2.symm⟩
    | cons b m =>
      refine absurd ?_ hd'
      rw [(List.cons.inj hm).2]
      exact List.mem_append_right m List.mem_cons_self

/-- **The tag of a member determines its group's label and its index.** -/
theorem memberTag_inj {group group' : Option String} {index index' : Nat}
    (h : memberTag group index = memberTag group' index') :
    group.getD "" = group'.getD "" ∧ index = index' := by
  unfold memberTag at h
  have hlist := congrArg String.toList h
  simp only [String.toList_append, List.append_assoc] at hlist
  have htail := List.append_cancel_left hlist
  obtain ⟨hlabel, hindex⟩ := append_cons_inj_of_last htail (not_mem_toString rfl)
    (not_mem_toString rfl)
  exact ⟨String.toList_inj.mp hlabel, toString_toList_inj hindex⟩

/-! ### Slots -/

section

variable [DecidableEq τ] [TypeName τ]

/-- Scoped registrations have slots of their own, and values of their own. -/
structure DistinctSlots (C : Container τ υ φ) : Prop where
  /-- No two scoped registrations are cached under one key. -/
  slots : ∀ (r r' : EntryRef τ) (f f' : φ), C.entryOf r = some (.scoped f) →
    C.entryOf r' = some (.scoped f') → r.slotKey = r'.slotKey → r = r'
  /-- What a call returns for a scoped registration was built by its factory. -/
  values : ∀ (resolves : φ → Node τ → Bool) (s : State τ υ),
    Reach (step C resolves) (State.start τ υ) s →
      ∀ (call : Call τ υ) (r : EntryRef τ) (f : φ) (n : Nat) (run : FactoryRun τ),
        C.entryOf r = some (.scoped f) → Returned s call r (.built n) →
          s.runs[n]? = some run → run.ref = r

end

structure SlotsApart (C : Container τ υ φ) : Prop where
  /-- No scoped registration is tagged as a scoped member of its type. -/
  tags : ∀ (typeId : τ) (tag : String) (group : Option String) (index : Nat) (f g : φ),
    C.entryOf (.single ⟨typeId, some tag⟩) = some (.scoped f) →
      C.entryOf (.member ⟨typeId, group⟩ index) = some (.scoped g) → tag ≠ memberTag group index
  /-- The default group and the group with the empty name have no scoped member of
  one type with one index. -/
  groups : ∀ (typeId : τ) (index : Nat) (f g : φ),
    C.entryOf (.member ⟨typeId, none⟩ index) = some (.scoped f) →
      C.entryOf (.member ⟨typeId, some ""⟩ index) ≠ some (.scoped g)

variable {C : Container τ υ φ}

/-- Labels are equal only for equal groups, and for the default group and the
group with the empty name. -/
theorem group_of_label {group group' : Option String} (h : group.getD "" = group'.getD "") :
    group = group' ∨ group = none ∧ group' = some "" ∨ group = some "" ∧ group' = none := by
  cases group with
  | none =>
    cases group' with
    | none => exact .inl rfl
    | some label =>
      obtain rfl : "" = label := h
      exact .inr (.inl ⟨rfl, rfl⟩)
  | some label =>
    cases group' with
    | none =>
      obtain rfl : label = "" := h
      exact .inr (.inr ⟨rfl, rfl⟩)
    | some label' => exact .inl (congrArg some h)

theorem SlotsApart.not_tagged (h : SlotsApart C) {key key' : ServiceKey τ} {index : Nat} {f g : φ}
    (hr : C.entryOf (.single key) = some (.scoped f))
    (hr' : C.entryOf (.member key' index) = some (.scoped g)) :
    (EntryRef.single key).slotKey ≠ (EntryRef.member key' index).slotKey := by
  intro hkey
  obtain rfl : key = ⟨key'.typeId, some (memberTag key'.tag index)⟩ := hkey
  exact h.tags _ _ _ _ f g hr hr' rfl

theorem SlotsApart.slotKey_inj (h : SlotsApart C) {r r' : EntryRef τ} {f f' : φ}
    (hr : C.entryOf r = some (.scoped f)) (hr' : C.entryOf r' = some (.scoped f'))
    (hkey : r.slotKey = r'.slotKey) : r = r' := by
  cases r with
  | single key =>
    cases r' with
    | single key' => exact congrArg EntryRef.single hkey
    | member key' index' => exact absurd hkey (h.not_tagged hr hr')
  | member key index =>
    cases r' with
    | single key' => exact absurd hkey.symm (h.not_tagged hr' hr)
    | member key' index' =>
      obtain ⟨typeId, group⟩ := key
      obtain ⟨typeId', group'⟩ := key'
      simp only [EntryRef.slotKey, ServiceKey.mk.injEq, Option.some.injEq] at hkey
      obtain ⟨rfl, htag⟩ := hkey
      obtain ⟨hlabel, rfl⟩ := memberTag_inj htag
      rcases group_of_label hlabel with rfl | ⟨rfl, rfl⟩ | ⟨rfl, rfl⟩
      · rfl
      · exact absurd hr' (h.groups _ _ f f' hr)
      · exact absurd hr (h.groups _ _ f' f hr')

/-- What is in the slot of a registration was built by the factory of a
registration with the same key. -/
theorem Sound.slotKey_of_returned {s : State τ υ} (hs : Sound C s) {call : Call τ υ}
    {r : EntryRef τ} {f : φ} {n : Nat} {run : FactoryRun τ} (hr : C.entryOf r = some (.scoped f))
    (h : Returned s call r (.built n)) (hn : s.runs[n]? = some run) :
    run.ref.slotKey = r.slotKey ∧ ∃ g, C.entryOf run.ref = some (.scoped g) := by
  obtain ⟨x, m, hx, hset, hm⟩ := (hs.returned h).inCell (.inr hr)
  obtain rfl := Inst.built.inj hm
  obtain ⟨run', hn', -, hfor⟩ := hs.kept_run hset
  obtain rfl := Option.some.inj (hn.symm.trans hn')
  obtain ⟨sc, k, -, hk, rfl⟩ := hx.eq_slot hr
  cases hfor with
  | slot he hsc hk' => exact ⟨(hs.owned _ _ _ _ _ hk' hk).2, _, he⟩

variable [DecidableEq τ] [TypeName τ]

theorem DistinctSlots.apart (h : DistinctSlots C) : SlotsApart C where
  tags typeId tag group index f g hr hr' htag := by
    have heq := h.slots _ _ f g hr hr' (by rw [htag]; rfl)
    cases heq
  groups typeId index f g hr hr' := by
    have heq := h.slots _ _ f g hr hr' rfl
    cases heq

/-- **Scoped registrations are kept apart exactly when their tags and groups are**,
for every sequence of calls of the builder. -/
theorem distinctSlots_iff_apart (calls : List (BuilderCall τ υ φ)) :
    DistinctSlots (containerOf calls) ↔ SlotsApart (containerOf calls) := by
  refine ⟨DistinctSlots.apart, fun h => ⟨fun r r' f f' => h.slotKey_inj, ?_⟩⟩
  intro resolves s hreach call r f n run hr hret hn
  obtain ⟨hkey, g, hg⟩ := (sound_of_reach hreach).slotKey_of_returned hr hret hn
  exact h.slotKey_inj hg hr hkey

/-- A handler in the default group, and another in the group with the empty name. -/
def handlerCalls : List (BuilderCall String Unit Bool) :=
  [.multibindScoped "Handler" false, .multibindScopedGroup "Handler" "" true]

/-- One request resolves both groups. -/
def handlerRun : List (Action String) :=
  [.call (.group ⟨"Handler", none⟩) (some 0), .poll 0, .poll 0, .poll 0, .poll 0, .finish 0 (.ok ()),
    .call (.group ⟨"Handler", some ""⟩) (some 0), .poll 1, .poll 1, .poll 1]

/-- The group with the empty name gives the request what the factory of the
default group built. -/
theorem not_distinctSlots_handlers : ¬ DistinctSlots (containerOf handlerCalls) := by
  intro h
  have hrun : (run (step (containerOf handlerCalls) fun _ _ => false) (State.start String Unit)
      handlerRun).map (fun s => (s.runs, s.calls[1]?)) =
      some ([⟨0, .member ⟨"Handler", none⟩ 0, some 0, some (.slot 0), .ok⟩],
        some ⟨.group ⟨"Handler", some ""⟩, none, some 0, [], [.built 0],
          .done (.ok [.built 0])⟩) := rfl
  obtain ⟨s, hs, hout⟩ := Option.map_eq_some_iff.mp hrun
  obtain ⟨hruns, hcall⟩ := Prod.mk.inj hout
  have href := h.values _ s (reach_of_run hs) _ (.member ⟨"Handler", some ""⟩ 0) true 0 _ rfl
    ⟨List.mem_of_getElem? hcall, 0, _, rfl, rfl, rfl⟩ (by rw [hruns]; rfl)
  cases href

end Kolas.Di

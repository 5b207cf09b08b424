import Kolas.Di.Deadlock
import Kolas.Di.Frozen
import Kolas.Di.Slots

/-!
# Resolving in one task

`di/container.rs` and `Scope::resolve_for` as functions, for calls that no other
call runs beside.  A factory's run is a `Behaviour`: it makes finitely many calls,
one after another, and may react to their results in any way.  What factories do
depends on the run, by its number.

Calls nest as deep as factories make calls.  `build` has a depth: so many runs may
be under way at once, and one more is `tooDeep`.  To come to a `OnceCell` in its own
initialiser is `reentered`: there `get_or_try_init` would wait for itself.

`ends_of_plainTags`: neither happens.  Every call returns, on cyclic dependencies
too, if as many runs may nest as there are keys registered; the keys of
`RESOLVING_STACK` are pairwise distinct all along.
-/

namespace Kolas.Di

open Kolas.Lib

variable {τ υ φ α β : Type}

/-! ### The cells -/

/-- A `OnceCell`: of a singleton, or in the slot of a key in a scope.  A slot that is
not in the scope's cache yet is an empty cell. -/
inductive Place (τ : Type)
  | cell (r : EntryRef τ)
  | slot (scope : Nat) (key : ServiceKey τ)
  deriving DecidableEq, Repr

inductive Once
  | empty
  | initialising
  | set (run : Nat)
  deriving DecidableEq, Repr

/-- A run of a factory, with the keys of `RESOLVING_STACK` in it. -/
structure Visit (τ : Type) where
  ref : EntryRef τ
  keys : List (ServiceKey τ)
  deriving DecidableEq, Repr

/-- `chains` are the values that `RESOLVING_STACK` was bound to. -/
structure Store (τ : Type) where
  cells : Place τ → Once
  visits : List (Visit τ)
  chains : List (List (ServiceKey τ))

def Store.empty (τ : Type) : Store τ := ⟨fun _ => .empty, [], []⟩

def Store.setCell [DecidableEq τ] (s : Store τ) (x : Place τ) (cell : Once) : Store τ :=
  { s with cells := Function.update s.cells x cell }

@[simp] theorem Store.setCell_cells [DecidableEq τ] (s : Store τ) (x : Place τ) (cell : Once) :
    (s.setCell x cell).cells = Function.update s.cells x cell := rfl

/-- How a call ends, if it does. -/
inductive Ends (τ α : Type)
  | returned (result : Except DiError α) (s : Store τ)
  | reentered (x : Place τ)
  | tooDeep

/-- On with the result. -/
def Ends.after (e : Ends τ α) (next : Except DiError α → Store τ → Ends τ β) : Ends τ β :=
  match e with
  | .returned result s => next result s
  | .reentered x => .reentered x
  | .tooDeep => .tooDeep

/-- On with the value; an error is returned at once. -/
def Ends.andThen (e : Ends τ α) (next : α → Store τ → Ends τ β) : Ends τ β :=
  e.after fun result s =>
    match result with
    | .ok a => next a s
    | .error err => .returned (.error err) s

def Ends.map (f : α → β) (e : Ends τ α) : Ends τ β :=
  e.andThen fun a s => .returned (.ok (f a)) s

/-! ### Factories -/

/-- What a run of a factory does. -/
inductive Behaviour (τ υ : Type)
  | ret (result : Except DiError Unit)
  | resolve (node : Node τ) (react : Except DiError (List (Inst υ)) → Behaviour τ υ)

/-- A run, its calls being resolved by `call`. -/
def Behaviour.run (call : Node τ → Store τ → Ends τ (List (Inst υ))) :
    Behaviour τ υ → Store τ → Ends τ Unit
  | .ret result, s => .returned result s
  | .resolve node react, s => (call node s).after fun result t => (react result).run call t

section

variable [DecidableEq τ] [TypeName τ]

/-! ### Resolution -/

/-- What `get_or_try_init` leaves in the cell. -/
def leftInCell : Except DiError Nat → Once
  | .ok run => .set run
  | .error _ => .empty

/-- `OnceCell::get_or_try_init`. -/
def getOrTryInit (x : Place τ) (init : Store τ → Ends τ Nat) (s : Store τ) : Ends τ Nat :=
  match s.cells x with
  | .set run => .returned (.ok run) s
  | .initialising => .reentered x
  | .empty => (init (s.setCell x .initialising)).after fun result t =>
      .returned result (t.setCell x (leftInCell result))

/-- `resolve_entry` of the registration `r`, and `Scope::resolve_for` under its key. -/
def resolveEntry (build : EntryRef τ → φ → Store τ → Ends τ Nat) (scope : Option Nat)
    (r : EntryRef τ) (entry : Entry υ φ) (s : Store τ) : Ends τ (Inst υ) :=
  match entry with
  | .value v => .returned (.ok (.given v)) s
  | .singleton factory => (getOrTryInit (.cell r) (build r factory) s).map .built
  | .transient factory => (build r factory s).map .built
  | .scoped factory =>
    match scope with
    | none => .returned (.error (.scopeNotActive (TypeName.typeName r.key.typeId))) s
    | some scope => (getOrTryInit (.slot scope r.slotKey) (build r factory) s).map .built

/-- The loop of `resolve_group` over the members from `index` on. -/
def resolveMembers (build : EntryRef τ → φ → Store τ → Ends τ Nat) (scope : Option Nat)
    (key : ServiceKey τ) : Nat → List (Entry υ φ) → Store τ → Ends τ (List (Inst υ))
  | _, [], s => .returned (.ok []) s
  | index, entry :: entries, s =>
    (resolveEntry build scope (.member key index) entry s).andThen fun inst t =>
      (resolveMembers build scope key (index + 1) entries t).map (inst :: ·)

/-- `RESOLVING_STACK.scope(chain, ..)`. -/
def Store.enter (s : Store τ) (chain : List (ServiceKey τ × String)) : Store τ :=
  { s with chains := s.chains ++ [chain.map Prod.fst] }

/-- `resolve_with_tag`, and `resolve_group`.  `build chain` builds with
`RESOLVING_STACK` bound to `chain`. -/
def resolveNode (C : Container τ υ φ)
    (build : List (ServiceKey τ × String) → EntryRef τ → φ → Store τ → Ends τ Nat)
    (scope : Option Nat) (ancestors : List (ServiceKey τ × String)) (node : Node τ) (s : Store τ) :
    Ends τ (List (Inst υ)) :=
  let typeName := TypeName.typeName node.key.typeId
  match node with
  | .single key =>
    match cycleThrough ancestors key typeName with
    | some cycle => .returned (.error (.circularDependency typeName cycle)) s
    | none =>
      let chain := ancestors ++ [(key, typeName)]
      match C.entries key with
      | none => .returned (.error (.notRegistered typeName key.tag)) (s.enter chain)
      | some entry => (resolveEntry (build chain) scope (.single key) entry (s.enter chain)).map ([·])
  | .group key =>
    match C.groups key with
    | none => .returned (.ok []) s
    | some members =>
      match cycleThrough ancestors key typeName with
      | some cycle => .returned (.error (.circularDependency typeName cycle)) s
      | none =>
        let chain := ancestors ++ [(key, typeName)]
        resolveMembers (build chain) scope key 0 members (s.enter chain)

/-- A run of the factory of `r`, with at most `depth` runs at once. -/
def build (C : Container τ υ φ) (behave : φ → Nat → Behaviour τ υ) (scope : Option Nat) :
    Nat → List (ServiceKey τ × String) → EntryRef τ → φ → Store τ → Ends τ Nat
  | 0, _, _, _, _ => .tooDeep
  | depth + 1, chain, r, factory, s =>
    ((behave factory s.visits.length).run (resolveNode C (build C behave scope depth) scope chain)
      { s with visits := s.visits ++ [⟨r, chain.map Prod.fst⟩] }).map fun _ => s.visits.length

/-- A call made outside of any factory. -/
def resolve (C : Container τ υ φ) (behave : φ → Nat → Behaviour τ υ) (depth : Nat)
    (scope : Option Nat) (node : Node τ) (s : Store τ) : Ends τ (List (Inst υ)) :=
  resolveNode C (build C behave scope depth) scope [] node s

end

/-! ### What a call leaves -/

/-- `t` is what a call leaves of `s`: the cells that are being initialised are the
same, and the chains of keys are as they should be, at each call and each run. -/
structure Follows (keys : List (ServiceKey τ)) (s t : Store τ) : Prop where
  initialising : ∀ x, t.cells x = .initialising ↔ s.cells x = .initialising
  /-- The keys on the way to a call are pairwise distinct. -/
  chains : ∃ chains, t.chains = s.chains ++ chains ∧ ∀ chain ∈ chains, chain.Nodup
  /-- Those on the way to a run of a factory are registered, too. -/
  visits : ∃ visits, t.visits = s.visits ++ visits ∧
    ∀ visit ∈ visits, visit.keys.Nodup ∧ visit.keys ⊆ keys ∧ visit.keys.length ≤ keys.length

/-- The call returns, and leaves what it should. -/
def Settles (keys : List (ServiceKey τ)) (s : Store τ) (e : Ends τ α) : Prop :=
  ∃ result t, e = .returned result t ∧ Follows keys s t

section

variable {keys : List (ServiceKey τ)} {s t u : Store τ}

theorem Follows.refl (keys : List (ServiceKey τ)) (s : Store τ) : Follows keys s s where
  initialising _ := Iff.rfl
  chains := ⟨[], (List.append_nil _).symm, nofun⟩
  visits := ⟨[], (List.append_nil _).symm, nofun⟩

theorem Follows.trans (h : Follows keys s t) (g : Follows keys t u) : Follows keys s u where
  initialising x := (g.initialising x).trans (h.initialising x)
  chains := by
    obtain ⟨chains, hchains, hnodup⟩ := h.chains
    obtain ⟨chains', hchains', hnodup'⟩ := g.chains
    refine ⟨chains ++ chains', by rw [hchains', hchains, List.append_assoc], ?_⟩
    intro chain hmem
    rcases List.mem_append.mp hmem with hmem | hmem
    · exact hnodup chain hmem
    · exact hnodup' chain hmem
  visits := by
    obtain ⟨visits, hvisits, hok⟩ := h.visits
    obtain ⟨visits', hvisits', hok'⟩ := g.visits
    refine ⟨visits ++ visits', by rw [hvisits', hvisits, List.append_assoc], ?_⟩
    intro visit hmem
    rcases List.mem_append.mp hmem with hmem | hmem
    · exact hok visit hmem
    · exact hok' visit hmem

theorem Follows.enter {chain : List (ServiceKey τ × String)} (h : (chain.map Prod.fst).Nodup) :
    Follows keys s (s.enter chain) where
  initialising _ := Iff.rfl
  chains := ⟨_, rfl, fun _ hmem => List.mem_singleton.mp hmem ▸ h⟩
  visits := ⟨[], (List.append_nil _).symm, nofun⟩

theorem Follows.visit {visit : Visit τ} (hnodup : visit.keys.Nodup) (hkeys : visit.keys ⊆ keys) :
    Follows keys s { s with visits := s.visits ++ [visit] } where
  initialising _ := Iff.rfl
  chains := ⟨[], (List.append_nil _).symm, nofun⟩
  visits := by
    refine ⟨[visit], rfl, fun v hmem => ?_⟩
    obtain rfl := List.mem_singleton.mp hmem
    exact ⟨hnodup, hkeys, (hnodup.subperm hkeys).length_le⟩

theorem Settles.returned {result : Except DiError α} : Settles keys s (.returned result s) :=
  ⟨result, s, rfl, .refl keys s⟩

theorem Settles.of_follows {e : Ends τ α} (h : Follows keys s t) (g : Settles keys t e) :
    Settles keys s e := by
  obtain ⟨result, u, he, hu⟩ := g
  exact ⟨result, u, he, h.trans hu⟩

theorem Settles.after {e : Ends τ α} {next : Except DiError α → Store τ → Ends τ β}
    (h : Settles keys s e)
    (hnext : ∀ result t, Follows keys s t → Settles keys t (next result t)) :
    Settles keys s (e.after next) := by
  obtain ⟨result, t, rfl, ht⟩ := h
  exact .of_follows ht (hnext result t ht)

theorem Settles.andThen {e : Ends τ α} {next : α → Store τ → Ends τ β} (h : Settles keys s e)
    (hnext : ∀ a t, Follows keys s t → Settles keys t (next a t)) :
    Settles keys s (e.andThen next) := by
  refine h.after fun result t ht => ?_
  cases result with
  | ok a => exact hnext a t ht
  | error err => exact .returned

theorem Settles.map {e : Ends τ α} {f : α → β} (h : Settles keys s e) :
    Settles keys s (e.map f) :=
  h.andThen fun _ _ _ => .returned

variable [DecidableEq τ]

/-- A cell that is not being initialised comes to have a value or to be empty again. -/
theorem Settles.getOrTryInit {x : Place τ} {init : Store τ → Ends τ Nat}
    (hx : s.cells x ≠ .initialising)
    (hinit : Settles keys (s.setCell x .initialising) (init (s.setCell x .initialising))) :
    Settles keys s (getOrTryInit x init s) := by
  unfold Kolas.Di.getOrTryInit
  cases hcell : s.cells x with
  | set run => exact .returned
  | initialising => exact absurd hcell hx
  | empty =>
    obtain ⟨result, t, he, ht⟩ := hinit
    refine ⟨result, t.setCell x (leftInCell result), by rw [he]; rfl, ?_, ht.chains, ht.visits⟩
    intro y
    by_cases hy : y = x
    · subst hy
      simp only [Store.setCell_cells, Function.update_self, hcell, reduceCtorEq, iff_false]
      cases result <;> exact nofun
    · have hold := ht.initialising y
      simp only [Store.setCell_cells, Function.update_of_ne hy] at hold ⊢
      exact hold

end

/-! ### The cells that are being initialised -/

/-- `x` is a cell of the registration. -/
inductive PlaceOf (C : Container τ υ φ) (r : EntryRef τ) : Place τ → Prop
  | cell {f : φ} (he : C.entryOf r = some (.singleton f)) : PlaceOf C r (.cell r)
  | slot {f : φ} {scope : Nat} (he : C.entryOf r = some (.scoped f)) :
      PlaceOf C r (.slot scope r.slotKey)

/-- The cells that are being initialised are those of registrations on the chain. -/
def OnChain (C : Container τ υ φ) (chain : List (ServiceKey τ)) (s : Store τ) : Prop :=
  ∀ x, s.cells x = .initialising → ∃ r, PlaceOf C r x ∧ r.key ∈ chain

section

variable {C : Container τ υ φ} {keys chain : List (ServiceKey τ)} {s t : Store τ}
  {r r' : EntryRef τ} {x : Place τ}

theorem PlaceOf.unique (hslots : SlotsApart C) (h : PlaceOf C r x) (h' : PlaceOf C r' x) :
    r = r' := by
  cases h with
  | cell he =>
    cases h' with
    | cell he' => rfl
  | slot he =>
    generalize hkey : r.slotKey = key at h'
    cases h' with
    | slot he' => exact hslots.slotKey_inj he he' hkey

theorem OnChain.follows (h : OnChain C chain s) (g : Follows keys s t) : OnChain C chain t :=
  fun x hx => h x ((g.initialising x).mp hx)

theorem OnChain.mono {chain' : List (ServiceKey τ)} (h : OnChain C chain s)
    (hsub : chain ⊆ chain') : OnChain C chain' s := by
  intro x hx
  obtain ⟨r, hr, hmem⟩ := h x hx
  exact ⟨r, hr, hsub hmem⟩

/-- **No cell of a registration that is not on the chain is being initialised.** -/
theorem OnChain.not_initialising (hslots : SlotsApart C) (h : OnChain C chain s)
    (hx : PlaceOf C r x) (hkey : r.key ∉ chain) : s.cells x ≠ .initialising := by
  intro hcell
  obtain ⟨r', hr', hmem⟩ := h x hcell
  rw [hr'.unique hslots hx] at hmem
  exact hkey hmem

variable [DecidableEq τ]

theorem OnChain.setCell (h : OnChain C chain s) (hx : PlaceOf C r x) (hkey : r.key ∈ chain) :
    OnChain C chain (s.setCell x .initialising) := by
  intro y hy
  by_cases hyx : y = x
  · subst hyx
    exact ⟨r, hx, hkey⟩
  · simp only [Store.setCell_cells, Function.update_of_ne hyx] at hy
    exact h y hy

/-! ### Calls return -/

/-- `build` returns for the registrations of a key once it is on the chain. -/
def Builds (C : Container τ υ φ) (keys chain : List (ServiceKey τ)) (key : ServiceKey τ)
    (build : EntryRef τ → φ → Store τ → Ends τ Nat) : Prop :=
  ∀ r f s, r.key = key → OnChain C (chain ++ [key]) s → Settles keys s (build r f s)

theorem Settles.getOrTryInit_onChain {build : EntryRef τ → φ → Store τ → Ends τ Nat} {f : φ}
    (hslots : SlotsApart C) (hbuild : Builds C keys chain r.key build) (hs : OnChain C chain s)
    (hkey : r.key ∉ chain) (hx : PlaceOf C r x) :
    Settles keys s (Kolas.Di.getOrTryInit x (build r f) s) := by
  refine .getOrTryInit (hs.not_initialising hslots hx hkey) (hbuild r f _ rfl ?_)
  exact (hs.mono (List.subset_append_left _ _)).setCell hx
    (List.mem_append_right _ List.mem_cons_self)

variable [TypeName τ]

/-- **`resolve_entry` returns** for a registration whose key is new to the chain. -/
theorem resolveEntry_settles {build : EntryRef τ → φ → Store τ → Ends τ Nat}
    {scope : Option Nat} {entry : Entry υ φ} (hslots : SlotsApart C)
    (hbuild : Builds C keys chain r.key build) (hentry : C.entryOf r = some entry)
    (hs : OnChain C chain s) (hkey : r.key ∉ chain) :
    Settles keys s (resolveEntry build scope r entry s) := by
  cases entry with
  | value v => exact .returned
  | singleton f => exact (Settles.getOrTryInit_onChain hslots hbuild hs hkey (.cell hentry)).map
  | transient f => exact (hbuild r f s rfl (hs.mono (List.subset_append_left _ _))).map
  | «scoped» f =>
    cases scope with
    | none => exact .returned
    | some scope =>
      exact (Settles.getOrTryInit_onChain hslots hbuild hs hkey (.slot hentry)).map

theorem resolveMembers_settles {build : EntryRef τ → φ → Store τ → Ends τ Nat}
    {scope : Option Nat} {key : ServiceKey τ} {index : Nat} {entries : List (Entry υ φ)}
    (hslots : SlotsApart C) (hbuild : Builds C keys chain key build)
    (hentry : ∀ i entry, entries[i]? = some entry →
      C.entryOf (.member key (index + i)) = some entry)
    (hs : OnChain C chain s) (hkey : key ∉ chain) :
    Settles keys s (resolveMembers build scope key index entries s) := by
  induction entries generalizing index s with
  | nil => exact .returned
  | cons entry entries ih =>
    refine (resolveEntry_settles hslots hbuild (hentry 0 entry rfl) hs hkey).andThen ?_
    intro inst t ht
    refine (ih (fun i e he => ?_) (hs.follows ht)).map
    rw [Nat.add_assoc, Nat.add_comm 1 i]
    exact hentry (i + 1) e he

omit [DecidableEq τ] [TypeName τ] in
/-- The run of a factory returns if its calls do: by induction on what it does. -/
theorem Behaviour.settles {call : Node τ → Store τ → Ends τ (List (Inst υ))}
    (hcall : ∀ node t, OnChain C chain t → Settles keys t (call node t)) (b : Behaviour τ υ)
    (hs : OnChain C chain s) : Settles keys s (b.run call s) := by
  induction b generalizing s with
  | ret result => exact .returned
  | resolve node react ih =>
    exact (hcall node s hs).after fun result t ht => ih result (hs.follows ht)

/-- Every key with a registration, or with a group, is one of `keys`. -/
def RegisteredIn (C : Container τ υ φ) (keys : List (ServiceKey τ)) : Prop :=
  ∀ key, (C.entries key).isSome ∨ (C.groups key).isSome → key ∈ keys

omit [TypeName τ] in
theorem cycleThrough_eq_none {ancestors : List (ServiceKey τ × String)} {key : ServiceKey τ}
    {typeName : String} (h : cycleThrough ancestors key typeName = none) :
    key ∉ ancestors.map Prod.fst := by
  intro hmem
  obtain ⟨cycle, hsome⟩ := cycleThrough_of_mem hmem typeName
  rw [h] at hsome
  cases hsome

omit [DecidableEq τ] [TypeName τ] in
theorem nodup_push {ancestors : List (ServiceKey τ × String)} {key : ServiceKey τ}
    {typeName : String} (h : (ancestors.map Prod.fst).Nodup) (hkey : key ∉ ancestors.map Prod.fst) :
    ((ancestors ++ [(key, typeName)]).map Prod.fst).Nodup := by
  rw [List.map_append, List.nodup_append_comm]
  exact List.nodup_cons.mpr ⟨hkey, h⟩

/-- **A call returns**: it reports a cycle, or its key is new to the chain. -/
theorem resolveNode_settles
    {build : List (ServiceKey τ × String) → EntryRef τ → φ → Store τ → Ends τ Nat}
    {scope : Option Nat} {ancestors : List (ServiceKey τ × String)} {node : Node τ}
    (hslots : SlotsApart C) (hreg : RegisteredIn C keys) (hnodup : (ancestors.map Prod.fst).Nodup)
    (hbuild : ∀ key typeName, key ∈ keys → key ∉ ancestors.map Prod.fst →
      Builds C keys (ancestors.map Prod.fst) key (build (ancestors ++ [(key, typeName)])))
    (hs : OnChain C (ancestors.map Prod.fst) s) :
    Settles keys s (resolveNode C build scope ancestors node s) := by
  cases node with
  | single key =>
    simp only [resolveNode, Node.key]
    split
    · exact .returned
    · rename_i hcycle
      have hkey := cycleThrough_eq_none hcycle
      have henter : Follows keys s (s.enter (ancestors ++ [(key, TypeName.typeName key.typeId)])) :=
        .enter (nodup_push hnodup hkey)
      split
      · exact .of_follows henter .returned
      · rename_i entry hentry
        have hmem : key ∈ keys := hreg key (.inl (Option.isSome_of_eq_some hentry))
        exact .of_follows henter (resolveEntry_settles (r := .single key) hslots
          (hbuild key _ hmem hkey) hentry (hs.follows henter) hkey).map
  | group key =>
    simp only [resolveNode, Node.key]
    split
    · exact .returned
    · rename_i members hgroup
      split
      · exact .returned
      · rename_i hcycle
        have hkey := cycleThrough_eq_none hcycle
        have henter : Follows keys s
            (s.enter (ancestors ++ [(key, TypeName.typeName key.typeId)])) :=
          .enter (nodup_push hnodup hkey)
        have hmem : key ∈ keys := hreg key (.inr (Option.isSome_of_eq_some hgroup))
        refine .of_follows henter (resolveMembers_settles hslots (hbuild key _ hmem hkey) ?_
          (hs.follows henter) hkey)
        intro i entry hi
        rw [Container.entryOf, hgroup, Nat.zero_add]
        exact hi

/-- **Every call returns, at any place of a chain**, if as many runs may still nest as
there are keys that are not on the chain.  The induction is on that number: a run puts
a key on the chain. -/
theorem resolveNode_build_settles {behave : φ → Nat → Behaviour τ υ} {scope : Option Nat}
    (hslots : SlotsApart C) (hreg : RegisteredIn C keys) (depth : Nat)
    {ancestors : List (ServiceKey τ × String)} {node : Node τ}
    (hnodup : (ancestors.map Prod.fst).Nodup) (hsub : ancestors.map Prod.fst ⊆ keys)
    (hdepth : keys.length ≤ ancestors.length + depth)
    (hs : OnChain C (ancestors.map Prod.fst) s) :
    Settles keys s (resolveNode C (build C behave scope depth) scope ancestors node s) := by
  induction depth generalizing ancestors node s with
  | zero =>
    refine resolveNode_settles hslots hreg hnodup (fun key typeName hmem hkey => ?_) hs
    -- no key is left
    have hle : (ancestors.map Prod.fst ++ [key]).length ≤ keys.length := by
      refine (List.Nodup.subperm ?_ ?_).length_le
      · exact List.nodup_append_comm.mpr (List.nodup_cons.mpr ⟨hkey, hnodup⟩)
      · exact List.append_subset.mpr ⟨hsub, List.cons_subset.mpr ⟨hmem, List.nil_subset _⟩⟩
    rw [List.length_append, List.length_map, List.length_singleton] at hle
    omega
  | succ depth ih =>
    refine resolveNode_settles hslots hreg hnodup (fun key typeName hmem hkey => ?_) hs
    intro r f t _ ht
    have hchain : (ancestors ++ [(key, typeName)]).map Prod.fst = ancestors.map Prod.fst ++ [key] :=
      List.map_append
    have hnodup' : ((ancestors ++ [(key, typeName)]).map Prod.fst).Nodup := nodup_push hnodup hkey
    have hsub' : (ancestors ++ [(key, typeName)]).map Prod.fst ⊆ keys := by
      rw [hchain]
      exact List.append_subset.mpr ⟨hsub, List.cons_subset.mpr ⟨hmem, List.nil_subset _⟩⟩
    have hvisit : Follows keys t { t with visits := t.visits ++
        [⟨r, (ancestors ++ [(key, typeName)]).map Prod.fst⟩] } := .visit hnodup' hsub'
    rw [← hchain] at ht
    refine .of_follows hvisit (Behaviour.settles (fun node u hu => ?_) _ (ht.follows hvisit)).map
    refine ih hnodup' hsub' ?_ hu
    rw [List.length_append, List.length_singleton]
    omega

/-! ### Containers with plain tags -/

/-- The distinct keys of the registrations. -/
def registeredKeys (calls : List (BuilderCall τ υ φ)) : List (ServiceKey τ) :=
  (calls.map fun call => call.registration.key).dedup

/-- Tags and groups are not empty, and none looks like that of a member. -/
def PlainTags (calls : List (BuilderCall τ υ φ)) : Prop :=
  ∀ call ∈ calls, ∀ tag, call.registration.key.tag = some tag →
    tag ≠ "" ∧ ¬ "__multibind:".toList <+: tag.toList

variable {calls : List (BuilderCall τ υ φ)}

omit [TypeName τ] in
theorem exists_call_of_mem_registered {kind : Kind} {key : ServiceKey τ} {e : Entry υ φ}
    (h : e ∈ registered kind key calls) : ∃ call ∈ calls, call.registration.key = key := by
  obtain ⟨call, hmem, -⟩ := List.mem_map.mp h
  obtain ⟨hcall, hkey⟩ := List.mem_filter.mp hmem
  exact ⟨call, hcall, (of_decide_eq_true hkey).2⟩

omit [TypeName τ] in
theorem exists_call_of_entries {key : ServiceKey τ} {e : Entry υ φ}
    (h : (containerOf calls).entries key = some e) :
    ∃ call ∈ calls, call.registration.key = key := by
  rw [entries_containerOf] at h
  exact exists_call_of_mem_registered (List.mem_of_getLast? h)

omit [TypeName τ] in
theorem exists_call_of_groups {key : ServiceKey τ} {members : List (Entry υ φ)}
    (h : (containerOf calls).groups key = some members) :
    ∃ call ∈ calls, call.registration.key = key := by
  rw [groups_containerOf] at h
  split at h
  · cases h
  · rename_i hne
    obtain ⟨e, he⟩ := List.exists_mem_of_ne_nil _ hne
    exact exists_call_of_mem_registered he

omit [TypeName τ] in
theorem registeredIn_containerOf (calls : List (BuilderCall τ υ φ)) :
    RegisteredIn (containerOf calls) (registeredKeys calls) := by
  intro key h
  obtain ⟨call, hcall, rfl⟩ : ∃ call ∈ calls, call.registration.key = key := by
    rcases h with h | h
    · obtain ⟨e, he⟩ := Option.isSome_iff_exists.mp h
      exact exists_call_of_entries he
    · obtain ⟨members, hmembers⟩ := Option.isSome_iff_exists.mp h
      exact exists_call_of_groups hmembers
  exact List.mem_dedup.mpr (List.mem_map_of_mem hcall)

omit [TypeName τ] in
/-- **Plain tags keep the slots of scoped registrations apart.** -/
theorem PlainTags.slotsApart (h : PlainTags calls) : SlotsApart (containerOf calls) where
  tags typeId tag group index f g hsingle _ := by
    rintro rfl
    obtain ⟨call, hcall, hkey⟩ := exists_call_of_entries hsingle
    refine (h call hcall _ (congrArg ServiceKey.tag hkey)).2 ?_
    rw [memberTag, String.append_assoc, String.append_assoc, String.toList_append]
    exact List.prefix_append _ _
  groups typeId index f g _ hgroup := by
    obtain ⟨members, hmembers, -⟩ := Option.bind_eq_some_iff.mp hgroup
    obtain ⟨call, hcall, hkey⟩ := exists_call_of_groups hmembers
    exact (h call hcall _ (congrArg ServiceKey.tag hkey)).1 rfl

/-- **Resolving in one task always ends.**  Whatever the factories do, and whatever
depends on what, a call returns, no `OnceCell` is entered again by its own
initialiser, and no more runs nest than there are keys registered. -/
theorem ends_of_plainTags (calls : List (BuilderCall τ υ φ)) (hplain : PlainTags calls)
    (behave : φ → Nat → Behaviour τ υ) (scope : Option Nat) (node : Node τ) (s : Store τ)
    (hquiet : ∀ x, s.cells x ≠ .initialising) (depth : Nat)
    (hdepth : (registeredKeys calls).length ≤ depth) :
    ∃ result t, resolve (containerOf calls) behave depth scope node s = .returned result t ∧
      Follows (registeredKeys calls) s t :=
  resolveNode_build_settles hplain.slotsApart (registeredIn_containerOf calls) depth
    List.nodup_nil (List.nil_subset _) (by simpa using hdepth) fun x hx => absurd hx (hquiet x)

/-- Two singletons that need each other, and a group. -/
def ringCalls : List (BuilderCall String Unit Bool) :=
  [.singletonFactory "A" false, .singletonFactory "B" true, .multibindTransient "A" true]

/-- The factory `false` resolves "B", ignores an error, and tries again; the factory
`true` resolves the group of "A", and passes errors on. -/
def ringBehave : Bool → Nat → Behaviour String Unit
  | false, _ => .resolve (.single ⟨"B", none⟩) fun _ =>
      .resolve (.single ⟨"B", none⟩) fun _ => .ret (.ok ())
  | true, _ => .resolve (.group ⟨"A", none⟩) fun result => .ret (result.map fun _ => ())

theorem ends_ring :
    ∃ result t, resolve (containerOf ringCalls) ringBehave 2 none (.single ⟨"A", none⟩)
        (.empty String) = .returned result t ∧ Follows (registeredKeys ringCalls) (.empty String) t :=
  ends_of_plainTags ringCalls (by unfold PlainTags; decide) ringBehave none (.single ⟨"A", none⟩)
    (.empty String) (fun _ => nofun) 2 (by decide)

end

end Kolas.Di

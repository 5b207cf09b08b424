import Mathlib.Data.List.Basic
import Mathlib.Logic.Function.Basic

/-!
# The container

`di/key.rs`, `di/entry.rs`, `di/builder.rs` and the maps of `di/container.rs`.
`ContainerBuilder` collects registrations, singular ones and members of
multibinding groups; `build` freezes them into two maps from `ServiceKey`s.

A node is what a `resolve` names: a singular registration or a group.  A
registration is an `EntryRef`: the singular one of a key, or a member of a key's
group.  `slotKey` is the key under which `Scope::resolve_for` caches it.

The types of services are `τ`, values handed in are `υ`, factories are `φ`.
-/

namespace Kolas.Di

/-- `std::any::type_name`. -/
class TypeName (τ : Type) where
  typeName : τ → String

/-- Types known by their names. -/
instance : TypeName String := ⟨id⟩

structure ServiceKey (τ : Type) where
  typeId : τ
  tag : Option String
  deriving DecidableEq, Repr

variable {τ υ φ : Type}

/-- `Entry`, less the cell of a singleton, which is part of the machine's state. -/
inductive Entry (υ φ : Type)
  | value (v : υ)
  | singleton (factory : φ)
  | transient (factory : φ)
  | scoped (factory : φ)
  deriving DecidableEq, Repr

def Entry.factory? : Entry υ φ → Option φ
  | .value _ => none
  | .singleton factory => some factory
  | .transient factory => some factory
  | .scoped factory => some factory

structure Container (τ υ φ : Type) where
  entries : ServiceKey τ → Option (Entry υ φ)
  groups : ServiceKey τ → Option (List (Entry υ φ))

/-- What a call resolves: `resolve_with_tag` of a key, or `resolve_group` of one. -/
inductive Node (τ : Type)
  | single (key : ServiceKey τ)
  | group (key : ServiceKey τ)
  deriving DecidableEq, Repr

/-- The key a call pushes onto the chain. -/
def Node.key : Node τ → ServiceKey τ
  | .single key => key
  | .group key => key

/-- A registration. -/
inductive EntryRef (τ : Type)
  | single (key : ServiceKey τ)
  | member (key : ServiceKey τ) (index : Nat)
  deriving DecidableEq, Repr

/-- The `j`-th registration a call for the node resolves. -/
def Node.ref : Node τ → Nat → EntryRef τ
  | .single key, _ => .single key
  | .group key, j => .member key j

namespace Container

/-- The `j`-th entry a call for the node resolves. -/
def entryAt (C : Container τ υ φ) : Node τ → Nat → Option (Entry υ φ)
  | .single key, 0 => C.entries key
  | .single _, _ + 1 => none
  | .group key, j => (C.groups key).bind fun members => members[j]?

def entryOf (C : Container τ υ φ) : EntryRef τ → Option (Entry υ φ)
  | .single key => C.entries key
  | .member key index => (C.groups key).bind fun members => members[index]?

theorem entryOf_ref {C : Container τ υ φ} {n : Node τ} {j : Nat} {e : Entry υ φ}
    (h : C.entryAt n j = some e) : C.entryOf (n.ref j) = some e := by
  cases n with
  | single key =>
    cases j with
    | zero => exact h
    | succ j => cases h
  | group key => exact h

end Container

/-! ### Slots -/

/-- `format!("__multibind:{group_label}:{index}")`, the label being `group.unwrap_or("")`. -/
def memberTag (group : Option String) (index : Nat) : String :=
  "__multibind:" ++ group.getD "" ++ ":" ++ toString index

/-- The key under which `Scope::resolve_for` caches a registration. -/
def EntryRef.slotKey : EntryRef τ → ServiceKey τ
  | .single key => key
  | .member key index => ⟨key.typeId, some (memberTag key.tag index)⟩

/-! ### Errors -/

/-- `DiError`; a factory's error is its text. -/
inductive DiError
  | notRegistered (typeName : String) (tag : Option String)
  | circularDependency (typeName cycle : String)
  | factoryFailed (typeName source : String)
  | scopeNotActive (typeName : String)
  deriving DecidableEq, Repr

/-- The error is a `CircularDependency`. -/
def DiError.IsCircular : DiError → Prop
  | .circularDependency _ _ => True
  | _ => False

/-- `cycle_through`. -/
def cycleThrough [DecidableEq τ] (ancestors : List (ServiceKey τ × String)) (key : ServiceKey τ)
    (typeName : String) : Option String :=
  if ancestors.any fun a => a.1 = key then
    some (" -> ".intercalate (ancestors.map Prod.snd ++ [typeName]))
  else none

theorem cycleThrough_isSome_iff [DecidableEq τ] {ancestors : List (ServiceKey τ × String)}
    {key : ServiceKey τ} {typeName : String} :
    (cycleThrough ancestors key typeName).isSome ↔ key ∈ ancestors.map Prod.fst := by
  unfold cycleThrough
  split
  · rename_i h
    obtain ⟨a, ha, he⟩ := List.any_eq_true.mp h
    simp only [Option.isSome_some, true_iff]
    exact of_decide_eq_true he ▸ List.mem_map_of_mem ha
  · rename_i h
    simp only [Option.isSome_none, Bool.false_eq_true, false_iff]
    intro hmem
    obtain ⟨a, ha, he⟩ := List.mem_map.mp hmem
    exact h (List.any_eq_true.mpr ⟨a, ha, decide_eq_true he⟩)

theorem cycleThrough_of_mem [DecidableEq τ] {ancestors : List (ServiceKey τ × String)}
    {key : ServiceKey τ} (h : key ∈ ancestors.map Prod.fst) (typeName : String) :
    ∃ cycle, cycleThrough ancestors key typeName = some cycle :=
  Option.isSome_iff_exists.mp (cycleThrough_isSome_iff.mpr h)

/-! ### The builder -/

structure ContainerBuilder (τ υ φ : Type) where
  entries : List (ServiceKey τ × Entry υ φ)
  multibindings : List (ServiceKey τ × Entry υ φ)

namespace ContainerBuilder

def new : ContainerBuilder τ υ φ := ⟨[], []⟩

/-- `with_value`. -/
def withValue (b : ContainerBuilder τ υ φ) (typeId : τ) (tag : Option String) (value : υ) :
    ContainerBuilder τ υ φ :=
  { b with entries := b.entries ++ [(⟨typeId, tag⟩, .value value)] }

/-- `with_entry`. -/
def withEntry (b : ContainerBuilder τ υ φ) (typeId : τ) (tag : Option String) (factory : φ)
    (wrap : φ → Entry υ φ) : ContainerBuilder τ υ φ :=
  { b with entries := b.entries ++ [(⟨typeId, tag⟩, wrap factory)] }

/-- `with_multibind_value`. -/
def withMultibindValue (b : ContainerBuilder τ υ φ) (typeId : τ) (group : Option String)
    (value : υ) : ContainerBuilder τ υ φ :=
  { b with multibindings := b.multibindings ++ [(⟨typeId, group⟩, .value value)] }

/-- `with_multibind_entry`. -/
def withMultibindEntry (b : ContainerBuilder τ υ φ) (typeId : τ) (group : Option String)
    (factory : φ) (wrap : φ → Entry υ φ) : ContainerBuilder τ υ φ :=
  { b with multibindings := b.multibindings ++ [(⟨typeId, group⟩, wrap factory)] }

variable (b : ContainerBuilder τ υ φ) (typeId : τ) (tag group : String) (value : υ) (factory : φ)

/-! The builder's methods: each is one of the four above, with its tag or group
and its lifecycle. -/

def singleton := b.withValue typeId none value

def singletonTagged := b.withValue typeId (some tag) value

def singletonFactory := b.withEntry typeId none factory .singleton

def singletonFactoryTagged := b.withEntry typeId (some tag) factory .singleton

def transient := b.withEntry typeId none factory .transient

def transientTagged := b.withEntry typeId (some tag) factory .transient

def «scoped» := b.withEntry typeId none factory .scoped

def scopedTagged := b.withEntry typeId (some tag) factory .scoped

def multibind := b.withMultibindValue typeId none value

def multibindGroup := b.withMultibindValue typeId (some group) value

def multibindFactory := b.withMultibindEntry typeId none factory .singleton

def multibindFactoryGroup := b.withMultibindEntry typeId (some group) factory .singleton

def multibindTransient := b.withMultibindEntry typeId none factory .transient

def multibindTransientGroup := b.withMultibindEntry typeId (some group) factory .transient

def multibindScoped := b.withMultibindEntry typeId none factory .scoped

def multibindScopedGroup := b.withMultibindEntry typeId (some group) factory .scoped

end ContainerBuilder

/-- A method of the builder. -/
inductive BuilderCall (τ υ φ : Type)
  | singleton (typeId : τ) (value : υ)
  | singletonTagged (typeId : τ) (tag : String) (value : υ)
  | singletonFactory (typeId : τ) (factory : φ)
  | singletonFactoryTagged (typeId : τ) (tag : String) (factory : φ)
  | transient (typeId : τ) (factory : φ)
  | transientTagged (typeId : τ) (tag : String) (factory : φ)
  | scoped (typeId : τ) (factory : φ)
  | scopedTagged (typeId : τ) (tag : String) (factory : φ)
  | multibind (typeId : τ) (value : υ)
  | multibindGroup (typeId : τ) (group : String) (value : υ)
  | multibindFactory (typeId : τ) (factory : φ)
  | multibindFactoryGroup (typeId : τ) (group : String) (factory : φ)
  | multibindTransient (typeId : τ) (factory : φ)
  | multibindTransientGroup (typeId : τ) (group : String) (factory : φ)
  | multibindScoped (typeId : τ) (factory : φ)
  | multibindScopedGroup (typeId : τ) (group : String) (factory : φ)
  deriving DecidableEq, Repr

def BuilderCall.apply (b : ContainerBuilder τ υ φ) : BuilderCall τ υ φ → ContainerBuilder τ υ φ
  | .singleton typeId value => b.singleton typeId value
  | .singletonTagged typeId tag value => b.singletonTagged typeId tag value
  | .singletonFactory typeId factory => b.singletonFactory typeId factory
  | .singletonFactoryTagged typeId tag factory => b.singletonFactoryTagged typeId tag factory
  | .transient typeId factory => b.transient typeId factory
  | .transientTagged typeId tag factory => b.transientTagged typeId tag factory
  | .scoped typeId factory => b.scoped typeId factory
  | .scopedTagged typeId tag factory => b.scopedTagged typeId tag factory
  | .multibind typeId value => b.multibind typeId value
  | .multibindGroup typeId group value => b.multibindGroup typeId group value
  | .multibindFactory typeId factory => b.multibindFactory typeId factory
  | .multibindFactoryGroup typeId group factory => b.multibindFactoryGroup typeId group factory
  | .multibindTransient typeId factory => b.multibindTransient typeId factory
  | .multibindTransientGroup typeId group factory =>
    b.multibindTransientGroup typeId group factory
  | .multibindScoped typeId factory => b.multibindScoped typeId factory
  | .multibindScopedGroup typeId group factory => b.multibindScopedGroup typeId group factory

/-- `build`: of two singular registrations of a key the last one wins, and the
members of a group stay in the order of their registration. -/
def ContainerBuilder.build [DecidableEq τ] (b : ContainerBuilder τ υ φ) : Container τ υ φ where
  entries := b.entries.foldl (fun map e => Function.update map e.1 (some e.2)) fun _ => none
  groups := b.multibindings.foldl
    (fun map e => Function.update map e.1 (some ((map e.1).getD [] ++ [e.2]))) fun _ => none

/-- The container of a sequence of builder calls. -/
def containerOf [DecidableEq τ] (calls : List (BuilderCall τ υ φ)) : Container τ υ φ :=
  (calls.foldl BuilderCall.apply .new).build

end Kolas.Di

import Kolas.Lib.Lists
import Kolas.Database.Config
import Mathlib.Data.List.Sort

/-!
# The targets of automatic migration

`DatabaseConfig::auto_migrate_targets` of `database/config.rs`.  `connections` is a hash
map: no name is in it twice, and iterating over it gives its entries in any order.

* `autoMigrateTargets_names`: the names, whatever the order.
* `autoMigrateTargets_complete`: so the targets do not depend on it.
-/

namespace Kolas.Database

open Kolas.Lib

/-- The configuration of a process: the names of its connections are distinct. -/
structure LoadedConfig extends DatabaseConfig where
  distinct : (connections.map Prod.fst).Nodup

/-- The entries of `connections`, in the order of one iteration. -/
structure Iteration (config : LoadedConfig) where
  entries : List (String × ConnectionConfig)
  perm : entries.Perm config.connections

/-- `migrations_path`. -/
def DatabaseConfig.globalMigrationsPath (config : DatabaseConfig) : String :=
  config.migrationsPath.getD "./database/migrations"

def DatabaseConfig.migrationsPathFor (config : DatabaseConfig) (name : String) : String :=
  ((config.connections.lookup name).bind ConnectionConfig.migrationsPath).getD
    config.globalMigrationsPath

/-- The names of the connections with a path of their own, sorted. -/
def Iteration.extra {config : LoadedConfig} (iteration : Iteration config) : List String :=
  ((iteration.entries.filter fun entry => entry.2.migrationsPath.isSome).map Prod.fst).mergeSort
    fun a b => decide (a ≤ b)

def Iteration.autoMigrateTargets {config : LoadedConfig} (iteration : Iteration config) :
    List (String × String) :=
  let names := iteration.extra.foldl
    (fun names name => if name ∈ names then names else names ++ [name]) config.default.toList
  names.map fun name => (name, config.migrationsPathFor name)

variable {config : LoadedConfig}

/-- The connection of this name declares a path of its own. -/
def LoadedConfig.Declares (config : LoadedConfig) (name : String) : Prop :=
  ∃ connection, (name, connection) ∈ config.connections ∧ connection.migrationsPath.isSome = true

theorem Iteration.mem_extra (iteration : Iteration config) {name : String} :
    name ∈ iteration.extra ↔ config.Declares name := by
  unfold extra LoadedConfig.Declares
  rw [List.mem_mergeSort, List.mem_map]
  constructor
  · intro h
    obtain ⟨⟨name', connection⟩, hentry, rfl⟩ := h
    obtain ⟨hmem, hsome⟩ := List.mem_filter.mp hentry
    exact ⟨connection, iteration.perm.mem_iff.mp hmem, hsome⟩
  · intro h
    obtain ⟨connection, hmem, hsome⟩ := h
    exact ⟨(name, connection), List.mem_filter.mpr ⟨iteration.perm.mem_iff.mpr hmem, hsome⟩, rfl⟩

theorem Iteration.extra_nodup (iteration : Iteration config) : iteration.extra.Nodup := by
  refine (List.mergeSort_perm _ _).nodup_iff.mpr ?_
  refine List.Sublist.nodup (List.filter_sublist.map Prod.fst) ?_
  exact (iteration.perm.map Prod.fst).nodup_iff.mpr config.distinct

theorem Iteration.extra_sorted (iteration : Iteration config) :
    iteration.extra.Pairwise (· < ·) := by
  have hle : iteration.extra.Pairwise (· ≤ ·) := List.pairwise_mergeSort' (· ≤ ·) _
  exact hle.imp₂ (fun a b hab hne => lt_of_le_of_ne hab hne) iteration.extra_nodup

/-- The connections to migrate besides the default one. -/
def Iteration.others (iteration : Iteration config) : List String :=
  iteration.extra.filter fun name => name ∉ config.default.toList

theorem Iteration.autoMigrateTargets_eq (iteration : Iteration config) :
    iteration.autoMigrateTargets = (config.default.toList ++ iteration.others).map
      fun name => (name, config.migrationsPathFor name) := by
  unfold autoMigrateTargets
  rw [foldl_push_absent iteration.extra_nodup]
  rfl

/-- A connection's own path. -/
theorem LoadedConfig.migrationsPathFor_own {name path : String} {connection : ConnectionConfig}
    (h : (name, connection) ∈ config.connections) (hpath : connection.migrationsPath = some path) :
    config.migrationsPathFor name = path := by
  rw [DatabaseConfig.migrationsPathFor, lookup_of_mem config.distinct h, Option.bind_some, hpath,
    Option.getD_some]

/-- The path of a connection without one of its own, or of none. -/
theorem LoadedConfig.migrationsPathFor_global {name : String} (h : ¬ config.Declares name) :
    config.migrationsPathFor name = config.globalMigrationsPath := by
  unfold DatabaseConfig.migrationsPathFor
  cases hlookup : config.connections.lookup name with
  | none => rfl
  | some connection =>
    obtain ⟨before, after, hsplit, -⟩ := List.lookup_eq_some_iff.mp hlookup
    have hmem : (name, connection) ∈ config.connections := by
      rw [hsplit]
      exact List.mem_append_right _ List.mem_cons_self
    have hnone : connection.migrationsPath = none := by
      cases hpath : connection.migrationsPath with
      | none => rfl
      | some path => exact absurd ⟨connection, hmem, by rw [hpath]; rfl⟩ h
    rw [Option.bind_some, hnone]
    rfl

/-- What automatic migration is to do. -/
structure Iteration.CompleteTargets (iteration : Iteration config) : Prop where
  /-- The default connection is first, and the others follow in the order of their names. -/
  names : ∃ others : List String,
    iteration.autoMigrateTargets.map Prod.fst = config.default.toList ++ others ∧
    others.Pairwise (· < ·) ∧
    ∀ name, name ∈ others ↔ config.default ≠ some name ∧ config.Declares name
  once : (iteration.autoMigrateTargets.map Prod.fst).Nodup
  ownPath : ∀ name path, (name, path) ∈ iteration.autoMigrateTargets →
    ∀ connection own, (name, connection) ∈ config.connections →
      connection.migrationsPath = some own → path = own
  sharedPath : ∀ name path, (name, path) ∈ iteration.autoMigrateTargets →
    ¬ config.Declares name → path = config.migrationsPath.getD "./database/migrations"
  anyOrder : ∀ other : Iteration config, other.autoMigrateTargets = iteration.autoMigrateTargets

theorem Iteration.autoMigrateTargets_names (iteration : Iteration config) :
    iteration.autoMigrateTargets.map Prod.fst = config.default.toList ++ iteration.others := by
  rw [autoMigrateTargets_eq, List.map_map]
  exact List.map_id _

theorem Iteration.others_sorted (iteration : Iteration config) :
    iteration.others.Pairwise (· < ·) := iteration.extra_sorted.sublist List.filter_sublist

theorem Iteration.mem_others (iteration : Iteration config) {name : String} :
    name ∈ iteration.others ↔ config.default ≠ some name ∧ config.Declares name := by
  rw [others, List.mem_filter, mem_extra, decide_eq_true_eq, Option.mem_toList, and_comm]

/-- Two sorted lists of the same names are one. -/
theorem Iteration.others_eq (iteration other : Iteration config) :
    other.others = iteration.others :=
  other.others_sorted.eq_of_mem_iff iteration.others_sorted fun _ =>
    other.mem_others.trans iteration.mem_others.symm

theorem Iteration.mem_autoMigrateTargets {iteration : Iteration config} {name path : String}
    (h : (name, path) ∈ iteration.autoMigrateTargets) : path = config.migrationsPathFor name := by
  rw [autoMigrateTargets_eq] at h
  obtain ⟨name', -, heq⟩ := List.mem_map.mp h
  obtain ⟨rfl, rfl⟩ := Prod.mk.inj heq
  rfl

/-- **The targets are complete**, each once and with its path, in whatever order the
connections are iterated over. -/
theorem autoMigrateTargets_complete (iteration : Iteration config) :
    iteration.CompleteTargets := by
  refine ⟨⟨iteration.others, iteration.autoMigrateTargets_names, iteration.others_sorted,
    fun _ => iteration.mem_others⟩, ?_, ?_, ?_, ?_⟩
  · have hdefault : config.default.toList.Nodup := by
      cases config.default with
      | none => exact List.nodup_nil
      | some default => exact List.nodup_singleton default
    rw [iteration.autoMigrateTargets_names, List.nodup_append]
    refine ⟨hdefault, iteration.others_sorted.imp fun hlt => hlt.ne, ?_⟩
    intro default hmem name hname heq
    rw [Option.mem_toList] at hmem
    exact (iteration.mem_others.mp hname).1 (heq ▸ hmem)
  · intro name path htarget connection own hconnection hown
    rw [Iteration.mem_autoMigrateTargets htarget]
    exact LoadedConfig.migrationsPathFor_own hconnection hown
  · intro name path htarget hnot
    rw [Iteration.mem_autoMigrateTargets htarget]
    exact LoadedConfig.migrationsPathFor_global hnot
  · intro other
    rw [other.autoMigrateTargets_eq, iteration.autoMigrateTargets_eq,
      Iteration.others_eq iteration other]

end Kolas.Database

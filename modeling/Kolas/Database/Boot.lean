import Kolas.Config.Typed
import Kolas.Database.AutoMigrate
import Kolas.Database.Manager
import Mathlib.Data.Finset.Basic

/-!
# Migrating at boot

`bootstrap::app::run` migrates the targets of `auto_migrate`, one after another, before it
serves.  What `Migrator::new` finds in a directory, where a connection leads, and
`Migrator::run` are parameters: a database has the migrations that were applied to it, and
refuses a directory that lacks one of them.

* `boot_succeeds_iff`: the directories for one database, in the order of the targets, have to
  contain one another.
* `boots_again_iff`: after that, a second boot does nothing; but it fails, if two of them are
  not the same.
-/

namespace Kolas.Database

open Kolas.Config Kolas.Lib

/-- What `migrate` calls.  A migration is its version and its checksum. -/
structure Migrations (δ μ : Type*) where
  openDir : String → Except DatabaseError (Finset μ)
  locate : DriverKind → ConnectOptions → δ
  run : Finset μ → Finset μ → Finset μ × Except DatabaseError Unit

/-- The databases answer, and the statements of the migrations succeed.  A refusal may come
after some of the migrations that were to be applied, but not when there were none. -/
structure Migrations.Lawful {δ μ : Type*} (M : Migrations δ μ) : Prop where
  covered : ∀ source applied, applied ⊆ source → M.run source applied = (source, .ok ())
  missing : ∀ source applied, ¬ applied ⊆ source → ∃ err, (M.run source applied).2 = .error err
  upToDate : ∀ source applied, source ⊆ applied → (M.run source applied).1 = applied

section

variable {δ μ : Type*} [DecidableEq δ] (M : Migrations δ μ) (sqlx : Sqlx) (config : DatabaseConfig)

/-- The database that a connection leads to. -/
def databaseOf (connection : String) : Except DatabaseError δ :=
  (newConnection sqlx config 0 connection).map fun conn =>
    M.locate conn.kind conn.pool.connectOptions

/-- `migrate`: what the databases have afterwards, and the result. -/
def migrate (dbs : δ → Finset μ) (connection dir : String) :
    (δ → Finset μ) × Except DatabaseError Unit :=
  match M.openDir dir with
  | .error err => (dbs, .error err)
  | .ok source =>
    match databaseOf M sqlx config connection with
    | .error err => (dbs, .error err)
    | .ok db =>
      let ran := M.run source (dbs db)
      (Function.update dbs db ran.1, ran.2)

/-- The loop of `run`. -/
def migrateTargets : List (String × String) → (δ → Finset μ) →
    (δ → Finset μ) × Except DatabaseError Unit
  | [], dbs => (dbs, .ok ())
  | (connection, path) :: targets, dbs =>
    match migrate M sqlx config dbs connection path with
    | (dbs', .ok ()) => migrateTargets targets dbs'
    | (dbs', .error err) => (dbs', .error err)

end

/-- `bootstrap::app::run`, as far as the databases go: the result says whether it serves. -/
def bootMigrations {δ μ : Type*} [DecidableEq δ] (M : Migrations δ μ) (sqlx : Sqlx)
    (config : Config) {loaded : LoadedConfig} (iteration : Iteration loaded)
    (dbs : δ → Finset μ) : (δ → Finset μ) × Except DatabaseError Unit :=
  if config.value readBool "database.auto_migrate" false then
    migrateTargets M sqlx loaded.toDatabaseConfig iteration.autoMigrateTargets dbs
  else (dbs, .ok ())

/-! ### The targets of a database -/

section

variable {δ μ : Type*} [DecidableEq δ]

/-- The directories for one database, in their order. -/
def sourcesOn (places : List (δ × Finset μ)) (db : δ) : List (Finset μ) :=
  (places.filter fun place => place.1 = db).map Prod.snd

theorem sourcesOn_cons_self (db : δ) (source : Finset μ) (places : List (δ × Finset μ)) :
    sourcesOn ((db, source) :: places) db = source :: sourcesOn places db := by
  simp [sourcesOn]

theorem sourcesOn_cons_of_ne {db db' : δ} (h : db ≠ db') (source : Finset μ)
    (places : List (δ × Finset μ)) :
    sourcesOn ((db, source) :: places) db' = sourcesOn places db' := by
  simp [sourcesOn, h]

theorem mem_sourcesOn {places : List (δ × Finset μ)} {db : δ} {source : Finset μ} :
    source ∈ sourcesOn places db ↔ (db, source) ∈ places := by
  unfold sourcesOn
  simp

variable (M : Migrations δ μ) (sqlx : Sqlx) (config : DatabaseConfig)

/-- The directory of a target can be read, and its connection is known. -/
def LeadsTo (target : String × String) (place : δ × Finset μ) : Prop :=
  M.openDir target.2 = .ok place.2 ∧ databaseOf M sqlx config target.1 = .ok place.1

/-- What stands in the databases, and the directories for them, contain one another. -/
def Ascending (dbs : δ → Finset μ) (places : List (δ × Finset μ)) : Prop :=
  ∀ db, (dbs db :: sourcesOn places db).IsChain (· ⊆ ·)

/-- What the last directory for the database has. -/
def latest (dbs : δ → Finset μ) (places : List (δ × Finset μ)) (db : δ) : Finset μ :=
  (sourcesOn places db).getLastD (dbs db)

variable {M sqlx config} {dbs : δ → Finset μ}

variable (dbs) in
theorem migrate_leadsTo {target : String × String} {place : δ × Finset μ}
    (h : LeadsTo M sqlx config target place) :
    migrate M sqlx config dbs target.1 target.2 =
      (Function.update dbs place.1 (M.run place.2 (dbs place.1)).1,
        (M.run place.2 (dbs place.1)).2) := by
  obtain ⟨hsource, hdb⟩ := h
  simp only [migrate, hsource, hdb]

theorem leadsTo_of_migrate {target : String × String}
    (h : (migrate M sqlx config dbs target.1 target.2).2 = .ok ()) :
    ∃ place, LeadsTo M sqlx config target place := by
  unfold migrate at h
  split at h
  · cases h
  · rename_i source hsource
    split at h
    · cases h
    · rename_i db hdb
      exact ⟨(db, source), hsource, hdb⟩

/-- The first of the directories is the one to pass. -/
theorem ascending_cons {place : δ × Finset μ} {places : List (δ × Finset μ)} :
    Ascending dbs (place :: places) ↔ dbs place.1 ⊆ place.2 ∧
      Ascending (Function.update dbs place.1 place.2) places := by
  obtain ⟨db, source⟩ := place
  constructor
  · intro h
    have hdb := h db
    rw [sourcesOn_cons_self, List.isChain_cons_cons] at hdb
    refine ⟨hdb.1, fun db' => ?_⟩
    by_cases hne : db = db'
    · subst hne
      rw [Function.update_self]
      exact hdb.2
    · have hdb' := h db'
      rw [sourcesOn_cons_of_ne hne] at hdb'
      rw [Function.update_of_ne (Ne.symm hne)]
      exact hdb'
  · rintro ⟨hsub, h⟩ db'
    have hdb' := h db'
    by_cases hne : db = db'
    · subst hne
      rw [Function.update_self] at hdb'
      rw [sourcesOn_cons_self, List.isChain_cons_cons]
      exact ⟨hsub, hdb'⟩
    · rw [Function.update_of_ne (Ne.symm hne)] at hdb'
      rw [sourcesOn_cons_of_ne hne]
      exact hdb'

theorem latest_cons (place : δ × Finset μ) (places : List (δ × Finset μ)) :
    latest dbs (place :: places) = latest (Function.update dbs place.1 place.2) places := by
  obtain ⟨db, source⟩ := place
  funext db'
  by_cases hne : db = db'
  · subst hne
    rw [latest, latest, sourcesOn_cons_self, Function.update_self, List.getLastD_cons]
  · rw [latest, latest, sourcesOn_cons_of_ne hne, Function.update_of_ne (Ne.symm hne)]

/-! ### One boot -/

/-- **When the loop goes through**, and what it leaves then. -/
theorem migrateTargets_ok_iff (hM : M.Lawful) {targets : List (String × String)}
    {places : List (δ × Finset μ)} (hplaces : List.Forall₂ (LeadsTo M sqlx config) targets places) :
    ((migrateTargets M sqlx config targets dbs).2 = .ok () ↔ Ascending dbs places) ∧
      (Ascending dbs places → (migrateTargets M sqlx config targets dbs).1 = latest dbs places) := by
  induction hplaces generalizing dbs with
  | nil =>
    refine ⟨iff_of_true rfl fun db => .singleton _, fun _ => rfl⟩
  | @cons target place targets places hplace _ ih =>
    rw [ascending_cons, latest_cons]
    have hmigrate := migrate_leadsTo dbs hplace
    by_cases hsub : dbs place.1 ⊆ place.2
    · rw [hM.covered _ _ hsub] at hmigrate
      have hloop : migrateTargets M sqlx config (target :: targets) dbs =
          migrateTargets M sqlx config targets (Function.update dbs place.1 place.2) := by
        rw [migrateTargets, hmigrate]
      rw [hloop]
      exact ⟨ih.1.trans (and_iff_right hsub).symm, fun h => ih.2 h.2⟩
    · obtain ⟨err, herr⟩ := hM.missing _ _ hsub
      rw [herr] at hmigrate
      have hloop : (migrateTargets M sqlx config (target :: targets) dbs).2 = .error err := by
        rw [migrateTargets, hmigrate]
      rw [hloop]
      exact ⟨iff_of_false nofun fun h => hsub h.1, fun h => absurd h.1 hsub⟩

/-- A loop that goes through has read every directory and found every database. -/
theorem exists_places {targets : List (String × String)}
    (h : (migrateTargets M sqlx config targets dbs).2 = .ok ()) :
    ∃ places, List.Forall₂ (LeadsTo M sqlx config) targets places := by
  induction targets generalizing dbs with
  | nil => exact ⟨[], .nil⟩
  | cons target targets ih =>
    rw [migrateTargets] at h
    split at h
    · rename_i dbs' hmigrate
      obtain ⟨place, hplace⟩ := leadsTo_of_migrate (congrArg Prod.snd hmigrate)
      obtain ⟨places, hplaces⟩ := ih h
      exact ⟨place :: places, .cons hplace hplaces⟩
    · cases h

/-! ### The next boot -/

theorem subset_getLastD {a s : Finset μ} {l : List (Finset μ)} (h : (a :: l).IsChain (· ⊆ ·))
    (hs : s ∈ l) : s ⊆ l.getLastD a := by
  rcases List.eq_nil_or_concat l with rfl | ⟨init, last, rfl⟩
  · cases hs
  rw [List.concat_eq_append] at h hs ⊢
  rw [List.getLastD_concat]
  have hpairwise := (List.pairwise_cons.mp h.pairwise).2
  rcases List.mem_append.mp hs with hs | hs
  · exact (List.pairwise_append.mp hpairwise).2.2 s hs last (List.mem_singleton_self last)
  · rw [List.mem_singleton.mp hs]

theorem subset_latest {places : List (δ × Finset μ)} (h : Ascending dbs places)
    {place : δ × Finset μ} (hplace : place ∈ places) : place.2 ⊆ latest dbs places place.1 :=
  subset_getLastD (h place.1) (mem_sourcesOn.mpr hplace)

variable (dbs) in
/-- A database with a target has what one of its directories has. -/
theorem exists_latest {places : List (δ × Finset μ)} {place : δ × Finset μ}
    (hplace : place ∈ places) : (place.1, latest dbs places place.1) ∈ places := by
  have hmem : place.2 ∈ sourcesOn places place.1 := mem_sourcesOn.mpr hplace
  refine mem_sourcesOn.mp ?_
  rw [latest]
  rcases List.eq_nil_or_concat (sourcesOn places place.1) with hnil | ⟨init, last, hconcat⟩
  · rw [hnil] at hmem
    cases hmem
  · rw [hconcat, List.concat_eq_append, List.getLastD_concat]
    exact List.mem_append_right _ (List.mem_singleton_self last)

/-- Targets that are up to date change nothing, whether the loop goes through or not. -/
theorem migrateTargets_upToDate (hM : M.Lawful) {targets : List (String × String)}
    {places : List (δ × Finset μ)} (hplaces : List.Forall₂ (LeadsTo M sqlx config) targets places)
    (hsub : ∀ place ∈ places, place.2 ⊆ dbs place.1) :
    (migrateTargets M sqlx config targets dbs).1 = dbs := by
  induction hplaces with
  | nil => rfl
  | @cons target place targets places hplace _ ih =>
    obtain ⟨hfirst, hrest⟩ := List.forall_mem_cons.mp hsub
    have hmigrate := migrate_leadsTo dbs hplace
    rw [hM.upToDate _ _ hfirst, Function.update_eq_self] at hmigrate
    rw [migrateTargets, hmigrate]
    cases (M.run place.2 (dbs place.1)).2 with
    | ok _ => exact ih hrest
    | error err => rfl

theorem ascending_upToDate_iff {places : List (δ × Finset μ)}
    (hsub : ∀ place ∈ places, place.2 ⊆ dbs place.1) :
    Ascending dbs places ↔ ∀ place ∈ places, place.2 = dbs place.1 := by
  constructor
  · intro h place hplace
    have hpairwise := List.pairwise_cons.mp (h place.1).pairwise
    exact (hsub place hplace).antisymm (hpairwise.1 _ (mem_sourcesOn.mpr hplace))
  · intro h db
    refine List.Pairwise.isChain (List.pairwise_cons.mpr ⟨fun source hsource => ?_, ?_⟩)
    · exact (h _ (mem_sourcesOn.mp hsource)).ge
    · refine List.pairwise_of_forall_mem_list fun source hsource source' hsource' => ?_
      exact ((h _ (mem_sourcesOn.mp hsource)).trans (h _ (mem_sourcesOn.mp hsource')).symm).le

/-- The targets of one database have the same migrations. -/
def SameSources (M : Migrations δ μ) (sqlx : Sqlx) (config : DatabaseConfig)
    (targets : List (String × String)) : Prop :=
  ∀ target ∈ targets, ∀ target' ∈ targets,
    databaseOf M sqlx config target.1 = databaseOf M sqlx config target'.1 →
      M.openDir target.2 = M.openDir target'.2

theorem latest_eq_iff {targets : List (String × String)} {places : List (δ × Finset μ)}
    (hplaces : List.Forall₂ (LeadsTo M sqlx config) targets places) :
    (∀ place ∈ places, place.2 = latest dbs places place.1) ↔
      SameSources M sqlx config targets := by
  constructor
  · intro h target htarget target' htarget' hdb
    obtain ⟨place, hplace, hsource, hplaceDb⟩ := exists_of_forall₂ hplaces htarget
    obtain ⟨place', hplace', hsource', hplaceDb'⟩ := exists_of_forall₂ hplaces htarget'
    have hsame : place.1 = place'.1 := by
      rw [hplaceDb, hplaceDb'] at hdb
      exact Except.ok.inj hdb
    rw [hsource, hsource', h place hplace, h place' hplace', hsame]
  · intro h place hplace
    obtain ⟨target, htarget, hsource, hdb⟩ := exists_of_forall₂ hplaces.flip hplace
    obtain ⟨target', htarget', hsource', hdb'⟩ :=
      exists_of_forall₂ hplaces.flip (exists_latest dbs hplace)
    have hopen := h target htarget target' htarget' (hdb.trans hdb'.symm)
    rw [hsource, hsource'] at hopen
    exact Except.ok.inj hopen

/-! ### Boots -/

variable {conf : Config} {loaded : LoadedConfig}
  (hauto : conf.value readBool "database.auto_migrate" false = true)

include hauto

theorem bootMigrations_eq (iteration : Iteration loaded) (dbs : δ → Finset μ) :
    bootMigrations M sqlx conf iteration dbs =
      migrateTargets M sqlx loaded.toDatabaseConfig iteration.autoMigrateTargets dbs :=
  if_pos hauto

/-- **When a boot succeeds**: every directory can be read, every connection is known, and for each
database, what was applied to it and the directories of its targets contain one another, in
their order.  The database has what the last of them has, then. -/
theorem boot_succeeds_iff (hM : M.Lawful) (iteration : Iteration loaded) (dbs : δ → Finset μ) :
    ((bootMigrations M sqlx conf iteration dbs).2 = .ok () ↔
        ∃ places, List.Forall₂ (LeadsTo M sqlx loaded.toDatabaseConfig)
          iteration.autoMigrateTargets places ∧ Ascending dbs places) ∧
      ∀ places, List.Forall₂ (LeadsTo M sqlx loaded.toDatabaseConfig)
          iteration.autoMigrateTargets places → Ascending dbs places →
        (bootMigrations M sqlx conf iteration dbs).1 = latest dbs places := by
  rw [bootMigrations_eq hauto]
  refine ⟨⟨fun h => ?_, ?_⟩, fun places hplaces => (migrateTargets_ok_iff hM hplaces).2⟩
  · obtain ⟨places, hplaces⟩ := exists_places h
    exact ⟨places, hplaces, (migrateTargets_ok_iff hM hplaces).1.mp h⟩
  · rintro ⟨places, hplaces, h⟩
    exact (migrateTargets_ok_iff hM hplaces).1.mpr h

/-- **The boot after one that succeeded** changes no database, whatever the order of the
connections is now; and it fails exactly if two targets of one database have different
migrations. -/
theorem boots_again_iff (hM : M.Lawful) (iteration again : Iteration loaded)
    {dbs dbs' : δ → Finset μ}
    (h : bootMigrations M sqlx conf iteration dbs = (dbs', .ok ())) :
    (bootMigrations M sqlx conf again dbs').1 = dbs' ∧
      ((bootMigrations M sqlx conf again dbs').2 = .ok () ↔
        SameSources M sqlx loaded.toDatabaseConfig iteration.autoMigrateTargets) := by
  rw [bootMigrations_eq hauto] at h ⊢
  have htargets : again.autoMigrateTargets = iteration.autoMigrateTargets := by
    rw [again.autoMigrateTargets_eq, iteration.autoMigrateTargets_eq,
      Iteration.others_eq iteration again]
  have hok := congrArg Prod.snd h
  obtain ⟨places, hplaces⟩ := exists_places hok
  have hascending : Ascending dbs places := (migrateTargets_ok_iff hM hplaces).1.mp hok
  have hlatest := (migrateTargets_ok_iff hM hplaces).2 hascending
  obtain rfl : latest dbs places = dbs' := hlatest.symm.trans (congrArg Prod.fst h)
  have hsub : ∀ place ∈ places, place.2 ⊆ latest dbs places place.1 :=
    fun place hplace => subset_latest hascending hplace
  rw [htargets]
  refine ⟨migrateTargets_upToDate hM hplaces hsub, ?_⟩
  calc (migrateTargets M sqlx loaded.toDatabaseConfig iteration.autoMigrateTargets
          (latest dbs places)).2 = .ok ()
      ↔ Ascending (latest dbs places) places := (migrateTargets_ok_iff hM hplaces).1
    _ ↔ ∀ place ∈ places, place.2 = latest dbs places place.1 := ascending_upToDate_iff hsub
    _ ↔ SameSources M sqlx loaded.toDatabaseConfig iteration.autoMigrateTargets :=
        latest_eq_iff hplaces

end

/-! ### One database for two connections -/

/-- A directory of the application, and one for its reports that has one migration more. -/
def twoDirectories : Migrations (DriverKind × ConnectOptions) Nat where
  openDir dir :=
    if dir = "./database/migrations" then .ok {1}
    else if dir = "./database/reports" then .ok {1, 2}
    else .error (.migrate "no such directory")
  locate kind options := (kind, options)
  run source applied :=
    if applied ⊆ source then (source, .ok ()) else (applied, .error (.migrate "missing"))

theorem twoDirectories_lawful : twoDirectories.Lawful where
  covered _ _ h := if_pos h
  missing _ _ h := ⟨_, congrArg Prod.snd (if_neg h)⟩
  upToDate source applied h := by
    show (if applied ⊆ source then (source, Except.ok ()) else (applied, _)).1 = applied
    split
    · rename_i hle
      exact h.antisymm hle
    · rfl

def sharedDatabase : LoadedConfig where
  default := some "app"
  autoMigrate := true
  migrationsPath := none
  connections := [("app", connectionTo .postgres none none none),
    ("reports", { connectionTo .postgres none none none with
      migrationsPath := some "./database/reports" })]
  distinct := by decide

def sharedIteration : Iteration sharedDatabase := ⟨sharedDatabase.connections, .refl _⟩

theorem targets_shared : sharedIteration.autoMigrateTargets =
    [("app", "./database/migrations"), ("reports", "./database/reports")] := by
  have hextra : sharedIteration.extra = ["reports"] := List.mergeSort_singleton _
  rw [Iteration.autoMigrateTargets, hextra]
  rfl

/-- The `database` section, as far as `run` reads it itself. -/
def autoMigrateOn : Config where
  root := [("database", .table [("auto_migrate", .boolean true)])]
  wellKeyed := .singleton "database" (.singleton "auto_migrate" (.boolean true))
  sections := by simp [Sections]

theorem autoMigrateOn_value :
    autoMigrateOn.value readBool "database.auto_migrate" false = true := by
  decide

/-- The two targets are of one database. -/
def sharedPlaces : List ((DriverKind × ConnectOptions) × Finset Nat) :=
  let db := (DriverKind.postgres, ⟨some "db.internal", none, some "app", none, none⟩)
  [(db, {1}), (db, {1, 2})]

theorem sharedPlaces_leadTo : List.Forall₂
    (LeadsTo twoDirectories noUrls sharedDatabase.toDatabaseConfig)
    sharedIteration.autoMigrateTargets sharedPlaces := by
  rw [targets_shared]
  exact .cons ⟨rfl, rfl⟩ (.cons ⟨rfl, rfl⟩ .nil)

theorem ascending_shared : Ascending (fun _ => ∅) sharedPlaces := by
  refine ascending_cons.mpr ⟨Finset.empty_subset _, ascending_cons.mpr ⟨?_, fun _ => .singleton _⟩⟩
  decide

/-- The first boot applies both directories. -/
theorem boot_succeeds_shared :
    (bootMigrations twoDirectories noUrls autoMigrateOn sharedIteration fun _ => ∅).2 = .ok () :=
  (boot_succeeds_iff autoMigrateOn_value twoDirectories_lawful sharedIteration _).1.mpr
    ⟨sharedPlaces, sharedPlaces_leadTo, ascending_shared⟩

theorem exists_boot_shared : ∃ dbs,
    bootMigrations twoDirectories noUrls autoMigrateOn sharedIteration (fun _ => ∅) =
      (dbs, .ok ()) := by
  have hok := (migrateTargets_ok_iff twoDirectories_lawful sharedPlaces_leadTo).1.mpr ascending_shared
  rw [← bootMigrations_eq autoMigrateOn_value] at hok
  exact ⟨_, Prod.ext rfl hok⟩

/-- The second one fails at the first of them. -/
theorem boots_again_shared : ∃ dbs,
    bootMigrations twoDirectories noUrls autoMigrateOn sharedIteration (fun _ => ∅) =
        (dbs, .ok ()) ∧
      (bootMigrations twoDirectories noUrls autoMigrateOn sharedIteration dbs).1 = dbs ∧
      (bootMigrations twoDirectories noUrls autoMigrateOn sharedIteration dbs).2 ≠ .ok () := by
  obtain ⟨dbs, h⟩ := exists_boot_shared
  obtain ⟨hsame, hiff⟩ := boots_again_iff autoMigrateOn_value twoDirectories_lawful sharedIteration
    sharedIteration h
  refine ⟨dbs, h, hsame, fun hok => ?_⟩
  have hsources := hiff.mp hok
  rw [targets_shared] at hsources
  have hopen := hsources _ List.mem_cons_self _ (List.mem_cons_of_mem _ List.mem_cons_self) rfl
  have hone : ({1} : Finset Nat) = {1, 2} := Except.ok.inj hopen
  exact absurd hone (by decide)

end Kolas.Database

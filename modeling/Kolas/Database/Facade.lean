import Kolas.Database.Boot

/-!
# The facade

The accessors of `database/manager.rs` over `connection_for`, and `migration:migrate` of
`console/commands/migration_migrate.rs`.

* `poolFor_ok_iff`: which accessor gives a pool for a name depends on the configuration
  alone, not on the calls before or at the same time; `poolFor_unique`: it is always the same pool.
* `boot_eq_commands`: migrating at boot is the command for the default connection, and
  for each other target by name, until one fails.
-/

set_option linter.dupNamespace false

namespace Kolas.Database

open Kolas.Config Kolas.Lib

/-- `DatabaseError` with what the accessors and the choice of a connection add. -/
inductive FacadeError
  | database (err : DatabaseError)
  | driverMismatch (name expected actual : String)
  | noDefault
  deriving DecidableEq, Repr

def DatabaseConfig.defaultName (config : DatabaseConfig) : Except FacadeError String :=
  match config.default with
  | some name => .ok name
  | none => .error .noDefault

def DatabaseConfig.resolveConnection (config : DatabaseConfig) (requested : Option String) :
    Except FacadeError String :=
  match requested with
  | some name => .ok name
  | none => config.defaultName

/-! ### Accessors -/

/-- An accessor for one driver, given what `connection_for` returned. -/
def poolFor (expected : DriverKind) (name : String) (answer : Except DatabaseError Connection) :
    Except FacadeError Pool :=
  match answer with
  | .error err => .error (.database err)
  | .ok conn =>
    if conn.kind = expected then .ok conn.pool
    else .error (.driverMismatch name expected.asStr conn.kind.asStr)

def postgresPoolFor : String → Except DatabaseError Connection → Except FacadeError Pool :=
  poolFor .postgres
def mysqlPoolFor : String → Except DatabaseError Connection → Except FacadeError Pool :=
  poolFor .mysql
def sqlitePoolFor : String → Except DatabaseError Connection → Except FacadeError Pool :=
  poolFor .sqlite

/-- A call of `connection_for` has returned this. -/
def Database.Answered (s : Database) (name : String) : Except DatabaseError Connection → Prop
  | .ok conn => .returned name conn ∈ s.typed.calls
  | .error err => .failed name err ∈ s.typed.calls

section

variable {sqlx : Sqlx} {config : DatabaseConfig} {id : Nat} {name : String}

/-- **What is opened** is of the configured driver, with its options. -/
theorem newConnection_eq (sqlx : Sqlx) (config : DatabaseConfig) (id : Nat) (name : String) :
    (newConnection sqlx config id name).map (fun conn => (conn.kind, conn.pool.connectOptions)) =
      config.connection name >>= fun cfg =>
        (typedOptions sqlx name cfg).map fun opts => (cfg.driver, opts) := by
  rw [newConnection]
  cases config.connection name with
  | error err => rfl
  | ok cfg =>
    show (buildTyped sqlx id name cfg).map _ = (typedOptions sqlx name cfg).map _
    unfold buildTyped typedOptions
    cases cfg.driver with
    | postgres => cases pgOptions sqlx name cfg <;> rfl
    | mysql => cases mysqlOptions sqlx name cfg <;> rfl
    | sqlite => cases sqliteOptions sqlx name cfg <;> rfl

theorem answered_newConnection {s : Database} (hrun : Reach (Database.step sqlx config) .new s)
    {answer : Except DatabaseError Connection} (h : s.Answered name answer) :
    ∃ id, newConnection sqlx config id name = answer := by
  have htyped := Database.typed_of_reach hrun
  cases answer with
  | ok conn =>
    obtain ⟨id, -, hbuilt⟩ := Memo.built_of_returned htyped h
    exact ⟨id, hbuilt⟩
  | error err =>
    obtain ⟨id, -, herr⟩ := (Memo.kept_of_reach htyped).calls _ h
    exact ⟨id, herr⟩

theorem poolFor_eq_ok_iff {expected : DriverKind} {answer : Except DatabaseError Connection}
    {pool : Pool} : poolFor expected name answer = .ok pool ↔
      ∃ conn, answer = .ok conn ∧ conn.kind = expected ∧ conn.pool = pool := by
  cases answer with
  | error err => exact iff_of_false nofun (by simp)
  | ok conn =>
    unfold poolFor
    by_cases hkind : conn.kind = expected
    · simp [hkind]
    · simp [hkind]

/-- **Which accessors give a pool** depends on the configuration alone. -/
theorem poolFor_ok_iff {s : Database} (hrun : Reach (Database.step sqlx config) .new s)
    {answer : Except DatabaseError Connection} (h : s.Answered name answer)
    (expected : DriverKind) :
    (∃ pool, poolFor expected name answer = .ok pool) ↔
      ∃ cfg, config.connection name = .ok cfg ∧ cfg.driver = expected ∧
        ∃ opts, typedOptions sqlx name cfg = .ok opts := by
  obtain ⟨id, hnew⟩ := answered_newConnection hrun h
  have heq := newConnection_eq sqlx config id name
  rw [hnew] at heq
  constructor
  · rintro ⟨pool, hpool⟩
    obtain ⟨conn, rfl, hkind, -⟩ := poolFor_eq_ok_iff.mp hpool
    obtain ⟨cfg, hcfg, hopts⟩ := bind_eq_ok heq.symm
    cases hoptions : typedOptions sqlx name cfg with
    | error err =>
      rw [hoptions] at hopts
      cases hopts
    | ok opts =>
      rw [hoptions] at hopts
      have hdriver : cfg.driver = conn.kind := (Prod.mk.inj (Except.ok.inj hopts)).1
      exact ⟨cfg, hcfg, hdriver.trans hkind, opts, hoptions⟩
  · rintro ⟨cfg, hcfg, hdriver, opts, hopts⟩
    rw [hcfg] at heq
    have hanswer : answer.map (fun conn => (conn.kind, conn.pool.connectOptions)) =
        .ok (cfg.driver, opts) := by
      rw [heq]
      show (typedOptions sqlx name cfg).map _ = _
      rw [hopts]
      rfl
    cases answer with
    | error err => cases hanswer
    | ok conn =>
      have hkind : conn.kind = cfg.driver := (Prod.mk.inj (Except.ok.inj hanswer)).1
      exact ⟨conn.pool, poolFor_eq_ok_iff.mpr ⟨conn, rfl, hkind.trans hdriver, rfl⟩⟩

/-- **One pool**, whichever accessors have given it. -/
theorem poolFor_unique {s : Database} (hrun : Reach (Database.step sqlx config) .new s)
    {answer answer' : Except DatabaseError Connection} (h : s.Answered name answer)
    (h' : s.Answered name answer') {expected expected' : DriverKind} {pool pool' : Pool}
    (hpool : poolFor expected name answer = .ok pool)
    (hpool' : poolFor expected' name answer' = .ok pool') : expected = expected' ∧ pool = pool' := by
  obtain ⟨conn, rfl, rfl, rfl⟩ := poolFor_eq_ok_iff.mp hpool
  obtain ⟨conn', rfl, rfl, rfl⟩ := poolFor_eq_ok_iff.mp hpool'
  obtain rfl := Memo.returned_unique (Database.typed_of_reach hrun) h h'
  exact ⟨rfl, rfl⟩

end

/-! ### The command -/

section

variable {δ μ : Type*} [DecidableEq δ] (M : Migrations δ μ) (sqlx : Sqlx) (config : DatabaseConfig)

/-- `MigrationMigrateCommand::execute`, with the value of `--connection`. -/
def migrationMigrate (requested : Option String) (dbs : δ → Finset μ) :
    (δ → Finset μ) × Except FacadeError Unit :=
  match config.resolveConnection requested with
  | .error err => (dbs, .error err)
  | .ok connection =>
    let migrated := migrate M sqlx config dbs connection (config.migrationsPathFor connection)
    (migrated.1, migrated.2.mapError .database)

/-- The command given again and again, until it fails. -/
def migrateCommands : List (Option String) → (δ → Finset μ) →
    (δ → Finset μ) × Except FacadeError Unit
  | [], dbs => (dbs, .ok ())
  | requested :: rest, dbs =>
    match migrationMigrate M sqlx config requested dbs with
    | (dbs', .ok ()) => migrateCommands rest dbs'
    | (dbs', .error err) => (dbs', .error err)

variable {M sqlx config}

theorem migrateCommands_eq {requests : List (Option String)} {names : List String}
    (h : List.Forall₂ (fun requested name => config.resolveConnection requested = .ok name)
      requests names) (dbs : δ → Finset μ) :
    migrateCommands M sqlx config requests dbs =
      let migrated := migrateTargets M sqlx config
        (names.map fun name => (name, config.migrationsPathFor name)) dbs
      (migrated.1, migrated.2.mapError .database) := by
  induction h generalizing dbs with
  | nil => rfl
  | @cons requested name requests names hname _ ih =>
    rw [migrateCommands, List.map_cons, migrateTargets, migrationMigrate, hname]
    dsimp only
    cases hmigrate : migrate M sqlx config dbs name (config.migrationsPathFor name) with
    | mk dbs' result =>
      cases result with
      | ok => exact ih dbs'
      | error err => rfl

end

/-- **Migrating at boot is the command**, without an argument for the default connection, and
then for each connection with a path of its own, in the order of their names. -/
theorem boot_eq_commands {δ μ : Type*} [DecidableEq δ] {M : Migrations δ μ} {sqlx : Sqlx}
    {conf : Config} {loaded : LoadedConfig}
    (hauto : conf.value readBool "database.auto_migrate" false = true)
    (iteration : Iteration loaded) (dbs : δ → Finset μ) :
    migrateCommands M sqlx loaded.toDatabaseConfig
        ((loaded.default.map fun _ => none).toList ++ iteration.others.map some) dbs =
      let booted := bootMigrations M sqlx conf iteration dbs
      (booted.1, booted.2.mapError .database) := by
  have hrequests : List.Forall₂ (fun requested name =>
      loaded.toDatabaseConfig.resolveConnection requested = .ok name)
      ((loaded.default.map fun _ => none).toList ++ iteration.others.map some)
      (loaded.default.toList ++ iteration.others) := by
    refine List.rel_append ?_ ?_
    · cases hdefault : loaded.default with
      | none => exact .nil
      | some name =>
        refine .cons ?_ .nil
        rw [DatabaseConfig.resolveConnection, DatabaseConfig.defaultName, hdefault]
    · exact List.forall₂_map_left_iff.mpr (List.forall₂_same.mpr fun _ _ => rfl)
  rw [migrateCommands_eq hrequests, bootMigrations_eq hauto, iteration.autoMigrateTargets_eq]

end Kolas.Database

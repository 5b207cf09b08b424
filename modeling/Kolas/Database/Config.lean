import Kolas.Config.Config

/-!
# The `database` section

`DatabaseConfig` and `ConnectionConfig` of `database/config.rs`, and what serde's
derived `Deserialize` makes of a section: a struct is read from a table by the
names of its fields, or from an array by their positions, a field that is not
there has its default, and one that does not deserialize fails the whole.

How a single value becomes a `String`, a number or an enum is `serde`'s and
`toml`'s: the fields of a parameter, `Serde`.  `Serde.Lawful` is what is used of
them.
-/

namespace Kolas.Database

open Kolas.Lib Kolas.Config

inductive DriverKind
  | postgres
  | mysql
  | sqlite
  deriving DecidableEq, Repr

structure PoolConfig where
  max : Option Nat
  min : Option Nat
  acquireTimeoutMs : Option Nat
  idleTimeoutMs : Option Nat
  maxLifetimeMs : Option Nat
  deriving DecidableEq, Repr

structure ConnectionConfig where
  driver : DriverKind
  url : Option String
  host : Option String
  port : Option Nat
  database : Option String
  username : Option String
  password : Option String
  read : List String
  migrationsPath : Option String
  pool : PoolConfig
  deriving DecidableEq, Repr

/-- `connections` is in the order of the names. -/
structure DatabaseConfig where
  default : Option String
  autoMigrate : Bool
  migrationsPath : Option String
  connections : List (String × ConnectionConfig)
  deriving DecidableEq, Repr

/-- `Deserialize` for the types of the fields, from a `toml::Value`. -/
structure Serde where
  string : Value → Option String
  bool : Value → Option Bool
  u16 : Value → Option Nat
  u32 : Value → Option Nat
  u64 : Value → Option Nat
  vecString : Value → Option (List String)
  driverKind : Value → Option DriverKind

/-- A `String` is read from a string, and not from a number or a boolean. -/
structure Serde.Lawful (S : Serde) : Prop where
  string : ∀ s, S.string (.string s) = some s
  boolean : ∀ b, S.string (.boolean b) = none
  integer : ∀ i, S.string (.integer i) = none
  float : ∀ literal, S.string (.float literal) = none

/-- An integer of the type whose values are below `2 ^ bits`. -/
def unsigned (bits : Nat) : Value → Option Nat
  | .integer i => if 0 ≤ i ∧ i < 2 ^ bits then some i.toNat else none
  | _ => none

/-- A `String` from a string, or from the text of a date. -/
def text : Value → Option String
  | .string s => some s
  | .datetime t => some t
  | _ => none

/-- The scalars as `toml` reads them; the name of an enum's variant is a string. -/
def tomlSerde : Serde where
  string := text
  bool
    | .boolean b => some b
    | _ => none
  u16 := unsigned 16
  u32 := unsigned 32
  u64 := unsigned 64
  vecString
    | .array items => items.mapM text
    | _ => none
  driverKind
    | .string "postgres" => some .postgres
    | .string "mysql" => some .mysql
    | .string "sqlite" => some .sqlite
    | _ => none

theorem tomlSerde_lawful : tomlSerde.Lawful where
  string _ := rfl
  boolean _ := rfl
  integer _ := rfl
  float _ := rfl

/-- The value of each field, for a struct whose fields are `names`. -/
def structFields (names : List String) : Value → Option (String → Option Value)
  | .table entries => some fun name => entries.lookup name
  | .array items =>
    if items.length ≤ names.length then some fun name => items[names.idxOf name]? else none
  | _ => none

/-- A field with `#[serde(default)]`. -/
def defaulted {α : Type} (default : α) (deserialize : Value → Option α) : Option Value → Option α
  | some v => deserialize v
  | none => some default

/-- A field of type `Option<T>` with `#[serde(default)]`. -/
def optional {α : Type} (deserialize : Value → Option α) : Option Value → Option (Option α) :=
  defaulted none fun v => (deserialize v).map some

variable (S : Serde)

def PoolConfig.deserialize (v : Value) : Option PoolConfig := do
  let field ← structFields
    ["max", "min", "acquire_timeout_ms", "idle_timeout_ms", "max_lifetime_ms"] v
  let max ← optional S.u32 (field "max")
  let min ← optional S.u32 (field "min")
  let acquireTimeoutMs ← optional S.u64 (field "acquire_timeout_ms")
  let idleTimeoutMs ← optional S.u64 (field "idle_timeout_ms")
  let maxLifetimeMs ← optional S.u64 (field "max_lifetime_ms")
  return ⟨max, min, acquireTimeoutMs, idleTimeoutMs, maxLifetimeMs⟩

/-- A connection from its fields. -/
def ConnectionConfig.ofFields (field : String → Option Value) : Option ConnectionConfig := do
  let driver ← (field "driver").bind S.driverKind
  let url ← optional S.string (field "url")
  let host ← optional S.string (field "host")
  let port ← optional S.u16 (field "port")
  let database ← optional S.string (field "database")
  let username ← optional S.string (field "username")
  let password ← optional S.string (field "password")
  let read ← defaulted [] S.vecString (field "read")
  let migrationsPath ← optional S.string (field "migrations_path")
  let pool ← defaulted ⟨none, none, none, none, none⟩ (PoolConfig.deserialize S) (field "pool")
  return ⟨driver, url, host, port, database, username, password, read, migrationsPath, pool⟩

def ConnectionConfig.deserialize (v : Value) : Option ConnectionConfig :=
  (structFields ["driver", "url", "host", "port", "database", "username", "password", "read",
    "migrations_path", "pool"] v).bind (ConnectionConfig.ofFields S)

/-- A `HashMap` from a table's entries, one after another. -/
def deserializeEntries {α : Type} (deserialize : Value → Option α) :
    Entries → Option (List (String × α))
  | [] => some []
  | (name, v) :: rest => do
    let a ← deserialize v
    let as ← deserializeEntries deserialize rest
    return (name, a) :: as

def deserializeMap {α : Type} (deserialize : Value → Option α) :
    Value → Option (List (String × α))
  | .table entries => deserializeEntries deserialize entries
  | _ => none

/-- A `database` section from its fields. -/
def DatabaseConfig.ofFields (field : String → Option Value) : Option DatabaseConfig := do
  let default ← optional S.string (field "default")
  let autoMigrate ← defaulted false S.bool (field "auto_migrate")
  let migrationsPath ← optional S.string (field "migrations_path")
  let connections ← defaulted [] (deserializeMap (ConnectionConfig.deserialize S))
    (field "connections")
  return ⟨default, autoMigrate, migrationsPath, connections⟩

def DatabaseConfig.deserialize (v : Value) : Option DatabaseConfig :=
  (structFields ["default", "auto_migrate", "migrations_path", "connections"] v).bind
    (DatabaseConfig.ofFields S)

/-- `Config::try_get::<DatabaseConfig>("database")`. -/
def tryGetDatabase (config : Config) : Option DatabaseConfig :=
  (config.resolve "database").bind (DatabaseConfig.deserialize S)

/-- The configuration `Database::install_global` installs. -/
def installGlobal (config : Config) : DatabaseConfig :=
  (tryGetDatabase S config).getD ⟨none, false, none, []⟩

end Kolas.Database

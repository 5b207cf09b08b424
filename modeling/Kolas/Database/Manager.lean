import Kolas.Database.Driver
import Kolas.Lib.Memo

/-!
# The pools

`database/manager.rs`: `connection_for` and `any_pool_for`, each over its own cache
of pools by connection name.  A call looks into the cache under the read lock,
builds a pool with no lock held, and puts it in under the write lock with
`entry(..).or_insert(..)`; the sections under a lock are atomic.  Any number of
calls run at the same time, and a call may be dropped while it waits.

Nothing is connected when a pool is built.  A pool is what it was built from and a
number of its own: clones of one pool are equal, and other pools are not.

* `typed_of_reach`, `any_of_reach`: either half of a run is a run of one cache.
* `pools_agree`: one pool for one name, whatever the calls do.
-/

set_option linter.dupNamespace false

namespace Kolas.Database

open Kolas.Lib

/-- `PoolOptions`, as far as it is set; times are in milliseconds. -/
structure PoolOptions where
  maxConnections : Option Nat
  minConnections : Option Nat
  acquireTimeout : Option Nat
  idleTimeout : Option Nat
  maxLifetime : Option Nat
  deriving DecidableEq, Repr

def PoolOptions.new : PoolOptions := ⟨none, none, none, none, none⟩

/-- The options of a pool; they are the same for the four kinds of pools. -/
def configureOptions (p : PoolConfig) : PoolOptions :=
  let o := PoolOptions.new
  let o := match p.max with
    | some v => { o with maxConnections := some v }
    | none => o
  let o := match p.min with
    | some v => { o with minConnections := some v }
    | none => o
  let o := match p.acquireTimeoutMs with
    | some ms => { o with acquireTimeout := some ms }
    | none => o
  let o := match p.idleTimeoutMs with
    | some ms => { o with idleTimeout := some ms }
    | none => o
  match p.maxLifetimeMs with
  | some ms => { o with maxLifetime := some ms }
  | none => o

def configurePgOptions : PoolConfig → PoolOptions := configureOptions
def configureMysqlOptions : PoolConfig → PoolOptions := configureOptions
def configureSqliteOptions : PoolConfig → PoolOptions := configureOptions
def configureAnyOptions : PoolConfig → PoolOptions := configureOptions

/-- A typed pool, with its number. -/
structure Pool where
  id : Nat
  options : PoolOptions
  connectOptions : ConnectOptions
  deriving DecidableEq, Repr

structure AnyPool where
  id : Nat
  options : PoolOptions
  url : String
  deriving DecidableEq, Repr

inductive Connection
  | postgres (pool : Pool)
  | mySql (pool : Pool)
  | sqlite (pool : Pool)
  deriving DecidableEq, Repr

/-- The driver a variant is for. -/
def Connection.kind : Connection → DriverKind
  | .postgres _ => .postgres
  | .mySql _ => .mysql
  | .sqlite _ => .sqlite

def DatabaseConfig.connection (config : DatabaseConfig) (name : String) :
    Except DatabaseError ConnectionConfig :=
  match config.connections.lookup name with
  | some cfg => .ok cfg
  | none => .error (.unknownConnection name)

variable (sqlx : Sqlx) (config : DatabaseConfig)

/-- `build_typed`, for the pool with the number `id`. -/
def buildTyped (id : Nat) (name : String) (cfg : ConnectionConfig) :
    Except DatabaseError Connection :=
  match cfg.driver with
  | .postgres => do
    let opts ← pgOptions sqlx name cfg
    return .postgres ⟨id, configurePgOptions cfg.pool, opts⟩
  | .mysql => do
    let opts ← mysqlOptions sqlx name cfg
    return .mySql ⟨id, configureMysqlOptions cfg.pool, opts⟩
  | .sqlite => do
    let opts ← sqliteOptions sqlx name cfg
    return .sqlite ⟨id, configureSqliteOptions cfg.pool, opts⟩

/-- `connect_lazy` of an `AnyPool`. -/
def connectLazy (id : Nat) (name url : String) (options : PoolOptions) :
    Except DatabaseError AnyPool :=
  match sqlx.anyAccepts url with
  | .ok () => .ok ⟨id, options, url⟩
  | .error source => .error (.invalidUrl name source)

/-- What `connection_for` does between its two sections. -/
def newConnection (id : Nat) (name : String) : Except DatabaseError Connection := do
  let cfg ← config.connection name
  buildTyped sqlx id name cfg

/-- What `any_pool_for` does between its two sections. -/
def newAnyPool (id : Nat) (name : String) : Except DatabaseError AnyPool := do
  let cfg ← config.connection name
  let url ← anyUrl name cfg
  connectLazy sqlx id name url (configureAnyOptions cfg.pool)

/-! ### What is built -/

def Connection.pool : Connection → Pool
  | .postgres pool | .mySql pool | .sqlite pool => pool

/-- One of the errors a call may give, naming its connection. -/
def DatabaseError.IsFor (err : DatabaseError) (name : String) : Prop :=
  err = .unknownConnection name ∨ (∃ field, err = .missingField name field) ∨
    ∃ source, err = .invalidUrl name source

variable {sqlx config} {id : Nat} {name : String}

theorem bind_eq_ok {α β : Type} {x : Except DatabaseError α} {f : α → Except DatabaseError β}
    {b : β} (h : (x >>= f) = .ok b) : ∃ a, x = .ok a ∧ f a = .ok b := by
  cases x with
  | error err => cases h
  | ok a => exact ⟨a, rfl, h⟩

theorem bind_eq_error {α β : Type} {x : Except DatabaseError α} {f : α → Except DatabaseError β}
    {err : DatabaseError} (h : (x >>= f) = .error err) :
    x = .error err ∨ ∃ a, x = .ok a ∧ f a = .error err := by
  cases x with
  | error err' => exact .inl (congrArg Except.error (Except.error.inj h))
  | ok a => exact .inr ⟨a, rfl, h⟩

/-- **The pool is of the configured driver**, and has the number it is given. -/
theorem newConnection_ok {conn : Connection} (h : newConnection sqlx config id name = .ok conn) :
    ∃ cfg, config.connection name = .ok cfg ∧ conn.kind = cfg.driver ∧ conn.pool.id = id := by
  obtain ⟨cfg, hcfg, hconn⟩ := bind_eq_ok h
  refine ⟨cfg, hcfg, ?_⟩
  unfold buildTyped at hconn
  cases hdriver : cfg.driver with
  | postgres | mysql | sqlite =>
    rw [hdriver] at hconn
    obtain ⟨opts, -, hconn⟩ := bind_eq_ok hconn
    exact Except.ok.inj hconn ▸ ⟨rfl, rfl⟩

theorem newAnyPool_ok {pool : AnyPool} (h : newAnyPool sqlx config id name = .ok pool) :
    ∃ cfg, config.connection name = .ok cfg ∧ anyUrl name cfg = .ok pool.url ∧ pool.id = id := by
  obtain ⟨cfg, hcfg, hpool⟩ := bind_eq_ok h
  obtain ⟨url, hurl, hpool⟩ := bind_eq_ok hpool
  refine ⟨cfg, hcfg, ?_⟩
  unfold connectLazy at hpool
  split at hpool
  · exact Except.ok.inj hpool ▸ ⟨hurl, rfl⟩
  · cases hpool

theorem required_error {field : String} {text : Option String} {err : DatabaseError}
    (h : required name field text = .error err) : err.IsFor name := by
  cases text with
  | none => exact .inr (.inl ⟨field, (Except.error.inj h).symm⟩)
  | some s => cases h

theorem connection_error {err : DatabaseError} (h : config.connection name = .error err) :
    err.IsFor name := by
  unfold DatabaseConfig.connection at h
  split at h
  · cases h
  · exact .inl (Except.error.inj h).symm

theorem optionsByFields_error {fromStr : String → Except String ConnectOptions}
    {cfg : ConnectionConfig} {err : DatabaseError}
    (h : optionsByFields fromStr name cfg = .error err) : err.IsFor name := by
  unfold optionsByFields at h
  split at h
  · split at h
    · cases h
    · rename_i source _
      exact .inr (.inr ⟨source, (Except.error.inj h).symm⟩)
  · rcases bind_eq_error h with h | ⟨host, -, h⟩
    · exact required_error h
    · rcases bind_eq_error h with h | ⟨database, -, h⟩
      · exact required_error h
      · cases h

theorem sqliteOptions_error {cfg : ConnectionConfig} {err : DatabaseError}
    (h : sqliteOptions sqlx name cfg = .error err) : err.IsFor name := by
  unfold sqliteOptions at h
  split at h
  · exact .inr (.inl ⟨"url", (Except.error.inj h).symm⟩)
  · split at h
    · cases h
    · rename_i source _
      exact .inr (.inr ⟨source, (Except.error.inj h).symm⟩)

theorem newConnection_error {err : DatabaseError}
    (h : newConnection sqlx config id name = .error err) : err.IsFor name := by
  rcases bind_eq_error h with h | ⟨cfg, -, h⟩
  · exact connection_error h
  unfold buildTyped at h
  cases hdriver : cfg.driver with
  | postgres | mysql =>
    rw [hdriver] at h
    rcases bind_eq_error h with h | ⟨opts, -, h⟩
    · exact optionsByFields_error h
    · cases h
  | sqlite =>
    rw [hdriver] at h
    rcases bind_eq_error h with h | ⟨opts, -, h⟩
    · exact sqliteOptions_error h
    · cases h

theorem anyUrl_error {cfg : ConnectionConfig} {err : DatabaseError}
    (h : anyUrl name cfg = .error err) : err.IsFor name := by
  have hfields : ∀ {f : String → String → String},
      (do let host ← required name "host" cfg.host
          let database ← required name "database" cfg.database
          return f host database) = Except.error err → err.IsFor name := by
    intro f h
    rcases bind_eq_error h with h | ⟨host, -, h⟩
    · exact required_error h
    · rcases bind_eq_error h with h | ⟨database, -, h⟩
      · exact required_error h
      · cases h
  unfold anyUrl at h
  split at h
  · cases h
  · split at h
    · exact .inr (.inl ⟨"url", (Except.error.inj h).symm⟩)
    · exact hfields h
    · exact hfields h

theorem newAnyPool_error {err : DatabaseError} (h : newAnyPool sqlx config id name = .error err) :
    err.IsFor name := by
  rcases bind_eq_error h with h | ⟨cfg, -, h⟩
  · exact connection_error h
  rcases bind_eq_error h with h | ⟨url, -, h⟩
  · exact anyUrl_error h
  unfold connectLazy at h
  split at h
  · cases h
  · rename_i source _
    exact .inr (.inr ⟨source, (Except.error.inj h).symm⟩)

variable (sqlx config)

/-! ### The calls -/

/-- The two caches, with the calls over each. -/
structure Database where
  typed : Memo String Connection DatabaseError
  any : Memo String AnyPool DatabaseError

inductive DatabaseAction
  | connectionFor (a : MemoAction String)
  | anyPoolFor (a : MemoAction String)
  deriving DecidableEq, Repr

namespace Database

def new : Database := ⟨.init, .init⟩

def step (s : Database) : DatabaseAction → Option Database
  | .connectionFor a =>
    (s.typed.step (newConnection sqlx config) a).map fun typed => { s with typed }
  | .anyPoolFor a => (s.any.step (newAnyPool sqlx config) a).map fun any => { s with any }

variable {sqlx config} {s t u : Database}

/-- **The calls of `connection_for` see one cache**, whatever the others do. -/
theorem typed_of_reach (h : Reach (step sqlx config) s t) :
    Reach (Memo.step (newConnection sqlx config)) s.typed t.typed := by
  refine h.simulate fun u v a hstep => ?_
  cases a with
  | connectionFor a =>
    obtain ⟨typed, htyped, rfl⟩ := Option.map_eq_some_iff.mp hstep
    exact .inr ⟨a, htyped⟩
  | anyPoolFor a =>
    obtain ⟨any, -, rfl⟩ := Option.map_eq_some_iff.mp hstep
    exact .inl rfl

theorem any_of_reach (h : Reach (step sqlx config) s t) :
    Reach (Memo.step (newAnyPool sqlx config)) s.any t.any := by
  refine h.simulate fun u v a hstep => ?_
  cases a with
  | connectionFor a =>
    obtain ⟨typed, -, rfl⟩ := Option.map_eq_some_iff.mp hstep
    exact .inl rfl
  | anyPoolFor a =>
    obtain ⟨any, hany, rfl⟩ := Option.map_eq_some_iff.mp hstep
    exact .inr ⟨a, hany⟩

/-- The call that the step is one of has failed in the end. -/
def FailedIn (u : Database) (a : DatabaseAction) : Prop :=
  match a with
  | .connectionFor a => ∃ i name err, a.caller = some i ∧ u.typed.calls[i]? = some (.failed name err)
  | .anyPoolFor a => ∃ i name err, a.caller = some i ∧ u.any.calls[i]? = some (.failed name err)

/-- A call that fails leaves both caches unchanged, at each of its steps. -/
theorem caches_eq_of_failed {a : DatabaseAction} (h : step sqlx config s a = some t)
    (hrest : Reach (step sqlx config) t u) (hfailed : u.FailedIn a) :
    t.typed.cache = s.typed.cache ∧ t.any.cache = s.any.cache := by
  cases a with
  | connectionFor a =>
    obtain ⟨typed, htyped, rfl⟩ := Option.map_eq_some_iff.mp h
    obtain ⟨i, name, err, hcaller, hcall⟩ := hfailed
    refine ⟨Memo.cache_eq_of_not_returned htyped hcaller (typed_of_reach hrest) ?_, rfl⟩
    intro key value hreturned
    rw [hcall] at hreturned
    cases hreturned
  | anyPoolFor a =>
    obtain ⟨any, hany, rfl⟩ := Option.map_eq_some_iff.mp h
    obtain ⟨i, name, err, hcaller, hcall⟩ := hfailed
    refine ⟨rfl, Memo.cache_eq_of_not_returned hany hcaller (any_of_reach hrest) ?_⟩
    intro key value hreturned
    rw [hcall] at hreturned
    cases hreturned

/-- **A failed call names its connection** in its error. -/
theorem failed_isFor (hrun : Reach (step sqlx config) new s) {name : String} {err : DatabaseError}
    (h : .failed name err ∈ s.typed.calls ∨ .failed name err ∈ s.any.calls) : err.IsFor name := by
  rcases h with h | h
  · obtain ⟨n, -, herr⟩ := (Memo.kept_of_reach (typed_of_reach hrun)).calls _ h
    exact newConnection_error herr
  · obtain ⟨n, -, herr⟩ := (Memo.kept_of_reach (any_of_reach hrun)).calls _ h
    exact newAnyPool_error herr

/-- **A pool of `any_pool_for` is for the URL** of its name's entry. -/
theorem url_of_returned (hrun : Reach (step sqlx config) new s) {name : String} {pool : AnyPool}
    (h : .returned name pool ∈ s.any.calls) :
    ∃ cfg, config.connection name = .ok cfg ∧ anyUrl name cfg = .ok pool.url := by
  obtain ⟨n, -, hbuilt⟩ := Memo.built_of_returned (any_of_reach hrun) h
  obtain ⟨cfg, hcfg, hurl, -⟩ := newAnyPool_ok hbuilt
  exact ⟨cfg, hcfg, hurl⟩

/-- **One pool for one name**: in every run the calls of either kind that succeed
for a name return the same pool, which for `connection_for` is of the configured
driver; a call that fails leaves the caches unchanged, and no step takes a pool out
of a cache or replaces it. -/
theorem pools_agree (hrun : Reach (step sqlx config) new s) :
    (∀ name conn conn', .returned name conn ∈ s.typed.calls →
      .returned name conn' ∈ s.typed.calls → conn = conn') ∧
    (∀ name pool pool', .returned name pool ∈ s.any.calls →
      .returned name pool' ∈ s.any.calls → pool = pool') ∧
    (∀ name conn, .returned name conn ∈ s.typed.calls →
      ∃ cfg, config.connection name = .ok cfg ∧ conn.kind = cfg.driver) ∧
    (∀ a t u, step sqlx config s a = some t → Reach (step sqlx config) t u → u.FailedIn a →
      t.typed.cache = s.typed.cache ∧ t.any.cache = s.any.cache) ∧
    ∀ t, Reach (step sqlx config) s t →
      Memo.Extends s.typed.cache t.typed.cache ∧ Memo.Extends s.any.cache t.any.cache := by
  refine ⟨?_, ?_, ?_, ?_, ?_⟩
  · intro name conn conn' hconn hconn'
    exact Memo.returned_unique (typed_of_reach hrun) hconn hconn'
  · intro name pool pool' hpool hpool'
    exact Memo.returned_unique (any_of_reach hrun) hpool hpool'
  · intro name conn hconn
    obtain ⟨n, -, hbuilt⟩ := Memo.built_of_returned (typed_of_reach hrun) hconn
    obtain ⟨cfg, hcfg, hkind, -⟩ := newConnection_ok hbuilt
    exact ⟨cfg, hcfg, hkind⟩
  · exact fun a t u hstep hrest hfailed => caches_eq_of_failed hstep hrest hfailed
  · intro t ht
    exact ⟨Memo.cache_mono (typed_of_reach ht), Memo.cache_mono (any_of_reach ht)⟩

/-- One connection, to Postgres. -/
def onePrimary : DatabaseConfig :=
  ⟨some "primary", false, none, [("primary", connectionTo .postgres none none none)]⟩

/-- Both calls miss and build; the second one is the first to put its pool in.  A
third call fails. -/
def racingBuilders : List DatabaseAction :=
  [.connectionFor (.call "primary"), .connectionFor (.call "primary"), .connectionFor (.read 0),
    .connectionFor (.read 1), .connectionFor (.build 0), .connectionFor (.build 1),
    .connectionFor (.insert 1), .connectionFor (.call "nope"), .connectionFor (.read 2),
    .connectionFor (.build 2), .connectionFor (.insert 0)]

theorem pools_agree_racingBuilders : ∃ s, run (step noUrls onePrimary) new racingBuilders = some s ∧
    s.typed.builds = 3 ∧ ∃ conn, s.typed.calls[0]? = some (.returned "primary" conn) ∧
      conn.pool.id = 1 ∧ ∀ conn', .returned "primary" conn' ∈ s.typed.calls → conn' = conn := by
  obtain ⟨s, hs, hbuilds, conn, hconn, hid⟩ : ∃ s,
      run (step noUrls onePrimary) new racingBuilders = some s ∧ s.typed.builds = 3 ∧
        ∃ conn, s.typed.calls[0]? = some (.returned "primary" conn) ∧ conn.pool.id = 1 :=
    ⟨_, rfl, rfl, _, rfl, rfl⟩
  refine ⟨s, hs, hbuilds, conn, hconn, hid, fun conn' hconn' => ?_⟩
  exact (pools_agree (reach_of_run hs)).1 "primary" conn' conn hconn' (List.mem_of_getElem? hconn)

end Database

end Kolas.Database

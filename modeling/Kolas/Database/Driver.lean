import Kolas.Database.Config
import Kolas.Lib.Url

/-!
# Connect options and URLs

`database/driver.rs` and `database/error.rs`: what SQLx is given for a connection,
as options that are set one by one (`pgOptions`, `mysqlOptions`, `sqliteOptions`)
or as a URL (`anyUrl`).  What SQLx makes of a URL is a parameter, `Sqlx`.

* `PathsAgree`: both ways fail with the same error, or the URL reads as the
  options that are set.
* `pathsAgree_iff`: they agree unless there is a password and no user name, which
  the URL leaves out.
-/

namespace Kolas.Database

open Kolas.Lib

/-- The part of `DatabaseError` that is raised or passed on here; an error of SQLx
is its message. -/
inductive DatabaseError
  | unknownConnection (name : String)
  | missingField (name field : String)
  | invalidUrl (name source : String)
  | pool (source : String)
  | migrate (source : String)
  deriving DecidableEq, Repr

/-- What has been set of a `PgConnectOptions` or a `MySqlConnectOptions`; SQLx has
its defaults for the rest. -/
structure ConnectOptions where
  host : Option String
  port : Option Nat
  database : Option String
  username : Option String
  password : Option String
  deriving DecidableEq, Repr

def ConnectOptions.new : ConnectOptions := ⟨none, none, none, none, none⟩

/-- `FromStr` of the three drivers' options, and whether `AnyPoolOptions` accepts a
URL; errors are their messages. -/
structure Sqlx where
  pgFromStr : String → Except String ConnectOptions
  mysqlFromStr : String → Except String ConnectOptions
  sqliteFromStr : String → Except String ConnectOptions
  anyAccepts : String → Except String Unit

def DriverKind.asStr : DriverKind → String
  | .postgres => "postgres"
  | .mysql => "mysql"
  | .sqlite => "sqlite"

def missing (name field : String) : DatabaseError := .missingField name field

/-- `ok_or_else(|| missing(name, field))`. -/
def required (name field : String) (text : Option String) : Except DatabaseError String :=
  match text with
  | some s => .ok s
  | none => .error (missing name field)

/-- The user's part of a URL. -/
def userinfo (user pass : String) : String :=
  match user.isEmpty, pass.isEmpty with
  | true, _ => ""
  | false, true => user ++ "@"
  | false, false => user ++ ":" ++ pass ++ "@"

def anyUrl (name : String) (cfg : ConnectionConfig) : Except DatabaseError String :=
  match cfg.url with
  | some url => .ok url
  | none =>
    match cfg.driver with
    | .sqlite => .error (missing name "url")
    | .postgres | .mysql => do
      let host ← required name "host" cfg.host
      let database ← required name "database" cfg.database
      let user := cfg.username.getD ""
      let pass := cfg.password.getD ""
      let userinfo := userinfo user pass
      let portPart := match cfg.port with
        | some p => ":" ++ toString p
        | none => ""
      return cfg.driver.asStr ++ "://" ++ userinfo ++ host ++ portPart ++ "/" ++ database

/-- A text that is set if it is there and not empty. -/
def nonEmpty (text : Option String) : Option String := text.filter (!·.isEmpty)

/-- The options of the two drivers that are set by fields. -/
def optionsByFields (fromStr : String → Except String ConnectOptions) (name : String)
    (cfg : ConnectionConfig) : Except DatabaseError ConnectOptions :=
  match cfg.url with
  | some url =>
    match fromStr url with
    | .ok opts => .ok opts
    | .error source => .error (.invalidUrl name source)
  | none => do
    let host ← required name "host" cfg.host
    let database ← required name "database" cfg.database
    return { ConnectOptions.new with
      host := some host
      database := some database
      port := cfg.port
      username := nonEmpty cfg.username
      password := nonEmpty cfg.password }

variable (sqlx : Sqlx)

def pgOptions (name : String) (cfg : ConnectionConfig) : Except DatabaseError ConnectOptions :=
  optionsByFields sqlx.pgFromStr name cfg

def mysqlOptions (name : String) (cfg : ConnectionConfig) : Except DatabaseError ConnectOptions :=
  optionsByFields sqlx.mysqlFromStr name cfg

def sqliteOptions (name : String) (cfg : ConnectionConfig) : Except DatabaseError ConnectOptions :=
  match cfg.url with
  | none => .error (missing name "url")
  | some url =>
    match sqlx.sqliteFromStr url with
    | .ok opts => .ok opts
    | .error source => .error (.invalidUrl name source)

/-- The options of the connection's driver. -/
def typedOptions (name : String) (cfg : ConnectionConfig) : Except DatabaseError ConnectOptions :=
  match cfg.driver with
  | .postgres => pgOptions sqlx name cfg
  | .mysql => mysqlOptions sqlx name cfg
  | .sqlite => sqliteOptions sqlx name cfg

/-! ### The two ways -/

/-- What a URL says of the options. -/
def ConnectOptions.ofUrl (url : Url) : ConnectOptions :=
  ⟨some url.host, url.port, some url.path, url.user, url.password⟩

/-- Both ways fail with the same error, or the URL reads as the options. -/
def PathsAgree (name : String) (cfg : ConnectionConfig) : Prop :=
  match anyUrl name cfg, typedOptions sqlx name cfg with
  | .error err, .error err' => err = err'
  | .ok url, .ok opts => (Url.parse url).map ConnectOptions.ofUrl = some opts
  | _, _ => False

/-- The characters that stand for themselves in a URL. -/
def isUnreserved (c : Char) : Bool :=
  c.isAlphanum || c == '-' || c == '.' || c == '_' || c == '~'

/-- The connection's texts are of unreserved characters. -/
structure ConnectionConfig.Unreserved (cfg : ConnectionConfig) : Prop where
  host : ∀ s ∈ cfg.host, ∀ c ∈ s.toList, isUnreserved c = true
  database : ∀ s ∈ cfg.database, ∀ c ∈ s.toList, isUnreserved c = true
  username : ∀ s ∈ cfg.username, ∀ c ∈ s.toList, isUnreserved c = true
  password : ∀ s ∈ cfg.password, ∀ c ∈ s.toList, isUnreserved c = true

/-- The URL that `anyUrl` writes; a password needs a user name. -/
def ConnectionConfig.toUrl (cfg : ConnectionConfig) (host database : String) : Url where
  scheme := cfg.driver.asStr
  user := nonEmpty cfg.username
  password := if nonEmpty cfg.username = none then none else nonEmpty cfg.password
  host := host
  port := cfg.port
  path := database

theorem mem_nonEmpty {text : Option String} {s : String} (h : s ∈ nonEmpty text) :
    s ∈ text ∧ s ≠ "" := by
  obtain ⟨hmem, hne⟩ := Option.mem_filter_iff.mp h
  refine ⟨hmem, ?_⟩
  intro hempty
  rw [hempty] at hne
  cases hne

/-- A text that is not set is empty or missing. -/
theorem nonEmpty_cases (text : Option String) :
    (nonEmpty text = none ∧ text.getD "" = "") ∨
      ∃ s, nonEmpty text = some s ∧ text.getD "" = s ∧ s.isEmpty = false ∧ s ≠ "" := by
  cases text with
  | none => exact .inl ⟨rfl, rfl⟩
  | some s =>
    cases hs : s.isEmpty with
    | true =>
      have hfilter : nonEmpty (some s) = none := by
        unfold nonEmpty
        rw [Option.filter_some, hs]
        rfl
      exact .inl ⟨hfilter, String.isEmpty_iff.mp hs⟩
    | false =>
      have hfilter : nonEmpty (some s) = some s := by
        unfold nonEmpty
        rw [Option.filter_some, hs]
        rfl
      have hne : s ≠ "" := by
        intro hempty
        rw [hempty] at hs
        cases hs
      exact .inr ⟨s, hfilter, rfl, hs, hne⟩

theorem undelimited_of_unreserved {s : String} (h : ∀ c ∈ s.toList, isUnreserved c = true) :
    Url.Undelimited s := by
  refine ⟨?_, ?_, ?_⟩
  · exact fun hmem => absurd (h _ hmem) (by decide)
  · exact fun hmem => absurd (h _ hmem) (by decide)
  · exact fun hmem => absurd (h _ hmem) (by decide)

variable {cfg : ConnectionConfig}

theorem toUrl_wellFormed (htexts : cfg.Unreserved) {host : String} (hhost : cfg.host = some host)
    (database : String) : (cfg.toUrl host database).WellFormed where
  scheme := by
    show Url.Undelimited cfg.driver.asStr
    unfold Url.Undelimited
    cases cfg.driver <;> decide
  user := by
    intro user huser
    obtain ⟨hmem, hne⟩ := mem_nonEmpty huser
    exact ⟨hne, undelimited_of_unreserved (htexts.username user hmem)⟩
  password := by
    intro password hpassword
    unfold ConnectionConfig.toUrl at hpassword
    dsimp only at hpassword
    split at hpassword
    · cases hpassword
    · obtain ⟨hmem, hne⟩ := mem_nonEmpty hpassword
      exact ⟨hne, undelimited_of_unreserved (htexts.password password hmem)⟩
  host := undelimited_of_unreserved (htexts.host host hhost)

/-- **The URL that `anyUrl` writes.** -/
theorem anyUrl_eq (name : String) (hdriver : cfg.driver ≠ .sqlite) (hurl : cfg.url = none)
    {host database : String} (hhost : cfg.host = some host)
    (hdatabase : cfg.database = some database) :
    anyUrl name cfg = .ok (cfg.toUrl host database).text := by
  have hinfo : userinfo (cfg.username.getD "") (cfg.password.getD "") =
      (cfg.toUrl host database).userinfoText := by
    unfold userinfo Url.userinfoText ConnectionConfig.toUrl
    rcases nonEmpty_cases cfg.username with ⟨hnone, hempty⟩ | ⟨user, hsome, hget, hne, -⟩
    · rw [hnone, hempty]
      rfl
    · rcases nonEmpty_cases cfg.password with
        ⟨hnone', hempty'⟩ | ⟨pass, hsome', hget', hne', -⟩
      · rw [hsome, hget, hne, hnone', hempty']
        rfl
      · rw [hsome, hget, hne, hsome', hget', hne']
        rfl
  have htext : (cfg.toUrl host database).text = cfg.driver.asStr ++ "://" ++
      userinfo (cfg.username.getD "") (cfg.password.getD "") ++ host ++
      (match cfg.port with
        | some p => ":" ++ toString p
        | none => "") ++ "/" ++ database := by
    rw [hinfo]
    rfl
  unfold anyUrl
  rw [hurl, hhost, hdatabase, htext]
  cases hkind : cfg.driver with
  | sqlite => exact absurd hkind hdriver
  | postgres | mysql => rfl

theorem typedOptions_eq (name : String) (hdriver : cfg.driver ≠ .sqlite) (hurl : cfg.url = none)
    {host database : String} (hhost : cfg.host = some host)
    (hdatabase : cfg.database = some database) :
    typedOptions sqlx name cfg = .ok ⟨some host, cfg.port, some database,
      nonEmpty cfg.username, nonEmpty cfg.password⟩ := by
  unfold typedOptions pgOptions mysqlOptions optionsByFields
  rw [hurl, hhost, hdatabase]
  cases hkind : cfg.driver with
  | sqlite => exact absurd hkind hdriver
  | postgres | mysql => rfl

/-- Without a host or a database both ways fail, with the same error. -/
theorem pathsAgree_of_missing (name : String) (hdriver : cfg.driver ≠ .sqlite)
    (hurl : cfg.url = none) (h : cfg.host = none ∨ cfg.database = none) :
    PathsAgree sqlx name cfg := by
  unfold PathsAgree anyUrl typedOptions pgOptions mysqlOptions optionsByFields
  rw [hurl]
  cases hkind : cfg.driver with
  | sqlite => exact absurd hkind hdriver
  | postgres | mysql =>
    cases hhost : cfg.host with
    | none => rfl
    | some host =>
      obtain hdatabase : cfg.database = none := h.resolve_left (by simp [hhost])
      rw [hdatabase]
      rfl

/-- **The two ways agree** unless there is a password and no user name. -/
theorem pathsAgree_iff (name : String) (hdriver : cfg.driver ≠ .sqlite) (hurl : cfg.url = none)
    (htexts : cfg.Unreserved) :
    PathsAgree sqlx name cfg ↔ cfg.host = none ∨ cfg.database = none ∨
      cfg.username.getD "" ≠ "" ∨ cfg.password.getD "" = "" := by
  cases hhost : cfg.host with
  | none => exact iff_of_true (pathsAgree_of_missing sqlx name hdriver hurl (.inl hhost)) (.inl rfl)
  | some host =>
    cases hdatabase : cfg.database with
    | none =>
      exact iff_of_true (pathsAgree_of_missing sqlx name hdriver hurl (.inr hdatabase))
        (.inr (.inl rfl))
    | some database =>
      have hwell := toUrl_wellFormed htexts hhost database
      unfold PathsAgree
      rw [anyUrl_eq name hdriver hurl hhost hdatabase,
        typedOptions_eq sqlx name hdriver hurl hhost hdatabase]
      dsimp only
      rw [Url.parse_text hwell, Option.map_some, Option.some_inj]
      unfold ConnectionConfig.toUrl ConnectOptions.ofUrl
      rcases nonEmpty_cases cfg.username with ⟨hnone, hempty⟩ | ⟨user, hsome, hget, -, huser⟩
      · rcases nonEmpty_cases cfg.password with ⟨hnone', hempty'⟩ | ⟨pass, hsome', hget', -, hpass⟩
        · simp [hnone, hnone', hempty']
        · simp [hnone, hempty, hsome', hget', hpass]
      · simp [hsome, hget, huser]

/-- A driver that accepts no URL. -/
def noUrls : Sqlx where
  pgFromStr _ := .error "not supported"
  mysqlFromStr _ := .error "not supported"
  sqliteFromStr _ := .error "not supported"
  anyAccepts _ := .error "not supported"

/-- A connection with the port and the credentials given. -/
def connectionTo (driver : DriverKind) (port : Option Nat) (username password : Option String) :
    ConnectionConfig where
  driver := driver
  url := none
  host := some "db.internal"
  port := port
  database := some "app"
  username := username
  password := password
  read := []
  migrationsPath := none
  pool := ⟨none, none, none, none, none⟩

theorem pathsAgree_connectionTo :
    PathsAgree noUrls "primary" (connectionTo .mysql (some 3307) (some "kolas") (some "s3cret")) := by
  have htexts : (connectionTo .mysql (some 3307) (some "kolas") (some "s3cret")).Unreserved := by
    constructor
    · exact fun s hs => Option.some.inj hs ▸ List.all_eq_true.mp (by decide)
    · exact fun s hs => Option.some.inj hs ▸ List.all_eq_true.mp (by decide)
    · exact fun s hs => Option.some.inj hs ▸ List.all_eq_true.mp (by decide)
    · exact fun s hs => Option.some.inj hs ▸ List.all_eq_true.mp (by decide)
  exact (pathsAgree_iff noUrls "primary" (by decide) rfl htexts).mpr (by decide)

/-- A password without a user name reaches the options and not the URL. -/
theorem not_pathsAgree :
    ¬ PathsAgree noUrls "primary" (connectionTo .postgres none none (some "s3cret")) := by
  have hurl : anyUrl "primary" (connectionTo .postgres none none (some "s3cret")) =
      .ok "postgres://db.internal/app" := by decide
  have hopts : typedOptions noUrls "primary" (connectionTo .postgres none none (some "s3cret")) =
      .ok ⟨some "db.internal", none, some "app", none, some "s3cret"⟩ := by decide
  unfold PathsAgree
  rw [hurl, hopts]
  decide

end Kolas.Database

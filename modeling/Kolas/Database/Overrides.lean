import Kolas.Config.Names
import Kolas.Config.Overrides
import Kolas.Database.Config

/-!
# An override of a text setting of a connection

`DATABASE__CONNECTIONS__<NAME>__<FIELD>` sets one field of one connection.  Its
value is read as a boolean, an integer or a float when it is such a literal, and
then the field, an `Option<String>`, does not deserialize, nor does the section.

`override_iff`: the override sets the field to the text and changes nothing else
exactly when the text is no other literal and the connection was written as a
table.
-/

namespace Kolas.Database

open Kolas.Lib Kolas.Config

/-- The fields of `ConnectionConfig` of type `Option<String>`. -/
inductive TextField
  | url
  | host
  | database
  | username
  | password
  | migrationsPath
  deriving DecidableEq, Repr

/-- The field's name in a table. -/
def TextField.key : TextField → String
  | .url => "url"
  | .host => "host"
  | .database => "database"
  | .username => "username"
  | .password => "password"
  | .migrationsPath => "migrations_path"

/-- The field's name in a variable. -/
def TextField.variable : TextField → String
  | .url => "URL"
  | .host => "HOST"
  | .database => "DATABASE"
  | .username => "USERNAME"
  | .password => "PASSWORD"
  | .migrationsPath => "MIGRATIONS_PATH"

def ConnectionConfig.text (c : ConnectionConfig) : TextField → Option String
  | .url => c.url
  | .host => c.host
  | .database => c.database
  | .username => c.username
  | .password => c.password
  | .migrationsPath => c.migrationsPath

def ConnectionConfig.setText (c : ConnectionConfig) (field : TextField) (raw : String) :
    ConnectionConfig :=
  match field with
  | .url => { c with url := some raw }
  | .host => { c with host := some raw }
  | .database => { c with database := some raw }
  | .username => { c with username := some raw }
  | .password => { c with password := some raw }
  | .migrationsPath => { c with migrationsPath := some raw }

/-- The database configuration with one field of one connection replaced. -/
def DatabaseConfig.setText (db : DatabaseConfig) (name : String) (field : TextField)
    (raw : String) : DatabaseConfig :=
  { db with connections := db.connections.map fun e =>
      if e.1 = name then (e.1, e.2.setText field raw) else e }

variable {S : Serde}

/-! ### One connection -/

theorem ofFields_eq_some_iff {field : String → Option Value} {c : ConnectionConfig} :
    ConnectionConfig.ofFields S field = some c ↔
      (field "driver").bind S.driverKind = some c.driver ∧
        (∀ f : TextField, optional S.string (field f.key) = some (c.text f)) ∧
        optional S.u16 (field "port") = some c.port ∧
        defaulted [] S.vecString (field "read") = some c.read ∧
        defaulted ⟨none, none, none, none, none⟩ (PoolConfig.deserialize S) (field "pool") =
          some c.pool := by
  constructor
  · intro h
    simp only [ConnectionConfig.ofFields, Option.bind_eq_bind, Option.pure_def,
      Option.bind_eq_some_iff, Option.some.injEq] at h
    obtain ⟨driver, hdriver, url, hurl, host, hhost, port, hport, database, hdatabase, username,
      husername, password, hpassword, read, hread, path, hpath, pool, hpool, rfl⟩ := h
    refine ⟨Option.bind_eq_some_iff.mpr hdriver, ?_, hport, hread, hpool⟩
    intro f
    cases f <;> assumption
  · intro g
    obtain ⟨hdriver, htext, hport, hread, hpool⟩ := g
    simp only [ConnectionConfig.ofFields, Option.bind_eq_bind, Option.pure_def,
      Option.bind_eq_some_iff, Option.some.injEq]
    exact ⟨_, Option.bind_eq_some_iff.mp hdriver, _, htext .url, _, htext .host, _, hport, _, htext .database, _,
      htext .username, _, htext .password, _, hread, _, htext .migrationsPath, _, hpool, rfl⟩

/-- A key of a text field is no other field's. -/
theorem TextField.key_ne {f g : TextField} (h : g ≠ f) : g.key ≠ f.key := by
  intro hk
  apply h
  cases f <;> cases g <;> first | rfl | exact absurd hk (by decide)

theorem TextField.other_ne_key (f : TextField) {name : String}
    (h : name ∈ ["driver", "port", "read", "pool"]) : name ≠ f.key := by
  rintro rfl
  cases f <;> exact absurd h (by decide)

theorem text_setText_self (c : ConnectionConfig) (f : TextField) (raw : String) :
    (c.setText f raw).text f = some raw := by
  cases f <;> rfl

theorem text_setText_of_ne (c : ConnectionConfig) {f g : TextField} (h : g ≠ f) (raw : String) :
    (c.setText f raw).text g = c.text g := by
  cases f <;> cases g <;> first | exact absurd rfl h | rfl

/-- Nothing but the text is set. -/
theorem setText_other (c : ConnectionConfig) (f : TextField) (raw : String) :
    (c.setText f raw).driver = c.driver ∧ (c.setText f raw).port = c.port ∧
      (c.setText f raw).read = c.read ∧ (c.setText f raw).pool = c.pool := by
  cases f <;> exact ⟨rfl, rfl, rfl, rfl⟩

/-- Setting a text field to a string sets it in the connection. -/
theorem ofFields_insert_string {entries : Entries} {c : ConnectionConfig} (hS : S.Lawful)
    (h : ConnectionConfig.ofFields S (fun name => entries.lookup name) = some c)
    (f : TextField) (raw : String) :
    ConnectionConfig.ofFields S (fun name =>
      (SortedMap.insert f.key (.string raw) entries).lookup name) = some (c.setText f raw) := by
  obtain ⟨hdriver, htext, hport, hread, hpool⟩ := ofFields_eq_some_iff.mp h
  obtain ⟨hsd, hsp, hsr, hspool⟩ := setText_other c f raw
  have hother : ∀ name ∈ ["driver", "port", "read", "pool"],
      (SortedMap.insert f.key (.string raw) entries).lookup name = entries.lookup name :=
    fun name hname => SortedMap.lookup_insert_of_ne (f.other_ne_key hname) _ _
  refine ofFields_eq_some_iff.mpr ⟨?_, ?_, ?_, ?_, ?_⟩
  · rw [hother "driver" (by simp), hdriver, hsd]
  · intro g
    by_cases hg : g = f
    · subst hg
      rw [SortedMap.lookup_insert_self, text_setText_self]
      simp [optional, defaulted, hS.string]
    · rw [SortedMap.lookup_insert_of_ne (TextField.key_ne hg), text_setText_of_ne c hg, htext]
  · rw [hother "port" (by simp), hport, hsp]
  · rw [hother "read" (by simp), hread, hsr]
  · rw [hother "pool" (by simp), hpool, hspool]

/-- Setting it to anything that is no string fails the connection. -/
theorem ofFields_insert_none {entries : Entries} {f : TextField} {v : Value}
    (hv : S.string v = none) :
    ConnectionConfig.ofFields S (fun name =>
      (SortedMap.insert f.key v entries).lookup name) = none := by
  rw [Option.eq_none_iff_forall_ne_some]
  intro c h
  have htext := (ofFields_eq_some_iff.mp h).2.1 f
  rw [SortedMap.lookup_insert_self] at htext
  simp [optional, defaulted, hv] at htext

/-- A table with nothing but a text field has no driver. -/
theorem ofFields_alone (f : TextField) (v : Value) :
    ConnectionConfig.ofFields S (fun name =>
      (SortedMap.insert f.key v []).lookup name) = none := by
  rw [Option.eq_none_iff_forall_ne_some]
  intro c h
  have hdriver := (ofFields_eq_some_iff.mp h).1
  rw [SortedMap.lookup_insert_of_ne (f.other_ne_key (by simp))] at hdriver
  simp at hdriver

/-! ### The section -/

section Entries

variable {α : Type} {deserialize : Value → Option α}

theorem deserializeEntries_cons_iff {name : String} {v : Value} {rest : Entries}
    {as : List (String × α)} :
    deserializeEntries deserialize ((name, v) :: rest) = some as ↔
      ∃ a as', deserialize v = some a ∧ deserializeEntries deserialize rest = some as' ∧
        as = (name, a) :: as' := by
  simp only [deserializeEntries, Option.bind_eq_bind, Option.pure_def, Option.bind_eq_some_iff,
    Option.some.injEq]
  constructor
  · intro h
    obtain ⟨a, ha, as', has, rfl⟩ := h
    exact ⟨a, as', ha, has, rfl⟩
  · intro h
    obtain ⟨a, as', ha, has, rfl⟩ := h
    exact ⟨a, ha, as', has, rfl⟩

theorem keys_deserializeEntries {entries : Entries} {as : List (String × α)}
    (h : deserializeEntries deserialize entries = some as) :
    as.map Prod.fst = entries.map Prod.fst := by
  induction entries generalizing as with
  | nil =>
    obtain rfl := Option.some.inj h
    rfl
  | cons e rest ih =>
    obtain ⟨a, as', -, hrest, rfl⟩ := deserializeEntries_cons_iff.mp h
    exact congrArg (e.1 :: ·) (ih hrest)

theorem mem_deserializeEntries {entries : Entries} {as : List (String × α)}
    (h : deserializeEntries deserialize entries = some as) {e : String × α} (he : e ∈ as) :
    ∃ v, (e.1, v) ∈ entries ∧ deserialize v = some e.2 := by
  induction entries generalizing as with
  | nil =>
    obtain rfl := Option.some.inj h
    cases he
  | cons e' rest ih =>
    obtain ⟨a, as', ha, hrest, rfl⟩ := deserializeEntries_cons_iff.mp h
    rcases List.mem_cons.mp he with rfl | he
    · exact ⟨e'.2, List.mem_cons_self, ha⟩
    · obtain ⟨v, hv, hde⟩ := ih hrest he
      exact ⟨v, List.mem_cons_of_mem _ hv, hde⟩

/-- **Replacing one entry of a map** replaces what it deserializes to, or fails
the map. -/
theorem deserializeEntries_insert {entries : Entries} {as : List (String × α)}
    (hsorted : SortedMap.Sorted entries)
    (h : deserializeEntries deserialize entries = some as) {name : String}
    (hname : name ∈ entries.map Prod.fst) (v : Value) :
    deserializeEntries deserialize (SortedMap.insert name v entries) =
      (deserialize v).map fun a => as.map fun e => if e.1 = name then (e.1, a) else e := by
  induction entries generalizing as with
  | nil => cases hname
  | cons e rest ih =>
    obtain ⟨key, v'⟩ := e
    obtain ⟨a, as', ha, hrest, rfl⟩ := deserializeEntries_cons_iff.mp h
    obtain ⟨hhead, htail⟩ := List.pairwise_cons.mp hsorted
    have hafter : ∀ k ∈ rest.map Prod.fst, key < k := by
      intro k hk
      obtain ⟨e, he, rfl⟩ := List.mem_map.mp hk
      exact hhead e he
    rcases List.mem_cons.mp hname with rfl | hmem
    · -- the names after this one are larger, so their entries stay
      have hsame : ∀ b : α, as'.map (fun e => if e.1 = name then (e.1, b) else e) = as' := by
        intro b
        have hkeep : ∀ e ∈ as', (if e.1 = name then (e.1, b) else e) = e := by
          intro e he
          have hmem : e.1 ∈ rest.map Prod.fst :=
            keys_deserializeEntries hrest ▸ List.mem_map_of_mem he
          exact if_neg (hafter e.1 hmem).ne'
        exact (List.map_congr_left hkeep).trans (List.map_id as')
      rw [SortedMap.insert_cons_self]
      cases hv : deserialize v with
      | none => simp [deserializeEntries, hv]
      | some b => simp [deserializeEntries, hv, hrest, hsame]
    · have hne : key ≠ name := (hafter name hmem).ne
      rw [SortedMap.insert_cons_gt (hafter name hmem)]
      simp only [deserializeEntries, ha, ih htail hrest hmem, List.map_cons, if_neg hne]
      cases deserialize v <;> rfl

end Entries

theorem databaseOfFields_eq_some_iff {field : String → Option Value} {db : DatabaseConfig} :
    DatabaseConfig.ofFields S field = some db ↔
      optional S.string (field "default") = some db.default ∧
        defaulted false S.bool (field "auto_migrate") = some db.autoMigrate ∧
        optional S.string (field "migrations_path") = some db.migrationsPath ∧
        defaulted [] (deserializeMap (ConnectionConfig.deserialize S)) (field "connections") =
          some db.connections := by
  constructor
  · intro h
    simp only [DatabaseConfig.ofFields, Option.bind_eq_bind, Option.pure_def,
      Option.bind_eq_some_iff, Option.some.injEq] at h
    obtain ⟨default, hdefault, autoMigrate, hauto, path, hpath, connections, hconn, rfl⟩ := h
    exact ⟨hdefault, hauto, hpath, hconn⟩
  · intro g
    obtain ⟨hdefault, hauto, hpath, hconn⟩ := g
    simp only [DatabaseConfig.ofFields, Option.bind_eq_bind, Option.pure_def,
      Option.bind_eq_some_iff, Option.some.injEq]
    exact ⟨_, hdefault, _, hauto, _, hpath, _, hconn, rfl⟩

/-- **Replacing the table of connections** in a section. -/
theorem databaseOfFields_insert {entries : Entries} {db : DatabaseConfig}
    (h : DatabaseConfig.ofFields S (fun name => entries.lookup name) = some db) (v : Value) :
    DatabaseConfig.ofFields S (fun name =>
        (SortedMap.insert "connections" v entries).lookup name) =
      (deserializeMap (ConnectionConfig.deserialize S) v).map fun connections =>
        { db with connections } := by
  obtain ⟨hdefault, hauto, hpath, -⟩ := databaseOfFields_eq_some_iff.mp h
  have hother : ∀ name, name ≠ "connections" →
      (SortedMap.insert "connections" v entries).lookup name = entries.lookup name :=
    fun name hname => SortedMap.lookup_insert_of_ne hname _ _
  cases hv : deserializeMap (ConnectionConfig.deserialize S) v with
  | none =>
    rw [Option.map_none, Option.eq_none_iff_forall_ne_some]
    intro db' h'
    have hconn := (databaseOfFields_eq_some_iff.mp h').2.2.2
    rw [SortedMap.lookup_insert_self] at hconn
    simp [defaulted, hv] at hconn
  | some connections =>
    refine databaseOfFields_eq_some_iff.mpr ⟨?_, ?_, ?_, ?_⟩
    · rw [hother "default" (by decide), hdefault]
    · rw [hother "auto_migrate" (by decide), hauto]
    · rw [hother "migrations_path" (by decide), hpath]
    · rw [SortedMap.lookup_insert_self]
      exact hv

/-! ### The variable -/

/-- `upper` is a spelling of the connection's name in a variable. -/
def Spells (unicode : String → String) (upper name : String) : Prop :=
  '_' ∉ upper.toList ∧ toLowercase unicode upper = name

/-- `DATABASE__CONNECTIONS__<NAME>__<FIELD>`. -/
def variableName (upper : String) (field : TextField) : String :=
  "DATABASE__CONNECTIONS__" ++ upper ++ "__" ++ field.variable

theorem toUpper_ascii : ∀ n < 128, (Char.ofNat n).isLower ∨ (Char.ofNat n).isDigit →
    (Char.ofNat n).toUpper ≠ '_' ∧ (Char.ofNat n).toUpper.toNat < 128 ∧
      (Char.ofNat n).toUpper.toLower = Char.ofNat n := by
  decide

/-- A name of lower-case letters and digits is spelled in upper case. -/
theorem spells_toUpper (unicode : String → String) {name : String}
    (h : ∀ c ∈ name.toList, c.isLower ∨ c.isDigit) :
    Spells unicode (String.ofList (name.toList.map Char.toUpper)) name := by
  have hchar : ∀ c ∈ name.toList,
      c.toUpper ≠ '_' ∧ c.toUpper.toNat < 128 ∧ c.toUpper.toLower = c := by
    intro c hc
    have hlt : c.toNat < 128 := by
      rcases h c hc with hlower | hdigit
      · have hz : c.toNat ≤ 'z'.toNat :=
          UInt32.le_iff_toNat_le.mp (of_decide_eq_true (Bool.and_eq_true_iff.mp hlower).2)
        exact hz.trans_lt (by decide)
      · exact (Char.isDigit_iff_toNat.mp hdigit).2.trans_lt (by decide)
    have hc' := toUpper_ascii c.toNat hlt
    rw [Char.ofNat_toNat] at hc'
    exact hc' (h c hc)
  constructor
  · intro hmem
    rw [String.toList_ofList] at hmem
    obtain ⟨c, hc, he⟩ := List.mem_map.mp hmem
    exact (hchar c hc).1 he
  · have hall : (String.ofList (name.toList.map Char.toUpper)).toList.all
        fun c => c.toNat < 128 := by
      rw [String.toList_ofList, List.all_eq_true]
      intro c hmem
      obtain ⟨c, hc, rfl⟩ := List.mem_map.mp hmem
      exact decide_eq_true (hchar c hc).2.1
    have hback : (name.toList.map Char.toUpper).map Char.toLower = name.toList := by
      rw [List.map_map]
      exact (List.map_congr_left fun c hc => (hchar c hc).2.2).trans (List.map_id _)
    rw [toLowercase, if_pos hall, String.toList_ofList, hback, String.ofList_toList]

theorem toLowercase_of_ascii (unicode : String → String) {s lower : String}
    (h : s.toList.all (fun c => c.toNat < 128) = true)
    (hlower : String.ofList (s.toList.map Char.toLower) = lower) :
    toLowercase unicode s = lower := (if_pos h).trans hlower

theorem TextField.splitDunder_variable (field : TextField) :
    splitDunder field.variable.toList = [field.variable.toList] := by
  cases field <;> decide

theorem TextField.toLowercase_variable (unicode : String → String) (field : TextField) :
    toLowercase unicode field.variable = field.key := by
  apply toLowercase_of_ascii
  · cases field <;> decide
  · cases field <;> decide

theorem overridePath_variableName {unicode : String → String} {knownSections : List String}
    (hdatabase : "database" ∈ knownSections) {upper name : String} (h : Spells unicode upper name)
    (field : TextField) :
    overridePath unicode knownSections (variableName upper field) =
      some ["database", "connections", name, field.key] := by
  obtain ⟨hplain, hlower⟩ := h
  have hlist : (variableName upper field).toList = "DATABASE".toList ++ '_' :: '_' ::
      ("CONNECTIONS".toList ++ '_' :: '_' :: (upper.toList ++ '_' :: '_' ::
        field.variable.toList)) := by
    have hbase : "DATABASE__CONNECTIONS__".toList =
        "DATABASE".toList ++ '_' :: '_' :: ("CONNECTIONS".toList ++ ['_', '_']) := by decide
    have hdunder : "__".toList = ['_', '_'] := by decide
    unfold variableName
    simp only [String.toList_append, hbase, hdunder, List.append_assoc, List.cons_append,
      List.nil_append]
  have hfirst : '_' ∉ "DATABASE".toList := by decide
  have hsecond : '_' ∉ "CONNECTIONS".toList := by decide
  have hparts : nameParts unicode (variableName upper field) =
      ["database", "connections", name, field.key] := by
    rw [nameParts, hlist, splitDunder_append_of_notMem hfirst,
      splitDunder_append_of_notMem hsecond, splitDunder_append_of_notMem hplain,
      field.splitDunder_variable]
    simp only [List.map_cons, List.map_nil, String.ofList_toList, hlower,
      field.toLowercase_variable]
    rw [toLowercase_of_ascii unicode (by decide) (by decide : _ = "database"),
      toLowercase_of_ascii unicode (by decide) (by decide : _ = "connections")]
  have hcontains : containsDunder (variableName upper field).toList = true := by
    rw [hlist]
    exact containsDunder_append _ _
  rw [overridePath, if_pos hcontains, hparts]
  exact if_pos hdatabase

/-! ### The override -/

/-- Where the connection `name` of the configuration `db` is in the tree. -/
structure Located (S : Serde) (config : Config) (db : DatabaseConfig) (name : String)
    (fields connections : Entries) (v : Value) : Prop where
  atDatabase : config.root.lookup "database" = some (.table fields)
  atConnections : fields.lookup "connections" = some (.table connections)
  atName : connections.lookup name = some v
  sorted : SortedMap.Sorted connections
  ofFields : DatabaseConfig.ofFields S (fun name => fields.lookup name) = some db
  ofEntries : deserializeEntries (ConnectionConfig.deserialize S) connections = some db.connections

theorem tryGetDatabase_of_lookup {config : Config} {fields : Entries}
    (h : config.root.lookup "database" = some (.table fields)) :
    tryGetDatabase S config = DatabaseConfig.ofFields S fun name => fields.lookup name := by
  have hresolve : config.resolve "database" = some (.table fields) := h
  rw [tryGetDatabase, hresolve]
  rfl

theorem exists_located {config : Config} {db : DatabaseConfig}
    (h : tryGetDatabase S config = some db) {name : String} {c : ConnectionConfig}
    (hc : (name, c) ∈ db.connections) :
    ∃ fields connections v, Located S config db name fields connections v ∧
      ConnectionConfig.deserialize S v = some c := by
  obtain ⟨section_, hsection, hde⟩ := Option.bind_eq_some_iff.mp h
  have hroot : config.root.lookup "database" = some section_ := hsection
  obtain ⟨fields, rfl⟩ := config.sections _ (SortedMap.mem_of_lookup hroot)
  have hdb : DatabaseConfig.ofFields S (fun name => fields.lookup name) = some db := hde
  have hconn := (databaseOfFields_eq_some_iff.mp hdb).2.2.2
  have hfields := config.wellKeyed.lookup hroot
  cases hv : fields.lookup "connections" with
  | none =>
    rw [hv] at hconn
    have hnil : [] = db.connections := Option.some.inj hconn
    rw [← hnil] at hc
    cases hc
  | some w =>
    rw [hv] at hconn
    cases w with
    | table connections =>
      have hsorted := (hfields.lookup hv).sorted
      obtain ⟨v, hmem, hv'⟩ := mem_deserializeEntries hconn hc
      exact ⟨fields, connections, v, ⟨hroot, hv, SortedMap.lookup_of_mem hsorted hmem, hsorted,
        hdb, hconn⟩, hv'⟩
    | _ => cases hconn

theorem Located.resolveParts {config : Config} {db : DatabaseConfig} {name : String}
    {fields connections : Entries} {v : Value}
    (h : Located S config db name fields connections v) :
    config.resolveParts ["database", "connections", name] = some v := by
  simp only [Config.resolveParts, List.foldl_cons, List.foldl_nil, h.atDatabase, h.atConnections,
    h.atName]

/-- **What the override does to the section**: the connection is read from its
fields with one of them set. -/
theorem tryGetDatabase_override {unicode : String → String} {config : Config}
    {db : DatabaseConfig} {upper name : String} {fields connections : Entries} {v : Value}
    (h : Located S config db name fields connections v) (hupper : Spells unicode upper name)
    (f : TextField) (raw : String) :
    tryGetDatabase S (config.applyOverrides unicode [(variableName upper f, raw)]) =
      (ConnectionConfig.ofFields S fun key =>
        (SortedMap.insert f.key (parseEnvValue raw) (Value.entries (some v))).lookup key).map
        fun c => { db with connections := db.connections.map fun e =>
          if e.1 = name then (e.1, c) else e } := by
  have hknown : "database" ∈ config.root.map Prod.fst :=
    List.mem_map_of_mem (SortedMap.mem_of_lookup h.atDatabase)
  have hname : name ∈ connections.map Prod.fst :=
    List.mem_map_of_mem (SortedMap.mem_of_lookup h.atName)
  have hroot : (config.applyOverrides unicode [(variableName upper f, raw)]).root =
      SortedMap.insert "database" (.table (SortedMap.insert "connections" (.table
        (SortedMap.insert name (.table (SortedMap.insert f.key (parseEnvValue raw)
          (Value.entries (some v)))) connections)) fields)) config.root := by
    show applyOverride unicode _ config.root _ = _
    rw [applyOverride_eq, overridePath_variableName hknown hupper]
    simp only [setPath_cons, written, h.atDatabase, h.atConnections, h.atName, Value.entries]
  have hsection := (congrArg (List.lookup "database") hroot).trans
    (SortedMap.lookup_insert_self ..)
  rw [tryGetDatabase_of_lookup hsection, databaseOfFields_insert h.ofFields, deserializeMap,
    deserializeEntries_insert h.sorted h.ofEntries hname, Option.map_map]
  rfl

theorem setText_connections {config : Config} {db : DatabaseConfig} {name : String}
    {fields connections : Entries} {v : Value}
    (h : Located S config db name fields connections v) {c : ConnectionConfig}
    (hc : ConnectionConfig.deserialize S v = some c) (f : TextField) (raw : String) :
    db.setText name f raw = { db with connections := db.connections.map fun e =>
      if e.1 = name then (e.1, c.setText f raw) else e } := by
  have hsame : ∀ e ∈ db.connections, (if e.1 = name then (e.1, e.2.setText f raw) else e) =
      if e.1 = name then (e.1, c.setText f raw) else e := by
    intro e he
    by_cases hn : e.1 = name
    · obtain ⟨w, hmem, hw⟩ := mem_deserializeEntries h.ofEntries he
      have hlookup := SortedMap.lookup_of_mem h.sorted hmem
      rw [hn, h.atName, Option.some.injEq] at hlookup
      rw [← hlookup, hc, Option.some.injEq] at hw
      rw [if_pos hn, if_pos hn, hw]
    · rw [if_neg hn, if_neg hn]
  rw [DatabaseConfig.setText, List.map_congr_left hsame]

theorem string_parseEnvValue (hS : S.Lawful) (raw : String) :
    (Textual raw ∧ parseEnvValue raw = .string raw) ∨
      (¬ Textual raw ∧ S.string (parseEnvValue raw) = none) := by
  rcases parseEnvValue_cases raw with h | ⟨hnot, ⟨b, h⟩ | ⟨i, h⟩ | ⟨literal, h⟩⟩
  · exact Or.inl h
  · exact Or.inr ⟨hnot, by rw [h, hS.boolean]⟩
  · exact Or.inr ⟨hnot, by rw [h, hS.integer]⟩
  · exact Or.inr ⟨hnot, by rw [h, hS.float]⟩

/-- **An override of a text setting sets that setting and nothing else exactly
when its text is no boolean, integer or float** and the connection is a table. -/
theorem override_iff (hS : S.Lawful) {unicode : String → String} {config : Config}
    {db : DatabaseConfig} (hdb : tryGetDatabase S config = some db) {name : String}
    {c : ConnectionConfig} (hc : (name, c) ∈ db.connections) {upper : String}
    (hupper : Spells unicode upper name) (f : TextField) (raw : String) :
    (tryGetDatabase S (config.applyOverrides unicode [(variableName upper f, raw)]) =
        some (db.setText name f raw) ∧
      installGlobal S (config.applyOverrides unicode [(variableName upper f, raw)]) =
        db.setText name f raw) ↔
      Textual raw ∧
        ∃ entries, config.resolveParts ["database", "connections", name] = some (.table entries) := by
  obtain ⟨fields, connections, v, hloc, hv⟩ := exists_located hdb hc
  rw [installGlobal, tryGetDatabase_override hloc hupper, hloc.resolveParts]
  constructor
  · intro h
    obtain ⟨hsome, -⟩ := h
    obtain ⟨c', hc', -⟩ := Option.map_eq_some_iff.mp hsome
    constructor
    · rcases string_parseEnvValue hS raw with ⟨htext, -⟩ | ⟨-, hnone⟩
      · exact htext
      · rw [ofFields_insert_none hnone] at hc'
        cases hc'
    · cases v with
      | table entries => exact ⟨entries, rfl⟩
      | _ =>
        rw [show Value.entries _ = [] from rfl, ofFields_alone] at hc'
        cases hc'
  · intro h
    obtain ⟨htext, entries, hentries⟩ := h
    obtain rfl := Option.some.inj hentries
    rcases string_parseEnvValue hS raw with ⟨-, hstring⟩ | ⟨hnot, -⟩
    · have hfields : ConnectionConfig.ofFields S (fun key => entries.lookup key) = some c := hv
      have hset := ofFields_insert_string hS hfields f raw
      rw [hstring, show Value.entries (some (.table entries)) = entries from rfl, hset,
        setText_connections hloc hv]
      exact ⟨rfl, rfl⟩
    · exact absurd htext hnot

/-- A connection of `config/database.toml`. -/
def primaryFields : Entries := [("driver", .string "mysql"), ("password", .string "")]

theorem wellKeyed_primaryFields : (Value.table primaryFields).WellKeyed := by
  refine .table ?_ ?_
  · unfold SortedMap.Sorted
    decide
  · intro e he
    rcases List.mem_cons.mp he with rfl | he
    · exact .string _
    · obtain rfl := List.mem_singleton.mp he
      exact .string _

/-- A configuration with this connection alone. -/
def primary : Config where
  root := [("database", .table [("connections", .table [("primary", .table primaryFields)])])]
  wellKeyed := .singleton _ (.singleton _ (.singleton _ wellKeyed_primaryFields))
  sections := by simp [Sections]

def primaryConnection : ConnectionConfig :=
  ⟨.mysql, none, none, none, none, none, some "", [], none, ⟨none, none, none, none, none⟩⟩

/-- What `primary` deserializes to. -/
def primaryDatabase : DatabaseConfig := ⟨none, false, none, [("primary", primaryConnection)]⟩

/-- **A password of digits fails the section**, and an empty configuration is installed. -/
theorem not_override_digits : ¬ ∀ raw,
    tryGetDatabase tomlSerde (primary.applyOverrides id [(variableName "PRIMARY" .password, raw)]) =
        some (primaryDatabase.setText "primary" .password raw) ∧
      installGlobal tomlSerde
          (primary.applyOverrides id [(variableName "PRIMARY" .password, raw)]) =
        primaryDatabase.setText "primary" .password raw := by
  intro h
  have hnone : tryGetDatabase tomlSerde
      (primary.applyOverrides id [(variableName "PRIMARY" .password, "12345")]) = none := rfl
  have hsome := (h "12345").1
  rw [hnone] at hsome
  cases hsome

theorem spells_primary : Spells id "PRIMARY" "primary" := by
  have hupper : String.ofList ("primary".toList.map Char.toUpper) = "PRIMARY" := by decide
  rw [← hupper]
  exact spells_toUpper id (by simp)

theorem override_primary :
    (tryGetDatabase tomlSerde
          (primary.applyOverrides id [(variableName "PRIMARY" .password, "secret")]) =
        some (primaryDatabase.setText "primary" .password "secret") ∧
      installGlobal tomlSerde
          (primary.applyOverrides id [(variableName "PRIMARY" .password, "secret")]) =
        primaryDatabase.setText "primary" .password "secret") ↔
      Textual "secret" ∧ ∃ entries,
        primary.resolveParts ["database", "connections", "primary"] = some (.table entries) :=
  override_iff tomlSerde_lawful rfl (List.mem_singleton.mpr rfl) spells_primary .password "secret"

end Kolas.Database

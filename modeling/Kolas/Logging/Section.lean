import Kolas.Config.Typed
import Kolas.Database.Config
import Kolas.Logging.Filter
import Kolas.Logging.Init

/-!
# The `logging` section

`logging/config.rs`: what serde's derived `Deserialize` makes of the section, and
`Logging::init` of `logging/subscriber.rs`, which takes `fallback_config` where that fails.
A sink is a table with a `type`, or an array with its type in front; either is buffered
before its fields are read.

* `writable_iff`: the configurations that a file can ask for.  Every file sink of these keeps
  a bounded number of files: `keep_files` has a default, and so cannot be left out.
* `sinks_overridden`: an environment variable that leads to the sinks, or below, is the end of
  all of them: the fallback takes their place.
-/

namespace Kolas.Logging.Section

open Kolas.Lib Kolas.Config
open Kolas.Database (text unsigned structFields defaulted optional)

inductive FormatKind
  | pretty
  | json
  | compact
  deriving DecidableEq, Repr

def FormatKind.word : FormatKind → String
  | .pretty => "pretty"
  | .json => "json"
  | .compact => "compact"

/-- `RotationKind`, in lower case. -/
def rotationWord : RotationKind → String
  | .hourly => "hourly"
  | .daily => "daily"
  | .never => "never"

inductive ConsoleTarget
  | stdout
  | stderr
  deriving DecidableEq, Repr

def ConsoleTarget.word : ConsoleTarget → String
  | .stdout => "stdout"
  | .stderr => "stderr"

structure ConsoleSinkConfig where
  level : LevelFilter
  format : FormatKind
  target : ConsoleTarget
  excludeTargets : List String
  deriving DecidableEq, Repr

structure FileSinkConfig extends Logging.FileSinkConfig where
  level : LevelFilter
  format : FormatKind
  excludeTargets : List String
  deriving DecidableEq, Repr

structure DatabaseSinkConfig extends Logging.DatabaseSinkConfig where
  level : LevelFilter
  table : String
  deriving DecidableEq, Repr

structure QueueSinkConfig extends Init.QueueSinkConfig where
  level : LevelFilter
  connection : Option String
  deriving DecidableEq, Repr

inductive SinkConfig
  | console (cfg : ConsoleSinkConfig)
  | file (cfg : FileSinkConfig)
  | database (cfg : DatabaseSinkConfig)
  | queue (cfg : QueueSinkConfig)
  deriving DecidableEq, Repr

structure LoggingConfig where
  defaultLevel : LevelFilter
  sinks : List SinkConfig
  deriving DecidableEq, Repr

/-! ### Reading -/

/-- The variant with the name; the names are the variants in lower case. -/
def variantOf {α : Type} (all : List α) (word : α → String) (name : String) : Option α :=
  all.find? fun a => word a = name

def levels : List LevelFilter := [.trace, .debug, .info, .warn, .error, .off]

def formats : List FormatKind := [.pretty, .json, .compact]

def rotations : List RotationKind := [.hourly, .daily, .never]

def targets : List ConsoleTarget := [.stdout, .stderr]

/-- The name of a variant without data: a string, or the one key of a table whose value is
`empty`. -/
def variantName (empty : Value → Bool) : Value → Option String
  | .string s => some s
  | .table [(name, v)] => if empty v then some name else none
  | _ => none

/-- What stands for no data in a buffered value. -/
def isUnit : Value → Bool
  | .table [] => true
  | _ => false

/-- What `toml` takes for no data. -/
def isEmpty : Value → Bool
  | .table [] => true
  | .array [] => true
  | _ => false

/-- A buffered enum. -/
def variant {α : Type} (all : List α) (word : α → String) (v : Value) : Option α :=
  (variantName isUnit v).bind (variantOf all word)

def readLevel : Value → Option LevelFilter := variant levels LevelFilter.word

def readFormat : Value → Option FormatKind := variant formats FormatKind.word

def readTarget : Value → Option ConsoleTarget := variant targets ConsoleTarget.word

def readRotation : Value → Option RotationKind := variant rotations rotationWord

/-- `Vec<String>`. -/
def readStrings : Value → Option (List String)
  | .array items => items.mapM text
  | _ => none

def ConsoleSinkConfig.ofFields (field : String → Option Value) : Option ConsoleSinkConfig := do
  let level ← defaulted .debug readLevel (field "level")
  let format ← defaulted .pretty readFormat (field "format")
  let target ← defaulted .stdout readTarget (field "target")
  let excludeTargets ← defaulted [] readStrings (field "exclude_targets")
  return ⟨level, format, target, excludeTargets⟩

def FileSinkConfig.ofFields (field : String → Option Value) : Option FileSinkConfig := do
  let level ← defaulted .info readLevel (field "level")
  let format ← defaulted .json readFormat (field "format")
  let path ← (field "path").bind text
  let filePrefix ← (field "prefix").bind text
  let rotation ← defaulted .daily readRotation (field "rotation")
  let keepFiles ← defaulted (some 7) (fun v => (unsigned 32 v).map some) (field "keep_files")
  let excludeTargets ← defaulted [] readStrings (field "exclude_targets")
  return ⟨⟨path, filePrefix, rotation, keepFiles⟩, level, format, excludeTargets⟩

def DatabaseSinkConfig.ofFields (field : String → Option Value) : Option DatabaseSinkConfig := do
  let level ← defaulted .info readLevel (field "level")
  let connection ← (field "connection").bind text
  let table ← defaulted "log_entries" text (field "table")
  let channelCapacity ← defaulted 1024 (unsigned 64) (field "channel_capacity")
  let batchSize ← defaulted 100 (unsigned 64) (field "batch_size")
  let flushIntervalMs ← defaulted 1000 (unsigned 64) (field "flush_interval_ms")
  return ⟨⟨connection, channelCapacity, batchSize, flushIntervalMs⟩, level, table⟩

def QueueSinkConfig.ofFields (field : String → Option Value) : Option QueueSinkConfig := do
  let level ← defaulted .info readLevel (field "level")
  let driver ← (field "driver").bind text
  let channelCapacity ← defaulted 512 (unsigned 64) (field "channel_capacity")
  let connection ← optional text (field "connection")
  return ⟨⟨driver, channelCapacity⟩, level, connection⟩

/-- An array has as many items. -/
def hasPlaces (n : Nat) : Value → Bool
  | .array items => items.length == n
  | _ => true

/-- A sink of the given type, from what stands beside the type. -/
def SinkConfig.ofContent (type : String) (content : Value) : Option SinkConfig :=
  if type = "console" then do
    let field ← structFields ["level", "format", "target", "exclude_targets"] content
    let cfg ← ConsoleSinkConfig.ofFields field
    return .console cfg
  else if type = "file" then do
    let field ← structFields
      ["level", "format", "path", "prefix", "rotation", "keep_files", "exclude_targets"] content
    let cfg ← FileSinkConfig.ofFields field
    return .file cfg
  else if type = "database" then do
    let field ← structFields
      ["level", "connection", "table", "channel_capacity", "batch_size", "flush_interval_ms"] content
    let cfg ← DatabaseSinkConfig.ofFields field
    return .database cfg
  else if type = "queue" then do
    let field ← structFields ["level", "driver", "channel_capacity", "connection"] content
    -- the connection has no `serde(default)`, and in an array it has its place
    if hasPlaces 4 content then do
      let cfg ← QueueSinkConfig.ofFields field
      return .queue cfg
    else none
  else none

/-- No field has the name `type`, so that it may stay among the others. -/
def SinkConfig.deserialize : Value → Option SinkConfig
  | .table entries =>
    match entries.lookup "type" with
    | some (.string type) => SinkConfig.ofContent type (.table entries)
    | _ => none
  | .array (.string type :: rest) => SinkConfig.ofContent type (.array rest)
  | _ => none

/-- `Vec<SinkConfig>`. -/
def readSinks : Value → Option (List SinkConfig)
  | .array items => items.mapM SinkConfig.deserialize
  | _ => none

def LoggingConfig.deserialize (v : Value) : Option LoggingConfig := do
  let field ← structFields ["default_level", "sinks"] v
  let defaultLevel ← defaulted .info
    (fun v => (variantName isEmpty v).bind (variantOf levels LevelFilter.word)) (field "default_level")
  let sinks ← defaulted [] readSinks (field "sinks")
  return ⟨defaultLevel, sinks⟩

def fallbackConfig : LoggingConfig := ⟨.info, [.console ⟨.info, .pretty, .stdout, []⟩]⟩

/-- The configuration that `Logging::init` takes. -/
def initConfig (config : Config) : LoggingConfig :=
  (config.tryValue LoggingConfig.deserialize "logging").getD fallbackConfig

/-! ### What can be written -/

/-- The integers in the value are of 64 bits, as those in a file. -/
inductive InRange : Value → Prop
  | string (s : String) : InRange (.string s)
  | integer {i : Int} (h : -2 ^ 63 ≤ i ∧ i < 2 ^ 63) : InRange (.integer i)
  | float (literal : String) : InRange (.float literal)
  | boolean (b : Bool) : InRange (.boolean b)
  | datetime (text : String) : InRange (.datetime text)
  | array {items : List Value} (h : ∀ v ∈ items, InRange v) : InRange (.array items)
  | table {entries : Entries} (h : ∀ e ∈ entries, InRange e.2) : InRange (.table entries)

/-- The sink keeps a number of files that is one of `u32`, and its numbers are of `i64`. -/
def SinkConfig.Writable : SinkConfig → Prop
  | .console _ => True
  | .file cfg => ∃ keep < 2 ^ 32, cfg.keepFiles = some keep
  | .database cfg =>
    cfg.channelCapacity < 2 ^ 63 ∧ cfg.batchSize < 2 ^ 63 ∧ cfg.flushIntervalMs < 2 ^ 63
  | .queue cfg => cfg.channelCapacity < 2 ^ 63

/-- What a value in range has for the fields of a struct is in range. -/
theorem inRange_field {names : List String} {content : Value} (hcontent : InRange content)
    {field : String → Option Value} (h : structFields names content = some field) {name : String}
    {v : Value} (hv : field name = some v) : InRange v := by
  cases hcontent with
  | array hitems =>
    obtain ⟨-, h⟩ := Option.ite_none_right_eq_some.mp h
    obtain rfl := Option.some.inj h
    exact hitems v (List.mem_of_getElem? hv)
  | table hentries =>
    obtain rfl := Option.some.inj h
    exact hentries _ (SortedMap.mem_of_lookup hv)
  | _ => cases h

theorem unsigned_lt {bits n : Nat} {v : Value} (hv : InRange v) (h : unsigned bits v = some n) :
    n < 2 ^ bits ∧ n < 2 ^ 63 := by
  cases hv with
  | @integer i hrange =>
    obtain ⟨⟨hpos, hlt⟩, hn⟩ := Option.ite_none_right_eq_some.mp h
    obtain rfl := Option.some.inj hn
    have hbits : ((2 ^ bits : Nat) : Int) = 2 ^ bits := by push_cast; rfl
    omega
  | _ => cases h

/-- A field is as its default, or as it is read. -/
theorem defaulted_cases {α : Type} {default a : α} {read : Value → Option α} {v : Option Value}
    (h : defaulted default read v = some a) : a = default ∨ ∃ w, v = some w ∧ read w = some a := by
  cases v with
  | none => exact .inl (Option.some.inj h).symm
  | some w => exact .inr ⟨w, rfl, h⟩

/-- A number that a field of a value in range has. -/
theorem number_lt {names : List String} {content : Value} (hcontent : InRange content)
    {field : String → Option Value} (hfield : structFields names content = some field)
    {name : String} {default n : Nat} (hdefault : default < 2 ^ 63)
    (h : defaulted default (unsigned 64) (field name) = some n) : n < 2 ^ 63 := by
  rcases defaulted_cases h with rfl | ⟨v, hv, hn⟩
  · exact hdefault
  · exact (unsigned_lt (inRange_field hcontent hfield hv) hn).2

theorem FileSinkConfig.writable_of_ofFields {names : List String} {content : Value}
    (hcontent : InRange content) {field : String → Option Value}
    (hfield : structFields names content = some field) {cfg : FileSinkConfig}
    (h : FileSinkConfig.ofFields field = some cfg) : ∃ keep < 2 ^ 32, cfg.keepFiles = some keep := by
  obtain ⟨level, -, h⟩ := Option.bind_eq_some_iff.mp h
  obtain ⟨format, -, h⟩ := Option.bind_eq_some_iff.mp h
  obtain ⟨path, -, h⟩ := Option.bind_eq_some_iff.mp h
  obtain ⟨filePrefix, -, h⟩ := Option.bind_eq_some_iff.mp h
  obtain ⟨rotation, -, h⟩ := Option.bind_eq_some_iff.mp h
  obtain ⟨keepFiles, hkeep, h⟩ := Option.bind_eq_some_iff.mp h
  obtain ⟨excludeTargets, -, h⟩ := Option.bind_eq_some_iff.mp h
  obtain rfl := Option.some.inj h
  rcases defaulted_cases hkeep with rfl | ⟨v, hv, hread⟩
  · exact ⟨7, by omega, rfl⟩
  · obtain ⟨keep, hunsigned, rfl⟩ := Option.map_eq_some_iff.mp hread
    exact ⟨keep, (unsigned_lt (inRange_field hcontent hfield hv) hunsigned).1, rfl⟩

theorem DatabaseSinkConfig.writable_of_ofFields {names : List String} {content : Value}
    (hcontent : InRange content) {field : String → Option Value}
    (hfield : structFields names content = some field) {cfg : DatabaseSinkConfig}
    (h : DatabaseSinkConfig.ofFields field = some cfg) : (SinkConfig.database cfg).Writable := by
  obtain ⟨level, -, h⟩ := Option.bind_eq_some_iff.mp h
  obtain ⟨connection, -, h⟩ := Option.bind_eq_some_iff.mp h
  obtain ⟨table, -, h⟩ := Option.bind_eq_some_iff.mp h
  obtain ⟨channelCapacity, hcapacity, h⟩ := Option.bind_eq_some_iff.mp h
  obtain ⟨batchSize, hbatch, h⟩ := Option.bind_eq_some_iff.mp h
  obtain ⟨flushIntervalMs, hflush, h⟩ := Option.bind_eq_some_iff.mp h
  obtain rfl := Option.some.inj h
  exact ⟨number_lt hcontent hfield (by omega) hcapacity,
    number_lt hcontent hfield (by omega) hbatch, number_lt hcontent hfield (by omega) hflush⟩

theorem QueueSinkConfig.writable_of_ofFields {names : List String} {content : Value}
    (hcontent : InRange content) {field : String → Option Value}
    (hfield : structFields names content = some field) {cfg : QueueSinkConfig}
    (h : QueueSinkConfig.ofFields field = some cfg) : (SinkConfig.queue cfg).Writable := by
  obtain ⟨level, -, h⟩ := Option.bind_eq_some_iff.mp h
  obtain ⟨driver, -, h⟩ := Option.bind_eq_some_iff.mp h
  obtain ⟨channelCapacity, hcapacity, h⟩ := Option.bind_eq_some_iff.mp h
  obtain ⟨connection, -, h⟩ := Option.bind_eq_some_iff.mp h
  obtain rfl := Option.some.inj h
  exact number_lt hcontent hfield (by omega) hcapacity

theorem SinkConfig.writable_of_ofContent {type : String} {content : Value}
    (hcontent : InRange content) {sink : SinkConfig}
    (h : SinkConfig.ofContent type content = some sink) : sink.Writable := by
  unfold SinkConfig.ofContent at h
  split at h
  · obtain ⟨field, -, h⟩ := Option.bind_eq_some_iff.mp h
    obtain ⟨cfg, -, h⟩ := Option.bind_eq_some_iff.mp h
    obtain rfl := Option.some.inj h
    trivial
  · split at h
    · obtain ⟨field, hfield, h⟩ := Option.bind_eq_some_iff.mp h
      obtain ⟨cfg, hcfg, h⟩ := Option.bind_eq_some_iff.mp h
      obtain rfl := Option.some.inj h
      exact FileSinkConfig.writable_of_ofFields hcontent hfield hcfg
    · split at h
      · obtain ⟨field, hfield, h⟩ := Option.bind_eq_some_iff.mp h
        obtain ⟨cfg, hcfg, h⟩ := Option.bind_eq_some_iff.mp h
        obtain rfl := Option.some.inj h
        exact DatabaseSinkConfig.writable_of_ofFields hcontent hfield hcfg
      · split at h
        · obtain ⟨field, hfield, h⟩ := Option.bind_eq_some_iff.mp h
          obtain ⟨-, h⟩ := Option.ite_none_right_eq_some.mp h
          obtain ⟨cfg, hcfg, h⟩ := Option.bind_eq_some_iff.mp h
          obtain rfl := Option.some.inj h
          exact QueueSinkConfig.writable_of_ofFields hcontent hfield hcfg
        · cases h

theorem SinkConfig.writable_of_deserialize {v : Value} (hv : InRange v) {sink : SinkConfig}
    (h : SinkConfig.deserialize v = some sink) : sink.Writable := by
  cases hv with
  | table hentries =>
    simp only [SinkConfig.deserialize] at h
    split at h
    · exact writable_of_ofContent (.table hentries) h
    · cases h
  | @array items hitems =>
    cases items with
    | nil => cases h
    | cons first rest =>
      cases first with
      | string type =>
        exact writable_of_ofContent (.array fun v hv => hitems v (List.mem_cons_of_mem _ hv)) h
      | _ => cases h
  | _ => cases h

/-! ### Writing -/

def writtenStrings (texts : List String) : Value := .array (texts.map .string)

def ConsoleSinkConfig.entries (cfg : ConsoleSinkConfig) : Entries :=
  [("exclude_targets", writtenStrings cfg.excludeTargets), ("format", .string cfg.format.word),
    ("level", .string cfg.level.word), ("target", .string cfg.target.word)]

def FileSinkConfig.entries (cfg : FileSinkConfig) : Entries :=
  [("exclude_targets", writtenStrings cfg.excludeTargets), ("format", .string cfg.format.word),
    ("keep_files", .integer (cfg.keepFiles.getD 0)), ("level", .string cfg.level.word),
    ("path", .string cfg.path), ("prefix", .string cfg.filePrefix),
    ("rotation", .string (rotationWord cfg.rotation))]

def DatabaseSinkConfig.entries (cfg : DatabaseSinkConfig) : Entries :=
  [("batch_size", .integer cfg.batchSize), ("channel_capacity", .integer cfg.channelCapacity),
    ("connection", .string cfg.connection), ("flush_interval_ms", .integer cfg.flushIntervalMs),
    ("level", .string cfg.level.word), ("table", .string cfg.table)]

def QueueSinkConfig.entries (cfg : QueueSinkConfig) : Entries :=
  ("channel_capacity", .integer cfg.channelCapacity) ::
    ((cfg.connection.map fun c => ("connection", Value.string c)).toList ++
      [("driver", .string cfg.driver), ("level", .string cfg.level.word)])

/-- The type of a sink stands behind its fields. -/
def SinkConfig.entries : SinkConfig → Entries
  | .console cfg => cfg.entries ++ [("type", .string "console")]
  | .file cfg => cfg.entries ++ [("type", .string "file")]
  | .database cfg => cfg.entries ++ [("type", .string "database")]
  | .queue cfg => cfg.entries ++ [("type", .string "queue")]

def SinkConfig.written (sink : SinkConfig) : Value := .table sink.entries

def LoggingConfig.written (cfg : LoggingConfig) : Value := .table
  [("default_level", .string cfg.defaultLevel.word),
    ("sinks", .array (cfg.sinks.map SinkConfig.written))]

theorem readLevel_word (level : LevelFilter) : readLevel (.string level.word) = some level := by
  cases level <;> rfl

theorem readFormat_word (format : FormatKind) : readFormat (.string format.word) = some format := by
  cases format <;> rfl

theorem readTarget_word (target : ConsoleTarget) :
    readTarget (.string target.word) = some target := by
  cases target <;> rfl

theorem readRotation_word (rotation : RotationKind) :
    readRotation (.string (rotationWord rotation)) = some rotation := by
  cases rotation <;> rfl

theorem readStrings_written (texts : List String) :
    readStrings (writtenStrings texts) = some texts := by
  show (texts.map Value.string).mapM text = some texts
  rw [mapM_eq_some, List.forall₂_map_left_iff]
  exact List.forall₂_same.mpr fun _ _ => rfl

theorem unsigned_natCast {bits n : Nat} (h : n < 2 ^ bits) : unsigned bits (.integer n) = some n := by
  have hbits : ((2 ^ bits : Nat) : Int) = 2 ^ bits := by push_cast; rfl
  exact if_pos (by omega)

theorem unsigned_written {n : Nat} (h : n < 2 ^ 63) : unsigned 64 (.integer n) = some n :=
  unsigned_natCast (by omega)

/-- The fields are as the entries have them. -/
def Has (field : String → Option Value) (entries : Entries) : Prop :=
  ∀ e ∈ entries, field e.1 = some e.2

theorem ConsoleSinkConfig.ofFields_entries {cfg : ConsoleSinkConfig} {field : String → Option Value}
    (h : Has field cfg.entries) : ofFields field = some cfg := by
  simp only [Has, entries, List.forall_mem_cons] at h
  obtain ⟨hexclude, hformat, hlevel, htarget, -⟩ := h
  simp only [ofFields, hlevel, hformat, htarget, hexclude, defaulted, readLevel_word,
    readFormat_word, readTarget_word, readStrings_written, Option.bind_eq_bind, Option.bind_some,
    Option.pure_def]

theorem FileSinkConfig.ofFields_entries {cfg : FileSinkConfig} {keep : Nat} (hlt : keep < 2 ^ 32)
    (hkeep : cfg.keepFiles = some keep) {field : String → Option Value}
    (h : Has field cfg.entries) : ofFields field = some cfg := by
  simp only [Has, entries, List.forall_mem_cons] at h
  obtain ⟨hexclude, hformat, hkeepFiles, hlevel, hpath, hprefix, hrotation, -⟩ := h
  rw [hkeep, Option.getD_some] at hkeepFiles
  simp only [ofFields, hlevel, hformat, hpath, hprefix, hrotation, hkeepFiles, hexclude,
    defaulted, readLevel_word, readFormat_word, readRotation_word, readStrings_written, text,
    unsigned_natCast hlt, Option.map_some, Option.bind_eq_bind, Option.bind_some, Option.pure_def]
  rw [← hkeep]

theorem DatabaseSinkConfig.ofFields_entries {cfg : DatabaseSinkConfig}
    (hwritable : (SinkConfig.database cfg).Writable) {field : String → Option Value}
    (h : Has field cfg.entries) : ofFields field = some cfg := by
  obtain ⟨hcapacityLt, hbatchLt, hflushLt⟩ := hwritable
  simp only [Has, entries, List.forall_mem_cons] at h
  obtain ⟨hbatch, hcapacity, hconnection, hflush, hlevel, htable, -⟩ := h
  simp only [ofFields, hlevel, hconnection, htable, hcapacity, hbatch, hflush, defaulted,
    readLevel_word, text, unsigned_written hcapacityLt, unsigned_written hbatchLt,
    unsigned_written hflushLt, Option.bind_eq_bind, Option.bind_some, Option.pure_def]

theorem QueueSinkConfig.ofFields_entries {cfg : QueueSinkConfig}
    (hlt : cfg.channelCapacity < 2 ^ 63) {field : String → Option Value}
    (h : Has field cfg.entries)
    (hconnection : field "connection" = cfg.connection.map Value.string) :
    ofFields field = some cfg := by
  simp only [Has, entries, List.forall_mem_cons, List.forall_mem_append] at h
  obtain ⟨hcapacity, -, hdriver, hlevel, -⟩ := h
  have hread : Database.optional text (cfg.connection.map Value.string) = some cfg.connection := by
    cases cfg.connection <;> rfl
  simp only [ofFields, hlevel, hdriver, hcapacity, hconnection, hread, defaulted,
    readLevel_word, text, unsigned_written hlt, Option.bind_eq_bind, Option.bind_some,
    Option.pure_def]

theorem SinkConfig.sorted_entries (sink : SinkConfig) : SortedMap.Sorted sink.entries := by
  have hkeys : (sink.entries.map Prod.fst).Pairwise (· < ·) := by
    cases sink with
    | console cfg =>
      show ["exclude_targets", "format", "level", "target", "type"].Pairwise (· < ·)
      decide
    | file cfg =>
      show ["exclude_targets", "format", "keep_files", "level", "path", "prefix", "rotation",
        "type"].Pairwise (· < ·)
      decide
    | database cfg =>
      show ["batch_size", "channel_capacity", "connection", "flush_interval_ms", "level", "table",
        "type"].Pairwise (· < ·)
      decide
    | queue cfg =>
      obtain ⟨queue, level, connection⟩ := cfg
      cases connection with
      | none =>
        show ["channel_capacity", "driver", "level", "type"].Pairwise (· < ·)
        decide
      | some connection =>
        show ["channel_capacity", "connection", "driver", "level", "type"].Pairwise (· < ·)
        decide
  exact List.pairwise_map.mp hkeys

/-- An entry of a sink is found. -/
theorem SinkConfig.has_of_subset (sink : SinkConfig) {entries : Entries}
    (h : entries ⊆ sink.entries) : Has (fun name => sink.entries.lookup name) entries :=
  fun e he => SortedMap.lookup_of_mem sink.sorted_entries (k := e.1) (v := e.2) (h he)

theorem SinkConfig.lookup_type {sink : SinkConfig} (type : String)
    (h : ("type", Value.string type) ∈ sink.entries) :
    SinkConfig.deserialize sink.written = SinkConfig.ofContent type (.table sink.entries) := by
  show (match sink.entries.lookup "type" with
    | some (.string type) => SinkConfig.ofContent type (.table sink.entries)
    | _ => none) = _
  rw [SortedMap.lookup_of_mem sink.sorted_entries h]

theorem QueueSinkConfig.lookup_connection (cfg : QueueSinkConfig) :
    (SinkConfig.queue cfg).entries.lookup "connection" = cfg.connection.map Value.string := by
  obtain ⟨queue, level, connection⟩ := cfg
  cases connection <;> rfl

/-- **A sink that can be written is read as it was.** -/
theorem SinkConfig.deserialize_written {sink : SinkConfig} (h : sink.Writable) :
    SinkConfig.deserialize sink.written = some sink := by
  cases sink with
  | console cfg =>
    have hfields : ConsoleSinkConfig.ofFields _ = some cfg :=
      ConsoleSinkConfig.ofFields_entries
        (SinkConfig.has_of_subset (.console cfg) (List.subset_append_left _ _))
    rw [lookup_type "console" (List.mem_append_right _ List.mem_cons_self), ofContent,
      if_pos rfl]
    simp only [structFields, hfields, Option.bind_eq_bind, Option.bind_some, Option.pure_def]
  | file cfg =>
    obtain ⟨keep, hlt, hkeep⟩ := h
    have hfields : FileSinkConfig.ofFields _ = some cfg :=
      FileSinkConfig.ofFields_entries hlt hkeep
        (SinkConfig.has_of_subset (.file cfg) (List.subset_append_left _ _))
    rw [lookup_type "file" (List.mem_append_right _ List.mem_cons_self), ofContent,
      if_neg (by decide), if_pos rfl]
    simp only [structFields, hfields, Option.bind_eq_bind, Option.bind_some, Option.pure_def]
  | database cfg =>
    have hfields : DatabaseSinkConfig.ofFields _ = some cfg :=
      DatabaseSinkConfig.ofFields_entries h
        (SinkConfig.has_of_subset (.database cfg) (List.subset_append_left _ _))
    rw [lookup_type "database" (List.mem_append_right _ List.mem_cons_self), ofContent,
      if_neg (by decide), if_neg (by decide), if_pos rfl]
    simp only [structFields, hfields, Option.bind_eq_bind, Option.bind_some, Option.pure_def]
  | queue cfg =>
    have hfields : QueueSinkConfig.ofFields _ = some cfg :=
      QueueSinkConfig.ofFields_entries h
        (SinkConfig.has_of_subset (.queue cfg) (List.subset_append_left _ _))
        cfg.lookup_connection
    rw [lookup_type "queue" (List.mem_append_right _ List.mem_cons_self), ofContent,
      if_neg (by decide), if_neg (by decide), if_neg (by decide), if_pos rfl]
    simp only [structFields, hasPlaces, hfields, Option.bind_eq_bind, Option.bind_some,
      Option.pure_def, if_true]

theorem LoggingConfig.deserialize_written {cfg : LoggingConfig}
    (h : ∀ sink ∈ cfg.sinks, sink.Writable) :
    LoggingConfig.deserialize cfg.written = some cfg := by
  have hsinks : readSinks (.array (cfg.sinks.map SinkConfig.written)) = some cfg.sinks := by
    show (cfg.sinks.map SinkConfig.written).mapM SinkConfig.deserialize = _
    rw [mapM_eq_some, List.forall₂_map_left_iff, List.forall₂_same]
    exact fun sink hsink => SinkConfig.deserialize_written (h sink hsink)
  have hlevel : variantOf levels LevelFilter.word cfg.defaultLevel.word = some cfg.defaultLevel := by
    cases cfg.defaultLevel <;> rfl
  have hfirst : ([("default_level", Value.string cfg.defaultLevel.word),
      ("sinks", .array (cfg.sinks.map SinkConfig.written))]).lookup "sinks" =
        some (.array (cfg.sinks.map SinkConfig.written)) := by
    rw [List.lookup_cons, show ("sinks" == "default_level") = false from by decide,
      List.lookup_cons_self]
  simp only [LoggingConfig.deserialize, LoggingConfig.written, structFields, hfirst,
    List.lookup_cons_self, defaulted, variantName, hlevel, hsinks, Option.bind_eq_bind,
    Option.bind_some, Option.pure_def]

/-- A value that a file can have. -/
structure Plain (v : Value) : Prop where
  wellKeyed : v.WellKeyed
  inRange : InRange v

theorem plain_string (s : String) : Plain (.string s) := ⟨.string s, .string s⟩

theorem plain_number {n : Nat} (h : n < 2 ^ 63) : Plain (.integer n) :=
  ⟨.integer _, .integer (by omega)⟩

theorem plain_array {items : List Value} (h : ∀ v ∈ items, Plain v) : Plain (.array items) :=
  ⟨.array fun v hv => (h v hv).wellKeyed, .array fun v hv => (h v hv).inRange⟩

theorem plain_table {entries : Entries} (hsorted : SortedMap.Sorted entries)
    (h : ∀ e ∈ entries, Plain e.2) : Plain (.table entries) :=
  ⟨.table hsorted fun e he => (h e he).wellKeyed, .table fun e he => (h e he).inRange⟩

theorem plain_writtenStrings (texts : List String) : Plain (writtenStrings texts) := by
  refine plain_array fun v hv => ?_
  obtain ⟨s, -, rfl⟩ := List.mem_map.mp hv
  exact plain_string s

theorem SinkConfig.plain_entries {sink : SinkConfig} (h : sink.Writable) :
    ∀ e ∈ sink.entries, Plain e.2 := by
  cases sink with
  | console cfg =>
    simp only [entries, ConsoleSinkConfig.entries, List.forall_mem_append, List.forall_mem_cons]
    exact ⟨⟨plain_writtenStrings _, plain_string _, plain_string _, plain_string _,
      List.forall_mem_nil _⟩, plain_string _, List.forall_mem_nil _⟩
  | file cfg =>
    obtain ⟨keep, hlt, hkeep⟩ := h
    simp only [entries, FileSinkConfig.entries, hkeep, Option.getD_some, List.forall_mem_append,
      List.forall_mem_cons]
    exact ⟨⟨plain_writtenStrings _, plain_string _, plain_number (by omega), plain_string _,
      plain_string _, plain_string _, plain_string _, List.forall_mem_nil _⟩, plain_string _,
      List.forall_mem_nil _⟩
  | database cfg =>
    obtain ⟨hcapacity, hbatch, hflush⟩ := h
    simp only [entries, DatabaseSinkConfig.entries, List.forall_mem_append, List.forall_mem_cons]
    exact ⟨⟨plain_number hbatch, plain_number hcapacity, plain_string _, plain_number hflush,
      plain_string _, plain_string _, List.forall_mem_nil _⟩, plain_string _,
      List.forall_mem_nil _⟩
  | queue cfg =>
    have hconnection : ∀ e ∈ (cfg.connection.map fun c => ("connection", Value.string c)).toList,
        Plain e.2 := by
      intro e he
      obtain ⟨c, -, rfl⟩ := Option.map_eq_some_iff.mp (Option.mem_toList.mp he)
      exact plain_string c
    simp only [entries, QueueSinkConfig.entries, List.forall_mem_append, List.forall_mem_cons]
    exact ⟨⟨plain_number h, hconnection, plain_string _, plain_string _, List.forall_mem_nil _⟩,
      plain_string _, List.forall_mem_nil _⟩

theorem SinkConfig.plain_written {sink : SinkConfig} (h : sink.Writable) : Plain sink.written :=
  plain_table sink.sorted_entries (plain_entries h)

theorem LoggingConfig.plain_written {cfg : LoggingConfig} (h : ∀ sink ∈ cfg.sinks, sink.Writable) :
    Plain cfg.written := by
  have hkeys : ["default_level", "sinks"].Pairwise (· < ·) := by decide
  refine plain_table (List.pairwise_map.mp hkeys) fun e he => ?_
  rcases List.mem_pair.mp he with rfl | rfl
  · exact plain_string _
  · refine plain_array fun v hv => ?_
    obtain ⟨sink, hsink, rfl⟩ := List.mem_map.mp hv
    exact SinkConfig.plain_written (h sink hsink)

/-- **The configurations that a file can ask for**: those whose file sinks keep some number of
files, and whose other numbers are of `i64`. -/
theorem writable_iff (cfg : LoggingConfig) :
    (∃ v : Value, v.WellKeyed ∧ InRange v ∧ LoggingConfig.deserialize v = some cfg) ↔
      ∀ sink ∈ cfg.sinks, sink.Writable := by
  constructor
  · rintro ⟨v, -, hv, h⟩ sink hsink
    obtain ⟨field, hfield, h⟩ := Option.bind_eq_some_iff.mp h
    obtain ⟨defaultLevel, -, h⟩ := Option.bind_eq_some_iff.mp h
    obtain ⟨sinks, hsinks, h⟩ := Option.bind_eq_some_iff.mp h
    obtain rfl := Option.some.inj h
    rcases defaulted_cases hsinks with rfl | ⟨w, hw, hread⟩
    · cases hsink
    · cases inRange_field hv hfield hw with
      | array hitems =>
        obtain ⟨item, hitem, hsink⟩ := exists_of_mem_mapM hread hsink
        exact SinkConfig.writable_of_deserialize (hitems item hitem) hsink
      | _ => cases hread
  · intro h
    have hplain := LoggingConfig.plain_written h
    exact ⟨cfg.written, hplain.wellKeyed, hplain.inRange, LoggingConfig.deserialize_written h⟩

/-! ### Overrides -/

/-- The default level, as read. -/
def readDefaultLevel : Option Value → Option LevelFilter :=
  defaulted .info fun v => (variantName isEmpty v).bind (variantOf levels LevelFilter.word)

/-- The variable is written to the sinks, or below. -/
def LeadsToSinks (unicode : String → String) (config : Config) (var : String × String) : Prop :=
  ∃ below, overridePath unicode config.sectionNames var.1 = some ("logging" :: "sinks" :: below)

/-- Something that is no array stands at the sinks. -/
def Clobbered (root : Entries) : Prop :=
  ∃ v, valueAt (some (.table root)) ["logging", "sinks"] = some v ∧ ∀ items, v ≠ .array items

/-- A read value is no array. -/
theorem parseEnvValue_ne_array (raw : String) (items : List Value) :
    parseEnvValue raw ≠ .array items := by
  intro harray
  rcases parseEnvValue_cases raw with ⟨-, h⟩ | ⟨-, ⟨b, h⟩ | ⟨i, h⟩ | ⟨literal, h⟩⟩ <;>
    exact absurd (h.symm.trans harray) nofun

/-- A variable that leads to the sinks, or below, leaves no array there. -/
theorem clobbered_setPath (root : Entries) (below : List String) (raw : String) :
    Clobbered (setPath root ("logging" :: "sinks" :: below) (parseEnvValue raw)) := by
  have hwritten : Value.table (setPath root ("logging" :: "sinks" :: below) (parseEnvValue raw)) =
      written (some (.table root)) (["logging", "sinks"] ++ below) (parseEnvValue raw) := rfl
  unfold Clobbered
  rw [hwritten]
  cases below with
  | nil => exact ⟨_, valueAt_written_self _ _ _, parseEnvValue_ne_array raw⟩
  | cons key rest =>
    obtain ⟨entries, h⟩ := valueAt_written_above (some (.table root)) ["logging", "sinks"] key rest
      (parseEnvValue raw)
    exact ⟨_, h, nofun⟩

/-- Paths of two keys are comparable with the sinks' if they lead there, or below. -/
theorem comparable_sinks {section_ key : String} {rest : List String}
    (h : Comparable (section_ :: key :: rest) ["logging", "sinks"]) :
    section_ :: key :: rest = "logging" :: "sinks" :: rest := by
  have hkeys : section_ = "logging" ∧ key = "sinks" := by
    rcases h with ⟨below, h⟩ | ⟨below, h⟩
    · exact ⟨(List.cons.inj h).1, (List.cons.inj (List.cons.inj h).2).1⟩
    · exact ⟨(List.cons.inj h).1.symm, (List.cons.inj (List.cons.inj h).2).1.symm⟩
  obtain ⟨rfl, rfl⟩ := hkeys
  rfl

variable {unicode : String → String} {config : Config}

/-- **What is no array stays none.** -/
theorem clobbered_applyOverride {root : Entries} (h : Clobbered root) (var : String × String) :
    Clobbered (applyOverride unicode config.sectionNames root var) := by
  rw [applyOverride_eq]
  cases hpath : overridePath unicode config.sectionNames var.1 with
  | none => exact h
  | some path =>
    obtain ⟨section_, key, rest, rfl⟩ := overridePath_two hpath
    by_cases hcomparable : Comparable (section_ :: key :: rest) ["logging", "sinks"]
    · rw [comparable_sinks hcomparable]
      exact clobbered_setPath root rest var.2
    · obtain ⟨v, hv, harray⟩ := h
      exact ⟨v, (valueAt_setPath_of_not hcomparable _).trans hv, harray⟩

/-- **One variable that leads to the sinks is enough.** -/
theorem clobbered_overridden {vars : List (String × String)}
    (h : ∃ var ∈ vars, LeadsToSinks unicode config var) :
    Clobbered (config.applyOverrides unicode vars).root := by
  obtain ⟨var, hvar, below, hpath⟩ := h
  obtain ⟨earlier, later, rfl⟩ := List.append_of_mem hvar
  show Clobbered (List.foldl (applyOverride unicode config.sectionNames) config.root
    (earlier ++ var :: later))
  rw [List.foldl_append, List.foldl_cons]
  refine List.foldlRecOn later _ ?_ fun root hroot var' _ => clobbered_applyOverride hroot var'
  rw [applyOverride_eq, hpath]
  exact clobbered_setPath _ below var.2

theorem valueAt_sinks {vars : List (String × String)}
    (h : ¬ ∃ var ∈ vars, LeadsToSinks unicode config var) :
    valueAt (some (.table (config.applyOverrides unicode vars).root)) ["logging", "sinks"] =
      valueAt (some (.table config.root)) ["logging", "sinks"] := by
  have hlast : Last unicode config ["logging", "sinks"] vars := by
    intro var hvar path hpath hcomparable
    obtain ⟨section_, key, rest, rfl⟩ := overridePath_two hpath
    rw [comparable_sinks hcomparable] at hpath
    exact h ⟨var, hvar, rest, hpath⟩
  exact valueAt_foldl hlast config.root

theorem resolve_section (config : Config) :
    config.resolve "logging" = config.root.lookup "logging" := by
  have hne : ["logging"] ≠ [] := by decide
  exact config.resolve_dotted hne (by decide)

theorem resolve_defaultLevel (config : Config) : config.resolve "logging.default_level" =
    valueAt (some (.table config.root)) ["logging", "default_level"] := by
  have hne : ["logging", "default_level"] ≠ [] := by decide
  exact config.resolve_dotted hne (by decide)

/-- The section is read from what stands at its two fields. -/
theorem tryValue_eq (config : Config) (hsection : "logging" ∈ config.sectionNames) :
    config.tryValue LoggingConfig.deserialize "logging" =
      (readDefaultLevel (config.resolve "logging.default_level")).bind fun level =>
        (defaulted [] readSinks (valueAt (some (.table config.root)) ["logging", "sinks"])).map
          fun sinks => ⟨level, sinks⟩ := by
  obtain ⟨e, he, hname⟩ := List.mem_map.mp hsection
  obtain ⟨entries, htable⟩ := config.sections e he
  have hlookup : config.root.lookup "logging" = some (.table entries) := by
    rw [← htable, ← hname]
    exact SortedMap.lookup_of_mem config.wellKeyed.sorted he
  have hlevel : config.resolve "logging.default_level" = entries.lookup "default_level" := by
    rw [resolve_defaultLevel, valueAt, valueAt, valueAt, Value.entries, hlookup, Value.entries]
  have hsinks : valueAt (some (.table config.root)) ["logging", "sinks"] =
      entries.lookup "sinks" := by
    rw [valueAt, valueAt, valueAt, Value.entries, hlookup, Value.entries]
  rw [Config.tryValue, resolve_section, hlookup, hlevel, hsinks]
  cases hread : defaulted [] readSinks (entries.lookup "sinks") with
  | none =>
    simp only [LoggingConfig.deserialize, structFields, hread, Option.bind_eq_bind,
      Option.bind_some, Option.bind_none, Option.bind_fun_none, Option.map_none]
  | some sinks =>
    simp only [LoggingConfig.deserialize, structFields, hread, Option.bind_eq_bind,
      Option.bind_some, Option.pure_def, Option.map_some, readDefaultLevel]

/-- **What the environment can make of the sinks**: they stay as in the file, or the fallback
takes the place of all of them.  A variable that leads to them, or below, is enough, whatever it
says; and so is a default level that there is not. -/
theorem sinks_overridden {cfg : LoggingConfig}
    (hcfg : config.tryValue LoggingConfig.deserialize "logging" = some cfg)
    (vars : List (String × String)) :
    ((∃ var ∈ vars, LeadsToSinks unicode config var) →
        initConfig (config.applyOverrides unicode vars) = fallbackConfig) ∧
      ((¬ ∃ var ∈ vars, LeadsToSinks unicode config var) →
        initConfig (config.applyOverrides unicode vars) =
          ((readDefaultLevel ((config.applyOverrides unicode vars).resolve
            "logging.default_level")).map fun level => ⟨level, cfg.sinks⟩).getD
              fallbackConfig) := by
  have hsection : "logging" ∈ config.sectionNames := by
    obtain ⟨v, hv, -⟩ := Option.bind_eq_some_iff.mp hcfg
    rw [resolve_section] at hv
    exact List.mem_map_of_mem (SortedMap.mem_of_lookup hv)
  have hsection' : "logging" ∈ (config.applyOverrides unicode vars).sectionNames := by
    rw [Config.sectionNames_applyOverrides]
    exact hsection
  rw [initConfig, tryValue_eq _ hsection']
  constructor
  · intro hleads
    obtain ⟨v, hv, harray⟩ := clobbered_overridden hleads
    have hread : readSinks v = none := by
      cases v with
      | array items => exact absurd rfl (harray items)
      | _ => rfl
    simp only [hv, defaulted, hread, Option.map_none, Option.bind_fun_none, Option.getD_none]
  · intro hleads
    rw [tryValue_eq config hsection] at hcfg
    obtain ⟨level, -, hcfg⟩ := Option.bind_eq_some_iff.mp hcfg
    obtain ⟨sinks, hsinks, rfl⟩ := Option.map_eq_some_iff.mp hcfg
    rw [valueAt_sinks hleads, hsinks]
    cases readDefaultLevel _ <;> rfl

/-- A file with one sink. -/
def warnings : Config where
  root := [("logging", .table [("sinks", .array
    [.table [("level", .string "warn"), ("type", .string "console")]])])]
  wellKeyed := by
    have hkeys : ["level", "type"].Pairwise (· < ·) := by decide
    refine .singleton "logging" (.singleton "sinks" (.array fun v hv => ?_))
    obtain rfl := List.mem_singleton.mp hv
    refine .table (List.pairwise_map.mp hkeys) fun e he => ?_
    rcases List.mem_pair.mp he with rfl | rfl
    · exact .string _
    · exact .string _
  sections := by simp [Sections]

/-- Its place in the list does not lead to it. -/
theorem sinks_warnings :
    initConfig (warnings.applyOverrides id [("LOGGING__SINKS__0__LEVEL", "error")]) =
      fallbackConfig := by
  have hcfg : warnings.tryValue LoggingConfig.deserialize "logging" =
      some ⟨.info, [.console ⟨.warn, .pretty, .stdout, []⟩]⟩ := rfl
  exact (sinks_overridden hcfg _).1 ⟨_, List.mem_cons_self, ["0", "level"], by decide⟩

end Kolas.Logging.Section

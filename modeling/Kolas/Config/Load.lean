import Kolas.Config.Laws
import Kolas.Lib.Lists
import Mathlib.Data.List.ReduceOption

/-!
# Loading the configuration

`Config::load` and `Config::from_sections` of `config/config.rs`.  A directory is listed
in any order; of its entries only those with the extension `toml` are read, and each is a
section with the name of the file's stem.  The TOML parser is a parameter, `parse`.

* `tomlStem_eq_some_iff`: the stem of `<stem>.toml`.
* `loaded_iff`: what is loaded, without the order of the directory: every file can be read
  as a table, each section is the table of its file, and the variables come last.
* `load_perm`: so the order of the directory does not matter.
* `lookup_fromSections`: of the sections of one name in a list, the last one counts.
* `load_eq_fromSections`: a directory that can be read is its files' sections.
-/

set_option linter.dupNamespace false

namespace Kolas.Config

open Kolas.Lib

inductive ConfigError
  | readDir (path source : String)
  | readFile (path source : String)
  | parse (file source : String)
  | notTable (file : String)
  deriving DecidableEq, Repr

def ConfigError.message : ConfigError → String
  | .readDir path source => "failed to read config directory '" ++ path ++ "': " ++ source
  | .readFile path source => "failed to read config file '" ++ path ++ "': " ++ source
  | .parse file source => "failed to parse config '" ++ file ++ "': " ++ source
  | .notTable file => "config file '" ++ file ++ "' must contain a top-level table"

/-- A table that the parser has made. -/
abbrev Table := { entries : Entries // (Value.table entries).WellKeyed }

/-- `toml::from_str`. -/
abbrev Parser := String → Except String { v : Value // v.WellKeyed }

namespace Config

/-- `Config::default`. -/
def empty : Config where
  root := []
  wellKeyed := .table List.Pairwise.nil (by simp)
  sections := by simp [Sections]

/-- `root.insert`. -/
def insertSection (config : Config) (s : String × Table) : Config where
  root := SortedMap.insert s.1 (.table s.2.1) config.root
  wellKeyed := config.wellKeyed.insert s.2.2
  sections := by
    intro e he
    rcases SortedMap.mem_insert he with rfl | he
    · exact ⟨_, rfl⟩
    · exact config.sections e he

end Config

section

variable (parse : Parser)

/-- The text of a section as a table. -/
def readTable (name text : String) : Except ConfigError Table :=
  match parse text with
  | .error source => .error (.parse name source)
  | .ok ⟨.table entries, h⟩ => .ok ⟨entries, h⟩
  | .ok _ => .error (.notTable name)

/-- `Config::from_sections`. -/
def fromSections (sections : List (String × String)) : Except ConfigError Config :=
  sections.foldlM (fun config s =>
    ((readTable parse s.1 s.2).map fun table => (s.1, table)).map config.insertSection)
    Config.empty

/-- An entry of a directory: its path, its name if that is text, and what reading it
gives. -/
structure ConfigEntry where
  path : String
  name : Option String
  text : Except String String

/-- What `read_dir` lists: no name is met twice. -/
structure ConfigDir where
  entries : List (Except String ConfigEntry)
  distinct : (entries.filterMap fun e => e.toOption.bind ConfigEntry.name).Nodup

/-- `Path::file_stem` and `Path::extension`. -/
def splitExtension (name : List Char) : List Char × Option (List Char) :=
  match name.reverse.dropWhile (· ≠ '.') with
  | [] => (name, none)
  | _ :: before =>
    if before.isEmpty then (name, none)
    else (before.reverse, some (name.reverse.takeWhile (· ≠ '.')).reverse)

/-- The stem of a file whose extension is `toml`. -/
def tomlStem (name : String) : Option String :=
  match splitExtension name.toList with
  | (stem, some extension) =>
    if extension = "toml".toList then some (String.ofList stem) else none
  | (_, none) => none

/-- One entry of the directory as a section, unless it is passed over. -/
def readSection (dir : String) :
    Except String ConfigEntry → Except ConfigError (Option (String × Table))
  | .error source => .error (.readDir dir source)
  | .ok entry =>
    match entry.name.bind tomlStem with
    | none => .ok none
    | some stem =>
      match entry.text with
      | .error source => .error (.readFile entry.path source)
      | .ok text => (readTable parse stem text).map fun table => some (stem, table)

/-- A section is inserted if there is one. -/
def Config.insertRead (config : Config) (s : Option (String × Table)) : Config :=
  s.elim config config.insertSection

/-- `Config::load`: `vars` is the environment, with what `.env` has added to it. -/
def load (unicode : String → String) (dir : String) (listing : Except String ConfigDir)
    (vars : List (String × String)) : Except ConfigError Config :=
  match listing with
  | .error source => .error (.readDir dir source)
  | .ok listing =>
    (listing.entries.foldlM
      (fun config entry => (readSection parse dir entry).map config.insertRead)
      Config.empty).map fun config => config.applyOverrides unicode vars

end

/-! ### The names of sections -/

theorem splitExtension_append {stem extension : List Char} (hstem : stem ≠ [])
    (hdot : '.' ∉ extension) :
    splitExtension (stem ++ '.' :: extension) = (stem, some extension) := by
  have hall : ∀ c ∈ extension.reverse, decide (c ≠ '.') = true := by
    intro c hc
    refine decide_eq_true ?_
    rintro rfl
    exact hdot (List.mem_reverse.mp hc)
  have hreverse : (stem ++ '.' :: extension).reverse =
      extension.reverse ++ '.' :: stem.reverse := by simp
  unfold splitExtension
  rw [hreverse, List.dropWhile_append_of_pos hall, List.takeWhile_append_of_pos hall,
    List.dropWhile_cons_of_neg (by decide), List.takeWhile_cons_of_neg (by decide)]
  dsimp only
  rw [if_neg (by simpa using hstem), List.reverse_reverse, List.append_nil, List.reverse_reverse]

theorem splitExtension_eq_some {name stem extension : List Char}
    (h : splitExtension name = (stem, some extension)) :
    stem ≠ [] ∧ name = stem ++ '.' :: extension := by
  unfold splitExtension at h
  have hsplit := List.takeWhile_append_dropWhile (p := fun c => decide (c ≠ '.'))
    (l := name.reverse)
  split at h
  · cases h
  · rename_i dot before hdrop
    split at h
    · cases h
    · rename_i hbefore
      obtain ⟨rfl, hext⟩ := Prod.mk.inj h
      obtain rfl := Option.some.inj hext
      have hdot : dot = '.' := by
        have hhead := List.head?_dropWhile_not (fun c => decide (c ≠ '.')) name.reverse
        rw [hdrop] at hhead
        simpa using hhead
      refine ⟨by simpa using hbefore, ?_⟩
      rw [hdrop, hdot] at hsplit
      have hname := congrArg List.reverse hsplit
      rw [List.reverse_reverse, List.reverse_append, List.reverse_cons, List.append_assoc] at hname
      exact hname.symm

/-- **The files that are read.** -/
theorem tomlStem_eq_some_iff {name stem : String} :
    tomlStem name = some stem ↔ stem ≠ "" ∧ name = stem ++ ".toml" := by
  constructor
  · intro h
    unfold tomlStem at h
    split at h
    · rename_i chars extension hsplit
      split at h
      · rename_i hext
        obtain rfl := Option.some.inj h
        obtain ⟨hne, hname⟩ := splitExtension_eq_some hsplit
        refine ⟨?_, ?_⟩
        · intro hempty
          exact hne (by simpa using congrArg String.toList hempty)
        · refine String.toList_inj.mp ?_
          have hstem : (String.ofList chars).toList = chars := String.toList_ofList
          rw [hname, hext, String.toList_append, hstem]
          rfl
      · cases h
    · cases h
  · rintro ⟨hne, rfl⟩
    have hstem : stem.toList ≠ [] := by simpa using hne
    have hsplit : splitExtension (stem ++ ".toml").toList = (stem.toList, some "toml".toList) := by
      rw [String.toList_append]
      exact splitExtension_append hstem (by decide)
    rw [tomlStem, hsplit]
    dsimp only
    rw [if_pos rfl, String.ofList_toList]

example : [tomlStem "app.toml", tomlStem ".toml", tomlStem "app.local.toml", tomlStem "app.toml.bak"]
    = [some "app", none, some "app.local", none] := by decide

theorem tomlStem_inj (name name' stem : String) (h : stem ∈ tomlStem name)
    (h' : stem ∈ tomlStem name') : name = name' := by
  rw [(tomlStem_eq_some_iff.mp h).2, (tomlStem_eq_some_iff.mp h').2]

/-! ### Inserting sections -/

section

variable {parse : Parser} {dir : String}

theorem root_foldl_insertSection (sections : List (String × Table)) :
    (sections.foldl Config.insertSection Config.empty).root =
      SortedMap.ofList (sections.map fun s => (s.1, Value.table s.2.1)) := by
  induction sections using List.reverseRecOn with
  | nil => rfl
  | append_singleton sections s ih =>
    rw [List.foldl_append, List.map_append, List.map_singleton, SortedMap.ofList_append_singleton,
      ← ih]
    rfl

theorem foldl_insertRead (sections : List (Option (String × Table))) (config : Config) :
    sections.foldl Config.insertRead config =
      sections.reduceOption.foldl Config.insertSection config := by
  induction sections generalizing config with
  | nil => rfl
  | cons s sections ih =>
    rw [List.foldl_cons, ih]
    cases s with
    | none => rfl
    | some s => rfl

/-- The section that an entry is named for. -/
def ConfigEntry.sectionName (entry : Except String ConfigEntry) : Option String :=
  (entry.toOption.bind ConfigEntry.name).bind tomlStem

theorem readSection_name {entry : Except String ConfigEntry} {s : Option (String × Table)}
    (h : readSection parse dir entry = .ok s) : s.map Prod.fst = ConfigEntry.sectionName entry := by
  cases entry with
  | error source => cases h
  | ok entry =>
    show _ = entry.name.bind tomlStem
    simp only [readSection] at h
    split at h
    · rename_i hname
      obtain rfl := Except.ok.inj h
      exact hname.symm
    · rename_i stem hname
      split at h
      · cases h
      · rename_i text htext
        cases htable : readTable parse stem text with
        | error e =>
          rw [htable] at h
          cases h
        | ok table =>
          rw [htable] at h
          obtain rfl := Except.ok.inj h
          exact hname.symm

theorem ConfigDir.nodup_sectionNames (listing : ConfigDir) :
    (listing.entries.filterMap ConfigEntry.sectionName).Nodup := by
  have hnodup := listing.distinct.filterMap (f := tomlStem) tomlStem_inj
  rw [List.filterMap_filterMap] at hnodup
  exact hnodup

/-- The sections that have been read are named for the entries, in order. -/
theorem names_of_read {entries : List (Except String ConfigEntry)}
    {sections : List (Option (String × Table))}
    (h : List.Forall₂ (fun e s => readSection parse dir e = .ok s) entries sections) :
    sections.reduceOption.map Prod.fst = entries.filterMap ConfigEntry.sectionName := by
  induction h with
  | nil => rfl
  | @cons e s entries sections hs _ ih =>
    have hname := readSection_name hs
    cases s with
    | none =>
      rw [List.reduceOption_cons_of_none, ih, List.filterMap_cons_none hname.symm]
    | some s =>
      rw [List.reduceOption_cons_of_some, List.map_cons, ih, List.filterMap_cons_some hname.symm]

theorem mem_of_read {entries : List (Except String ConfigEntry)}
    {sections : List (Option (String × Table))}
    (h : List.Forall₂ (fun e s => readSection parse dir e = .ok s) entries sections)
    {s : Option (String × Table)} :
    s ∈ sections ↔ ∃ e ∈ entries, readSection parse dir e = .ok s := by
  induction h with
  | nil => simp
  | @cons e s' entries sections hs _ ih =>
    rw [List.mem_cons, ih, List.exists_mem_cons_iff]
    refine or_congr_left ?_
    constructor
    · rintro rfl
      exact hs
    · intro hs'
      exact Except.ok.inj (hs'.symm.trans hs)

/-! ### What is loaded -/

/-- The configuration is the tables of the directory's files. -/
structure Config.Reads (config : Config) (parse : Parser) (dir : String) (listing : ConfigDir) :
    Prop where
  readable : ∀ entry ∈ listing.entries, ∃ s, readSection parse dir entry = .ok s
  sections : ∀ name value, config.root.lookup name = some value ↔
    ∃ entry ∈ listing.entries, ∃ table : Table,
      readSection parse dir entry = .ok (some (name, table)) ∧ value = .table table.1

theorem reads_of_read {listing : ConfigDir} {sections : List (Option (String × Table))}
    (h : List.Forall₂ (fun e s => readSection parse dir e = .ok s) listing.entries sections) :
    (sections.foldl Config.insertRead Config.empty).Reads parse dir listing := by
  refine ⟨?_, ?_⟩
  · intro entry hentry
    obtain ⟨i, hi, rfl⟩ := List.mem_iff_getElem.mp hentry
    have hlen : i < sections.length := h.length_eq ▸ hi
    exact ⟨sections[i], h.get hi hlen⟩
  · intro name value
    have hnodup : ((sections.reduceOption.map fun s => (s.1, Value.table s.2.1)).reverse.map
        Prod.fst).Nodup := by
      rw [List.map_reverse, List.nodup_reverse, List.map_map]
      show (sections.reduceOption.map Prod.fst).Nodup
      rw [names_of_read h]
      exact listing.nodup_sectionNames
    rw [foldl_insertRead, root_foldl_insertSection, SortedMap.lookup_ofList]
    constructor
    · intro hlookup
      have hmem := SortedMap.mem_of_lookup hlookup
      obtain ⟨⟨name', table⟩, hs, heq⟩ := List.mem_map.mp (List.mem_reverse.mp hmem)
      obtain ⟨rfl, rfl⟩ := Prod.mk.inj heq
      obtain ⟨entry, hentry, hread⟩ := (mem_of_read h).mp (List.reduceOption_mem_iff.mp hs)
      exact ⟨entry, hentry, table, hread, rfl⟩
    · rintro ⟨entry, hentry, table, hread, rfl⟩
      have hs := List.reduceOption_mem_iff.mpr ((mem_of_read h).mpr ⟨entry, hentry, hread⟩)
      exact lookup_of_mem hnodup (List.mem_reverse.mpr (List.mem_map.mpr ⟨_, hs, rfl⟩))

/-- Two configurations that are the tables of one directory are equal. -/
theorem Config.Reads.unique {config config' : Config} {listing listing' : ConfigDir}
    (hperm : listing.entries.Perm listing'.entries) (h : config.Reads parse dir listing)
    (h' : config'.Reads parse dir listing') : config = config' := by
  refine Config.ext_root (SortedMap.eq_of_lookup config.wellKeyed.sorted config'.wellKeyed.sorted ?_)
  intro name
  refine Option.ext fun value => ?_
  rw [h.sections, h'.sections]
  exact exists_congr fun entry => and_congr_left fun _ => hperm.mem_iff

/-- The files of a directory are loaded when each can be read. -/
theorem foldlM_readSection {listing : ConfigDir} {config : Config} :
    listing.entries.foldlM (fun config entry =>
      (readSection parse dir entry).map config.insertRead) Config.empty = .ok config ↔
      config.Reads parse dir listing := by
  rw [foldlM_read]
  constructor
  · intro h
    cases hsections : listing.entries.mapM (readSection parse dir) with
    | error e =>
      rw [hsections] at h
      cases h
    | ok sections =>
      rw [hsections] at h
      obtain rfl := Except.ok.inj h
      exact reads_of_read (mapM_eq_ok.mp hsections)
  · intro h
    obtain ⟨sections, hsections⟩ := exists_mapM_eq_ok h.readable
    have hreads := reads_of_read (mapM_eq_ok.mp hsections)
    rw [hsections, ← hreads.unique (List.Perm.refl _) h]
    rfl

variable {unicode : String → String} {vars : List (String × String)}

theorem load_of_reads {listing : ConfigDir} {files : Config} (h : files.Reads parse dir listing) :
    load parse unicode dir (.ok listing) vars = .ok (files.applyOverrides unicode vars) := by
  unfold load
  dsimp only
  rw [foldlM_readSection.mpr h]
  rfl

theorem reads_of_load {listing : ConfigDir} {config : Config}
    (h : load parse unicode dir (.ok listing) vars = .ok config) :
    ∃ files : Config, files.Reads parse dir listing ∧
      config = files.applyOverrides unicode vars := by
  unfold load at h
  dsimp only at h
  cases hfiles : listing.entries.foldlM
      (fun config entry => (readSection parse dir entry).map config.insertRead) Config.empty with
  | error e =>
    rw [hfiles] at h
    cases h
  | ok files =>
    rw [hfiles] at h
    exact ⟨files, foldlM_readSection.mp hfiles, (Except.ok.inj h).symm⟩

theorem Config.Reads.perm {config : Config} {listing listing' : ConfigDir}
    (hperm : listing.entries.Perm listing'.entries) (h : config.Reads parse dir listing) :
    config.Reads parse dir listing' := by
  refine ⟨fun entry hentry => h.readable entry (hperm.mem_iff.mpr hentry), ?_⟩
  intro name value
  rw [h.sections]
  exact exists_congr fun entry => and_congr_left fun _ => hperm.mem_iff

end

/-- **What is loaded**, without the order of the directory. -/
theorem loaded_iff (parse : Parser) (unicode : String → String) (dir : String)
    (listing : ConfigDir) (vars : List (String × String)) (config : Config) :
    load parse unicode dir (.ok listing) vars = .ok config ↔
      ∃ files : Config, files.Reads parse dir listing ∧
        config = files.applyOverrides unicode vars := by
  constructor
  · exact reads_of_load
  · rintro ⟨files, hreads, rfl⟩
    exact load_of_reads hreads

/-- **The order of the directory does not matter.** -/
theorem load_perm (parse : Parser) (unicode : String → String) (dir : String)
    (vars : List (String × String)) {listing listing' : ConfigDir}
    (h : listing.entries.Perm listing'.entries) :
    (load parse unicode dir (.ok listing) vars).toOption =
      (load parse unicode dir (.ok listing') vars).toOption := by
  have hok : ∀ {listing listing' : ConfigDir} {config : Config},
      listing.entries.Perm listing'.entries →
      load parse unicode dir (.ok listing) vars = .ok config →
        load parse unicode dir (.ok listing') vars = .ok config := by
    intro listing listing' config hperm hload
    obtain ⟨files, hreads, rfl⟩ := reads_of_load hload
    exact load_of_reads (hreads.perm hperm)
  cases hload : load parse unicode dir (.ok listing) vars with
  | ok config => rw [hok h hload]
  | error e =>
    cases hload' : load parse unicode dir (.ok listing') vars with
    | error e' => rfl
    | ok config =>
      rw [hok h.symm hload'] at hload
      cases hload

/-- An empty text is the empty table. -/
def parseBlank (text : String) : Except String { v : Value // v.WellKeyed } :=
  if text = "" then .ok ⟨.table [], .table List.Pairwise.nil (by simp)⟩
  else .error "not a blank text"

def blankFile (name : String) : ConfigEntry := ⟨"config/" ++ name, some name, .ok ""⟩

/-- A directory of two sections and another file. -/
def threeFiles : List ConfigEntry :=
  [blankFile "app.toml", blankFile "README.md", blankFile "logging.toml"]

def listed : ConfigDir := ⟨threeFiles.map .ok, by decide⟩

def listedBackwards : ConfigDir := ⟨threeFiles.reverse.map .ok, by decide⟩

theorem load_threeFiles :
    (load parseBlank id "config" (.ok listed) [("APP__NAME", "kolas")]).toOption =
      (load parseBlank id "config" (.ok listedBackwards) [("APP__NAME", "kolas")]).toOption :=
  load_perm parseBlank id "config" [("APP__NAME", "kolas")]
    (List.Perm.map _ (List.reverse_perm threeFiles).symm)

/-! ### Lists of sections -/

section

variable {parse : Parser} {dir : String}

/-- What a section's text is read as. -/
def sectionValue (parse : Parser) (s : String × String) : Option Value :=
  (readTable parse s.1 s.2).toOption.map fun table => .table table.1

theorem lookup_tables {sections : List (String × String)} {tables : List (String × Table)}
    (h : List.Forall₂ (fun s t =>
      ((readTable parse s.1 s.2).map fun table => (s.1, table)) = .ok t) sections tables)
    (name : String) :
    (tables.map fun t => (t.1, Value.table t.2.1)).lookup name =
      (sections.lookup name).bind fun text => sectionValue parse (name, text) := by
  induction h with
  | nil => rfl
  | @cons s t sections tables hs _ ih =>
    obtain ⟨section_, text⟩ := s
    cases hread : readTable parse section_ text with
    | error e =>
      rw [hread] at hs
      cases hs
    | ok table =>
      rw [hread] at hs
      obtain rfl := Except.ok.inj hs
      rw [List.map_cons, List.lookup_cons, List.lookup_cons]
      by_cases hname : name = section_
      · subst hname
        rw [beq_self_eq_true]
        show some (Value.table table.1) = sectionValue parse (name, text)
        rw [sectionValue, hread]
        rfl
      · rw [beq_false_of_ne hname]
        exact ih

/-- **Of the sections of one name the last one counts.** -/
theorem lookup_fromSections {sections : List (String × String)} {config : Config}
    (h : fromSections parse sections = .ok config) (name : String) :
    config.root.lookup name =
      (sections.reverse.lookup name).bind fun text => sectionValue parse (name, text) := by
  rw [fromSections, foldlM_read] at h
  cases htables : sections.mapM fun s => (readTable parse s.1 s.2).map fun table => (s.1, table) with
  | error e =>
    rw [htables] at h
    cases h
  | ok tables =>
    rw [htables] at h
    obtain rfl := Except.ok.inj h
    rw [root_foldl_insertSection, SortedMap.lookup_ofList, ← List.map_reverse]
    exact lookup_tables (List.forall₂_reverse_iff.mpr (mapM_eq_ok.mp htables)) name

/-- The entry's name as a section and its text, if it is read. -/
def ConfigEntry.sectionText (entry : ConfigEntry) : Option (String × String) :=
  (entry.name.bind tomlStem).bind fun stem => entry.text.toOption.map fun text => (stem, text)

theorem foldlM_sectionText {entries : List ConfigEntry}
    (h : ∀ entry ∈ entries, ∃ text, entry.text = .ok text) (config : Config) :
    (entries.map Except.ok).foldlM
        (fun config entry => (readSection parse dir entry).map config.insertRead) config =
      (entries.filterMap ConfigEntry.sectionText).foldlM (fun config s =>
        ((readTable parse s.1 s.2).map fun table => (s.1, table)).map config.insertSection)
        config := by
  induction entries generalizing config with
  | nil => rfl
  | cons entry entries ih =>
    obtain ⟨⟨text, htext⟩, hrest⟩ := List.forall_mem_cons.mp h
    rw [List.map_cons, List.foldlM_cons]
    cases hstem : entry.name.bind tomlStem with
    | none =>
      have hread : readSection parse dir (.ok entry) = .ok none := by
        simp only [readSection, hstem]
      have hnone : entry.sectionText = none := by
        rw [ConfigEntry.sectionText, hstem]
        rfl
      rw [hread, List.filterMap_cons_none hnone]
      exact ih hrest config
    | some stem =>
      have hread : readSection parse dir (.ok entry) =
          (readTable parse stem text).map fun table => some (stem, table) := by
        simp only [readSection, hstem, htext]
      have hsome : entry.sectionText = some (stem, text) := by
        rw [ConfigEntry.sectionText, hstem, htext]
        rfl
      rw [hread, List.filterMap_cons_some hsome, List.foldlM_cons]
      cases readTable parse stem text with
      | error e => rfl
      | ok table => exact ih hrest (config.insertSection (stem, table))

/-- **A directory that can be read is its files' sections**, and the variables come last. -/
theorem load_eq_fromSections {listing : ConfigDir} {entries : List ConfigEntry}
    (hentries : listing.entries = entries.map .ok)
    (h : ∀ entry ∈ entries, ∃ text, entry.text = .ok text) (unicode : String → String)
    (vars : List (String × String)) :
    load parse unicode dir (.ok listing) vars =
      (fromSections parse (entries.filterMap ConfigEntry.sectionText)).map fun config =>
        config.applyOverrides unicode vars := by
  unfold load
  dsimp only
  rw [hentries, foldlM_sectionText h]
  rfl

end

theorem sections_threeFiles :
    load parseBlank id "config" (.ok listed) [("APP__NAME", "kolas")] =
      (fromSections parseBlank [("app", ""), ("logging", "")]).map fun config =>
        config.applyOverrides id [("APP__NAME", "kolas")] := by
  have hreadable : ∀ entry ∈ threeFiles, ∃ text, entry.text = .ok text := by
    intro entry hentry
    refine ⟨"", ?_⟩
    simp only [threeFiles, List.mem_cons, List.not_mem_nil, or_false] at hentry
    rcases hentry with rfl | rfl | rfl <;> rfl
  exact load_eq_fromSections rfl hreadable id [("APP__NAME", "kolas")]

end Kolas.Config

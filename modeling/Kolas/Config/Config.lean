import Kolas.Config.Value

/-!
# The configuration

`Config` of `config/config.rs`: a tree whose top level is a table of sections,
each a table.  `resolve` reads at a dot-path, `setPath` writes at a path of keys,
making tables where there are none, and `applyOverrides` writes each environment
variable whose name has a `__` and begins with the name of a section.

`str::to_lowercase` is `Char.toLower` on ASCII text; on other text it is a
parameter, `unicode`.
-/

set_option linter.dupNamespace false

namespace Kolas.Config

open Kolas.Lib

/-! ### Names -/

/-- `str::contains("__")`. -/
def containsDunder : List Char → Bool
  | '_' :: '_' :: _ => true
  | _ :: rest => containsDunder rest
  | [] => false

/-- `str::split("__")`. -/
def splitDunder : List Char → List (List Char)
  | '_' :: '_' :: rest => [] :: splitDunder rest
  | c :: rest =>
    match splitDunder rest with
    | part :: parts => (c :: part) :: parts
    | [] => [[c]]
  | [] => [[]]

/-- `str::to_lowercase`. -/
def toLowercase (unicode : String → String) (s : String) : String :=
  if s.toList.all fun c => c.toNat < 128 then String.ofList (s.toList.map Char.toLower)
  else unicode s

/-- `key.split("__").map(|s| s.to_lowercase())`. -/
def nameParts (unicode : String → String) (key : String) : List String :=
  (splitDunder key.toList).map fun part => toLowercase unicode (String.ofList part)

/-! ### Writing -/

/-- The entries of a value that is a table, and no entries otherwise. -/
def Value.entries : Option Value → Entries
  | some (.table entries) => entries
  | _ => []

/-- `Config::set_path`.  The callers' paths have at least two keys. -/
def setPath (root : Entries) : List String → Value → Entries
  | [], _ => root
  | [key], value => SortedMap.insert key value root
  | key :: next :: path, value =>
    SortedMap.insert key (.table (setPath (Value.entries (root.lookup key)) (next :: path) value))
      root

/-- One iteration of `apply_overrides`. -/
def applyOverride (unicode : String → String) (knownSections : List String) (root : Entries)
    (var : String × String) : Entries :=
  if containsDunder var.1.toList then
    match nameParts unicode var.1 with
    | section_ :: key :: path =>
      if section_ ∈ knownSections then
        setPath root (section_ :: key :: path) (parseEnvValue var.2)
      else root
    | _ => root
  else root

/-- The path a variable is written to, if it is. -/
def overridePath (unicode : String → String) (knownSections : List String) (name : String) :
    Option (List String) :=
  if containsDunder name.toList then
    match nameParts unicode name with
    | section_ :: key :: path =>
      if section_ ∈ knownSections then some (section_ :: key :: path) else none
    | _ => none
  else none

theorem applyOverride_eq (unicode : String → String) (knownSections : List String) (root : Entries)
    (var : String × String) :
    applyOverride unicode knownSections root var =
      match overridePath unicode knownSections var.1 with
      | some path => setPath root path (parseEnvValue var.2)
      | none => root := by
  unfold applyOverride overridePath
  split
  · split
    · split <;> rfl
    · rfl
  · rfl

/-- **A variable is written where its name leads**, if it has a `__` and begins
with the name of a section. -/
theorem overridePath_eq_some_iff {unicode : String → String} {knownSections : List String}
    {name : String} {path : List String} :
    overridePath unicode knownSections name = some path ↔
      containsDunder name.toList = true ∧ nameParts unicode name = path ∧
        ∃ section_ key rest, path = section_ :: key :: rest ∧ section_ ∈ knownSections := by
  unfold overridePath
  constructor
  · intro h
    split at h
    · rename_i hdunder
      split at h
      · rename_i section_ key rest hparts
        split at h
        · rename_i hknown
          obtain rfl := Option.some.inj h
          exact ⟨hdunder, hparts, section_, key, rest, rfl, hknown⟩
        · cases h
      · cases h
    · cases h
  · rintro ⟨hdunder, hparts, section_, key, rest, rfl, hknown⟩
    rw [if_pos hdunder, hparts]
    exact if_pos hknown

theorem overridePath_two {unicode : String → String} {knownSections : List String} {name : String}
    {path : List String} (h : overridePath unicode knownSections name = some path) :
    ∃ section_ key rest, path = section_ :: key :: rest := by
  obtain ⟨-, -, section_, key, rest, hpath, -⟩ := overridePath_eq_some_iff.mp h
  exact ⟨section_, key, rest, hpath⟩

/-! ### What writing keeps -/

theorem Value.WellKeyed.entries {root : Entries} (h : (Value.table root).WellKeyed) (key : String) :
    (Value.table (Value.entries (root.lookup key))).WellKeyed := by
  have hnil : (Value.table []).WellKeyed := .table List.Pairwise.nil (by simp)
  cases hv : root.lookup key with
  | none => exact hnil
  | some v =>
    have hw := h.lookup hv
    cases v with
    | table entries => exact hw
    | _ => exact hnil

theorem wellKeyed_setPath {root : Entries} (h : (Value.table root).WellKeyed) (path : List String)
    {value : Value} (hv : value.WellKeyed) : (Value.table (setPath root path value)).WellKeyed := by
  induction path generalizing root with
  | nil => exact h
  | cons key path ih =>
    cases path with
    | nil => exact h.insert hv
    | cons next path => exact h.insert (ih (h.entries key))

/-- A write below the top level leaves sections that are tables. -/
def Sections (root : Entries) : Prop := ∀ e ∈ root, ∃ entries, e.2 = .table entries

theorem sections_setPath {root : Entries} (h : Sections root) (section_ key : String)
    (path : List String) (value : Value) :
    Sections (setPath root (section_ :: key :: path) value) := by
  intro e he
  rcases SortedMap.mem_insert he with rfl | he
  · exact ⟨_, rfl⟩
  · exact h e he

/-- `Config`: the root is a table, and so is every section, since `load` and
`from_sections` refuse a file that is not. -/
structure Config where
  root : Entries
  wellKeyed : (Value.table root).WellKeyed
  sections : Sections root

namespace Config

theorem ext_root {config config' : Config} (h : config.root = config'.root) : config = config' := by
  cases config
  cases config'
  obtain rfl := h
  rfl

/-- The loop of `apply_overrides`. -/
def overridden (unicode : String → String) (config : Config) (vars : List (String × String)) :
    Entries :=
  vars.foldl (applyOverride unicode (config.root.map Prod.fst)) config.root

theorem overridden_spec (unicode : String → String) (config : Config)
    (vars : List (String × String)) :
    (Value.table (config.overridden unicode vars)).WellKeyed ∧
      Sections (config.overridden unicode vars) := by
  refine List.foldlRecOn (motive := fun root => (Value.table root).WellKeyed ∧ Sections root)
    vars _ ⟨config.wellKeyed, config.sections⟩ ?_
  intro root hroot var _
  obtain ⟨hw, hs⟩ := hroot
  rw [applyOverride_eq]
  cases hp : overridePath unicode (config.root.map Prod.fst) var.1 with
  | none => exact ⟨hw, hs⟩
  | some path =>
    obtain ⟨section_, key, rest, rfl⟩ := overridePath_two hp
    exact ⟨wellKeyed_setPath hw _ (wellKeyed_parseEnvValue var.2),
      sections_setPath hs section_ key rest _⟩

/-- `Config::apply_overrides`. -/
def applyOverrides (unicode : String → String) (config : Config) (vars : List (String × String)) :
    Config where
  root := config.overridden unicode vars
  wellKeyed := (config.overridden_spec unicode vars).1
  sections := (config.overridden_spec unicode vars).2

/-- The loop of `Config::resolve`. -/
def resolveParts (config : Config) (parts : List String) : Option Value :=
  parts.foldl (fun current part =>
    match current with
    | some (.table entries) => entries.lookup part
    | _ => none) (some (.table config.root))

/-- `Config::resolve`. -/
def resolve (config : Config) (path : String) : Option Value :=
  config.resolveParts ((path.toList.splitOn '.').map String.ofList)

end Config

end Kolas.Config

import Kolas.Config.Overrides

/-!
# Reading what was written

The put and get laws of `setPath` and `resolve`.  `valueAt` reads at a path of
keys.  After a write at a path

* the path has the value (`valueAt_written_self`),
* every prefix of it leads to a table (`valueAt_written_above`), and
* a path that it is not comparable with has what it had (`valueAt_written_of_not`).

`resolve` splits a dot-path, which gives back the keys that were joined by dots
if none of them has a dot (`split_dotted`).
-/

set_option linter.dupNamespace false

namespace Kolas.Config

open Kolas.Lib

/-! ### Values at paths -/

/-- What stands at a path of keys below a value. -/
def valueAt : Option Value → List String → Option Value
  | v, [] => v
  | v, key :: path => valueAt ((Value.entries v).lookup key) path

theorem valueAt_append (v : Option Value) (p q : List String) :
    valueAt v (p ++ q) = valueAt (valueAt v p) q := by
  induction p generalizing v with
  | nil => rfl
  | cons key p ih => exact ih _

theorem valueAt_none (path : List String) : valueAt none path = none := by
  induction path with
  | nil => rfl
  | cons key path ih => exact ih

theorem written_cons (old : Option Value) (key : String) (path : List String) (value : Value) :
    written old (key :: path) value =
      .table (SortedMap.insert key (written ((Value.entries old).lookup key) path value)
        (Value.entries old)) := by
  rw [← setPath_cons, written]

/-- **What was put is got.** -/
theorem valueAt_written_self (old : Option Value) (path : List String) (value : Value) :
    valueAt (some (written old path value)) path = some value := by
  induction path generalizing old with
  | nil => rfl
  | cons key path ih =>
    rw [written_cons, valueAt, Value.entries, SortedMap.lookup_insert_self]
    exact ih _

/-- **On the way there are tables.** -/
theorem valueAt_written_above (old : Option Value) (path : List String) (key : String)
    (rest : List String) (value : Value) :
    ∃ entries, valueAt (some (written old (path ++ key :: rest) value)) path =
      some (.table entries) := by
  induction path generalizing old with
  | nil => exact ⟨_, congrArg some (written_cons old key rest value)⟩
  | cons key' path ih =>
    rw [List.cons_append, written_cons, valueAt, Value.entries, SortedMap.lookup_insert_self]
    exact ih _

/-- **Elsewhere nothing changes.** -/
theorem valueAt_written_of_not (old : Option Value) {p q : List String} (h : ¬ Comparable p q)
    (value : Value) : valueAt (some (written old p value)) q = valueAt old q := by
  induction p generalizing old q with
  | nil => exact absurd (Or.inl List.nil_prefix) h
  | cons key p ih =>
    cases q with
    | nil => exact absurd (Or.inr List.nil_prefix) h
    | cons key' q =>
      rw [written_cons, valueAt, valueAt, Value.entries]
      by_cases hk : key' = key
      · subst hk
        rw [SortedMap.lookup_insert_self]
        refine ih _ fun hc => h (hc.imp ?_ ?_)
        · exact fun hp => List.cons_prefix_cons.mpr ⟨rfl, hp⟩
        · exact fun hp => List.cons_prefix_cons.mpr ⟨rfl, hp⟩
      · rw [SortedMap.lookup_insert_of_ne hk]

/-! ### Dot-paths -/

/-- Keys joined to a dot-path. -/
def dotted (path : List String) : String := ".".intercalate path

theorem split_dotted {path : List String} (hne : path ≠ [])
    (h : ∀ key ∈ path, '.' ∉ key.toList) :
    ((dotted path).toList.splitOn '.').map String.ofList = path := by
  have hlist : (dotted path).toList.splitOn '.' = path.map String.toList := by
    rw [dotted, String.toList_intercalate]
    refine List.splitOn_intercalate '.' ?_ (by simpa using hne)
    intro l hl
    obtain ⟨key, hkey, rfl⟩ := List.mem_map.mp hl
    exact h key hkey
  rw [hlist, List.map_map]
  exact (List.map_congr_left fun key _ => String.ofList_toList).trans (List.map_id path)

namespace Config

theorem resolveParts_eq (config : Config) (path : List String) :
    config.resolveParts path = valueAt (some (.table config.root)) path := by
  unfold resolveParts
  generalize some (Value.table config.root) = v
  induction path generalizing v with
  | nil => rfl
  | cons key path ih =>
    rw [List.foldl_cons, ih, valueAt]
    congr 1
    cases v with
    | none => rfl
    | some v => cases v <;> rfl

theorem resolve_dotted (config : Config) {path : List String} (hne : path ≠ [])
    (h : ∀ key ∈ path, '.' ∉ key.toList) :
    config.resolve (dotted path) = valueAt (some (.table config.root)) path := by
  rw [resolve, split_dotted hne h, resolveParts_eq]

/-- The names of the sections. -/
def sectionNames (config : Config) : List String := config.root.map Prod.fst

variable (unicode : String → String) (config : Config)

/-- **Overrides keep the sections.** -/
theorem sectionNames_applyOverrides (vars : List (String × String)) :
    (config.applyOverrides unicode vars).sectionNames = config.sectionNames := by
  have hfold : (Value.table (config.overridden unicode vars)).WellKeyed ∧
      (config.overridden unicode vars).map Prod.fst = config.sectionNames := by
    refine List.foldlRecOn (motive := fun root => (Value.table root).WellKeyed ∧
      root.map Prod.fst = config.sectionNames) vars _ ⟨config.wellKeyed, rfl⟩ ?_
    rintro root ⟨hw, hnames⟩ var -
    rw [applyOverride_eq]
    cases hp : overridePath unicode (config.root.map Prod.fst) var.1 with
    | none => exact ⟨hw, hnames⟩
    | some path =>
      obtain ⟨-, -, section_, key, rest, rfl, hknown⟩ := overridePath_eq_some_iff.mp hp
      refine ⟨wellKeyed_setPath hw _ (wellKeyed_parseEnvValue var.2), ?_⟩
      show (setPath root (section_ :: key :: rest) (parseEnvValue var.2)).map Prod.fst = _
      rw [setPath_cons, SortedMap.keys_insert_of_mem hw.sorted, hnames]
      rw [hnames]
      exact hknown
  exact hfold.2

variable {unicode config} {name raw : String}

/-- What one variable that is written leaves at the top. -/
theorem root_applyOverrides {path : List String}
    (h : overridePath unicode config.sectionNames name = some path) :
    some (Value.table (config.applyOverrides unicode [(name, raw)]).root) =
      some (written (some (.table config.root)) path (parseEnvValue raw)) := by
  obtain ⟨section_, key, rest, rfl⟩ := overridePath_two h
  have hroot : (config.applyOverrides unicode [(name, raw)]).root =
      setPath config.root (section_ :: key :: rest) (parseEnvValue raw) := by
    show applyOverride unicode (config.root.map Prod.fst) config.root (name, raw) = _
    rw [applyOverride_eq]
    have hpath : overridePath unicode (config.root.map Prod.fst) name =
        some (section_ :: key :: rest) := h
    rw [hpath]
  rw [hroot]
  rfl

/-- The variable is not of a section, or its name has no `__`. -/
def Ineffective (unicode : String → String) (config : Config) (name : String) : Prop :=
  containsDunder name.toList = false ∨
    ∀ section_, (nameParts unicode name).head? = some section_ → section_ ∉ config.sectionNames

theorem Ineffective.overridePath (h : Ineffective unicode config name) :
    overridePath unicode config.sectionNames name = none := by
  rw [Option.eq_none_iff_forall_ne_some]
  intro path hpath
  obtain ⟨hdunder, hparts, section_, key, rest, rfl, hknown⟩ := overridePath_eq_some_iff.mp hpath
  rcases h with h | h
  · rw [hdunder] at h
    cases h
  · exact h section_ (by rw [hparts]; rfl) hknown

/-- No segment of the name has a dot. -/
def Undotted (unicode : String → String) (name : String) : Prop :=
  ∀ part ∈ nameParts unicode name, '.' ∉ part.toList

/-- The keys of a dot-path. -/
def dotParts (path : String) : List String := (path.toList.splitOn '.').map String.ofList

/-- What one variable does that is written to a path. -/
structure PutGet (config config' : Config) (path : List String) (value : Value) : Prop where
  put : config'.resolve (dotted path) = some value
  onTheWay : ∀ p, p <+: path → p ≠ path → p ≠ [] →
    ∃ entries, config'.resolve (dotted p) = some (.table entries)
  elsewhere : ∀ q, ¬ Comparable path (dotParts q) → config'.resolve q = config.resolve q

theorem putGet_of_overridePath (hdots : Undotted unicode name) {path : List String}
    (h : Config.overridePath unicode config.sectionNames name = some path) :
    PutGet config (config.applyOverrides unicode [(name, raw)]) path (parseEnvValue raw) := by
  obtain ⟨-, hparts, section_, key, rest, hpath, -⟩ := overridePath_eq_some_iff.mp h
  have hne : path ≠ [] := by rw [hpath]; exact List.cons_ne_nil _ _
  have hkeys : ∀ key ∈ path, '.' ∉ key.toList := hparts ▸ hdots
  constructor
  · rw [resolve_dotted _ hne hkeys, root_applyOverrides h, valueAt_written_self]
  · intro p hp hproper hnil
    obtain ⟨tail, rfl⟩ := hp
    cases tail with
    | nil => exact absurd (List.append_nil p).symm hproper
    | cons key rest =>
      rw [resolve_dotted _ hnil fun k hk => hkeys k (List.mem_append_left _ hk),
        root_applyOverrides h]
      exact valueAt_written_above _ p key rest _
  · intro q hq
    show Config.resolveParts _ (dotParts q) = config.resolveParts (dotParts q)
    rw [resolveParts_eq, resolveParts_eq, root_applyOverrides h, valueAt_written_of_not _ hq]

/-- **The laws of the overrides.** -/
theorem applyOverrides_laws (unicode : String → String) (config : Config) :
    (∀ vars, (config.applyOverrides unicode vars).sectionNames = config.sectionNames ∧
      Sections (config.applyOverrides unicode vars).root) ∧
    (∀ name raw path, Undotted unicode name →
      overridePath unicode config.sectionNames name = some path →
        PutGet config (config.applyOverrides unicode [(name, raw)]) path (parseEnvValue raw)) ∧
    ∀ name, Ineffective unicode config name → ∀ vars raw vars',
      config.applyOverrides unicode (vars ++ (name, raw) :: vars') =
        config.applyOverrides unicode (vars ++ vars') := by
  refine ⟨fun vars => ?_, fun name raw path hdots h => putGet_of_overridePath hdots h, ?_⟩
  · exact ⟨sectionNames_applyOverrides unicode config vars,
      (config.applyOverrides unicode vars).sections⟩
  · intro name h vars raw vars'
    apply ext_root
    show List.foldl _ _ _ = List.foldl _ _ _
    have hnone : Config.overridePath unicode (config.root.map Prod.fst) name = none :=
      h.overridePath
    rw [List.foldl_append, List.foldl_append, List.foldl_cons, applyOverride_eq, hnone]

/-- A feature of the application: the tables on the way to it are made. -/
theorem applyOverrides_feature :
    PutGet app (app.applyOverrides id [("APP__FEATURES__BETA", "true")])
      ["app", "features", "beta"] (.boolean true) := by
  have hdots : Undotted id "APP__FEATURES__BETA" := by
    unfold Undotted
    decide
  exact (applyOverrides_laws id app).2.1 "APP__FEATURES__BETA" "true" _ hdots rfl

end Config

end Kolas.Config

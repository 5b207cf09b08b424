import Kolas.Config.Laws
import Kolas.Config.Names

/-!
# Which values a variable can override

The documented name of a value is its path with the keys in upper case, joined by
`__`.  `apply_overrides` takes the name apart and puts the keys in lower case.

`overridable_iff`: the name leads back to the value exactly when every key comes
back from upper case as it was and none but the last ends with `_`.  Otherwise the
value stays, or another key is written.

`str::to_uppercase` maps a text character by character: `Char.toUpper` on ASCII,
and a parameter, `upper`, on other characters.
-/

set_option linter.dupNamespace false

namespace Kolas.Config

open Kolas.Lib

/-! ### Upper case -/

/-- `char::to_uppercase`. -/
def upperChar (upper : Char → List Char) (c : Char) : List Char :=
  if c.toNat < 128 then [c.toUpper] else upper c

/-- `str::to_uppercase`. -/
def toUppercase (upper : Char → List Char) (s : String) : String :=
  String.ofList (s.toList.flatMap (upperChar upper))

/-- The variable for the value at a path. -/
def overrideName (upper : Char → List Char) (path : List String) : String :=
  "__".intercalate (path.map (toUppercase upper))

/-- Changing the case of a text makes and loses no underscores, and no characters
altogether. -/
structure KeepsUnderscores (upper : Char → List Char) (unicode : String → String) : Prop where
  upper : ∀ c, 128 ≤ c.toNat → '_' ∉ upper c ∧ upper c ≠ []
  lower : ∀ s, (unicode s).toList.count '_' = s.toList.count '_'

theorem ascii_underscore : ∀ n < 128,
    ((Char.ofNat n).toUpper = '_' ↔ Char.ofNat n = '_') ∧
      ((Char.ofNat n).toLower = '_' ↔ Char.ofNat n = '_') := by
  decide

section

variable {upper : Char → List Char} {unicode : String → String}
  (hcase : KeepsUnderscores upper unicode)

/-- An underscore stays, and no other character brings one. -/
theorem upperChar_underscore : upperChar upper '_' = ['_'] := rfl

include hcase

theorem upperChar_plain {c : Char} (hc : c ≠ '_') :
    '_' ∉ upperChar upper c ∧ upperChar upper c ≠ [] := by
  unfold upperChar
  split
  · rename_i hlt
    refine ⟨fun hmem => hc ?_, List.cons_ne_nil _ _⟩
    have hascii := (ascii_underscore c.toNat hlt).1
    rw [Char.ofNat_toNat] at hascii
    exact hascii.mp (List.mem_singleton.mp hmem).symm
  · exact hcase.upper c (by omega)

theorem count_upper (l : List Char) :
    (l.flatMap (upperChar upper)).count '_' = l.count '_' := by
  induction l with
  | nil => rfl
  | cons c l ih =>
    rw [List.flatMap_cons, List.count_append, ih, List.count_cons]
    by_cases hc : c = '_'
    · subst hc
      rw [upperChar_underscore, List.count_singleton_self, if_pos (beq_self_eq_true _)]
      omega
    · rw [List.count_eq_zero.mpr (upperChar_plain hcase hc).1, if_neg (by simpa using hc)]
      omega

theorem getLast_upper (l : List Char) :
    (l.flatMap (upperChar upper)).getLast? = some '_' ↔ l.getLast? = some '_' := by
  rcases List.eq_nil_or_concat l with rfl | ⟨init, c, rfl⟩
  · rfl
  rw [List.concat_eq_append, List.flatMap_append, List.getLast?_concat, List.flatMap_singleton]
  by_cases hc : c = '_'
  · subst hc
    rw [upperChar_underscore, List.getLast?_concat]
  · obtain ⟨hplain, hne⟩ := upperChar_plain hcase hc
    rw [List.getLast?_append_of_ne_nil _ hne]
    constructor
    · intro h
      exact absurd (List.mem_of_getLast? h) hplain
    · intro h
      exact absurd (Option.some.inj h) hc

theorem containsDunder_upper {l : List Char} (h : containsDunder l = false) :
    containsDunder (l.flatMap (upperChar upper)) = false := by
  induction l with
  | nil => rfl
  | cons c l ih =>
    obtain ⟨hapart, hl⟩ := apart_of_containsDunder h
    rw [List.flatMap_cons]
    by_cases hc : c = '_'
    · subst hc
      -- the next character is another one, and does not become an underscore
      rw [upperChar_underscore, List.singleton_append, containsDunder_cons, ih hl]
      rintro ⟨-, hhead⟩
      cases l with
      | nil => cases hhead
      | cons d l =>
        have hd : d ≠ '_' := by
          rintro rfl
          exact hapart ⟨rfl, rfl⟩
        obtain ⟨hplain, hne⟩ := upperChar_plain hcase hd
        rw [List.flatMap_cons, List.head?_append_of_ne_nil _ hne] at hhead
        exact hplain (List.mem_of_head? hhead)
    · rw [containsDunder_append_left (upperChar_plain hcase hc).1, ih hl]

theorem count_lower (s : String) :
    (toLowercase unicode s).toList.count '_' = s.toList.count '_' := by
  unfold toLowercase
  split
  · rename_i hascii
    rw [String.toList_ofList]
    rw [List.all_eq_true] at hascii
    generalize s.toList = l at hascii ⊢
    induction l with
    | nil => rfl
    | cons c l ih =>
      have hc := (ascii_underscore c.toNat (of_decide_eq_true (hascii c List.mem_cons_self))).2
      rw [Char.ofNat_toNat] at hc
      rw [List.map_cons, List.count_cons, List.count_cons,
        ih fun d hd => hascii d (List.mem_cons_of_mem _ hd)]
      simp [hc]
  · exact hcase.lower s

end

/-! ### The name of a value -/

/-- The segments of the name, as lists of characters. -/
def nameSegments (upper : Char → List Char) (path : List String) : List (List Char) :=
  path.map fun key => key.toList.flatMap (upperChar upper)

theorem toList_overrideName (upper : Char → List Char) (path : List String) :
    (overrideName upper path).toList = joinDunder (nameSegments upper path) := by
  have hsep : "__".toList = ['_', '_'] := by decide
  rw [overrideName, String.toList_intercalate, hsep, List.map_map]
  congr 1
  exact List.map_congr_left fun key _ => String.toList_ofList

/-- A key comes back from upper case as it was. -/
def ComesBack (upper : Char → List Char) (unicode : String → String) (key : String) : Prop :=
  toLowercase unicode (toUppercase upper key) = key

/-- The path's name leads back to it. -/
structure Recoverable (upper : Char → List Char) (unicode : String → String)
    (path : List String) : Prop where
  comesBack : ∀ key ∈ path, ComesBack upper unicode key
  cut : ∀ key ∈ path.dropLast, key.toList.getLast? ≠ some '_'

section

variable {upper : Char → List Char} {unicode : String → String} {path : List String}
  (hcase : KeepsUnderscores upper unicode)
  (hplain : ∀ key ∈ path, containsDunder key.toList = false)

include hcase

theorem cut_nameSegments : Cut (nameSegments upper path) ↔
    ∀ key ∈ path.dropLast, key.toList.getLast? ≠ some '_' := by
  unfold Cut nameSegments
  rw [← List.map_dropLast]
  constructor
  · intro h key hkey
    exact mt (getLast_upper hcase _).mpr (h _ (List.mem_map_of_mem hkey))
  · rintro h seg hseg
    obtain ⟨key, hkey, rfl⟩ := List.mem_map.mp hseg
    exact mt (getLast_upper hcase _).mp (h key hkey)

include hplain

theorem containsDunder_nameSegments :
    ∀ seg ∈ nameSegments upper path, containsDunder seg = false := by
  intro seg hseg
  obtain ⟨key, hkey, rfl⟩ := List.mem_map.mp hseg
  exact containsDunder_upper hcase (hplain key hkey)

/-- **The name leads back to the path exactly when the path is recoverable.** -/
theorem nameParts_overrideName_iff (hne : path ≠ []) :
    nameParts unicode (overrideName upper path) = path ↔ Recoverable upper unicode path := by
  have hsegs := containsDunder_nameSegments hcase hplain
  have hback (hcut : Cut (nameSegments upper path)) :
      nameParts unicode (overrideName upper path) =
        path.map fun key => toLowercase unicode (toUppercase upper key) := by
    have hsplit := split_of_cut (by simpa [nameSegments] using hne) hsegs hcut
    rw [nameParts, toList_overrideName, hsplit, nameSegments, List.map_map]
    rfl
  constructor
  · intro hparts
    have hcut : Cut (nameSegments upper path) := by
      refine cut_of_split hsegs ?_
      calc (splitDunder (joinDunder (nameSegments upper path))).map (List.count '_')
          = (nameParts unicode (overrideName upper path)).map fun key =>
              key.toList.count '_' := by
            rw [nameParts, toList_overrideName, List.map_map]
            refine List.map_congr_left fun part _ => ?_
            rw [Function.comp, count_lower hcase, String.toList_ofList]
        _ = (nameSegments upper path).map (List.count '_') := by
            rw [hparts, nameSegments, List.map_map]
            exact List.map_congr_left fun key _ => (count_upper hcase key.toList).symm
    refine ⟨?_, (cut_nameSegments hcase).mp hcut⟩
    have hmap : path.map (fun key => toLowercase unicode (toUppercase upper key)) =
        path.map id := ((hback hcut).symm.trans hparts).trans (List.map_id path).symm
    exact List.map_inj_left.mp hmap
  · intro h
    rw [hback ((cut_nameSegments hcase).mpr h.cut)]
    exact (List.map_congr_left h.comesBack).trans (List.map_id path)

end

/-! ### The override -/

namespace Config

/-- The value stands at the path, and no key is new. -/
structure Overridden (config config' : Config) (path : List String) (value : Value) : Prop where
  lookup : config'.resolve (dotted path) = some value
  noNewKey : ∀ p, (config'.resolveParts p).isSome → (config.resolveParts p).isSome

/-- A table at the top level or in it is no value. -/
theorem two_keys {config : Config} {path : List String} {v : Value}
    (hv : config.resolveParts path = some v) (hscalar : ∀ entries, v ≠ .table entries) :
    ∃ section_ key rest, path = section_ :: key :: rest ∧ section_ ∈ config.sectionNames := by
  rw [resolveParts_eq] at hv
  cases path with
  | nil => exact absurd (Option.some.inj hv).symm (hscalar _)
  | cons section_ path =>
    rw [valueAt, Value.entries] at hv
    cases hlookup : config.root.lookup section_ with
    | none =>
      rw [hlookup, valueAt_none] at hv
      cases hv
    | some top =>
      have hmem := SortedMap.mem_of_lookup hlookup
      obtain ⟨entries, htable⟩ := config.sections _ hmem
      cases path with
      | nil =>
        rw [hlookup] at hv
        obtain rfl := Option.some.inj hv
        exact absurd htable (hscalar _)
      | cons key rest => exact ⟨section_, key, rest, rfl, List.mem_map_of_mem hmem⟩

/-- A read value is no table. -/
theorem parseEnvValue_ne_table (raw : String) (entries : Entries) :
    parseEnvValue raw ≠ .table entries := by
  intro htable
  rcases parseEnvValue_cases raw with ⟨-, h⟩ | ⟨-, ⟨b, h⟩ | ⟨i, h⟩ | ⟨literal, h⟩⟩ <;>
    exact absurd (h.symm.trans htable) nofun

/-- There is nothing below a value that is no table. -/
theorem valueAt_below {v : Value} (hscalar : ∀ entries, v ≠ .table entries) (key : String)
    (rest : List String) : valueAt (some v) (key :: rest) = none := by
  rw [valueAt]
  cases v with
  | table entries => exact absurd rfl (hscalar entries)
  | _ => exact valueAt_none rest

section

variable {upper : Char → List Char} {unicode : String → String} {config : Config}
  {path : List String} {v : Value} (hv : config.resolveParts path = some v)
  (hscalar : ∀ entries, v ≠ .table entries)

include hv

/-- **A variable whose name leads elsewhere leaves the value, or destroys it.** -/
theorem lookup_of_other_name {name : String} (hname : nameParts unicode name ≠ path)
    (raw : String) :
    (config.applyOverrides unicode [(name, raw)]).resolveParts path = some v ∨
      (config.applyOverrides unicode [(name, raw)]).resolveParts path = none ∨
      ∃ entries, (config.applyOverrides unicode [(name, raw)]).resolveParts path =
        some (.table entries) := by
  cases hover : Config.overridePath unicode config.sectionNames name with
  | none =>
    have hsame : (config.applyOverrides unicode [(name, raw)]).root = config.root := by
      show applyOverride unicode (config.root.map Prod.fst) config.root (name, raw) = _
      have hnone : Config.overridePath unicode (config.root.map Prod.fst) name = none := hover
      rw [applyOverride_eq, hnone]
    rw [ext_root hsame]
    exact Or.inl hv
  | some path' =>
    have hne : path' ≠ path := (overridePath_eq_some_iff.mp hover).2.1 ▸ hname
    rw [resolveParts_eq, root_applyOverrides hover]
    rw [resolveParts_eq] at hv
    by_cases hc : Comparable path' path
    · rcases hc with ⟨below, rfl⟩ | ⟨below, rfl⟩
      · cases below with
        | nil => exact absurd (List.append_nil path').symm hne
        | cons key rest =>
          rw [valueAt_append, valueAt_written_self, valueAt_below (parseEnvValue_ne_table raw)]
          exact Or.inr (Or.inl rfl)
      · cases below with
        | nil => exact absurd (List.append_nil path) hne
        | cons key rest => exact Or.inr (Or.inr (valueAt_written_above _ path key rest _))
    · rw [valueAt_written_of_not _ hc]
      exact Or.inl hv

include hscalar

/-- **A variable whose name leads to the path overrides its value.** -/
theorem overridden_of_name {name : String} (hdunder : containsDunder name.toList = true)
    (hname : nameParts unicode name = path) (hdots : ∀ key ∈ path, '.' ∉ key.toList)
    (raw : String) :
    Overridden config (config.applyOverrides unicode [(name, raw)]) path (parseEnvValue raw) := by
  obtain ⟨section_, key, rest, hpath, hknown⟩ := two_keys hv hscalar
  have hover : Config.overridePath unicode config.sectionNames name = some path :=
    overridePath_eq_some_iff.mpr ⟨hdunder, hname, section_, key, rest, hpath, hknown⟩
  have hundotted : Undotted unicode name := by
    unfold Undotted
    rw [hname]
    exact hdots
  refine ⟨(putGet_of_overridePath hundotted hover).put, ?_⟩
  intro p hp
  rw [resolveParts_eq] at hv hp ⊢
  rw [root_applyOverrides hover] at hp
  by_cases hc : Comparable path p
  · rcases hc with ⟨below, rfl⟩ | ⟨below, rfl⟩
    · cases below with
      | nil => rw [List.append_nil, hv]; rfl
      | cons key rest =>
        rw [valueAt_append, valueAt_written_self, valueAt_below (parseEnvValue_ne_table raw)] at hp
        cases hp
    · rw [valueAt_append] at hv
      cases hat : valueAt (some (.table config.root)) p with
      | none =>
        rw [hat, valueAt_none] at hv
        cases hv
      | some w => rfl
  · rwa [valueAt_written_of_not _ hc] at hp

/-- **A value can be overridden exactly when its path is recoverable.** -/
theorem overridable_iff (hcase : KeepsUnderscores upper unicode)
    (hsegments : ∀ key ∈ path, '.' ∉ key.toList ∧ containsDunder key.toList = false) :
    (∀ raw, Overridden config
        (config.applyOverrides unicode [(overrideName upper path, raw)]) path
        (parseEnvValue raw)) ↔
      Recoverable upper unicode path := by
  have hdots : ∀ key ∈ path, '.' ∉ key.toList := fun key hkey => (hsegments key hkey).1
  have hplain : ∀ key ∈ path, containsDunder key.toList = false :=
    fun key hkey => (hsegments key hkey).2
  obtain ⟨section_, key, rest, hpath, -⟩ := two_keys hv hscalar
  have hne : path ≠ [] := by
    rw [hpath]
    exact List.cons_ne_nil _ _
  rw [← nameParts_overrideName_iff hcase hplain hne]
  constructor
  · intro hall
    by_contra hname
    have hlookup (raw : String) : parseEnvValue raw = v := by
      have hput := (hall raw).lookup
      rw [resolve_dotted _ hne hdots, ← resolveParts_eq] at hput
      rcases lookup_of_other_name hv hname raw with h | h | ⟨entries, h⟩
      · exact Option.some.inj (hput.symm.trans h)
      · exact absurd (hput.symm.trans h) nofun
      · exact absurd (Option.some.inj (hput.symm.trans h)) (parseEnvValue_ne_table raw entries)
    have hboth : Value.boolean true = .boolean false :=
      (hlookup "true").trans (hlookup "false").symm
    cases hboth
  · intro hname raw
    have hdunder : containsDunder (overrideName upper path).toList = true := by
      rw [toList_overrideName, hpath]
      show containsDunder (joinDunder (_ :: _ :: _)) = true
      rw [joinDunder_cons]
      exact containsDunder_append _ _
    exact overridden_of_name hv hscalar hdunder hname hdots raw

end

/-- A mapping of case that maps only ASCII. -/
theorem keepsUnderscores_ascii : KeepsUnderscores (fun c => [c]) id where
  upper c hc := by
    refine ⟨fun hmem => ?_, List.cons_ne_nil _ _⟩
    obtain rfl := List.mem_singleton.mp hmem
    exact absurd hc (by decide)
  lower _ := rfl

/-- A section with one value. -/
def appWith (key : String) (s : String) : Config where
  root := [("app", .table [(key, .string s)])]
  wellKeyed := .singleton "app" (.singleton key (.string s))
  sections := by simp [Sections]

/-- A key with a capital is not found again: a new key gets the text. -/
theorem not_overridable : ¬ ∀ (config : Config) (path : List String) (v : Value),
    config.resolveParts path = some v → (∀ entries, v ≠ .table entries) →
      (∀ key ∈ path, '.' ∉ key.toList ∧ containsDunder key.toList = false) →
        ∀ raw, Overridden config
          (config.applyOverrides id [(overrideName (fun c => [c]) path, raw)]) path
          (parseEnvValue raw) := by
  intro hall
  have hnew := (hall (appWith "displayName" "Kolas") ["app", "displayName"] (.string "Kolas") rfl
    nofun (by decide) "Shop").noNewKey ["app", "displayname"]
  exact absurd (hnew rfl) (by decide)

/-- A key with a single underscore in it. -/
theorem overridable_retryAfter :
    Overridden (appWith "retry_after" "90")
      ((appWith "retry_after" "90").applyOverrides id
        [(overrideName (fun c => [c]) ["app", "retry_after"], "30s")])
      ["app", "retry_after"] (.string "30s") := by
  have hback : Recoverable (fun c => [c]) id ["app", "retry_after"] :=
    ⟨by unfold ComesBack; decide, by decide⟩
  have hat : (appWith "retry_after" "90").resolveParts ["app", "retry_after"] =
      some (.string "90") := rfl
  exact (overridable_iff hat nofun keepsUnderscores_ascii (by decide)).mpr hback "30s"

end Config

end Kolas.Config

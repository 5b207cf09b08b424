import Kolas.Config.Laws
import Kolas.Lib.Digits

/-!
# Typed values

`Config::value` and `try_value` of `config/config.rs`: the value at a dot-path is
deserialized, and the default stands in where that fails.  A `Setting` is a type whose
values can be written to an environment variable and deserialized from what
`parse_env_value` makes of it: `bool`, `i64` and the unsigned types.

* `Setting.value_set`: whatever else the environment has, a setting is read back as it was
  written, if no later variable leads to its path.
* `string_set_iff`: a text is read back as a `String` exactly when it is no literal of
  `bool`, `i64` or `f64`; otherwise it is lost to the default.
-/

set_option linter.dupNamespace false

namespace Kolas.Config

open Kolas.Lib

namespace Config

variable {α : Type*}

/-- `Config::try_value`. -/
def tryValue (config : Config) (read : Value → Option α) (path : String) : Option α :=
  (config.resolve path).bind read

/-- `Config::value`. -/
def value (config : Config) (read : Value → Option α) (path : String) (default : α) : α :=
  (config.tryValue read path).getD default

end Config

/-! ### Deserializing -/

abbrev I64 := { i : Int // -2 ^ 63 ≤ i ∧ i < 2 ^ 63 }

def readBool : Value → Option Bool
  | .boolean b => some b
  | _ => none

def readI64 : Value → Option I64
  | .integer i => if h : -2 ^ 63 ≤ i ∧ i < 2 ^ 63 then some ⟨i, h⟩ else none
  | _ => none

/-- `u8`, `u16`, `u32`, `u64` or `usize`. -/
def readUnsigned (width : Nat) : Value → Option (Fin (2 ^ width))
  | .integer i => if h : i.toNat < 2 ^ width then if 0 ≤ i then some ⟨i.toNat, h⟩ else none else none
  | _ => none

/-- A datetime is deserialized as its text. -/
def readString : Value → Option String
  | .string s => some s
  | .datetime t => some t
  | _ => none

/-! ### Numbers -/

theorem digitsValue_eq (digits : List Char) (init : Nat) :
    digits.foldl (fun n c => n * 10 + (c.toNat - '0'.toNat)) init =
      Nat.ofDigitChars 10 digits init := by
  rw [Nat.ofDigitChars_eq_foldl]
  refine List.foldl_ext _ _ _ fun n c _ => ?_
  rw [Nat.mul_comm]

theorem splitSign_digits {digits : List Char} (h : ∀ c ∈ digits, c.isDigit = true) :
    splitSign digits = (false, digits) := by
  cases digits with
  | nil => rfl
  | cons c rest =>
    have hc := h c List.mem_cons_self
    unfold splitSign
    split
    · rename_i heq
      obtain ⟨rfl, -⟩ := List.cons.inj heq
      cases hc
    · rename_i heq
      obtain ⟨rfl, -⟩ := List.cons.inj heq
      cases hc
    · rfl

theorem digitsValue_toString (n : Nat) : digitsValue (toString n).toList = n := by
  rw [digitsValue, digitsValue_eq, Nat.toString_eq_repr, Nat.toList_repr,
    Nat.ofDigitChars_ten_toDigits]

/-- **A number is read back.** -/
theorem parseI64_toString (i : I64) : parseI64 (toString i.1) = some i.1 := by
  obtain ⟨i, hrange⟩ := i
  have hdigits : ∀ n : Nat, ((toString n).toList.isEmpty || !(toString n).toList.all Char.isDigit)
      = false := by
    intro n
    rw [List.all_eq_true.mpr fun c hc => isDigit_toString hc,
      List.isEmpty_eq_false_iff.mpr (toString_toList_ne_nil n)]
    rfl
  cases i with
  | ofNat n =>
    have hsplit : splitSign (toString (Int.ofNat n)).toList = (false, (toString n).toList) :=
      splitSign_digits fun c hc => isDigit_toString hc
    unfold parseI64
    rw [hsplit]
    dsimp only
    rw [hdigits, digitsValue_toString, if_neg Bool.false_ne_true, if_neg Bool.false_ne_true]
    rw [if_pos (show -2 ^ 63 ≤ (n : Int) ∧ (n : Int) < 2 ^ 63 from hrange)]
    rfl
  | negSucc n =>
    have hsplit : splitSign (toString (Int.negSucc n)).toList =
        (true, (toString (n + 1)).toList) := by
      have htext : (toString (Int.negSucc n)).toList = '-' :: (toString (n + 1)).toList := by
        show ("-" ++ Nat.repr (n + 1)).toList = _
        rw [String.toList_append]
        rfl
      rw [htext]
      rfl
    unfold parseI64
    rw [hsplit]
    dsimp only
    have hvalue : -((n + 1 : Nat) : Int) = Int.negSucc n := rfl
    rw [hdigits, digitsValue_toString, if_neg Bool.false_ne_true, if_pos rfl, hvalue,
      if_pos hrange]

/-- A text that is a number is no truth value. -/
theorem parseBool_of_parseI64 {raw : String} {i : Int} (h : parseI64 raw = some i) :
    parseBool raw = none := by
  unfold parseBool
  split
  · subst raw
    cases h
  · split
    · subst raw
      cases h
    · rfl

theorem parseEnvValue_toString (i : I64) : parseEnvValue (toString i.1) = .integer i.1 := by
  have hnumber := parseI64_toString i
  unfold parseEnvValue
  rw [parseBool_of_parseI64 hnumber, hnumber]

/-! ### Settings -/

/-- A type whose values can be written to a variable and deserialized. -/
structure Setting (α : Type*) where
  shown : α → String
  read : Value → Option α
  read_shown : ∀ a, read (parseEnvValue (shown a)) = some a

namespace Setting

def bool : Setting Bool where
  shown b := if b then "true" else "false"
  read := readBool
  read_shown b := by cases b <;> rfl

def i64 : Setting I64 where
  shown i := toString i.1
  read := readI64
  read_shown i := by
    rw [parseEnvValue_toString]
    exact dif_pos i.2

/-- A number above those of `i64` would be read as a float. -/
def unsigned (width : Nat) (hwidth : width ≤ 63) : Setting (Fin (2 ^ width)) where
  shown n := toString n.1
  read := readUnsigned width
  read_shown n := by
    have hpow : 2 ^ width ≤ 2 ^ 63 := Nat.pow_le_pow_right Nat.two_pos hwidth
    have hrange : -2 ^ 63 ≤ (n.1 : Int) ∧ (n.1 : Int) < 2 ^ 63 := by omega
    have hvalue : parseEnvValue (toString n.1) = .integer n.1 :=
      parseEnvValue_toString ⟨n.1, hrange⟩
    have hfits : (n.1 : Int).toNat < 2 ^ width := n.2
    rw [hvalue, readUnsigned, dif_pos hfits, if_pos (Int.natCast_nonneg n.1)]
    rfl

end Setting

/-! ### Reading behind other variables -/

/-- No later variable is written to a path that is comparable with `path`. -/
def Last (unicode : String → String) (config : Config) (path : List String)
    (later : List (String × String)) : Prop :=
  ∀ var ∈ later, ∀ q, overridePath unicode config.sectionNames var.1 = some q →
    ¬ Comparable q path

theorem valueAt_setPath_of_not {root : Entries} {p q : List String} (h : ¬ Comparable p q)
    (v : Value) :
    valueAt (some (.table (setPath root p v))) q = valueAt (some (.table root)) q := by
  cases p with
  | nil => exact absurd (Or.inl List.nil_prefix) h
  | cons key p => exact valueAt_written_of_not (some (.table root)) h v

theorem valueAt_foldl {unicode : String → String} {config : Config} {path : List String}
    {later : List (String × String)} (h : Last unicode config path later) (root : Entries) :
    valueAt (some (.table (later.foldl (applyOverride unicode config.sectionNames) root))) path =
      valueAt (some (.table root)) path := by
  induction later generalizing root with
  | nil => rfl
  | cons var later ih =>
    obtain ⟨hvar, hlater⟩ := List.forall_mem_cons.mp h
    rw [List.foldl_cons, ih hlater, applyOverride_eq]
    cases hq : overridePath unicode config.sectionNames var.1 with
    | none => rfl
    | some q => exact valueAt_setPath_of_not (hvar q hq) _

/-- **What a variable leaves at its path**, if no later one leads there. -/
theorem resolve_overridden {unicode : String → String} {config : Config} {name : String}
    {path : List String} (hpath : overridePath unicode config.sectionNames name = some path)
    (hdots : Config.Undotted unicode name) {earlier later : List (String × String)}
    (hlast : Last unicode config path later) (raw : String) :
    (config.applyOverrides unicode (earlier ++ (name, raw) :: later)).resolve (dotted path) =
      some (parseEnvValue raw) := by
  obtain ⟨-, hparts, section_, key, rest, rfl, -⟩ := overridePath_eq_some_iff.mp hpath
  have hroot : (config.applyOverrides unicode (earlier ++ (name, raw) :: later)).root =
      later.foldl (applyOverride unicode config.sectionNames)
        (setPath (earlier.foldl (applyOverride unicode config.sectionNames) config.root)
          (section_ :: key :: rest) (parseEnvValue raw)) := by
    show List.foldl (applyOverride unicode config.sectionNames) config.root _ = _
    rw [List.foldl_append, List.foldl_cons]
    refine congrArg (later.foldl _) ?_
    rw [applyOverride_eq, hpath]
  rw [Config.resolve_dotted _ (List.cons_ne_nil _ _) (fun k hk => hdots k (hparts ▸ hk)), hroot,
    valueAt_foldl hlast]
  exact valueAt_written_self (some (.table _)) (section_ :: key :: rest) (parseEnvValue raw)

/-- **A setting is read back as it was written.** -/
theorem Setting.value_set {α : Type*} (setting : Setting α) (a default : α)
    {unicode : String → String} {config : Config} {name : String} {path : List String}
    (hpath : overridePath unicode config.sectionNames name = some path)
    (hdots : Config.Undotted unicode name) {earlier later : List (String × String)}
    (hlast : Last unicode config path later) :
    (config.applyOverrides unicode (earlier ++ (name, setting.shown a) :: later)).value
      setting.read (dotted path) default = a := by
  rw [Config.value, Config.tryValue, resolve_overridden hpath hdots hlast, Option.bind_some,
    setting.read_shown]
  rfl

/-- Seven workers, whatever the environment says before. -/
theorem value_sevenWorkers :
    (Config.app.applyOverrides id
      ([("APP__WORKERS", "x")] ++ ("app__workers", "7") :: [("APP__NAME", "kolas")])).value
        (readUnsigned 32) "app.workers" 1 = 7 := by
  have hlast : Last id Config.app ["app", "workers"] [("APP__NAME", "kolas")] := by
    intro var hvar q hq
    obtain rfl := List.mem_singleton.mp hvar
    obtain rfl : ["app", "name"] = q := Option.some.inj hq
    unfold Comparable
    decide
  have hdots : Config.Undotted id "app__workers" := by
    unfold Config.Undotted
    decide
  exact Setting.value_set (Setting.unsigned 32 (by decide)) 7 1 rfl hdots hlast

/-- **When a text is read back as a `String`**: it is no literal of another type. -/
theorem string_set_iff (raw : String) {unicode : String → String} {config : Config}
    {name : String} {path : List String}
    (hpath : overridePath unicode config.sectionNames name = some path)
    (hdots : Config.Undotted unicode name) {earlier later : List (String × String)}
    (hlast : Last unicode config path later) :
    (∀ default, (config.applyOverrides unicode (earlier ++ (name, raw) :: later)).value
      readString (dotted path) default = raw) ↔ Textual raw := by
  have hvalue : ∀ default, (config.applyOverrides unicode
      (earlier ++ (name, raw) :: later)).value readString (dotted path) default =
        (readString (parseEnvValue raw)).getD default := by
    intro default
    rw [Config.value, Config.tryValue, resolve_overridden hpath hdots hlast, Option.bind_some]
  rcases parseEnvValue_cases raw with ⟨htext, hraw⟩ | ⟨hnot, hother⟩
  · refine iff_of_true (fun default => ?_) htext
    rw [hvalue, hraw]
    rfl
  · refine iff_of_false (fun hall => ?_) hnot
    have hnone : readString (parseEnvValue raw) = none := by
      rcases hother with ⟨b, hb⟩ | ⟨i, hi⟩ | ⟨literal, hliteral⟩
      · rw [hb]; rfl
      · rw [hi]; rfl
      · rw [hliteral]; rfl
    -- the default cannot be the text whatever it is
    have hdefault := (hvalue (raw ++ "x")).symm.trans (hall (raw ++ "x"))
    rw [hnone] at hdefault
    have hlength := congrArg (fun s => s.toList.length) hdefault
    simp at hlength

/-- A version that is a number is lost. -/
theorem string_version : ¬ ∀ default, (Config.app.applyOverrides id
    ([] ++ ("APP__VERSION", "1.0") :: [])).value readString "app.version" default = "1.0" := by
  have hdots : Config.Undotted id "APP__VERSION" := by
    unfold Config.Undotted
    decide
  have hlast : Last id Config.app ["app", "version"] [] := fun var hvar => by cases hvar
  intro hall
  have htext := (string_set_iff "1.0" rfl hdots hlast).mp hall
  exact absurd htext.2.2 (by decide)

end Kolas.Config

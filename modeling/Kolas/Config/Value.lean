import Kolas.Lib.SortedMap
import Mathlib.Algebra.Group.Int.Defs

/-!
# Configuration trees

`toml::Value`, and the reading of an environment variable as one
(`parse_env_value` of `config/config.rs`).  A table is the list of its entries
in the order of their keys, as `toml::map::Map`, a `BTreeMap`, iterates over it:
`WellKeyed` says so of every table in a value.

A float is kept as the literal it was read from: which literals `str::parse`
accepts decides the type of a value, and nothing computes with the number.
-/

namespace Kolas.Config

open Kolas.Lib

inductive Value
  | string (s : String)
  | integer (i : Int)
  | float (literal : String)
  | boolean (b : Bool)
  | datetime (text : String)
  | array (items : List Value)
  | table (entries : List (String × Value))

/-- A table's entries. -/
abbrev Entries := List (String × Value)

/-- Every table in the value has increasing keys. -/
inductive Value.WellKeyed : Value → Prop
  | string (s : String) : WellKeyed (.string s)
  | integer (i : Int) : WellKeyed (.integer i)
  | float (literal : String) : WellKeyed (.float literal)
  | boolean (b : Bool) : WellKeyed (.boolean b)
  | datetime (text : String) : WellKeyed (.datetime text)
  | array {items : List Value} (h : ∀ v ∈ items, WellKeyed v) : WellKeyed (.array items)
  | table {entries : Entries} (sorted : SortedMap.Sorted entries)
      (h : ∀ e ∈ entries, WellKeyed e.2) : WellKeyed (.table entries)

theorem Value.WellKeyed.sorted {entries : Entries} (h : (Value.table entries).WellKeyed) :
    SortedMap.Sorted entries := by
  cases h with
  | table sorted _ => exact sorted

theorem Value.WellKeyed.entry {entries : Entries} (h : (Value.table entries).WellKeyed)
    {e : String × Value} (he : e ∈ entries) : e.2.WellKeyed := by
  cases h with
  | table _ hentries => exact hentries e he

theorem Value.WellKeyed.lookup {entries : Entries} (h : (Value.table entries).WellKeyed)
    {key : String} {v : Value} (hv : entries.lookup key = some v) : v.WellKeyed :=
  h.entry (SortedMap.mem_of_lookup hv)

theorem Value.WellKeyed.insert {entries : Entries} (h : (Value.table entries).WellKeyed)
    {key : String} {v : Value} (hv : v.WellKeyed) :
    (Value.table (SortedMap.insert key v entries)).WellKeyed := by
  refine .table (SortedMap.sorted_insert key v h.sorted) ?_
  intro e he
  rcases SortedMap.mem_insert he with rfl | he
  · exact hv
  · exact h.entry he

theorem Value.WellKeyed.singleton (key : String) {v : Value} (hv : v.WellKeyed) :
    (Value.table [(key, v)]).WellKeyed := by
  refine .table (List.pairwise_singleton _ _) ?_
  intro e he
  rw [List.mem_singleton.mp he]
  exact hv

/-! ### Reading a variable -/

/-- `str::parse::<bool>`. -/
def parseBool (raw : String) : Option Bool :=
  if raw = "true" then some true else if raw = "false" then some false else none

/-- A sign at the front, and the rest. -/
def splitSign : List Char → Bool × List Char
  | '+' :: rest => (false, rest)
  | '-' :: rest => (true, rest)
  | rest => (false, rest)

def digitsValue (digits : List Char) : Nat :=
  digits.foldl (fun n c => n * 10 + (c.toNat - '0'.toNat)) 0

/-- `str::parse::<i64>`: a sign, at least one digit, and a number in range. -/
def parseI64 (raw : String) : Option Int :=
  let (negative, digits) := splitSign raw.toList
  if digits.isEmpty || !digits.all Char.isDigit then none
  else
    let i : Int := if negative then -digitsValue digits else digitsValue digits
    if -2 ^ 63 ≤ i ∧ i < 2 ^ 63 then some i else none

/-- Nothing, or `e`, a sign and at least one digit. -/
def isExponent : List Char → Bool
  | [] => true
  | c :: rest =>
    let (_, digits) := splitSign rest
    (c == 'e' || c == 'E') && !digits.isEmpty && digits.all Char.isDigit

/-- Digits with a point before, among or after them, or none, and an exponent. -/
def isNumber (cs : List Char) : Bool :=
  let whole := cs.takeWhile Char.isDigit
  match cs.dropWhile Char.isDigit with
  | '.' :: rest =>
    let fraction := rest.takeWhile Char.isDigit
    (!whole.isEmpty || !fraction.isEmpty) && isExponent (rest.dropWhile Char.isDigit)
  | rest => !whole.isEmpty && isExponent rest

/-- The literals of `str::parse::<f64>`: a sign, and `inf`, `infinity`, `nan` in
any case or a number. -/
def parseF64 (raw : String) : Option String :=
  let (_, unsigned) := splitSign raw.toList
  let word := String.ofList (unsigned.map Char.toLower)
  if word = "inf" ∨ word = "infinity" ∨ word = "nan" ∨ isNumber unsigned then some raw else none

/-- `parse_env_value`. -/
def parseEnvValue (raw : String) : Value :=
  match parseBool raw with
  | some b => .boolean b
  | none =>
    match parseI64 raw with
    | some i => .integer i
    | none =>
      match parseF64 raw with
      | some literal => .float literal
      | none => .string raw

/-- The text is not a literal of `bool`, `i64` or `f64`. -/
def Textual (raw : String) : Prop :=
  parseBool raw = none ∧ parseI64 raw = none ∧ parseF64 raw = none

/-- **A text is kept as a string exactly when it is no other literal.** -/
theorem parseEnvValue_cases (raw : String) :
    (Textual raw ∧ parseEnvValue raw = .string raw) ∨
      (¬ Textual raw ∧ ((∃ b, parseEnvValue raw = .boolean b) ∨
        (∃ i, parseEnvValue raw = .integer i) ∨ ∃ literal, parseEnvValue raw = .float literal)) := by
  unfold parseEnvValue Textual
  cases hb : parseBool raw with
  | some b => exact Or.inr ⟨by simp, Or.inl ⟨b, rfl⟩⟩
  | none =>
    cases hi : parseI64 raw with
    | some i => exact Or.inr ⟨by simp, Or.inr (Or.inl ⟨i, rfl⟩)⟩
    | none =>
      cases hf : parseF64 raw with
      | some literal => exact Or.inr ⟨by simp, Or.inr (Or.inr ⟨literal, rfl⟩)⟩
      | none => exact Or.inl ⟨⟨rfl, rfl, rfl⟩, rfl⟩

theorem wellKeyed_parseEnvValue (raw : String) : (parseEnvValue raw).WellKeyed := by
  rcases parseEnvValue_cases raw with ⟨-, h⟩ | ⟨-, ⟨b, h⟩ | ⟨i, h⟩ | ⟨literal, h⟩⟩
  · exact h ▸ .string raw
  · exact h ▸ .boolean b
  · exact h ▸ .integer i
  · exact h ▸ .float literal

example : [parseF64 "1e5", parseF64 ".5", parseF64 "-NaN", parseF64 "1e", parseF64 "."] =
    [some "1e5", some ".5", some "-NaN", none, none] := by decide

end Kolas.Config

import Kolas.Console.Kernel
import Kolas.Lib.Keyed
import Kolas.Lib.Words

/-!
# Command lines

What `Args::parse` of `console/args.rs` reads from what was written.  A `Token` is a
positional or an argument with its value, if it has one, and `Token.text` is how it
is written; a positional does not begin with `--`, and a key has no `=`.

* `parse_texts`: from any sequence of tokens the parser keeps the positionals in
  order and, of each key, the last value.
* `parse_commandLine`: so a command line that has each key once gives back what
  it was written from.
-/

namespace Kolas.Console

open Kolas.Lib

/-! ### Reading arguments -/

namespace Args

variable (args : Args)

/-- `get`. -/
def get (key : String) : Option String := (args.named key).bind fun value => value

/-- `has`. -/
def has (key : String) : Bool := (args.named key).isSome

/-- `positional`. -/
def positionalAt (index : Nat) : Option String := args.positional[index]?

end Args

/-! ### Tokens -/

inductive Token
  | positional (text : String) (h : ¬ "--".toList <+: text.toList)
  | named (key : String) (value : Option String) (h : '=' ∉ key.toList)

namespace Token

/-- How the token is written. -/
def text : Token → String
  | positional text _ => text
  | named key none _ => "--" ++ key
  | named key (some value) _ => "--" ++ key ++ "=" ++ value

def positional? : Token → Option String
  | positional text _ => some text
  | named _ _ _ => none

def entry? : Token → Option (String × Option String)
  | positional _ _ => none
  | named key value _ => some (key, value)

end Token

theorem splitOnceEq_eq_cut (s : List Char) :
    splitOnceEq s = (cut '=' s).map fun parts => (String.ofList parts.1, String.ofList parts.2) := by
  unfold splitOnceEq cut
  cases s.dropWhile (· ≠ '=') with
  | nil => rfl
  | cons c rest => rfl

/-- A token is read as what it is. -/
theorem add_text (args : Args) (token : Token) :
    args.add token.text =
      ⟨args.positional ++ token.positional?.toList,
        (token.entry?.toList).foldl (fun map e => Function.update map e.1 (some e.2))
          args.named⟩ := by
  cases token with
  | positional text h =>
    have hbare : args.add text = { args with positional := args.positional ++ [text] } := by
      unfold Args.add
      split
      · rename_i rest htext
        exact absurd (htext ▸ ⟨rest, rfl⟩) h
      · rfl
    exact hbare
  | named key value h =>
    cases value with
    | none =>
      have htext : ("--" ++ key).toList = '-' :: '-' :: key.toList := by
        rw [String.toList_append]
        rfl
      simp only [Token.text, Args.add, htext, splitOnceEq_eq_cut, cut_eq_none h, Option.map_none,
        String.ofList_toList]
      simp [Token.positional?, Token.entry?]
    | some value =>
      have htext : ("--" ++ key ++ "=" ++ value).toList =
          '-' :: '-' :: (key.toList ++ '=' :: value.toList) := by
        rw [String.toList_append, String.toList_append, String.toList_append]
        simp
      simp only [Token.text, Args.add, htext, splitOnceEq_eq_cut, cut_append_cons h,
        Option.map_some, String.ofList_toList]
      simp [Token.positional?, Token.entry?]

/-! ### Command lines -/

/-- The value of a key's last entry. -/
def lastValue (key : String) (entries : List (String × Option String)) : Option (Option String) :=
  (valuesAt key entries).getLast?

/-- **What is read from a sequence of tokens**: the positionals in order, and of
each key the last value. -/
theorem parse_texts (tokens : List Token) :
    (Args.parse (tokens.map Token.text)).positional = tokens.filterMap Token.positional? ∧
      ∀ key, (Args.parse (tokens.map Token.text)).named key =
        lastValue key (tokens.filterMap Token.entry?) := by
  have hparse : ∀ args : Args, (tokens.map Token.text).foldl Args.add args =
      ⟨args.positional ++ tokens.filterMap Token.positional?,
        (tokens.filterMap Token.entry?).foldl
          (fun map e => Function.update map e.1 (some e.2)) args.named⟩ := by
    induction tokens with
    | nil => simp
    | cons token tokens ih =>
      intro args
      rw [List.map_cons, List.foldl_cons, add_text, ih]
      cases hpositional : token.positional? <;> cases hentry : token.entry? <;>
        simp [hpositional, hentry]
  unfold Args.parse
  rw [hparse]
  refine ⟨rfl, fun key => ?_⟩
  exact (foldl_update _ _ key).trans (Option.or_none ..)

theorem get_eq_of_named {args : Args} {key : String} {value : Option (Option String)}
    (h : args.named key = value) : args.get key = value.bind fun value => value := by
  rw [Args.get, h]

theorem has_iff_lastValue {args : Args} {key : String} {entries : List (String × Option String)}
    (h : args.named key = lastValue key entries) :
    args.has key = true ↔ key ∈ entries.map Prod.fst := by
  rw [Args.has, h, lastValue, List.getLast?_isSome]
  constructor
  · intro hne
    by_contra hkey
    exact hne (valuesAt_eq_nil hkey)
  · intro hkey hnil
    obtain ⟨⟨key, value⟩, hmem, rfl⟩ := List.mem_map.mp hkey
    have hvalue := mem_valuesAt.mpr hmem
    rw [hnil] at hvalue
    cases hvalue

/-- The tokens are the positionals, in their order, and one token for each entry of a
map, in any order and in between. -/
structure Interleaves (positionals : List String) (entries : List (String × Option String))
    (tokens : List Token) : Prop where
  positionals : tokens.filterMap Token.positional? = positionals
  distinct : (entries.map Prod.fst).Nodup
  entries : (tokens.filterMap Token.entry?).Perm entries

/-- **A command line gives back what it was written from**; where a key is repeated, its
last token decides. -/
theorem parse_commandLine (tokens : List Token) :
    (∀ positionals entries, Interleaves positionals entries tokens →
      (∀ i, (Args.parse (tokens.map Token.text)).positionalAt i = positionals[i]?) ∧
      (∀ key value, (key, value) ∈ entries →
        (Args.parse (tokens.map Token.text)).get key = value) ∧
      ∀ key, (Args.parse (tokens.map Token.text)).has key = true ↔ key ∈ entries.map Prod.fst) ∧
    ∀ key, (Args.parse (tokens.map Token.text)).get key =
        (lastValue key (tokens.filterMap Token.entry?)).bind (fun value => value) ∧
      ((Args.parse (tokens.map Token.text)).has key = true ↔
        key ∈ (tokens.filterMap Token.entry?).map Prod.fst) := by
  obtain ⟨hpositional, hnamed⟩ := parse_texts tokens
  refine ⟨?_, fun key => ⟨get_eq_of_named (hnamed key), has_iff_lastValue (hnamed key)⟩⟩
  intro positionals entries h
  refine ⟨fun i => ?_, fun key value hmem => ?_, fun key => ?_⟩
  · rw [Args.positionalAt, hpositional, h.positionals]
  · have hnodup : ((tokens.filterMap Token.entry?).map Prod.fst).Nodup :=
      (h.entries.map Prod.fst).nodup_iff.mpr h.distinct
    rw [get_eq_of_named (hnamed key), lastValue,
      valuesAt_of_nodup hnodup (h.entries.mem_iff.mpr hmem)]
    rfl
  · rw [has_iff_lastValue (hnamed key), (h.entries.map Prod.fst).mem_iff]

/-- `-v --limit=a=b out.csv --force`. -/
def exportTokens : List Token :=
  [.positional "-v" (by decide), .named "limit" (some "a=b") (by decide),
    .positional "out.csv" (by decide), .named "force" none (by decide)]

theorem parse_export :
    exportTokens.map Token.text = ["-v", "--limit=a=b", "out.csv", "--force"] ∧
      (Args.parse (exportTokens.map Token.text)).positionalAt 1 = some "out.csv" ∧
      (Args.parse (exportTokens.map Token.text)).get "limit" = some "a=b" ∧
      (Args.parse (exportTokens.map Token.text)).has "force" = true := by
  have hwritten : Interleaves ["-v", "out.csv"] [("force", none), ("limit", some "a=b")]
      exportTokens := ⟨rfl, by decide, List.Perm.swap ..⟩
  obtain ⟨hpositional, hget, hhas⟩ := (parse_commandLine exportTokens).1 _ _ hwritten
  exact ⟨rfl, hpositional 1, hget "limit" (some "a=b") (by decide),
    (hhas "force").mpr (by decide)⟩

end Kolas.Console

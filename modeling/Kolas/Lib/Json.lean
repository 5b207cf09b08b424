import Mathlib.Algebra.GroupWithZero.Nat
import Mathlib.Data.List.Basic

/-!
# JSON values

`Json ν` with numbers of any kind.  `encode` writes a value as bytes without white
space between the tokens, for given texts of the characters in a string and of the
numbers.

* `length_join`: the length of texts joined by a separator depends on their number
  and their lengths.
-/

namespace Kolas.Lib

inductive Json (ν : Type)
  | null
  | bool (b : Bool)
  | number (n : ν)
  | string (s : String)
  | array (items : List (Json ν))
  | object (entries : List (String × Json ν))

/-- Texts joined by a separator. -/
def join (sep : UInt8) (texts : List (List UInt8)) : List UInt8 := [sep].intercalate texts

theorem length_join (sep : UInt8) (texts : List (List UInt8)) :
    (join sep texts).length = (texts.map List.length).sum + (texts.length - 1) := by
  unfold join
  induction texts with
  | nil => rfl
  | cons text texts ih =>
    cases texts with
    | nil => simp
    | cons text' texts =>
      rw [List.intercalate_cons_cons, List.length_append, List.length_append, ih]
      simp only [List.map_cons, List.sum_cons, List.length_cons, List.length_nil]
      omega

/-- The characters of an ASCII text as bytes. -/
def ascii (s : String) : List UInt8 := s.toList.map fun c => c.val.toUInt8

namespace Json

variable {ν : Type} (escape : Char → List UInt8) (number : ν → List UInt8)

/-- A string between its quotation marks. -/
def quoted (s : String) : List UInt8 := ascii "\"" ++ s.toList.flatMap escape ++ ascii "\""

mutual

def encode : Json ν → List UInt8
  | .null => ascii "null"
  | .bool true => ascii "true"
  | .bool false => ascii "false"
  | .number n => number n
  | .string s => quoted escape s
  | .array items => ascii "[" ++ join 44 (encodeItems items) ++ ascii "]"
  | .object entries => ascii "\x7b" ++ join 44 (encodeEntries entries) ++ ascii "\x7d"

def encodeItems : List (Json ν) → List (List UInt8)
  | [] => []
  | v :: rest => encode v :: encodeItems rest

def encodeEntries : List (String × Json ν) → List (List UInt8)
  | [] => []
  | (key, v) :: rest => (quoted escape key ++ ascii ":" ++ encode v) :: encodeEntries rest

end

end Json

end Kolas.Lib

import Kolas.Http.TrimStrings
import Kolas.Lib.JsonStrings

/-!
# Which strings of a JSON body are trimmed

A string is `Protected` when it stands under a key of `skipFields`, however far
below it.  `trim_value` is handed the nearest key only: an object below a protected
key hides it.

`trimsUnprotected_iff`: exactly the unprotected strings are trimmed where there is
nothing to trim in the protected strings whose nearest key is another one.
-/

namespace Kolas.Http

open Kolas.Lib

variable {ν : Type}

/-- A string under the keys is not to be trimmed. -/
def Protected (keys : List String) : Prop := ∃ key ∈ keys, key ∈ skipFields

instance (keys : List String) : Decidable (Protected keys) :=
  inferInstanceAs (Decidable (∃ key ∈ keys, key ∈ skipFields))

/-- What `trim_value` makes of a string, by the nearest key. -/
def trimNearest (keys : List String) (s : String) : String :=
  if isSkipped keys.head? then s else trimText s

mutual

/-- **`trim_value` changes the strings and nothing else.** -/
theorem trimValue_eq (keys : List String) : ∀ v : Json ν,
    trimValue keys.head? v = v.mapStrings trimNearest keys
  | .string s => by
    rw [trimValue, Json.mapStrings, trimNearest]
    split
    · rfl
    · rfl
  | .array items => congrArg Json.array (trimItems_eq keys items)
  | .object entries => congrArg Json.object (trimEntries_eq keys entries)
  | .null => rfl
  | .bool _ => rfl
  | .number _ => rfl

theorem trimItems_eq (keys : List String) : ∀ items : List (Json ν),
    trimItems keys.head? items = Json.mapItems trimNearest keys items
  | [] => rfl
  | v :: items => by
    rw [trimItems, Json.mapItems, trimValue_eq keys v, trimItems_eq keys items]

theorem trimEntries_eq (keys : List String) : ∀ entries : List (String × Json ν),
    trimEntries entries = Json.mapEntries trimNearest keys entries
  | [] => rfl
  | (k, v) :: entries => by
    rw [trimEntries, Json.mapEntries, trimEntries_eq keys entries]
    exact congrArg (fun w => (k, w) :: _) (trimValue_eq (k :: keys) v)

end

/-- The value is as it was, but for its unprotected strings, which are trimmed. -/
structure TrimsUnprotected (v w : Json ν) : Prop where
  shape : w.skeleton = v.skeleton
  strings : w.strings [] = (v.strings []).map fun e =>
    (e.1, if Protected e.1 then e.2 else trimText e.2)

theorem protected_of_isSkipped {keys : List String} (h : isSkipped keys.head? = true) :
    Protected keys := by
  cases keys with
  | nil => cases h
  | cons key keys => exact ⟨key, List.mem_cons_self, List.contains_iff_mem.mp h⟩

/-- **What `trim_value` trims.** -/
theorem trimsUnprotected_iff (v : Json ν) : TrimsUnprotected v (trimValue none v) ↔
    ∀ keys s, (keys, s) ∈ v.strings [] → Protected keys → isSkipped keys.head? = false →
      trimText s = s := by
  have hvalue : trimValue none v = v.mapStrings trimNearest [] := trimValue_eq [] v
  rw [hvalue]
  constructor
  · intro h keys s hmem hprotected hnearest
    have hstrings := h.strings
    rw [Json.strings_mapStrings] at hstrings
    have hboth := List.map_inj_left.mp hstrings (keys, s) hmem
    rw [if_pos hprotected, trimNearest, if_neg (by rw [hnearest]; decide)] at hboth
    exact (Prod.mk.inj hboth).2
  · intro h
    refine ⟨Json.skeleton_mapStrings v, ?_⟩
    rw [Json.strings_mapStrings]
    refine List.map_congr_left fun e he => ?_
    obtain ⟨keys, s⟩ := e
    rw [Prod.mk.injEq, trimNearest]
    refine ⟨rfl, ?_⟩
    by_cases hnearest : isSkipped keys.head? = true
    · rw [if_pos hnearest, if_pos (protected_of_isSkipped hnearest)]
    · rw [if_neg hnearest]
      by_cases hprotected : Protected keys
      · rw [if_pos hprotected]
        exact h keys s he hprotected (Bool.eq_false_iff.mpr hnearest)
      · rw [if_neg hprotected]

/-- A password in an object of its own. -/
theorem not_trimsUnprotected : ¬ ∀ v : Json Nat, TrimsUnprotected v (trimValue none v) := by
  intro h
  have hall := (h (.object [("password", .object [("value", .string " x ")])])).strings
  exact absurd hall (by decide)

end Kolas.Http

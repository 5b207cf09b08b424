import Kolas.Lib.Json

/-!
# The strings in a JSON value

`strings` lists the strings of a value in order, each with the keys it stands
under, the nearest first; arrays add no key.  `skeleton` is a value without its
strings, and `mapStrings f` changes each string by `f`, which is told the keys.

* `mapStrings_eq_iff`: two maps agree on a value exactly when they agree on its
  strings.
* `skeleton_mapStrings`, `strings_mapStrings`: a map changes the strings and nothing
  else.
* `mapStrings_mapStrings`, `mapStrings_id`: one map after another, and none.
-/

namespace Kolas.Lib.Json

variable {ν : Type} (f g : List String → String → String)

mutual

/-- The strings below a value that stands under `keys`. -/
def strings (keys : List String) : Json ν → List (List String × String)
  | .string s => [(keys, s)]
  | .array items => stringsItems keys items
  | .object entries => stringsEntries keys entries
  | .null => []
  | .bool _ => []
  | .number _ => []

def stringsItems (keys : List String) : List (Json ν) → List (List String × String)
  | [] => []
  | v :: rest => strings keys v ++ stringsItems keys rest

def stringsEntries (keys : List String) : List (String × Json ν) → List (List String × String)
  | [] => []
  | (k, v) :: rest => strings (k :: keys) v ++ stringsEntries keys rest

end

mutual

def mapStrings (keys : List String) : Json ν → Json ν
  | .string s => .string (f keys s)
  | .array items => .array (mapItems keys items)
  | .object entries => .object (mapEntries keys entries)
  | .null => .null
  | .bool b => .bool b
  | .number n => .number n

def mapItems (keys : List String) : List (Json ν) → List (Json ν)
  | [] => []
  | v :: rest => mapStrings keys v :: mapItems keys rest

def mapEntries (keys : List String) : List (String × Json ν) → List (String × Json ν)
  | [] => []
  | (k, v) :: rest => (k, mapStrings (k :: keys) v) :: mapEntries keys rest

end

/-- The value with its strings taken out. -/
def skeleton (v : Json ν) : Json ν := mapStrings (fun _ _ => "") [] v

/-! ### Maps -/

variable {f g}

mutual

/-- **Two maps agree on a value exactly when they agree on its strings.** -/
theorem mapStrings_eq_iff {keys : List String} : ∀ {v : Json ν},
    mapStrings f keys v = mapStrings g keys v ↔ ∀ e ∈ strings keys v, f e.1 e.2 = g e.1 e.2
  | .string s => by simp [mapStrings, strings]
  | .array items => by
    rw [mapStrings, mapStrings, strings, Json.array.injEq]
    exact mapItems_eq_iff
  | .object entries => by
    rw [mapStrings, mapStrings, strings, Json.object.injEq]
    exact mapEntries_eq_iff
  | .null => by simp [mapStrings, strings]
  | .bool b => by simp [mapStrings, strings]
  | .number n => by simp [mapStrings, strings]

theorem mapItems_eq_iff {keys : List String} : ∀ {items : List (Json ν)},
    mapItems f keys items = mapItems g keys items ↔
      ∀ e ∈ stringsItems keys items, f e.1 e.2 = g e.1 e.2
  | [] => by simp [mapItems, stringsItems]
  | v :: rest => by
    rw [mapItems, mapItems, stringsItems, List.cons.injEq, List.forall_mem_append]
    exact and_congr mapStrings_eq_iff mapItems_eq_iff

theorem mapEntries_eq_iff {keys : List String} : ∀ {entries : List (String × Json ν)},
    mapEntries f keys entries = mapEntries g keys entries ↔
      ∀ e ∈ stringsEntries keys entries, f e.1 e.2 = g e.1 e.2
  | [] => by simp [mapEntries, stringsEntries]
  | (k, v) :: rest => by
    rw [mapEntries, mapEntries, stringsEntries, List.cons.injEq, Prod.mk.injEq,
      List.forall_mem_append]
    exact and_congr ((and_iff_right rfl).trans mapStrings_eq_iff) mapEntries_eq_iff

end

mutual

/-- **One map after another.** -/
theorem mapStrings_mapStrings (keys : List String) : ∀ v : Json ν,
    mapStrings g keys (mapStrings f keys v) = mapStrings (fun ks s => g ks (f ks s)) keys v
  | .string _ => rfl
  | .array items => congrArg Json.array (mapItems_mapItems keys items)
  | .object entries => congrArg Json.object (mapEntries_mapEntries keys entries)
  | .null => rfl
  | .bool _ => rfl
  | .number _ => rfl

theorem mapItems_mapItems (keys : List String) : ∀ items : List (Json ν),
    mapItems g keys (mapItems f keys items) = mapItems (fun ks s => g ks (f ks s)) keys items
  | [] => rfl
  | v :: rest => by
    rw [mapItems, mapItems, mapItems, mapStrings_mapStrings keys v, mapItems_mapItems keys rest]

theorem mapEntries_mapEntries (keys : List String) : ∀ entries : List (String × Json ν),
    mapEntries g keys (mapEntries f keys entries) =
      mapEntries (fun ks s => g ks (f ks s)) keys entries
  | [] => rfl
  | (k, v) :: rest => by
    rw [mapEntries, mapEntries, mapEntries, mapStrings_mapStrings (k :: keys) v,
      mapEntries_mapEntries keys rest]

end

mutual

theorem mapStrings_id (keys : List String) : ∀ v : Json ν,
    mapStrings (fun _ s => s) keys v = v
  | .string _ => rfl
  | .array items => congrArg Json.array (mapItems_id keys items)
  | .object entries => congrArg Json.object (mapEntries_id keys entries)
  | .null => rfl
  | .bool _ => rfl
  | .number _ => rfl

theorem mapItems_id (keys : List String) : ∀ items : List (Json ν),
    mapItems (fun _ s => s) keys items = items
  | [] => rfl
  | v :: rest => by rw [mapItems, mapStrings_id keys v, mapItems_id keys rest]

theorem mapEntries_id (keys : List String) : ∀ entries : List (String × Json ν),
    mapEntries (fun _ s => s) keys entries = entries
  | [] => rfl
  | (k, v) :: rest => by rw [mapEntries, mapStrings_id (k :: keys) v, mapEntries_id keys rest]

end

theorem mapStrings_eq_self_iff {keys : List String} {v : Json ν} :
    mapStrings f keys v = v ↔ ∀ e ∈ strings keys v, f e.1 e.2 = e.2 := by
  conv_lhs => rhs; rw [← mapStrings_id keys v]
  exact mapStrings_eq_iff

/-- **A map leaves the skeleton.** -/
theorem skeleton_mapStrings (v : Json ν) : skeleton (mapStrings f [] v) = skeleton v :=
  mapStrings_mapStrings [] v

mutual

/-- **A map changes each string where it stands.** -/
theorem strings_mapStrings (keys : List String) : ∀ v : Json ν,
    strings keys (mapStrings f keys v) = (strings keys v).map fun e => (e.1, f e.1 e.2)
  | .string _ => rfl
  | .array items => stringsItems_mapItems keys items
  | .object entries => stringsEntries_mapEntries keys entries
  | .null => rfl
  | .bool _ => rfl
  | .number _ => rfl

theorem stringsItems_mapItems (keys : List String) : ∀ items : List (Json ν),
    stringsItems keys (mapItems f keys items) =
      (stringsItems keys items).map fun e => (e.1, f e.1 e.2)
  | [] => rfl
  | v :: rest => by
    rw [mapItems, stringsItems, stringsItems, strings_mapStrings keys v,
      stringsItems_mapItems keys rest, List.map_append]

theorem stringsEntries_mapEntries (keys : List String) : ∀ entries : List (String × Json ν),
    stringsEntries keys (mapEntries f keys entries) =
      (stringsEntries keys entries).map fun e => (e.1, f e.1 e.2)
  | [] => rfl
  | (k, v) :: rest => by
    rw [mapEntries, stringsEntries, stringsEntries, strings_mapStrings (k :: keys) v,
      stringsEntries_mapEntries keys rest, List.map_append]

end

end Kolas.Lib.Json

import Kolas.Config.Config
import Kolas.Lib.Reorder

/-!
# The order of the overrides

Writes at two paths commute unless one path is a prefix of the other
(`setPath_comm`), and then the later one may undo the earlier one.  Names are
lower-cased, so two variables with different names can be written to one path.

`applyOverrides_perm`: a permutation of the variables that keeps the order of any
two that are written to comparable paths gives the same tree.
-/

set_option linter.dupNamespace false

namespace Kolas.Config

open Kolas.Lib

/-- What `setPath` writes at the first key of a path, where `old` was. -/
def written (old : Option Value) (path : List String) (value : Value) : Value :=
  match path with
  | [] => value
  | next :: rest => .table (setPath (Value.entries old) (next :: rest) value)

theorem setPath_cons (root : Entries) (key : String) (path : List String) (value : Value) :
    setPath root (key :: path) value =
      SortedMap.insert key (written (root.lookup key) path value) root := by
  cases path <;> rfl

/-- One of the paths leads through the other. -/
def Comparable (p q : List String) : Prop := p <+: q ∨ q <+: p

/-- **Writes at incomparable paths commute.** -/
theorem setPath_comm {p q : List String} (h : ¬ Comparable p q) (root : Entries) (v w : Value) :
    setPath (setPath root p v) q w = setPath (setPath root q w) p v := by
  induction p generalizing root q with
  | nil => exact absurd (Or.inl List.nil_prefix) h
  | cons key p ih =>
    cases q with
    | nil => exact absurd (Or.inr List.nil_prefix) h
    | cons key' q =>
      by_cases hk : key = key'
      · subst hk
        have hpq : ¬ Comparable p q := by
          intro hc
          refine h (hc.imp ?_ ?_)
          · exact fun hp => List.cons_prefix_cons.mpr ⟨rfl, hp⟩
          · exact fun hp => List.cons_prefix_cons.mpr ⟨rfl, hp⟩
        simp only [setPath_cons, SortedMap.lookup_insert_self, SortedMap.insert_insert_self]
        congr 1
        cases p with
        | nil => exact absurd (Or.inl List.nil_prefix) hpq
        | cons n p =>
          cases q with
          | nil => exact absurd (Or.inr List.nil_prefix) hpq
          | cons m q => exact congrArg Value.table (ih hpq (Value.entries (root.lookup key)))
      · simp only [setPath_cons, SortedMap.lookup_insert_of_ne hk,
          SortedMap.lookup_insert_of_ne (Ne.symm hk)]
        exact SortedMap.insert_comm (Ne.symm hk) _ _ root

/-- Both variables are written, to comparable paths. -/
def Clash (unicode : String → String) (knownSections : List String) (a b : String × String) :
    Prop :=
  ∃ p q, overridePath unicode knownSections a.1 = some p ∧
    overridePath unicode knownSections b.1 = some q ∧ Comparable p q

theorem applyOverride_comm {unicode : String → String} {knownSections : List String}
    (a b : String × String) (h : ¬ Clash unicode knownSections a b) (root : Entries) :
    applyOverride unicode knownSections (applyOverride unicode knownSections root a) b =
      applyOverride unicode knownSections (applyOverride unicode knownSections root b) a := by
  simp only [applyOverride_eq]
  cases hp : overridePath unicode knownSections a.1 with
  | none => rfl
  | some p =>
    cases hq : overridePath unicode knownSections b.1 with
    | none => rfl
    | some q => exact setPath_comm (fun hc => h ⟨p, q, hp, hq, hc⟩) root _ _

namespace Config

/-- **The order of the variables matters only where their paths are comparable.** -/
theorem applyOverrides_perm {unicode : String → String} {config : Config}
    {vars vars' : List (String × String)} (hnames : (vars.map Prod.fst).Nodup)
    (hperm : vars.Perm vars')
    (horder : ∀ a b, Clash unicode (config.root.map Prod.fst) a b →
      [a, b].Sublist vars → [a, b].Sublist vars') :
    config.applyOverrides unicode vars = config.applyOverrides unicode vars' :=
  ext_root (foldl_eq_of_perm applyOverride_comm hperm hnames.of_map horder config.root)

/-- A section with nothing in it. -/
def app : Config where
  root := [("app", .table [])]
  wellKeyed := .singleton "app" (.table .nil (by simp))
  sections := by simp [Sections]

theorem not_applyOverrides_perm : ¬ ∀ (config : Config) (vars vars' : List (String × String)),
    (vars.map Prod.fst).Nodup → vars.Perm vars' →
      config.applyOverrides id vars = config.applyOverrides id vars' := by
  intro hall
  have heq := hall app [("APP__NAME", "a"), ("app__name", "b")]
    [("app__name", "b"), ("APP__NAME", "a")] (by decide) (List.Perm.swap ..)
  have hroot : [("app", Value.table [("name", .string "b")])] =
      [("app", Value.table [("name", .string "a")])] := congrArg Config.root heq
  simp at hroot

/-- Two names of one section, listed in either order. -/
theorem applyOverrides_two :
    app.applyOverrides id [("APP__NAME", "a"), ("APP__PORT", "1")] =
      app.applyOverrides id [("APP__PORT", "1"), ("APP__NAME", "a")] := by
  refine applyOverrides_perm (by decide) (List.Perm.swap ..) ?_
  intro a b hab hsub
  obtain ⟨p, q, hp, hq, hc⟩ := hab
  obtain ⟨rfl, rfl⟩ : a = ("APP__NAME", "a") ∧ b = ("APP__PORT", "1") := by
    simpa using hsub.eq_of_length rfl
  have hp' : some ["app", "name"] = some p := hp
  have hq' : some ["app", "port"] = some q := hq
  cases hp'
  cases hq'
  exact absurd hc (by unfold Comparable; decide)

end Config

end Kolas.Config

import Kolas.Lib.Words
import Kolas.Logging.Layer
import Kolas.Schedule.Frequency

/-!
# The filter of a console or file sink

`build_env_filter` and `resolve_level_directive` of `logging/sink/mod.rs`: the level and the
excluded targets are written as the directives of an `EnvFilter`, which is a parameter.
`EnvFilter.Documented` is what its documentation says of directives of the forms `level`
and `target=level`: of those whose target the event's begins with, the most specific one
decides.

* `parseDirectives_join`: the directives are read as they were meant.
* `passesEnv_iff`: so such a sink passes what `level_passes` passes, at the level that is in
  force, less the excluded targets; and with those of the database sink excluded it
  passes the same events.
-/

namespace Kolas.Logging

open Kolas.Lib Kolas.Schedule

/-! ### Directives -/

/-- `tracing_subscriber::filter::LevelFilter::to_string`. -/
def LevelFilter.word : LevelFilter → String
  | .trace => "trace"
  | .debug => "debug"
  | .info => "info"
  | .warn => "warn"
  | .error => "error"
  | .off => "off"

def parseLevel (s : String) : Option LevelFilter :=
  [LevelFilter.trace, .debug, .info, .warn, .error, .off].find? fun level => level.word = s

/-- A directive; one for all events has the empty target. -/
structure Directive where
  target : String
  level : LevelFilter
  deriving DecidableEq, Repr

def isTargetChar (c : Char) : Bool := c.isAlphanum || c = '_' || c = ':' || c = '-'

/-- A target as it may stand in a directive. -/
def PlainTarget (target : String) : Prop :=
  target ≠ "" ∧ target.toList.all isTargetChar = true

instance (target : String) : Decidable (PlainTarget target) := inferInstanceAs (Decidable (_ ∧ _))

def parseDirective (s : String) : Option Directive :=
  match parseLevel s with
  | some level => some ⟨"", level⟩
  | none =>
    match cut '=' s.toList with
    | some (target, level) =>
      if PlainTarget (String.ofList target) then
        (parseLevel (String.ofList level)).map (⟨String.ofList target, ·⟩)
      else none
    | none => none

/-- Directives of the two forms, with commas between them. -/
def parseDirectives (text : String) : Option (List Directive) :=
  (text.toList.splitOn ',').mapM fun s => parseDirective (String.ofList s)

def Directive.concerns (d : Directive) (target : String) : Bool :=
  d.target.toList.isPrefixOf target.toList

/-- The most specific directive, and of equal ones the last. -/
def chosen (directives : List Directive) (target : String) : Option Directive :=
  directives.foldl (fun best d =>
    if d.concerns target && best.all (fun b => decide (b.target.length ≤ d.target.length)) then some d
    else best) none

def enabledBy (directives : List Directive) (target : String) (level : Level) : Bool :=
  (chosen directives target).any fun d => levelPasses level d.level

/-- `tracing_subscriber::EnvFilter`. -/
structure EnvFilter (F : Type) where
  tryParse : String → Option F
  new : String → F
  enabled : F → String → Level → Bool

structure EnvFilter.Documented {F : Type} (E : EnvFilter F) : Prop where
  new : ∀ text directives, parseDirectives text = some directives →
    ∀ target level, E.enabled (E.new text) target level = enabledBy directives target level

/-! ### The filter of a sink -/

def configuredLevelDirective (level : LevelFilter) : String := level.word

/-- `str::to_ascii_lowercase`. -/
def toAsciiLowercase (s : List Char) : String := String.ofList (s.map Char.toLower)

/-- `resolve_level_directive`, and what it complains of. -/
def resolveLevelDirective (logLevel : Option String) (configured : LevelFilter) :
    String × List String :=
  match logLevel with
  | some raw =>
    let candidate := toAsciiLowercase (trim isWhitespace raw.toList)
    if candidate ∈ ["trace", "debug", "info", "warn", "error", "off"] then (candidate, [])
    else (configuredLevelDirective configured,
      if candidate = "" then []
      else ["[kolas/log] ignoring invalid LOG_LEVEL='" ++ raw ++ "'; using configured level"])
  | none => (configuredLevelDirective configured, [])

/-- `build_env_filter`, with the values of `RUST_LOG` and `LOG_LEVEL`. -/
def buildEnvFilter {F : Type} (E : EnvFilter F) (rustLog logLevel : Option String)
    (level : LevelFilter) (excludeTargets : List String) : F :=
  match rustLog.bind E.tryParse with
  | some filter => filter
  | none =>
    let levelDirective := (resolveLevelDirective logLevel level).1
    E.new (",".intercalate (levelDirective :: excludeTargets.map fun start => start ++ "=off"))

/-- The level in force: that of `LOG_LEVEL` if it is one, or else the configured one. -/
def levelInForce (logLevel : Option String) (configured : LevelFilter) : LevelFilter :=
  (logLevel.bind fun raw => parseLevel (toAsciiLowercase (trim isWhitespace raw.toList))).getD
    configured

/-! ### Reading the directives -/

theorem parseLevel_word (level : LevelFilter) : parseLevel level.word = some level := by
  cases level <;> rfl

theorem parseLevel_eq_some {s : String} {level : LevelFilter} (h : parseLevel s = some level) :
    s = level.word := by
  have hword := List.find?_some h
  exact (of_decide_eq_true hword).symm

/-- The level directive is that of the level in force. -/
theorem resolveLevelDirective_eq (logLevel : Option String) (configured : LevelFilter) :
    (resolveLevelDirective logLevel configured).1 = (levelInForce logLevel configured).word := by
  cases logLevel with
  | none => rfl
  | some raw =>
    unfold resolveLevelDirective levelInForce
    rw [Option.bind_some]
    dsimp only
    generalize toAsciiLowercase (trim isWhitespace raw.toList) = candidate
    cases hlevel : parseLevel candidate with
    | some level =>
      have hmem : candidate ∈ ["trace", "debug", "info", "warn", "error", "off"] := by
        rw [parseLevel_eq_some hlevel]
        cases level <;> decide
      rw [if_pos hmem, parseLevel_eq_some hlevel]
      rfl
    | none =>
      have hnot : candidate ∉ ["trace", "debug", "info", "warn", "error", "off"] := by
        intro hmem
        simp only [List.mem_cons, List.not_mem_nil, or_false] at hmem
        rcases hmem with rfl | rfl | rfl | rfl | rfl | rfl <;> cases hlevel
      rw [if_neg hnot]
      rfl

theorem not_mem_of_all {p : Char → Bool} {s : List Char} (h : s.all p = true) {c : Char}
    (hc : p c = false) : c ∉ s := by
  intro hmem
  rw [List.all_eq_true.mp h c hmem] at hc
  cases hc

theorem parseDirective_word (level : LevelFilter) : parseDirective level.word = some ⟨"", level⟩ := by
  unfold parseDirective
  rw [parseLevel_word]

/-- An excluded target is read as one that is off. -/
theorem parseDirective_off {start : String} (h : PlainTarget start) :
    parseDirective (start ++ "=off") = some ⟨start, .off⟩ := by
  have hlevel : parseLevel (start ++ "=off") = none := by
    cases hparse : parseLevel (start ++ "=off") with
    | none => rfl
    | some level =>
      have hmem : '=' ∈ level.word.toList := by
        rw [← parseLevel_eq_some hparse, String.toList_append]
        exact List.mem_append_right _ (by decide)
      cases level <;> exact absurd hmem (by decide)
  have hcut : cut '=' (start ++ "=off").toList = some (start.toList, "off".toList) := by
    rw [String.toList_append]
    exact cut_append_cons (not_mem_of_all h.2 (by decide)) "off".toList
  unfold parseDirective
  rw [hlevel, hcut]
  dsimp only
  rw [String.ofList_toList, if_pos h]
  rfl

theorem parseDirectives_off {excludeTargets : List String}
    (h : ∀ start ∈ excludeTargets, PlainTarget start) :
    (excludeTargets.map fun start => start ++ "=off").mapM parseDirective =
      some (excludeTargets.map fun start => ⟨start, .off⟩) := by
  induction excludeTargets with
  | nil => rfl
  | cons start rest ih =>
    obtain ⟨hstart, hrest⟩ := List.forall_mem_cons.mp h
    rw [List.map_cons, List.mapM_cons, parseDirective_off hstart, ih hrest]
    rfl

/-- **The directives are read as they were meant.** -/
theorem parseDirectives_join (level : LevelFilter) {excludeTargets : List String}
    (h : ∀ start ∈ excludeTargets, PlainTarget start) :
    parseDirectives (",".intercalate (level.word :: excludeTargets.map fun start => start ++ "=off"))
      = some (⟨"", level⟩ :: excludeTargets.map fun start => ⟨start, .off⟩) := by
  have hcomma : ∀ cs ∈ (level.word :: excludeTargets.map fun start => start ++ "=off").map
      String.toList, ',' ∉ cs := by
    intro cs hcs
    rw [List.map_cons, List.mem_cons] at hcs
    rcases hcs with rfl | hcs
    · cases level <;> decide
    · rw [List.map_map] at hcs
      obtain ⟨start, hstart, rfl⟩ := List.mem_map.mp hcs
      show ',' ∉ (start ++ "=off").toList
      rw [String.toList_append, List.mem_append]
      rintro (hmem | hmem)
      · exact not_mem_of_all (h start hstart).2 (by decide) hmem
      · exact absurd hmem (by decide)
  unfold parseDirectives
  have hcommas : (",".toList : List Char) = [','] := rfl
  rw [String.toList_intercalate, hcommas, List.splitOn_intercalate _ hcomma (by simp),
    List.mapM_map]
  have hback : (fun cs => parseDirective (String.ofList cs)) ∘ String.toList = parseDirective :=
    funext fun s => congrArg parseDirective String.ofList_toList
  rw [hback, List.mapM_cons, parseDirective_word, parseDirectives_off h]
  rfl

/-! ### The directive that decides -/

theorem chosen_append (directives : List Directive) (d : Directive) (target : String) :
    chosen (directives ++ [d]) target =
      if d.concerns target &&
          (chosen directives target).all (fun b => decide (b.target.length ≤ d.target.length)) then
        some d
      else chosen directives target := by
  rw [chosen, List.foldl_append]
  rfl

/-- **The most specific directive decides.** -/
theorem chosen_spec (directives : List Directive) (target : String) :
    (∀ d, chosen directives target = some d → d ∈ directives ∧ d.concerns target = true) ∧
      ∀ d ∈ directives, d.concerns target = true →
        ∃ best, chosen directives target = some best ∧ d.target.length ≤ best.target.length := by
  induction directives using List.reverseRecOn with
  | nil =>
    refine ⟨?_, ?_⟩
    · intro d hd
      cases hd
    · intro d hd
      cases hd
  | append_singleton directives last ih =>
    obtain ⟨hmem, hlongest⟩ := ih
    rw [chosen_append]
    by_cases htaken : (last.concerns target &&
        (chosen directives target).all fun b => decide (b.target.length ≤ last.target.length)) = true
    · rw [if_pos htaken]
      obtain ⟨hlast, hall⟩ := Bool.and_eq_true_iff.mp htaken
      refine ⟨?_, ?_⟩
      · intro d hd
        obtain rfl := Option.some.inj hd
        exact ⟨List.mem_append_right _ (List.mem_singleton_self _), hlast⟩
      · intro d hd hconcerns
        refine ⟨last, rfl, ?_⟩
        rcases List.mem_append.mp hd with hd | hd
        · obtain ⟨best, hbest, hle⟩ := hlongest d hd hconcerns
          rw [hbest, Option.all_some, decide_eq_true_eq] at hall
          exact hle.trans hall
        · rw [List.mem_singleton.mp hd]
    · rw [if_neg htaken]
      refine ⟨fun d hd => ⟨List.mem_append_left _ (hmem d hd).1, (hmem d hd).2⟩, ?_⟩
      intro d hd hconcerns
      rcases List.mem_append.mp hd with hd | hd
      · exact hlongest d hd hconcerns
      · obtain rfl := List.mem_singleton.mp hd
        rw [hconcerns, Bool.true_and] at htaken
        cases hchosen : chosen directives target with
        | none => simp [hchosen] at htaken
        | some best =>
          rw [hchosen, Option.all_some, decide_eq_true_eq] at htaken
          exact ⟨best, rfl, by omega⟩

theorem levelPasses_off (level : Level) : levelPasses level .off = false := rfl

/-- A level for all events, and targets that are off. -/
theorem enabledBy_iff (level : LevelFilter) {excludeTargets : List String}
    (h : ∀ start ∈ excludeTargets, PlainTarget start) (target : String) (eventLevel : Level) :
    enabledBy (⟨"", level⟩ :: excludeTargets.map fun start => ⟨start, .off⟩) target eventLevel = true ↔
      levelPasses eventLevel level = true ∧
        ∀ start ∈ excludeTargets, start.toList.isPrefixOf target.toList = false := by
  obtain ⟨hmem, hlongest⟩ :=
    chosen_spec (⟨"", level⟩ :: excludeTargets.map fun start => ⟨start, .off⟩) target
  obtain ⟨best, hbest, -⟩ := hlongest ⟨"", level⟩ List.mem_cons_self (by simp [Directive.concerns])
  have hdecides : enabledBy (⟨"", level⟩ :: excludeTargets.map fun start => ⟨start, .off⟩) target
      eventLevel = levelPasses eventLevel best.level := by
    rw [enabledBy, hbest, Option.any_some]
  obtain ⟨hin, hconcerns⟩ := hmem best hbest
  rw [hdecides]
  rcases List.mem_cons.mp hin with rfl | hoff
  · -- the level decides, so nothing longer matches
    have hnone : ∀ start ∈ excludeTargets, start.toList.isPrefixOf target.toList = false := by
      intro start hstart
      by_contra hprefix
      obtain ⟨other, hother, hle⟩ := hlongest ⟨start, .off⟩
        (List.mem_cons_of_mem _ (List.mem_map.mpr ⟨start, hstart, rfl⟩))
        (Bool.not_eq_false _ ▸ hprefix)
      obtain rfl := Option.some.inj (hbest.symm.trans hother)
      have hempty : start.length = 0 := Nat.le_zero.mp hle
      exact (h start hstart).1 (by simpa using hempty)
    exact (and_iff_left hnone).symm
  · obtain ⟨start, hstart, rfl⟩ := List.mem_map.mp hoff
    refine iff_of_false ?_ ?_
    · rw [levelPasses_off]
      exact Bool.false_ne_true
    · rintro ⟨-, hnone⟩
      have hprefix : start.toList.isPrefixOf target.toList = true := hconcerns
      rw [hnone start hstart] at hprefix
      cases hprefix

/-! ### What a sink passes -/

theorem plain_excludedTargets : ∀ start ∈ excludedTargets, PlainTarget start := by decide

theorem buildEnvFilter_enabled {F : Type} {E : EnvFilter F} (hE : E.Documented)
    {rustLog : Option String} (hrust : rustLog.bind E.tryParse = none) (logLevel : Option String)
    (level : LevelFilter) {excludeTargets : List String}
    (h : ∀ start ∈ excludeTargets, PlainTarget start) (target : String) (eventLevel : Level) :
    E.enabled (buildEnvFilter E rustLog logLevel level excludeTargets) target eventLevel = true ↔
      levelPasses eventLevel (levelInForce logLevel level) = true ∧
        ∀ start ∈ excludeTargets, start.toList.isPrefixOf target.toList = false := by
  unfold buildEnvFilter
  rw [hrust]
  dsimp only
  rw [resolveLevelDirective_eq, hE.new _ _ (parseDirectives_join _ h), enabledBy_iff _ h]

/-- **What a console or file sink passes** without a `RUST_LOG`: the events that the level
in force passes, less those of the excluded targets; so one that excludes what the
database sink does passes the same events, while `LOG_LEVEL` says nothing. -/
theorem passesEnv_iff {F : Type} {E : EnvFilter F} (hE : E.Documented) {rustLog : Option String}
    (hrust : rustLog.bind E.tryParse = none) (level : LevelFilter) (e : Emission) :
    (∀ (logLevel : Option String) (excludeTargets : List String),
      (∀ start ∈ excludeTargets, PlainTarget start) →
      (E.enabled (buildEnvFilter E rustLog logLevel level excludeTargets) e.event.target
          e.event.level = true ↔
        levelPasses e.event.level (levelInForce logLevel level) = true ∧
          ∀ start ∈ excludeTargets, start.toList.isPrefixOf e.event.target.toList = false)) ∧
      E.enabled (buildEnvFilter E rustLog none level excludedTargets) e.event.target e.event.level =
        e.passes level := by
  refine ⟨fun logLevel excludeTargets h =>
    buildEnvFilter_enabled hE hrust logLevel level h e.event.target e.event.level, ?_⟩
  rw [Bool.eq_iff_iff, buildEnvFilter_enabled hE hrust none level plain_excludedTargets]
  unfold Emission.passes isExcluded
  rw [Bool.and_eq_true, Bool.not_eq_true', List.any_eq_false]
  simp only [Bool.not_eq_true]
  rfl

/-- A filter that is its directives. -/
def directiveFilter : EnvFilter (List Directive) where
  tryParse := parseDirectives
  new text := (parseDirectives text).getD []
  enabled := enabledBy

theorem directiveFilter_documented : directiveFilter.Documented where
  new text directives h target level := by
    show enabledBy ((parseDirectives text).getD []) target level = _
    rw [h, Option.getD_some]

/-- An event of a controller, for debugging. -/
def debugged : Emission := ⟨⟨.debug, "kolas::app::http", []⟩, none, 0⟩

/-- `LOG_LEVEL` lets it through, where the configured level does not. -/
theorem passesEnv_debugged :
    directiveFilter.enabled (buildEnvFilter directiveFilter none (some " DEBUG ") .info ["sqlx"])
        debugged.event.target debugged.event.level = true ∧
      directiveFilter.enabled (buildEnvFilter directiveFilter none none .info excludedTargets)
        debugged.event.target debugged.event.level = false := by
  have hrust : (none : Option String).bind directiveFilter.tryParse = none := rfl
  obtain ⟨hpasses, hsame⟩ := passesEnv_iff directiveFilter_documented hrust .info debugged
  refine ⟨(hpasses (some " DEBUG ") ["sqlx"] (by decide)).mpr ⟨by decide, by decide⟩, ?_⟩
  rw [hsame]
  decide

end Kolas.Logging

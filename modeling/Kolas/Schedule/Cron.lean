import Kolas.Lib.Digits
import Kolas.Lib.Words
import Kolas.Schedule.Event

/-!
# Cron patterns

What the instants are that a pattern of `croner` fires at.  A pattern has six
fields, or five, with `0` for the second.  It fires at the whole seconds at which
the clock of the time zone shows what the fields admit; of the two fields for the
day one is enough when both restrict it.

What a field's text admits is `croner`'s and a parameter, `FieldSyntax`, with the
documented meaning of `*`, numbers, ranges and lists as `FieldSyntax.Lawful`;
`Croner.Reads` says that patterns are read in this way.  When a zone's clock is put
forward or back, `croner` fires a time that is left out once the clock is past it, and a
time that comes twice only once; `Croner.ReadsIn` is for zones where that does not happen.

* `Event.occurs_iff_in`: the instants at which an event fires, by the fields of its
  expression.
* `plain`, `plainCroner` and `utcClock` are these things for numbers, ranges,
  lists and UTC.
-/

namespace Kolas.Schedule

open Kolas.Lib

/-- What a clock and a calendar show; days and months are counted from zero, and
the days of the week from Sunday. -/
structure LocalTime where
  second : Fin 60
  minute : Fin 60
  hour : Fin 24
  day : Fin 31
  month : Fin 12
  year : Int
  weekday : Fin 7
  deriving DecidableEq, Repr

inductive Field
  | second
  | minute
  | hour
  | dayOfMonth
  | month
  | dayOfWeek
  deriving DecidableEq, Repr

namespace Field

def first : Field → Nat
  | .dayOfMonth => 1
  | .month => 1
  | _ => 0

def last : Field → Nat
  | .second => 59
  | .minute => 59
  | .hour => 23
  | .dayOfMonth => 31
  | .month => 12
  | .dayOfWeek => 6

/-- What the field is about. -/
def value (t : LocalTime) : Field → Nat
  | .second => t.second
  | .minute => t.minute
  | .hour => t.hour
  | .dayOfMonth => t.day + 1
  | .month => t.month + 1
  | .dayOfWeek => t.weekday

theorem value_range (t : LocalTime) (f : Field) : f.first ≤ f.value t ∧ f.value t ≤ f.last := by
  cases f <;> simp only [first, last, value] <;> omega

end Field

/-- The texts a field may be, the times it admits, and whether it is not `*`. -/
structure FieldSyntax where
  valid : Field → String → Prop
  admits : Field → String → LocalTime → Prop
  restricts : Field → String → Prop

namespace FieldSyntax

variable (S : FieldSyntax)

/-- The text admits the times at which the field's value meets `p`. -/
structure Means (f : Field) (text : String) (p : Nat → Prop) : Prop where
  valid : S.valid f text
  restricts : S.restricts f text
  admits : ∀ t, S.admits f text t ↔ p (f.value t)

/-- The documented meaning of `*`, `n`, `a-b` and `a,b`. -/
structure Lawful : Prop where
  anyValid : ∀ f, S.valid f "*"
  anyFree : ∀ f, ¬ S.restricts f "*"
  any : ∀ f t, S.admits f "*" t
  number : ∀ f n, f.first ≤ n → n ≤ f.last → S.Means f (toString n) fun v => v = n
  range : ∀ f a b, f.first ≤ a → a ≤ b → b ≤ f.last →
    S.Means f (toString a ++ "-" ++ toString b) fun v => a ≤ v ∧ v ≤ b
  pair : ∀ f a b, f.first ≤ a → a ≤ f.last → f.first ≤ b → b ≤ f.last →
    S.Means f (toString a ++ "," ++ toString b) fun v => v = a ∨ v = b

/-- The two fields for the day: either is enough when both restrict it. -/
def MatchesDay (day weekday : String) (t : LocalTime) : Prop :=
  (S.restricts .dayOfMonth day ∧ S.restricts .dayOfWeek weekday ∧
    (S.admits .dayOfMonth day t ∨ S.admits .dayOfWeek weekday t)) ∨
  (¬ (S.restricts .dayOfMonth day ∧ S.restricts .dayOfWeek weekday) ∧
    S.admits .dayOfMonth day t ∧ S.admits .dayOfWeek weekday t)

end FieldSyntax

/-- The texts of a pattern's fields. -/
structure Pattern where
  second : String
  minute : String
  hour : String
  day : String
  month : String
  weekday : String
  deriving DecidableEq, Repr

namespace Pattern

/-- The fields of a pattern's text; the second may be left out. -/
def read (expr : String) : Option Pattern :=
  match splitWhitespace expr with
  | [second, minute, hour, day, month, weekday] => some ⟨second, minute, hour, day, month, weekday⟩
  | [minute, hour, day, month, weekday] => some ⟨"0", minute, hour, day, month, weekday⟩
  | _ => none

variable (S : FieldSyntax) (p : Pattern)

structure Valid : Prop where
  second : S.valid .second p.second
  minute : S.valid .minute p.minute
  hour : S.valid .hour p.hour
  day : S.valid .dayOfMonth p.day
  month : S.valid .month p.month
  weekday : S.valid .dayOfWeek p.weekday

structure Matches (t : LocalTime) : Prop where
  second : S.admits .second p.second t
  minute : S.admits .minute p.minute t
  hour : S.admits .hour p.hour t
  month : S.admits .month p.month t
  day : S.MatchesDay p.day p.weekday t

/-- The instants, in nanoseconds, at which a valid pattern fires in a time zone. -/
def Fires {ζ : Type} (clock : ζ → Int → LocalTime) (tz : ζ) (o : Int) : Prop :=
  p.Valid S ∧ 1000000000 ∣ o ∧ p.Matches S (clock tz o)

end Pattern

/-- `croner` reads a pattern by its fields; `clock` is the clock of each time zone. -/
structure Croner.Reads {ζ : Type} (C : Croner ζ) (fires : C.Cron → ζ → Int → Prop)
    (S : FieldSyntax) (clock : ζ → Int → LocalTime) : Prop where
  parse : ∀ {expr p}, Pattern.read expr = some p → ((∃ cron, C.parse expr = .ok cron) ↔ p.Valid S)
  fires : ∀ {expr p cron}, Pattern.read expr = some p → C.parse expr = .ok cron →
    ∀ tz o, fires cron tz o ↔ 1000000000 ∣ o ∧ p.Matches S (clock tz o)

/-- `croner` reads a pattern by its fields in these time zones. -/
structure Croner.ReadsIn {ζ : Type} (C : Croner ζ) (fires : C.Cron → ζ → Int → Prop)
    (S : FieldSyntax) (clock : ζ → Int → LocalTime) (zones : ζ → Prop) : Prop where
  parse : ∀ {expr p}, Pattern.read expr = some p → ((∃ cron, C.parse expr = .ok cron) ↔ p.Valid S)
  fires : ∀ {expr p cron}, Pattern.read expr = some p → C.parse expr = .ok cron →
    ∀ tz, zones tz → ∀ o, fires cron tz o ↔ 1000000000 ∣ o ∧ p.Matches S (clock tz o)

section

variable {ζ φ : Type} {C : Croner ζ} {fires : C.Cron → ζ → Int → Prop} {S : FieldSyntax}
  {clock : ζ → Int → LocalTime} {zones : ζ → Prop}

theorem Croner.Reads.readsIn (hC : C.Reads fires S clock) (zones : ζ → Prop) :
    C.ReadsIn fires S clock zones := ⟨hC.parse, fun hp hcron tz _ => hC.fires hp hcron tz⟩

/-- **When an event fires**, by the fields of its expression. -/
theorem Event.occurs_iff_in (hC : C.ReadsIn fires S clock zones) {e : Event ζ φ}
    (herror : e.error = none) {p : Pattern}
    (hp : Pattern.read (e.applyModifiers e.frequency.toCronExpr) = some p) {tz : ζ}
    (htz : zones (e.timezone.getD tz)) (o : Int) :
    e.Occurs C fires tz o ↔ p.Fires S clock (e.timezone.getD tz) o := by
  have hexpr : e.expression = .ok (e.applyModifiers e.frequency.toCronExpr) := by
    rw [expression, herror]
  unfold Occurs buildCron Pattern.Fires
  rw [hexpr]
  dsimp only
  cases hparse : C.parse (e.applyModifiers e.frequency.toCronExpr) with
  | ok cron =>
    have hvalid : p.Valid S := (hC.parse hp).mp ⟨cron, hparse⟩
    rw [← hC.fires hp hparse _ htz]
    simp [hvalid]
  | error message =>
    have hnot : ¬ p.Valid S := by
      intro h
      obtain ⟨cron, hcron⟩ := (hC.parse hp).mpr h
      rw [hparse] at hcron
      cases hcron
    simp [hnot]

theorem Event.occurs_iff (hC : C.Reads fires S clock) {e : Event ζ φ} (herror : e.error = none)
    {p : Pattern} (hp : Pattern.read (e.applyModifiers e.frequency.toCronExpr) = some p)
    (tz : ζ) (o : Int) :
    e.Occurs C fires tz o ↔ p.Fires S clock (e.timezone.getD tz) o :=
  occurs_iff_in (hC.readsIn fun _ => True) herror hp trivial o

end

/-! ### Numbers, ranges and lists -/

/-- The bounds of an item: `*`, a number or a range. -/
def plainItem (f : Field) (item : List Char) : Option (Nat × Nat) :=
  if item = ['*'] then some (f.first, f.last)
  else
    match (item.splitOn '-').map readNumber with
    | [some n] => if f.first ≤ n ∧ n ≤ f.last then some (n, n) else none
    | [some a, some b] => if f.first ≤ a ∧ a ≤ b ∧ b ≤ f.last then some (a, b) else none
    | _ => none

/-- The items of a field, if all are right. -/
def plainItems (f : Field) (text : String) : Option (List (Nat × Nat)) :=
  (text.toList.splitOn ',').mapM (plainItem f)

/-- Lists of numbers, ranges and `*`. -/
def plain : FieldSyntax where
  valid f text := (plainItems f text).isSome
  admits f text t := (plainItems f text).any
    (·.any fun item => item.1 ≤ f.value t && f.value t ≤ item.2)
  restricts _ text := text ≠ "*"

instance (f : Field) (text : String) : Decidable (plain.valid f text) :=
  inferInstanceAs (Decidable (_ = true))

instance (f : Field) (text : String) (t : LocalTime) : Decidable (plain.admits f text t) :=
  inferInstanceAs (Decidable (_ = true))

instance (f : Field) (text : String) : Decidable (plain.restricts f text) :=
  inferInstanceAs (Decidable (text ≠ "*"))

instance (day weekday : String) (t : LocalTime) : Decidable (plain.MatchesDay day weekday t) :=
  inferInstanceAs (Decidable (_ ∨ _))

instance (p : Pattern) : Decidable (p.Valid plain) :=
  decidable_of_iff (plain.valid .second p.second ∧ plain.valid .minute p.minute ∧
    plain.valid .hour p.hour ∧ plain.valid .dayOfMonth p.day ∧ plain.valid .month p.month ∧
    plain.valid .dayOfWeek p.weekday)
    ⟨fun ⟨hs, hm, hh, hd, hmo, hw⟩ => ⟨hs, hm, hh, hd, hmo, hw⟩,
      fun ⟨hs, hm, hh, hd, hmo, hw⟩ => ⟨hs, hm, hh, hd, hmo, hw⟩⟩

instance (p : Pattern) (t : LocalTime) : Decidable (p.Matches plain t) :=
  decidable_of_iff (plain.admits .second p.second t ∧ plain.admits .minute p.minute t ∧
    plain.admits .hour p.hour t ∧ plain.admits .month p.month t ∧
    plain.MatchesDay p.day p.weekday t)
    ⟨fun ⟨hs, hm, hh, hmo, hd⟩ => ⟨hs, hm, hh, hmo, hd⟩,
      fun ⟨hs, hm, hh, hmo, hd⟩ => ⟨hs, hm, hh, hmo, hd⟩⟩

instance {ζ : Type} (p : Pattern) (clock : ζ → Int → LocalTime) (tz : ζ) (o : Int) :
    Decidable (p.Fires plain clock tz o) :=
  inferInstanceAs (Decidable (_ ∧ _ ∧ _))

theorem toString_ne_star (n : Nat) (rest : List Char) : (toString n).toList ++ rest ≠ ['*'] := by
  intro h
  cases hs : (toString n).toList with
  | nil => exact toString_toList_ne_nil n hs
  | cons c cs =>
    rw [hs, List.cons_append, List.cons.injEq] at h
    have hdigit : c.isDigit = true := isDigit_toString (hs ▸ List.mem_cons_self)
    rw [h.1] at hdigit
    cases hdigit

theorem plainItem_number {f : Field} {n : Nat} (hn : f.first ≤ n ∧ n ≤ f.last) :
    plainItem f (toString n).toList = some (n, n) := by
  have hstar : (toString n).toList ≠ ['*'] := by
    simpa using toString_ne_star n []
  unfold plainItem
  rw [if_neg hstar, List.splitOn_eq_singleton (not_mem_toString rfl), List.map_singleton,
    readNumber_toString]
  simp [hn]

theorem plainItem_range {f : Field} {a b : Nat} (h : f.first ≤ a ∧ a ≤ b ∧ b ≤ f.last) :
    plainItem f ((toString a).toList ++ '-' :: (toString b).toList) = some (a, b) := by
  unfold plainItem
  rw [if_neg (toString_ne_star a _), List.splitOn_append_cons_self_of_not_mem (not_mem_toString rfl),
    List.splitOn_eq_singleton (not_mem_toString rfl), List.map_cons, List.map_singleton,
    readNumber_toString, readNumber_toString]
  simp [h]

theorem plainItems_single {f : Field} {text : String} {item : Nat × Nat}
    (hcomma : ',' ∉ text.toList) (hitem : plainItem f text.toList = some item) :
    plainItems f text = some [item] := by
  unfold plainItems
  rw [List.splitOn_eq_singleton hcomma, List.mapM_cons, hitem]
  rfl

theorem plain_means {f : Field} {text : String} {items : List (Nat × Nat)} {p : Nat → Prop}
    (hitems : plainItems f text = some items) (hstar : text.toList ≠ ['*'])
    (hp : ∀ v, p v ↔ ∃ item ∈ items, item.1 ≤ v ∧ v ≤ item.2) : plain.Means f text p where
  valid := by
    show (plainItems f text).isSome = true
    rw [hitems]
    rfl
  restricts := by
    intro h
    exact hstar (by rw [h]; rfl)
  admits := by
    intro t
    show (plainItems f text).any _ = true ↔ _
    rw [hp, hitems]
    simp

/-- **`plain` gives the texts their documented meaning.** -/
theorem plain_lawful : plain.Lawful where
  anyValid := by
    intro f
    show (plainItems f "*").isSome = true
    cases f <;> rfl
  anyFree := by
    intro f h
    exact h rfl
  any := by
    intro f t
    show (plainItems f "*").any _ = true
    have hitems : plainItems f "*" = some [(f.first, f.last)] := by cases f <;> rfl
    rw [hitems]
    simp [f.value_range t]
  number := by
    intro f n hfirst hlast
    have hitems := plainItems_single (not_mem_toString rfl) (plainItem_number ⟨hfirst, hlast⟩)
    refine plain_means hitems ?_ ?_
    · simpa using toString_ne_star n []
    · intro v
      simp only [List.mem_singleton, exists_eq_left]
      omega
  range := by
    intro f a b hfirst hle hlast
    have htext : (toString a ++ "-" ++ toString b).toList =
        (toString a).toList ++ '-' :: (toString b).toList := by
      rw [String.toList_append, String.toList_append, List.append_assoc]
      rfl
    have hcomma : ',' ∉ (toString a ++ "-" ++ toString b).toList := by
      rw [htext, List.mem_append, List.mem_cons]
      intro h
      rcases h with h | h | h
      · exact not_mem_toString rfl h
      · cases h
      · exact not_mem_toString rfl h
    have hitem := plainItem_range ⟨hfirst, hle, hlast⟩
    refine plain_means (plainItems_single hcomma (htext ▸ hitem)) ?_ ?_
    · rw [htext]
      exact toString_ne_star a _
    · intro v
      simp only [List.mem_singleton, exists_eq_left]
  pair := by
    intro f a b hfirst hlast hfirst' hlast'
    have htext : (toString a ++ "," ++ toString b).toList =
        (toString a).toList ++ ',' :: (toString b).toList := by
      rw [String.toList_append, String.toList_append, List.append_assoc]
      rfl
    have hitems : plainItems f (toString a ++ "," ++ toString b) = some [(a, a), (b, b)] := by
      unfold plainItems
      rw [htext, List.splitOn_append_cons_self_of_not_mem (not_mem_toString rfl),
        List.splitOn_eq_singleton (not_mem_toString rfl), List.mapM_cons,
        plainItem_number ⟨hfirst, hlast⟩, List.mapM_cons, plainItem_number ⟨hfirst', hlast'⟩]
      rfl
    refine plain_means hitems ?_ ?_
    · rw [htext]
      exact toString_ne_star a _
    · intro v
      simp only [List.mem_cons, List.not_mem_nil, or_false, exists_eq_or_imp, exists_eq_left]
      omega

/-- A croner of a syntax; it finds no occurrences. -/
def syntaxCroner (S : FieldSyntax) [∀ p : Pattern, Decidable (p.Valid S)] (ζ : Type) : Croner ζ where
  Cron := Pattern
  parse := fun expr =>
    match Pattern.read expr with
    | some p => if p.Valid S then .ok p else .error "invalid field"
    | none => .error "invalid pattern"
  findNextOccurrence := fun _ _ _ => .error "not searched"

/-- The instants at which a pattern fires. -/
def syntaxFires (S : FieldSyntax) {ζ : Type} (clock : ζ → Int → LocalTime) (p : Pattern) (tz : ζ)
    (o : Int) : Prop := 1000000000 ∣ o ∧ p.Matches S (clock tz o)

theorem syntaxCroner_reads (S : FieldSyntax) [∀ p : Pattern, Decidable (p.Valid S)] {ζ : Type}
    (clock : ζ → Int → LocalTime) :
    (syntaxCroner S ζ).Reads (syntaxFires S clock) S clock where
  parse := by
    intro expr p hp
    unfold syntaxCroner
    simp only [hp]
    constructor
    · intro h
      obtain ⟨cron, hcron⟩ := h
      split at hcron
      · assumption
      · cases hcron
    · intro h
      exact ⟨p, if_pos h⟩
  fires := by
    intro expr p cron hp hcron tz o
    unfold syntaxCroner at hcron
    simp only [hp] at hcron
    split at hcron
    · rw [← Except.ok.inj hcron]
      rfl
    · cases hcron

/-- A croner of the patterns of `plain`. -/
def plainCroner (ζ : Type) : Croner ζ := syntaxCroner plain ζ

/-- The instants at which a pattern of `plain` fires. -/
def plainFires {ζ : Type} (clock : ζ → Int → LocalTime) (p : Pattern) (tz : ζ) (o : Int) : Prop :=
  syntaxFires plain clock p tz o

theorem plainCroner_reads {ζ : Type} (clock : ζ → Int → LocalTime) :
    (plainCroner ζ).Reads (plainFires clock) plain clock := syntaxCroner_reads plain clock

/-- What a clock on UTC shows at an instant, in nanoseconds since the epoch.  The
day is found in eras of 400 years that begin with March. -/
def utcClock (o : Int) : LocalTime :=
  let seconds := o / 1000000000
  let days := seconds / 86400
  let shifted := days + 719468
  let dayOfEra := (shifted % 146097).toNat
  let yearOfEra := (dayOfEra - dayOfEra / 1460 + dayOfEra / 36524 - dayOfEra / 146096) / 365
  let dayOfYear := dayOfEra - (365 * yearOfEra + yearOfEra / 4 - yearOfEra / 100)
  let month := (5 * dayOfYear + 2) / 153
  { second := Fin.ofNat 60 (seconds % 60).toNat
    minute := Fin.ofNat 60 (seconds / 60 % 60).toNat
    hour := Fin.ofNat 24 (seconds / 3600 % 24).toNat
    day := Fin.ofNat 31 (dayOfYear - (153 * month + 2) / 5)
    month := Fin.ofNat 12 (month + 2)
    year := shifted / 146097 * 400 + yearOfEra + (if month ≥ 10 then 1 else 0)
    weekday := Fin.ofNat 7 ((days + 4) % 7).toNat }

/-- The zone's clock is always ahead of, or behind, the one on UTC by the same time. -/
def ConstantOffset {ζ : Type} (clock : ζ → Int → LocalTime) (tz : ζ) : Prop :=
  ∃ offset : Int, ∀ o, clock tz o = utcClock (o + offset)

/-- The last second of 29 February 2024, a Thursday. -/
example : utcClock (1709251199 * 1000000000) = ⟨59, 59, 23, 28, 1, 2024, 4⟩ := by decide

end Kolas.Schedule

import Kolas.Schedule.Builder
import Kolas.Schedule.Cron

/-!
# Day filters and hour ranges

`apply_modifiers` of `schedule/event.rs` writes the hour range and the day filter
over the fields of a pattern for the hour and for the day of the week, when the
pattern has six fields, and leaves any other pattern as it is.

* `splitWhitespace_applyModifiers`: the fields of the pattern it composes.
* `Event.occurs_modified`: so the event fires when its pattern, with the hour left
  open if there is a range, fires and the filter and the range allow it, provided
  that a day filter finds the fields for the day open.
-/

namespace Kolas.Schedule

open Kolas.Lib

/-! ### The fields of a composed pattern -/

theorem isWhitespace_of_isDigit {c : Char} (h : c.isDigit = true) : isWhitespace c = false := by
  have hrange : 48 ≤ c.toNat ∧ c.toNat ≤ 57 := by
    simpa [Char.isDigit, UInt32.le_iff_toNat_le] using h
  simp [isWhitespace]
  omega

theorem isWord_toString (n : Nat) : IsWord isWhitespace (toString n).toList :=
  ⟨toString_toList_ne_nil n, fun _ hc => isWhitespace_of_isDigit (isDigit_toString hc)⟩

theorem isWord_text {s : String} (h : s ≠ "" ∧ s.toList.all (!isWhitespace ·) = true) :
    IsWord isWhitespace s.toList := by
  refine ⟨fun hnil => h.1 (String.toList_eq_nil_iff.mp hnil), ?_⟩
  intro c hc
  simpa using List.all_eq_true.mp h.2 c hc

theorem isWord_of_mem_splitWhitespace {s w : String} (h : w ∈ splitWhitespace s) :
    IsWord isWhitespace w.toList := by
  obtain ⟨v, hv, rfl⟩ := List.mem_map.mp h
  rw [String.toList_ofList]
  exact mem_words hv

/-- **Words joined with blanks are found again.** -/
theorem splitWhitespace_join {ws : List String} (h : ∀ w ∈ ws, IsWord isWhitespace w.toList) :
    splitWhitespace (" ".intercalate ws) = ws := by
  have hwords : words isWhitespace (" ".intercalate ws).toList = ws.map String.toList := by
    rw [String.toList_intercalate]
    refine words_intercalate (by decide) ?_
    intro w hw
    obtain ⟨v, hv, rfl⟩ := List.mem_map.mp hw
    exact h v hv
  show (words isWhitespace (" ".intercalate ws).toList).map String.ofList = ws
  rw [hwords, List.map_map]
  exact (List.map_congr_left fun w _ => String.ofList_toList).trans (List.map_id ws)

theorem DowFilter.isWord_field (filter : DowFilter) : IsWord isWhitespace filter.field.toList := by
  cases filter with
  | weekdays => exact isWord_text (by decide)
  | weekends => exact isWord_text (by decide)
  | single day => exact isWord_toString _

/-- The text of an hour range. -/
def hourRange (first last : Nat) : String := toString first ++ "-" ++ toString last

theorem isWord_hourRange (first last : Nat) : IsWord isWhitespace (hourRange first last).toList := by
  unfold hourRange
  rw [String.toList_append, String.toList_append]
  exact isWord_append (isWord_append (isWord_toString first) (isWord_text (by decide)))
    (isWord_toString last)

variable {ζ φ : Type}

/-- The fields that `apply_modifiers` writes over those of a pattern. -/
def Event.modify (e : Event ζ φ) (p : Pattern) : Pattern where
  second := p.second
  minute := p.minute
  hour := (e.between.map fun (first, last) => hourRange first last).getD p.hour
  day := p.day
  month := p.month
  weekday := (e.dowFilter.map DowFilter.field).getD p.weekday

/-- The six texts. -/
def Pattern.fields (p : Pattern) : List String :=
  [p.second, p.minute, p.hour, p.day, p.month, p.weekday]

theorem Event.isWord_modify (e : Event ζ φ) {p : Pattern}
    (hp : ∀ w ∈ p.fields, IsWord isWhitespace w.toList) :
    ∀ w ∈ (e.modify p).fields, IsWord isWhitespace w.toList := by
  have hhour : IsWord isWhitespace (e.modify p).hour.toList := by
    unfold modify
    cases e.between with
    | none => exact hp p.hour (by simp [Pattern.fields])
    | some range => exact isWord_hourRange range.1 range.2
  have hweekday : IsWord isWhitespace (e.modify p).weekday.toList := by
    unfold modify
    cases e.dowFilter with
    | none => exact hp p.weekday (by simp [Pattern.fields])
    | some filter => exact filter.isWord_field
  intro w hw
  simp only [Pattern.fields, List.mem_cons, List.not_mem_nil, or_false] at hw
  rcases hw with rfl | rfl | rfl | rfl | rfl | rfl
  · exact hp p.second (by simp [Pattern.fields])
  · exact hp p.minute (by simp [Pattern.fields])
  · exact hhour
  · exact hp p.day (by simp [Pattern.fields])
  · exact hp p.month (by simp [Pattern.fields])
  · exact hweekday

theorem Event.applyModifiers_fields (e : Event ζ φ) {base : String} {p : Pattern}
    (hbase : splitWhitespace base = p.fields) :
    (e.modify p = p ∧ e.applyModifiers base = base) ∨
      e.applyModifiers base = " ".intercalate (e.modify p).fields := by
  have hlength : ¬ (splitWhitespace base).length ≠ 6 := by
    rw [hbase]
    exact fun h => h rfl
  unfold applyModifiers
  dsimp only
  rw [if_neg hlength, hbase]
  cases hdow : e.dowFilter with
  | none =>
    cases hbetween : e.between with
    | none =>
      refine Or.inl ⟨?_, rfl⟩
      simp [modify, hdow, hbetween]
    | some range =>
      refine Or.inr ?_
      simp [modify, hdow, hbetween, Pattern.fields, hourRange]
  | some filter =>
    refine Or.inr ?_
    cases hbetween : e.between with
    | none => simp [modify, hdow, hbetween, Pattern.fields]
    | some range => simp [modify, hdow, hbetween, Pattern.fields, hourRange]

/-- **The fields that `apply_modifiers` composes.** -/
theorem splitWhitespace_applyModifiers (e : Event ζ φ) {base : String} {p : Pattern}
    (hbase : splitWhitespace base = p.fields) :
    splitWhitespace (e.applyModifiers base) = (e.modify p).fields := by
  rcases e.applyModifiers_fields hbase with ⟨hsame, htext⟩ | htext
  · rw [htext, hsame, hbase]
  · rw [htext]
    exact splitWhitespace_join (e.isWord_modify fun w hw =>
      isWord_of_mem_splitWhitespace (hbase ▸ hw))

/-! ### When a modified event fires -/

/-- The days of the week a filter is for. -/
def DowFilter.Allows : DowFilter → Nat → Prop
  | .weekdays, v => 1 ≤ v ∧ v ≤ 5
  | .weekends, v => v = 0 ∨ v = 6
  | .single day, v => v = weekdayNum day

theorem DowFilter.means_field {S : FieldSyntax} (hS : S.Lawful) (filter : DowFilter) :
    S.Means .dayOfWeek filter.field filter.Allows := by
  cases filter with
  | weekdays => exact hS.range .dayOfWeek 1 5 (by decide) (by decide) (by decide)
  | weekends => exact hS.pair .dayOfWeek 0 6 (by decide) (by decide) (by decide) (by decide)
  | single day =>
    have hle : weekdayNum day ≤ 6 := by cases day <;> decide
    exact hS.number .dayOfWeek (weekdayNum day) (Nat.zero_le _) hle

namespace Event

/-- The event's filter and hour range allow the time. -/
structure Allows (e : Event ζ φ) (t : LocalTime) : Prop where
  day : ∀ filter, e.dowFilter = some filter → filter.Allows t.weekday
  hour : ∀ first last, e.between = some (first, last) → first ≤ t.hour.val ∧ t.hour.val ≤ last

/-- A day filter finds the two fields for the day open. -/
def DayOpen (e : Event ζ φ) (p : Pattern) : Prop :=
  e.dowFilter ≠ none → p.day = "*" ∧ p.weekday = "*"

/-- The pattern with its hour left open, if there is a range. -/
def openHour (e : Event ζ φ) (p : Pattern) : Pattern :=
  { p with hour := if e.between = none then p.hour else "*" }

/-- The event with its frequency alone. -/
def withoutModifiers (e : Event ζ φ) : Event ζ φ := { e with dowFilter := none, between := none }

variable {S : FieldSyntax} {e : Event ζ φ} {p : Pattern}

theorem modify_hour (hS : S.Lawful) (he : e.InRange) :
    (S.valid .hour (e.modify p).hour ↔ S.valid .hour (e.openHour p).hour) ∧
      ∀ t, S.admits .hour (e.modify p).hour t ↔ S.admits .hour (e.openHour p).hour t ∧
        ∀ first last, e.between = some (first, last) → first ≤ t.hour.val ∧ t.hour.val ≤ last := by
  cases hbetween : e.between with
  | none => simp [modify, openHour, hbetween]
  | some range =>
    obtain ⟨first, last⟩ := range
    obtain ⟨hle, hlast⟩ := he.between first last hbetween
    have hmeans : S.Means .hour (hourRange first last) fun v => first ≤ v ∧ v ≤ last :=
      hS.range .hour first last (Nat.zero_le _) hle hlast
    have hmodify : (e.modify p).hour = hourRange first last := by simp [modify, hbetween]
    have hopen : (e.openHour p).hour = "*" := by simp [openHour, hbetween]
    rw [hmodify, hopen]
    refine ⟨iff_of_true hmeans.valid (hS.anyValid .hour), ?_⟩
    intro t
    rw [hmeans.admits t]
    constructor
    · intro h
      refine ⟨hS.any .hour t, ?_⟩
      intro first' last' hrange
      obtain ⟨rfl, rfl⟩ := Prod.mk.inj (Option.some.inj hrange)
      exact h
    · exact fun h => h.2 first last rfl

theorem modify_day (hS : S.Lawful) (hopen : e.DayOpen p) :
    (S.valid .dayOfWeek (e.modify p).weekday ↔ S.valid .dayOfWeek p.weekday) ∧
      ∀ t, S.MatchesDay p.day (e.modify p).weekday t ↔ S.MatchesDay p.day p.weekday t ∧
        ∀ filter, e.dowFilter = some filter → filter.Allows t.weekday := by
  cases hdow : e.dowFilter with
  | none => simp [modify, hdow]
  | some filter =>
    obtain ⟨hday, hweekday⟩ := hopen (by simp [hdow])
    have hmeans := filter.means_field hS
    have hmodify : (e.modify p).weekday = filter.field := by simp [modify, hdow]
    rw [hmodify, hday, hweekday]
    refine ⟨iff_of_true hmeans.valid (hS.anyValid .dayOfWeek), ?_⟩
    intro t
    simp only [FieldSyntax.MatchesDay, hS.anyFree, false_and, not_false_eq_true, true_and,
      false_or, hS.any, and_true, Option.some.injEq, forall_eq']
    exact hmeans.admits t

theorem modify_fires (hS : S.Lawful) (he : e.InRange) (hopen : e.DayOpen p)
    (clock : ζ → Int → LocalTime) (tz : ζ) (o : Int) :
    (e.modify p).Fires S clock tz o ↔
      (e.openHour p).Fires S clock tz o ∧ e.Allows (clock tz o) := by
  obtain ⟨hvalidHour, hhour⟩ := modify_hour (p := p) hS he
  obtain ⟨hvalidDay, hday⟩ := modify_day hS hopen
  constructor
  · intro h
    obtain ⟨hvalid, ho, hmatches⟩ := h
    obtain ⟨hopenHour, hbetween⟩ := (hhour _).mp hmatches.hour
    obtain ⟨hopenDay, hdow⟩ := (hday _).mp hmatches.day
    exact ⟨⟨⟨hvalid.second, hvalid.minute, hvalidHour.mp hvalid.hour, hvalid.day, hvalid.month,
      hvalidDay.mp hvalid.weekday⟩, ho,
      ⟨hmatches.second, hmatches.minute, hopenHour, hmatches.month, hopenDay⟩⟩, ⟨hdow, hbetween⟩⟩
  · intro h
    obtain ⟨⟨hvalid, ho, hmatches⟩, hallows⟩ := h
    exact ⟨⟨hvalid.second, hvalid.minute, hvalidHour.mpr hvalid.hour, hvalid.day, hvalid.month,
      hvalidDay.mpr hvalid.weekday⟩, ho,
      ⟨hmatches.second, hmatches.minute, (hhour _).mpr ⟨hmatches.hour, hallows.hour⟩,
        hmatches.month, (hday _).mpr ⟨hmatches.day, hallows.day⟩⟩⟩

theorem applyModifiers_of_length (e : Event ζ φ) {base : String}
    (h : (splitWhitespace base).length ≠ 6) : e.applyModifiers base = base := by
  unfold applyModifiers
  dsimp only
  rw [if_pos h, ite_self]

theorem withoutModifiers_expression (h : e.error = none) :
    e.withoutModifiers.expression = .ok e.frequency.toCronExpr := by
  unfold expression withoutModifiers
  rw [h]
  rfl

theorem read_of_fields {expr : String} (h : splitWhitespace expr = p.fields) :
    Pattern.read expr = some p := by
  unfold Pattern.read
  rw [h]
  rfl

variable {C : Croner ζ} {fires : C.Cron → ζ → Int → Prop} {clock : ζ → Int → LocalTime}

/-- **When a modified event fires.**  A pattern that does not have six fields is not
modified.  One that has fires when it does with its hour left open under a range,
and the filter and the range allow it; this needs that a day filter finds the
fields for the day open. -/
theorem occurs_modified (hC : C.Reads fires S clock) (hS : S.Lawful)
    (parseTz : String → Option ζ) (task : ScheduledTask φ) (calls : List EventCall)
    (herror : ((Event.new task).configured parseTz calls).error = none) (tz : ζ) (o : Int) :
    let e : Event ζ φ := (Event.new task).configured parseTz calls
    let base := e.frequency.toCronExpr
    ((splitWhitespace base).length ≠ 6 →
      (e.Occurs C fires tz o ↔ e.withoutModifiers.Occurs C fires tz o)) ∧
    ∀ p : Pattern, splitWhitespace base = p.fields → e.DayOpen p →
      (e.Occurs C fires tz o ↔ (e.openHour p).Fires S clock (e.timezone.getD tz) o ∧
        e.Allows (clock (e.timezone.getD tz) o)) ∧
      (e.between = none ∨ p.hour = "*" →
        (e.Occurs C fires tz o ↔ e.withoutModifiers.Occurs C fires tz o ∧
          e.Allows (clock (e.timezone.getD tz) o))) := by
  intro e base
  have he : e.InRange := configured_inRange parseTz (new_inRange task) calls
  refine ⟨?_, ?_⟩
  · intro hlength
    have hexpr : e.expression = e.withoutModifiers.expression := by
      rw [withoutModifiers_expression herror, expression, herror]
      exact congrArg Except.ok (e.applyModifiers_of_length hlength)
    unfold Occurs buildCron
    rw [hexpr]
    rfl
  · intro p hp hopen
    have hfires : e.Occurs C fires tz o ↔ (e.openHour p).Fires S clock (e.timezone.getD tz) o ∧
        e.Allows (clock (e.timezone.getD tz) o) := by
      rw [occurs_iff hC herror (read_of_fields (splitWhitespace_applyModifiers e hp))]
      exact modify_fires hS he hopen clock _ o
    refine ⟨hfires, ?_⟩
    intro hhour
    have hsame : e.openHour p = p := by
      unfold openHour
      rcases hhour with hnone | hstar
      · rw [if_pos hnone]
      · rw [hstar, ite_self, ← hstar]
    have hbase : e.withoutModifiers.Occurs C fires tz o ↔
        p.Fires S clock (e.timezone.getD tz) o :=
      occurs_iff (e := e.withoutModifiers) hC herror (read_of_fields hp) tz o
    rw [hfires, hbase, hsame]

/-- The event of a chain of calls, without time zones. -/
def reportOf (calls : List EventCall) : Event Unit Unit :=
  (Event.new (.command "report" [])).configured (fun _ => none) calls

/-- The n-th hour after the epoch, a Thursday at midnight. -/
def hourAt (n : Int) : Int := n * 3600000000000

/-- Every hour from nine to five on weekdays, asked on the first Monday at ten. -/
theorem occurs_hourly :
    (reportOf [.hourly, .between "09:00" "17:00", .weekdays]).Occurs (plainCroner Unit)
        (plainFires fun _ => utcClock) () (hourAt 106) ↔
      (reportOf [.hourly, .between "09:00" "17:00", .weekdays]).withoutModifiers.Occurs
          (plainCroner Unit) (plainFires fun _ => utcClock) () (hourAt 106) ∧
        (reportOf [.hourly, .between "09:00" "17:00", .weekdays]).Allows (utcClock (hourAt 106)) :=
  ((occurs_modified (plainCroner_reads _) plain_lawful (fun _ => none) (.command "report" [])
    [.hourly, .between "09:00" "17:00", .weekdays] (by decide) () (hourAt 106)).2
    ⟨"0", "0", "*", "*", "*", "*"⟩ (by decide) (fun _ => ⟨rfl, rfl⟩)).2 (.inr rfl)

/-- A daily event in a range of hours fires in each of them, and a pattern of five
fields fires at weekends in spite of its filter. -/
theorem not_restricted :
    (¬ ((reportOf [.daily, .between "09:00" "17:00"]).Occurs (plainCroner Unit)
        (plainFires fun _ => utcClock) () (hourAt 10) ↔
      (reportOf [.daily, .between "09:00" "17:00"]).withoutModifiers.Occurs (plainCroner Unit)
        (plainFires fun _ => utcClock) () (hourAt 10) ∧
      (reportOf [.daily, .between "09:00" "17:00"]).Allows (utcClock (hourAt 10)))) ∧
    ¬ ((reportOf [.cron "0 9 * * *", .weekdays]).Occurs (plainCroner Unit)
        (plainFires fun _ => utcClock) () (hourAt 57) ↔
      (reportOf [.cron "0 9 * * *", .weekdays]).withoutModifiers.Occurs (plainCroner Unit)
        (plainFires fun _ => utcClock) () (hourAt 57) ∧
      (reportOf [.cron "0 9 * * *", .weekdays]).Allows (utcClock (hourAt 57))) := by
  constructor
  · have hfires := occurs_iff (e := reportOf [.daily, .between "09:00" "17:00"])
      (plainCroner_reads fun _ => utcClock) (by decide)
      (p := ⟨"0", "0", "9-17", "*", "*", "*"⟩) (by decide) () (hourAt 10)
    have hbase := occurs_iff (e := (reportOf [.daily, .between "09:00" "17:00"]).withoutModifiers)
      (plainCroner_reads fun _ => utcClock) (by decide)
      (p := ⟨"0", "0", "0", "*", "*", "*"⟩) (by decide) () (hourAt 10)
    rw [hfires, hbase]
    intro h
    have hnot : ¬ Pattern.Fires plain ⟨"0", "0", "0", "*", "*", "*"⟩ (fun _ : Unit => utcClock) ()
        (hourAt 10) := by decide
    exact hnot (h.mp (by decide)).1
  · have hfires := occurs_iff (e := reportOf [.cron "0 9 * * *", .weekdays])
      (plainCroner_reads fun _ => utcClock) (by decide)
      (p := ⟨"0", "0", "9", "*", "*", "*"⟩) (by decide) () (hourAt 57)
    rw [hfires]
    intro h
    have hallows : 1 ≤ (utcClock (hourAt 57)).weekday.val ∧
        (utcClock (hourAt 57)).weekday.val ≤ 5 := (h.mp (by decide)).2.day .weekdays (by decide)
    exact absurd hallows (by decide)

end Event

end Kolas.Schedule

import Kolas.Schedule.EveryMinutes
import Kolas.Schedule.Sticky

/-!
# What a schedule says

A chain of builder calls is a sentence, "on weekdays, hourly between 9 and 17", and
`to_cron_expr` and `apply_modifiers` compile it to a pattern.  A `Rule` is what the
sentence says, in terms of a clock: the values that the last calls allow for each field.

* `Frequency.pattern_spec`: the pattern of a frequency, field by field.
* `occurs_written`: **an event fires when its chain says so**, in a time zone of constant
  offset.  The last frequency, hour range and day filter count, in any order; a range takes the
  place of the frequency's own hour, a filter that of its day of the week, and a filter on top
  of a day of the month widens the rule.
-/

namespace Kolas.Schedule

open Kolas.Lib

/-- The values allowed for each field of a clock; `none` leaves the field open. -/
structure Rule where
  second : Option (Nat → Prop) := none
  minute : Option (Nat → Prop) := none
  hour : Option (Nat → Prop) := none
  day : Option (Nat → Prop) := none
  month : Option (Nat → Prop) := none
  weekday : Option (Nat → Prop) := none

/-- The values a field has at a time are among those allowed. -/
def Allowed (values : Option (Nat → Prop)) (f : Field) (t : LocalTime) : Prop :=
  ∀ p, values = some p → p (f.value t)

theorem allowed_none {f : Field} {t : LocalTime} : Allowed none f t := by
  intro p hp
  cases hp

theorem allowed_some {p : Nat → Prop} {f : Field} {t : LocalTime} :
    Allowed (some p) f t ↔ p (f.value t) := by
  simp [Allowed]

/-- Both the day of the month and that of the week are given: one of them is enough. -/
def Rule.DayHolds (r : Rule) (t : LocalTime) : Prop :=
  (r.day.isSome ∧ r.weekday.isSome ∧
    (Allowed r.day .dayOfMonth t ∨ Allowed r.weekday .dayOfWeek t)) ∨
  (¬ (r.day.isSome ∧ r.weekday.isSome) ∧
    Allowed r.day .dayOfMonth t ∧ Allowed r.weekday .dayOfWeek t)

/-- The clock shows a time that the rule allows. -/
structure Rule.Holds (r : Rule) (t : LocalTime) : Prop where
  second : Allowed r.second .second t
  minute : Allowed r.minute .minute t
  hour : Allowed r.hour .hour t
  month : Allowed r.month .month t
  day : r.DayHolds t

/-- Just the value `n`. -/
def exactly (n : Nat) : Option (Nat → Prop) := some fun v => v = n

/-- What a frequency says; a user's own pattern says what it says. -/
def Frequency.rule : Frequency → Option Rule
  | .raw expr =>
    if expr = "0 0,30 * * * *" then
      some { second := exactly 0, minute := some fun v => v = 0 ∨ v = 30 }
    else none
  | .everySecond => some {}
  | .everyMinutes n =>
    some { second := exactly 0, minute := if n = 1 then none else some fun v => n ∣ v }
  | .hourlyAt minute => some { second := exactly 0, minute := exactly minute }
  | .dailyAt hour minute =>
    some { second := exactly 0, minute := exactly minute, hour := exactly hour }
  | .twiceDaily first second =>
    some { second := exactly 0, minute := exactly 0,
           hour := some fun v => v = first ∨ v = second }
  | .weeklyOn day hour minute =>
    some { second := exactly 0, minute := exactly minute, hour := exactly hour,
           weekday := exactly (weekdayNum day) }
  | .monthlyOn day hour minute =>
    some { second := exactly 0, minute := exactly minute, hour := exactly hour, day := exactly day }
  | .quarterly =>
    some { second := exactly 0, minute := exactly 0, hour := exactly 0, day := exactly 1,
           month := some fun v => v ∈ [1, 4, 7, 10] }
  | .yearly =>
    some { second := exactly 0, minute := exactly 0, hour := exactly 0, day := exactly 1,
           month := exactly 1 }

/-- An hour range takes the place of the hour, a day filter that of the day of the week. -/
def Rule.narrowed (r : Rule) (between : Option (Nat × Nat)) (filter : Option DowFilter) : Rule :=
  { r with
    hour := (between.map fun (first, last) => fun v => first ≤ v ∧ v ≤ last).or r.hour
    weekday := (filter.map DowFilter.Allows).or r.weekday }

/-! ### Lists of numbers -/

/-- Numbers, joined with commas. -/
def numberList (ns : List Nat) : String := ",".intercalate (ns.map toString)

/-- The meaning of `a,b,c`. -/
structure FieldSyntax.Lists (S : FieldSyntax) : Prop where
  list : ∀ f (ns : List Nat), ns ≠ [] → (∀ n ∈ ns, f.first ≤ n ∧ n ≤ f.last) →
    S.Means f (numberList ns) fun v => v ∈ ns

theorem toList_numberList (ns : List Nat) :
    (numberList ns).toList = [','].intercalate (ns.map fun n => (toString n).toList) := by
  rw [numberList, String.toList_intercalate, List.map_map]
  rfl

/-- A list of numbers begins with one. -/
theorem numberList_eq {ns : List Nat} (hne : ns ≠ []) :
    ∃ n rest, numberList ns = toString (n : Nat) ++ rest := by
  cases ns with
  | nil => exact absurd rfl hne
  | cons n ns =>
    cases ns with
    | nil => exact ⟨n, "", by simp [numberList]⟩
    | cons m ns =>
      refine ⟨n, "," ++ numberList (m :: ns), ?_⟩
      rw [numberList, List.map_cons, List.map_cons, String.intercalate_cons_cons,
        String.append_assoc]
      rfl

theorem plainItems_list {f : Field} {ns : List Nat} (hne : ns ≠ [])
    (hrange : ∀ n ∈ ns, f.first ≤ n ∧ n ≤ f.last) :
    plainItems f (numberList ns) = some (ns.map fun n => (n, n)) := by
  unfold plainItems
  rw [toList_numberList, List.splitOn_intercalate]
  · clear hne
    induction ns with
    | nil => rfl
    | cons n ns ih =>
      rw [List.map_cons, List.mapM_cons, plainItem_number (hrange n List.mem_cons_self),
        ih fun m hm => hrange m (List.mem_cons_of_mem n hm)]
      rfl
  · intro l hl
    obtain ⟨n, -, rfl⟩ := List.mem_map.mp hl
    exact not_mem_toString rfl
  · simpa using hne

theorem plain_lists : plain.Lists where
  list := by
    intro f ns hne hrange
    obtain ⟨n, rest, htext⟩ := numberList_eq hne
    refine plain_means (plainItems_list hne hrange) ?_ ?_
    · rw [htext, String.toList_append]
      exact toString_ne_star n _
    · intro v
      simp only [List.mem_map, exists_exists_and_eq_and]
      constructor
      · exact fun hv => ⟨v, hv, le_rfl, le_rfl⟩
      · intro h
        obtain ⟨m, hm, hle, hge⟩ := h
        obtain rfl : v = m := by omega
        exact hm

theorem stepped_lists : stepped.Lists where
  list := by
    intro f ns hne hrange
    obtain ⟨n, rest, htext⟩ := numberList_eq hne
    refine stepped_means ?_ (plain_lists.list f ns hne hrange)
    rw [htext]
    exact stepOf_number n rest

/-! ### Patterns and rules -/

/-- The text means the values; `*` where they are open. -/
def FieldSyntax.Says (S : FieldSyntax) (f : Field) (text : String) :
    Option (Nat → Prop) → Prop
  | none => text = "*"
  | some p => S.Means f text p

/-- The pattern says what the rule does, field by field. -/
structure Pattern.Says (S : FieldSyntax) (p : Pattern) (r : Rule) : Prop where
  second : S.Says .second p.second r.second
  minute : S.Says .minute p.minute r.minute
  hour : S.Says .hour p.hour r.hour
  day : S.Says .dayOfMonth p.day r.day
  month : S.Says .month p.month r.month
  weekday : S.Says .dayOfWeek p.weekday r.weekday

section

variable {S : FieldSyntax} {f : Field} {text : String} {values : Option (Nat → Prop)}

theorem FieldSyntax.Says.valid (hS : S.Lawful) (h : S.Says f text values) : S.valid f text := by
  cases values with
  | none =>
    rw [show text = "*" from h]
    exact hS.anyValid f
  | some p => exact FieldSyntax.Means.valid h

theorem FieldSyntax.Says.restricts (hS : S.Lawful) (h : S.Says f text values) :
    S.restricts f text ↔ values.isSome := by
  cases values with
  | none =>
    rw [show text = "*" from h]
    exact iff_of_false (hS.anyFree f) (by simp)
  | some p => exact iff_of_true (FieldSyntax.Means.restricts h) rfl

theorem FieldSyntax.Says.admits (hS : S.Lawful) (h : S.Says f text values) (t : LocalTime) :
    S.admits f text t ↔ Allowed values f t := by
  cases values with
  | none =>
    rw [show text = "*" from h]
    exact iff_of_true (hS.any f t) allowed_none
  | some p =>
    rw [FieldSyntax.Means.admits h t]
    exact allowed_some.symm

theorem Pattern.Says.valid (hS : S.Lawful) {p : Pattern} {r : Rule} (h : p.Says S r) :
    p.Valid S := ⟨h.second.valid hS, h.minute.valid hS, h.hour.valid hS, h.day.valid hS,
  h.month.valid hS, h.weekday.valid hS⟩

/-- **A pattern matches the times that its rule allows.** -/
theorem Pattern.Says.fires (hS : S.Lawful) {p : Pattern} {r : Rule} (h : p.Says S r) {ζ : Type}
    (clock : ζ → Int → LocalTime) (tz : ζ) (o : Int) :
    p.Fires S clock tz o ↔ 1000000000 ∣ o ∧ r.Holds (clock tz o) := by
  have hvalid : p.Valid S := h.valid hS
  have hday : S.MatchesDay p.day p.weekday (clock tz o) ↔ r.DayHolds (clock tz o) := by
    unfold FieldSyntax.MatchesDay Rule.DayHolds
    rw [h.day.restricts hS, h.weekday.restricts hS, h.day.admits hS, h.weekday.admits hS]
  have hmatches : p.Matches S (clock tz o) ↔ r.Holds (clock tz o) := by
    constructor
    · intro g
      exact ⟨(h.second.admits hS _).mp g.second, (h.minute.admits hS _).mp g.minute,
        (h.hour.admits hS _).mp g.hour, (h.month.admits hS _).mp g.month, hday.mp g.day⟩
    · intro g
      exact ⟨(h.second.admits hS _).mpr g.second, (h.minute.admits hS _).mpr g.minute,
        (h.hour.admits hS _).mpr g.hour, (h.month.admits hS _).mpr g.month, hday.mpr g.day⟩
  unfold Pattern.Fires
  rw [hmatches]
  simp [hvalid]

/-- **What the modifiers write says what they mean.** -/
theorem Event.modify_says {ζ φ : Type} (hS : S.Lawful) {e : Event ζ φ} (he : e.InRange)
    {p : Pattern} {r : Rule} (h : p.Says S r) :
    (e.modify p).Says S (r.narrowed e.between e.dowFilter) := by
  refine ⟨h.second, h.minute, ?_, h.day, h.month, ?_⟩
  · cases hbetween : e.between with
    | none =>
      simp only [modify, Rule.narrowed, hbetween]
      exact h.hour
    | some range =>
      obtain ⟨first, last⟩ := range
      obtain ⟨hle, hlast⟩ := he.between first last hbetween
      simp only [modify, Rule.narrowed, hbetween]
      exact hS.range .hour first last (Nat.zero_le _) hle hlast
  · cases hdow : e.dowFilter with
    | none =>
      simp only [modify, Rule.narrowed, hdow]
      exact h.weekday
    | some filter =>
      simp only [modify, Rule.narrowed, hdow]
      exact filter.means_field hS

end

/-! ### The pattern of a frequency -/

/-- The pattern can be parsed: `*/n` is up to `croner`, everything else is plain. -/
def Frequency.Readable (S : FieldSyntax) : Frequency → Prop
  | .everyMinutes n => n = 1 ∨ S.valid .minute ("*/" ++ toString n)
  | _ => True

/-- A text made of words is split into them. -/
theorem fields_of_text {expr : String} {p : Pattern}
    (htext : expr.toList = (" ".intercalate p.fields).toList)
    (hwords : ∀ w ∈ p.fields, IsWord isWhitespace w.toList) : splitWhitespace expr = p.fields := by
  rw [String.toList_inj.mp htext]
  exact splitWhitespace_join hwords

theorem Pattern.words {p : Pattern} (second : IsWord isWhitespace p.second.toList)
    (minute : IsWord isWhitespace p.minute.toList) (hour : IsWord isWhitespace p.hour.toList)
    (day : IsWord isWhitespace p.day.toList) (month : IsWord isWhitespace p.month.toList)
    (weekday : IsWord isWhitespace p.weekday.toList) :
    ∀ w ∈ p.fields, IsWord isWhitespace w.toList := by
  simp only [Pattern.fields, List.forall_mem_cons, List.not_mem_nil, false_implies, implies_true,
    and_true]
  exact ⟨second, minute, hour, day, month, weekday⟩

theorem isWord_star : IsWord isWhitespace "*".toList := isWord_text (by decide)

theorem isWord_zero : IsWord isWhitespace "0".toList := isWord_text (by decide)

theorem isWord_pair (a b : Nat) :
    IsWord isWhitespace (toString a ++ "," ++ toString b).toList := by
  rw [String.toList_append, String.toList_append]
  exact isWord_append (isWord_append (isWord_toString a) (isWord_text (by decide)))
    (isWord_toString b)

/-- The fields of the pattern, where the source writes them. -/
def Frequency.pattern : Frequency → Option Pattern
  | .raw expr => if expr = "0 0,30 * * * *" then some ⟨"0", "0,30", "*", "*", "*", "*"⟩ else none
  | .everySecond => some ⟨"*", "*", "*", "*", "*", "*"⟩
  | .everyMinutes n => some (everyMinutesPattern n)
  | .hourlyAt minute => some ⟨"0", toString minute, "*", "*", "*", "*"⟩
  | .dailyAt hour minute => some ⟨"0", toString minute, toString hour, "*", "*", "*"⟩
  | .twiceDaily first second =>
    some ⟨"0", "0", toString first ++ "," ++ toString second, "*", "*", "*"⟩
  | .weeklyOn day hour minute =>
    some ⟨"0", toString minute, toString hour, "*", "*", toString (weekdayNum day)⟩
  | .monthlyOn day hour minute =>
    some ⟨"0", toString minute, toString hour, toString day, "*", "*"⟩
  | .quarterly => some ⟨"0", "0", "0", "1", "1,4,7,10", "*"⟩
  | .yearly => some ⟨"0", "0", "0", "1", "1", "*"⟩

theorem Frequency.splitWhitespace_toCronExpr {f : Frequency} {p : Pattern}
    (hp : f.pattern = some p) : splitWhitespace f.toCronExpr = p.fields := by
  have hminute (n : Nat) : IsWord isWhitespace (minuteField n).toList := by
    unfold minuteField
    split
    · exact isWord_star
    · rw [String.toList_append]
      exact isWord_append (isWord_text (by decide)) (isWord_toString n)
  cases f with
  | raw expr =>
    simp only [pattern, Option.ite_none_right_eq_some, Option.some.injEq] at hp
    obtain ⟨rfl, rfl⟩ := hp
    decide
  | everySecond =>
    obtain rfl := Option.some.inj hp
    decide
  | everyMinutes n =>
    obtain rfl := Option.some.inj hp
    refine fields_of_text ?_ ?_
    · unfold toCronExpr everyMinutesPattern minuteField
      by_cases hn : n = 1
      · simp [hn, Pattern.fields]
      · simp [hn, Pattern.fields]
    · exact Pattern.words isWord_zero (hminute n) isWord_star isWord_star isWord_star isWord_star
  | hourlyAt minute =>
    obtain rfl := Option.some.inj hp
    refine fields_of_text (by simp [toCronExpr, Pattern.fields]) ?_
    exact Pattern.words isWord_zero (isWord_toString minute) isWord_star isWord_star
      isWord_star isWord_star
  | dailyAt hour minute =>
    obtain rfl := Option.some.inj hp
    refine fields_of_text (by simp [toCronExpr, Pattern.fields]) ?_
    exact Pattern.words isWord_zero (isWord_toString minute) (isWord_toString hour) isWord_star
      isWord_star isWord_star
  | twiceDaily first second =>
    obtain rfl := Option.some.inj hp
    refine fields_of_text (by simp [toCronExpr, Pattern.fields]) ?_
    exact Pattern.words isWord_zero isWord_zero (isWord_pair first second) isWord_star
      isWord_star isWord_star
  | weeklyOn day hour minute =>
    obtain rfl := Option.some.inj hp
    refine fields_of_text (by simp [toCronExpr, Pattern.fields]) ?_
    exact Pattern.words isWord_zero (isWord_toString minute) (isWord_toString hour) isWord_star
      isWord_star (isWord_toString _)
  | monthlyOn day hour minute =>
    obtain rfl := Option.some.inj hp
    refine fields_of_text (by simp [toCronExpr, Pattern.fields]) ?_
    exact Pattern.words isWord_zero (isWord_toString minute) (isWord_toString hour) (isWord_toString day)
      isWord_star isWord_star
  | quarterly =>
    obtain rfl := Option.some.inj hp
    decide
  | yearly =>
    obtain rfl := Option.some.inj hp
    decide

theorem Frequency.pattern_of_rule {f : Frequency} {r : Rule} (hr : f.rule = some r) :
    ∃ p, f.pattern = some p := by
  cases f with
  | raw expr =>
    by_cases hexpr : expr = "0 0,30 * * * *"
    · exact ⟨_, if_pos hexpr⟩
    · simp [rule, hexpr] at hr
  | _ => exact ⟨_, rfl⟩

section

variable {S : FieldSyntax}

theorem says_number (hS : S.Lawful) {f : Field} {n : Nat} (hfirst : f.first ≤ n)
    (hlast : n ≤ f.last) : S.Says f (toString n) (exactly n) := hS.number f n hfirst hlast

theorem weekdayNum_le (day : Weekday) : weekdayNum day ≤ 6 := by
  cases day <;> decide

/-- **The pattern of a frequency says what the frequency does**, if it can be parsed. -/
theorem Frequency.pattern_spec (hS : S.Lawful) (hsteps : S.Steps) (hlists : S.Lists) {f : Frequency}
    (hf : f.InRange) {r : Rule} (hr : f.rule = some r) {p : Pattern} (hp : f.pattern = some p)
    (hread : f.Readable S) : p.Says S r := by
  have hzero {g : Field} (hg : g.first = 0) : S.Says g "0" (exactly 0) :=
    says_number hS (n := 0) (Nat.le_of_eq hg) (Nat.zero_le _)
  cases f with
  | raw expr =>
    simp only [pattern, rule, Option.ite_none_right_eq_some, Option.some.injEq] at hp hr
    obtain ⟨-, rfl⟩ := hp
    obtain ⟨-, rfl⟩ := hr
    have hminute : S.Means .minute "0,30" fun v => v = 0 ∨ v = 30 :=
      hS.pair .minute 0 30 (by decide) (by decide) (by decide) (by decide)
    exact ⟨hzero rfl, hminute, rfl, rfl, rfl, rfl⟩
  | everySecond =>
    obtain rfl := Option.some.inj hp
    obtain rfl := Option.some.inj hr
    exact ⟨rfl, rfl, rfl, rfl, rfl, rfl⟩
  | everyMinutes n =>
    obtain rfl := Option.some.inj hp
    obtain rfl := Option.some.inj hr
    refine ⟨hzero rfl, ?_, rfl, rfl, rfl, rfl⟩
    unfold everyMinutesPattern minuteField
    by_cases hn : n = 1
    · simp only [hn, if_true]
      rfl
    · simp only [hn, if_false]
      exact (hsteps.step n (hread.resolve_left hn)).2
  | hourlyAt minute =>
    obtain rfl := Option.some.inj hp
    obtain rfl := Option.some.inj hr
    exact ⟨hzero rfl, says_number hS (Nat.zero_le _) hf, rfl, rfl, rfl, rfl⟩
  | dailyAt hour minute =>
    obtain rfl := Option.some.inj hp
    obtain rfl := Option.some.inj hr
    obtain ⟨hhour, hminute⟩ := hf
    exact ⟨hzero rfl, says_number hS (Nat.zero_le _) hminute, says_number hS (Nat.zero_le _) hhour,
      rfl, rfl, rfl⟩
  | twiceDaily first second =>
    obtain rfl := Option.some.inj hp
    obtain rfl := Option.some.inj hr
    obtain ⟨hfirst, hsecond⟩ := hf
    exact ⟨hzero rfl, hzero rfl,
      hS.pair .hour first second (Nat.zero_le _) hfirst (Nat.zero_le _) hsecond, rfl, rfl, rfl⟩
  | weeklyOn day hour minute =>
    obtain rfl := Option.some.inj hp
    obtain rfl := Option.some.inj hr
    obtain ⟨hhour, hminute⟩ := hf
    exact ⟨hzero rfl, says_number hS (Nat.zero_le _) hminute, says_number hS (Nat.zero_le _) hhour,
      rfl, rfl, says_number hS (Nat.zero_le _) (weekdayNum_le day)⟩
  | monthlyOn day hour minute =>
    obtain rfl := Option.some.inj hp
    obtain rfl := Option.some.inj hr
    obtain ⟨hfirst, hlast, hhour, hminute⟩ := hf
    exact ⟨hzero rfl, says_number hS (Nat.zero_le _) hminute, says_number hS (Nat.zero_le _) hhour,
      says_number hS hfirst hlast, rfl, rfl⟩
  | quarterly =>
    obtain rfl := Option.some.inj hp
    obtain rfl := Option.some.inj hr
    have hmonths : S.Says .month "1,4,7,10" (some fun v => v ∈ [1, 4, 7, 10]) :=
      hlists.list .month [1, 4, 7, 10] (by decide) (by decide)
    exact ⟨hzero rfl, hzero rfl, hzero rfl, says_number hS (n := 1) (by decide) (by decide),
      hmonths, rfl⟩
  | yearly =>
    obtain rfl := Option.some.inj hp
    obtain rfl := Option.some.inj hr
    exact ⟨hzero rfl, hzero rfl, hzero rfl, says_number hS (n := 1) (by decide) (by decide),
      says_number hS (n := 1) (by decide) (by decide), rfl⟩

/-- A pattern that cannot be parsed is not valid. -/
theorem Frequency.readable_of_valid {f : Frequency} {p : Pattern}
    (hp : f.pattern = some p) (hvalid : S.valid .minute p.minute) : f.Readable S := by
  cases f with
  | everyMinutes n =>
    obtain rfl := Option.some.inj hp
    by_cases hn : n = 1
    · exact Or.inl hn
    · refine Or.inr ?_
      simpa [everyMinutesPattern, minuteField, hn] using hvalid
  | _ => trivial

end

/-! ### Chains of calls -/

section

variable {ζ φ : Type} {C : Croner ζ} {fires : C.Cron → ζ → Int → Prop} {S : FieldSyntax}
  {clock : ζ → Int → LocalTime}

/-- What a chain of valid calls says. -/
def chainFrequency (parseTz : String → Option ζ) (calls : List EventCall) : Frequency :=
  (lastSetting parseTz calls Settings.frequency).getD (.everyMinutes 1)

def chainRule (parseTz : String → Option ζ) (calls : List EventCall) : Option Rule :=
  (chainFrequency parseTz calls).rule.map fun r =>
    r.narrowed (lastSetting parseTz calls Settings.between)
      (lastSetting parseTz calls Settings.dowFilter)

/-- **An event fires when its chain says so.**  The chain's calls are valid and its last
frequency is one of the builder's; then the event compiles when `croner` accepts the
frequency's step.  In the last time zone, or the schedule's, it fires at the whole seconds at
which the zone's clock shows a time that the rule allows, if the zone's offset is constant. -/
theorem occurs_written (hC : C.ReadsIn fires S clock (ConstantOffset clock)) (hS : S.Lawful)
    (hsteps : S.Steps) (hlists : S.Lists) {parseTz : String → Option ζ} (task : ScheduledTask φ)
    {calls : List EventCall} (hvalid : ∀ call ∈ calls, call.error parseTz = none) {r : Rule}
    (hr : chainRule parseTz calls = some r) :
    ((∃ cron, ((Event.new task).configured parseTz calls).buildCron C = .ok cron) ↔
      (chainFrequency parseTz calls).Readable S) ∧
    ∀ tz, ConstantOffset clock ((lastSetting parseTz calls Settings.timezone).getD tz) →
      ∀ o, ((Event.new task).configured parseTz calls).Occurs C fires tz o ↔
        (chainFrequency parseTz calls).Readable S ∧ 1000000000 ∣ o ∧
          r.Holds (clock ((lastSetting parseTz calls Settings.timezone).getD tz) o) := by
  obtain ⟨base, hbase, rfl⟩ := Option.map_eq_some_iff.mp hr
  obtain ⟨p, hp⟩ := Frequency.pattern_of_rule hbase
  set e : Event ζ φ := (Event.new task).configured parseTz calls with he
  have hrange : e.InRange := Event.configured_inRange parseTz (Event.new_inRange task) calls
  have herror : e.error = none := by
    rw [he, configured_error, List.findSome?_eq_none_iff.mpr hvalid]
    rfl
  have hfrequency : e.frequency = chainFrequency parseTz calls := configured_frequency ..
  have hdow : e.dowFilter = lastSetting parseTz calls Settings.dowFilter := by
    rw [he, configured_setting parseTz _ Event.dowFilter fun _ _ _ => rfl]
    exact Option.or_none
  have hbetween : e.between = lastSetting parseTz calls Settings.between := by
    rw [he, configured_setting parseTz _ Event.between fun _ _ _ => rfl]
    exact Option.or_none
  have hzone : e.timezone = lastSetting parseTz calls Settings.timezone := by
    rw [he, configured_setting parseTz _ Event.timezone fun _ _ _ => rfl]
    exact Option.or_none
  rw [← hfrequency] at hbase hp ⊢
  rw [← hdow, ← hbetween, ← hzone]
  have hread : Pattern.read (e.applyModifiers e.frequency.toCronExpr) = some (e.modify p) :=
    Event.read_of_fields (splitWhitespace_applyModifiers e (Frequency.splitWhitespace_toCronExpr hp))
  have hspec : e.frequency.Readable S →
      (e.modify p).Says S (base.narrowed e.between e.dowFilter) := fun hreadable =>
    Event.modify_says hS hrange
      (Frequency.pattern_spec hS hsteps hlists hrange.frequency hbase hp hreadable)
  have hreadable : (e.modify p).Valid S → e.frequency.Readable S := fun h =>
    Frequency.readable_of_valid hp h.minute
  refine ⟨⟨?_, ?_⟩, ?_⟩
  · exact fun h => hreadable (Event.valid_of_buildCron hC hread h)
  · intro h
    obtain ⟨cron, hparse⟩ := (hC.parse hread).mpr ((hspec h).valid hS)
    refine ⟨cron, ?_⟩
    unfold Event.buildCron Event.expression
    simp [herror, hparse]
  · intro tz htz o
    rw [Event.occurs_iff_in hC herror hread htz]
    constructor
    · intro h
      have hr := hreadable h.1
      exact ⟨hr, ((hspec hr).fires hS clock _ o).mp h⟩
    · intro h
      exact ((hspec h.1).fires hS clock _ o).mpr h.2

/-- On weekdays, hourly from nine to five, at Monday's tenth hour. -/
def officeHours : List EventCall := [.weekdays, .between "09:00" "17:30", .hourly]

theorem occurs_officeHours :
    (Event.reportOf officeHours).Occurs (syntaxCroner stepped Unit)
      (syntaxFires stepped fun _ => utcClock) () (Event.hourAt 106) := by
  have hvalid : ∀ call ∈ officeHours, call.error (fun _ => (none : Option Unit)) = none := by
    decide
  have hutc : ConstantOffset (fun _ : Unit => utcClock) () :=
    ⟨0, fun o => congrArg utcClock (Int.add_zero o).symm⟩
  refine ((occurs_written ((syntaxCroner_reads stepped fun _ => utcClock).readsIn _) stepped_lawful
    stepped_steps stepped_lists (.command "report" []) hvalid rfl).2
    () hutc (Event.hourAt 106)).mpr ⟨trivial, by decide, ?_⟩
  have hhour : 9 ≤ (utcClock (Event.hourAt 106)).hour.val ∧
      (utcClock (Event.hourAt 106)).hour.val ≤ 17 := by decide
  have hday : 1 ≤ (utcClock (Event.hourAt 106)).weekday.val ∧
      (utcClock (Event.hourAt 106)).weekday.val ≤ 5 := by decide
  have hfull : (utcClock (Event.hourAt 106)).second.val = 0 ∧
      (utcClock (Event.hourAt 106)).minute.val = 0 := by decide
  refine ⟨allowed_some.mpr hfull.1, allowed_some.mpr hfull.2, allowed_some.mpr hhour,
    allowed_none, Or.inr ⟨?_, allowed_none, allowed_some.mpr hday⟩⟩
  intro h
  cases h.1

end

end Kolas.Schedule

import Kolas.Schedule.Modifiers

/-!
# Every n minutes

`every_minutes(n)` of `schedule/event.rs` is the pattern `0 */n * * * *`, whose step
begins anew with each hour.  `croner` is assumed to read `*/n` as it is documented, and to
reject a step it cannot honour (`FieldSyntax.Steps`).

* `occurs_everyMinutes_iff`: when such an event fires.
* `everyMinutes_apart_iff`: its occurrences are n minutes apart exactly when n divides 60.
* `stepped` is a syntax with such steps.
-/

namespace Kolas.Schedule

open Kolas.Lib

variable {ζ φ : Type}

/-- The meaning of `*/n` in the field for the minute. -/
structure FieldSyntax.Steps (S : FieldSyntax) : Prop where
  step : ∀ n : Nat, S.valid .minute ("*/" ++ toString n) →
    0 < n ∧ S.Means .minute ("*/" ++ toString n) fun v => n ∣ v

/-- Two occurrences, and none between them. -/
structure Event.Consecutive (C : Croner ζ) (fires : C.Cron → ζ → Int → Prop) (e : Event ζ φ)
    (tz : ζ) (o o' : Int) : Prop where
  earlier : e.Occurs C fires tz o
  later : e.Occurs C fires tz o'
  lt : o < o'
  neighbours : ∀ between, o < between → between < o' → ¬ e.Occurs C fires tz between

/-- Any two consecutive occurrences are n minutes apart. -/
def Event.ApartBy (C : Croner ζ) (fires : C.Cron → ζ → Int → Prop) (e : Event ζ φ) (tz : ζ)
    (n : Nat) : Prop := ∀ o o', e.Consecutive C fires tz o o' → o' = o + n * minute

/-- The field for the minute. -/
def minuteField (n : Nat) : String := if n = 1 then "*" else "*/" ++ toString n

def everyMinutesPattern (n : Nat) : Pattern := ⟨"0", minuteField n, "*", "*", "*", "*"⟩

theorem read_everyMinutes (n : Nat) :
    Pattern.read (Frequency.everyMinutes n).toCronExpr = some (everyMinutesPattern n) := by
  have hexpr : (Frequency.everyMinutes n).toCronExpr.toList =
      (" ".intercalate (everyMinutesPattern n).fields).toList := by
    unfold Frequency.toCronExpr everyMinutesPattern minuteField
    by_cases hn : n = 1
    · simp [hn, Pattern.fields]
    · simp [hn, Pattern.fields]
  have hminute : IsWord isWhitespace (minuteField n).toList := by
    unfold minuteField
    split
    · exact isWord_text (by decide)
    · rw [String.toList_append]
      exact isWord_append (isWord_text (by decide)) (isWord_toString n)
  have hany : IsWord isWhitespace "*".toList := isWord_text (by decide)
  refine Event.read_of_fields ?_
  rw [String.toList_inj.mp hexpr]
  refine splitWhitespace_join ?_
  simp only [Pattern.fields, everyMinutesPattern, List.forall_mem_cons, List.not_mem_nil,
    false_implies, implies_true, and_true]
  exact ⟨isWord_text (by decide), hminute, hany, hany, hany, hany⟩

theorem utcClock_second (o : Int) : ((utcClock o).second.val : Int) = o / 1000000000 % 60 := by
  show ((o / 1000000000 % 60).toNat % 60 : Nat) = o / 1000000000 % 60
  omega

theorem utcClock_minute (o : Int) :
    ((utcClock o).minute.val : Int) = o / 1000000000 / 60 % 60 := by
  show ((o / 1000000000 / 60 % 60).toNat % 60 : Nat) = o / 1000000000 / 60 % 60
  omega

section

variable {C : Croner ζ} {fires : C.Cron → ζ → Int → Prop} {S : FieldSyntax}
  {clock : ζ → Int → LocalTime} {zones : ζ → Prop} {utc : ζ} {n : Nat}

/-- An event that compiles has a valid pattern. -/
theorem Event.valid_of_buildCron (hC : C.ReadsIn fires S clock zones) {e : Event ζ φ} {p : Pattern}
    (hp : Pattern.read (e.applyModifiers e.frequency.toCronExpr) = some p)
    (h : ∃ cron, e.buildCron C = .ok cron) : p.Valid S := by
  obtain ⟨cron, hcron⟩ := h
  refine (hC.parse hp).mp ?_
  unfold buildCron expression at hcron
  cases herror : e.error with
  | some err => simp [herror] at hcron
  | none =>
    rw [herror] at hcron
    cases hparse : C.parse (e.applyModifiers e.frequency.toCronExpr) with
    | ok cron' => exact ⟨cron', rfl⟩
    | error message => simp [hparse] at hcron

/-- What a valid field for the minute means. -/
theorem minuteField_means (hS : S.Lawful) (hsteps : S.Steps)
    (hvalid : S.valid .minute (minuteField n)) :
    0 < n ∧ ∀ t, S.admits .minute (minuteField n) t ↔ n ∣ Field.minute.value t := by
  unfold minuteField at *
  by_cases hn : n = 1
  · rw [if_pos hn, hn]
    exact ⟨Nat.zero_lt_one, fun t => iff_of_true (hS.any .minute t) (Nat.one_dvd _)⟩
  · rw [if_neg hn] at hvalid ⊢
    obtain ⟨hpos, hmeans⟩ := hsteps.step n hvalid
    exact ⟨hpos, hmeans.admits⟩

/-- The pattern matches the first second of each minute that n divides. -/
theorem everyMinutesPattern_matches (hS : S.Lawful)
    (hminute : ∀ t, S.admits .minute (minuteField n) t ↔ n ∣ Field.minute.value t) (o : Int) :
    (everyMinutesPattern n).Matches S (utcClock o) ↔
      (utcClock o).second.val = 0 ∧ (n : Int) ∣ o / 1000000000 / 60 % 60 := by
  have hday : S.MatchesDay "*" "*" (utcClock o) :=
    .inr ⟨fun h => hS.anyFree .dayOfMonth h.1, hS.any .dayOfMonth _, hS.any .dayOfWeek _⟩
  have hsecond : S.admits .second "0" (utcClock o) ↔ (utcClock o).second.val = 0 :=
    (hS.number .second 0 (by decide) (by decide)).admits _
  have hfield : n ∣ Field.minute.value (utcClock o) ↔ (n : Int) ∣ o / 1000000000 / 60 % 60 := by
    rw [← utcClock_minute]
    exact Int.natCast_dvd_natCast.symm
  rw [← hsecond, ← hfield, ← hminute]
  exact ⟨fun h => ⟨h.second, h.minute⟩,
    fun h => ⟨h.1, h.2, hS.any .hour _, hS.any .month _, hday⟩⟩

/-- **When the event fires**: at the full minutes of each hour that n divides. -/
theorem occurs_everyMinutes_iff (hC : C.Reads fires S clock) (hS : S.Lawful) (hsteps : S.Steps)
    (hutc : clock utc = utcClock) (task : ScheduledTask φ)
    (hbuild : ∃ cron, ((Event.new task : Event ζ φ).everyMinutes n).buildCron C = .ok cron) :
    0 < n ∧ ∀ o, ((Event.new task : Event ζ φ).everyMinutes n).Occurs C fires utc o ↔
      ∃ k : Int, o = k * minute ∧ (n : Int) ∣ k % 60 := by
  have hread := read_everyMinutes n
  have hoccurs : ∀ o, ((Event.new task : Event ζ φ).everyMinutes n).Occurs C fires utc o ↔
      (everyMinutesPattern n).Fires S clock utc o := fun o =>
    Event.occurs_iff (e := (Event.new task : Event ζ φ).everyMinutes n) hC rfl hread utc o
  have hvalid : (everyMinutesPattern n).Valid S :=
    Event.valid_of_buildCron (e := (Event.new task : Event ζ φ).everyMinutes n)
      (hC.readsIn fun tz => tz = utc) hread hbuild
  obtain ⟨hpos, hminute⟩ := minuteField_means hS hsteps hvalid.minute
  refine ⟨hpos, ?_⟩
  intro o
  have hclock := utcClock_second o
  rw [hoccurs, Pattern.Fires, hutc, everyMinutesPattern_matches hS hminute]
  constructor
  · intro h
    obtain ⟨-, hwhole, hzero, hdvd⟩ := h
    refine ⟨o / 1000000000 / 60, ?_, hdvd⟩
    unfold minute
    omega
  · intro h
    obtain ⟨k, rfl, hdvd⟩ := h
    have hk : k * minute / 1000000000 / 60 = k := by
      unfold minute
      omega
    refine ⟨hvalid, ?_, ?_, ?_⟩
    · unfold minute
      omega
    · unfold minute at *
      omega
    · rw [hk]
      exact hdvd

/-- The last multiple of n in an hour. -/
theorem le_last_multiple {n k : Nat} (hdvd : n ∣ k) (hlt : k < 60) : k ≤ n * (59 / n) := by
  obtain ⟨q, rfl⟩ := hdvd
  by_cases hn : n = 0
  · simp [hn]
  · exact Nat.mul_le_mul_left n ((Nat.le_div_iff_mul_le (by omega)).mpr (by
      rw [Nat.mul_comm]
      omega))

/-- The last occurrence in an hour and the full hour are neighbours. -/
theorem consecutive_last {e : Event ζ φ}
    (hoccurs : ∀ o, e.Occurs C fires utc o ↔ ∃ k : Int, o = k * minute ∧ (n : Int) ∣ k % 60) :
    e.Consecutive C fires utc ((n * (59 / n) : Nat) * minute) (60 * minute) := by
  have hlast : n * (59 / n) ≤ 59 := Nat.mul_div_le 59 n
  refine ⟨?_, (hoccurs _).mpr ⟨60, rfl, Int.dvd_zero _⟩, ?_, ?_⟩
  · refine (hoccurs _).mpr ⟨_, rfl, ?_⟩
    rw [Int.emod_eq_of_lt (by omega) (by omega)]
    exact Int.natCast_dvd_natCast.mpr (Nat.dvd_mul_right n _)
  · unfold minute
    omega
  · intro o hlt hlt' ho
    obtain ⟨k, rfl, hdvd⟩ := (hoccurs o).mp ho
    have hk : ((n * (59 / n) : Nat) : Int) < k ∧ k < 60 := by
      unfold minute at hlt hlt'
      omega
    obtain ⟨m, rfl⟩ : ∃ m : Nat, k = m := ⟨k.toNat, by omega⟩
    rw [Int.emod_eq_of_lt (by omega) hk.2] at hdvd
    have hle := le_last_multiple (Int.natCast_dvd_natCast.mp hdvd) (by omega)
    omega

/-- When n divides 60, the step goes on over the full hour. -/
theorem dvd_emod_sixty {n : Nat} (hn : n ∣ 60) {k : Int} : (n : Int) ∣ k % 60 ↔ (n : Int) ∣ k := by
  have hsixty : (n : Int) ∣ 60 := Int.natCast_dvd_natCast.mpr hn
  exact Int.dvd_iff_dvd_of_dvd_sub (Int.dvd_trans hsixty Int.dvd_emod_sub_self)

/-- **When the occurrences are n minutes apart**: when n divides 60.  Otherwise the last
one of an hour is nearer to the full hour. -/
theorem everyMinutes_apart_iff (hC : C.Reads fires S clock) (hS : S.Lawful) (hsteps : S.Steps)
    (hutc : clock utc = utcClock) (task : ScheduledTask φ)
    (hbuild : ∃ cron, ((Event.new task : Event ζ φ).everyMinutes n).buildCron C = .ok cron) :
    ((Event.new task : Event ζ φ).everyMinutes n).ApartBy C fires utc n ↔ n ∣ 60 := by
  obtain ⟨hpos, hoccurs⟩ := occurs_everyMinutes_iff hC hS hsteps hutc task hbuild
  constructor
  · intro hapart
    have hgap := hapart _ _ (consecutive_last hoccurs)
    have hsixty : 60 = n * (59 / n) + n := by
      unfold minute at hgap
      omega
    rw [hsixty]
    exact (Nat.dvd_add_right (Nat.dvd_mul_right n _)).mpr (Nat.dvd_refl n)
  · intro hn o o' h
    obtain ⟨a, rfl, ha⟩ := (hoccurs o).mp h.earlier
    obtain ⟨b, rfl, hb⟩ := (hoccurs o').mp h.later
    rw [dvd_emod_sixty hn] at ha hb
    have hlt : a < b := by
      have hlt := h.lt
      unfold minute at hlt
      omega
    have hle : (n : Int) ≤ b - a := Int.le_of_dvd (by omega) (Int.dvd_sub hb ha)
    have hnext := h.neighbours ((a + n) * minute) (by unfold minute; omega)
    rw [hoccurs] at hnext
    by_contra hne
    refine hnext ?_ ⟨a + n, rfl, (dvd_emod_sixty hn).mpr (Int.dvd_add ha (Int.dvd_refl _))⟩
    unfold minute at *
    omega

end

/-! ### A syntax with steps -/

/-- The step of a text `*/n`. -/
def stepOf (text : String) : Option Nat :=
  match text.toList with
  | '*' :: '/' :: digits => readNumber digits
  | _ => none

/-- `plain` and the steps that fit into their field. -/
def stepped : FieldSyntax where
  valid f text := match stepOf text with
    | some n => 0 < n ∧ n ≤ f.last
    | none => plain.valid f text
  admits f text t := match stepOf text with
    | some n => n ∣ f.value t - f.first
    | none => plain.admits f text t
  restricts := plain.restricts

theorem stepOf_step (n : Nat) : stepOf ("*/" ++ toString n) = some n := by
  unfold stepOf
  rw [String.toList_append]
  exact readNumber_toString n

theorem stepOf_number (n : Nat) (rest : String) : stepOf (toString n ++ rest) = none := by
  unfold stepOf
  rw [String.toList_append]
  cases hs : (toString n).toList with
  | nil => exact absurd hs (toString_toList_ne_nil n)
  | cons c cs =>
    have hdigit : c.isDigit = true := isDigit_toString (hs ▸ List.mem_cons_self)
    split
    · rename_i h
      obtain ⟨rfl, -⟩ := List.cons.inj h
      cases hdigit
    · rfl

theorem stepped_means {f : Field} {text : String} {p : Nat → Prop} (hstep : stepOf text = none)
    (h : plain.Means f text p) : stepped.Means f text p where
  valid := by
    simp only [stepped, hstep]
    exact h.valid
  restricts := h.restricts
  admits := by
    intro t
    simp only [stepped, hstep]
    exact h.admits t

/-- **`stepped` gives the texts their documented meaning.** -/
theorem stepped_lawful : stepped.Lawful where
  anyValid := plain_lawful.anyValid
  anyFree := plain_lawful.anyFree
  any := plain_lawful.any
  number := fun f n hfirst hlast => stepped_means (by simpa using stepOf_number n "")
    (plain_lawful.number f n hfirst hlast)
  range := fun f a b hfirst hle hlast =>
    stepped_means (by rw [String.append_assoc]; exact stepOf_number a _)
      (plain_lawful.range f a b hfirst hle hlast)
  pair := fun f a b hfirst hlast hfirst' hlast' =>
    stepped_means (by rw [String.append_assoc]; exact stepOf_number a _)
      (plain_lawful.pair f a b hfirst hlast hfirst' hlast')

theorem stepped_steps : stepped.Steps where
  step := by
    intro n hvalid
    have hrange : 0 < n ∧ n ≤ Field.minute.last := by
      simpa only [stepped, stepOf_step] using hvalid
    refine ⟨hrange.1, hvalid, ?_, ?_⟩
    · intro heq
      have hlength := congrArg (fun text => text.toList.length) heq
      simp [String.toList_append] at hlength
    · intro t
      simp only [stepped, stepOf_step]
      exact Iff.rfl

instance (f : Field) (text : String) : Decidable (stepped.valid f text) :=
  match hstep : stepOf text with
  | some n => decidable_of_iff (0 < n ∧ n ≤ f.last) (by simp only [stepped, hstep])
  | none => decidable_of_iff (plain.valid f text) (by simp only [stepped, hstep])

instance (p : Pattern) : Decidable (p.Valid stepped) :=
  decidable_of_iff (stepped.valid .second p.second ∧ stepped.valid .minute p.minute ∧
    stepped.valid .hour p.hour ∧ stepped.valid .dayOfMonth p.day ∧ stepped.valid .month p.month ∧
    stepped.valid .dayOfWeek p.weekday)
    ⟨fun ⟨hs, hm, hh, hd, hmo, hw⟩ => ⟨hs, hm, hh, hd, hmo, hw⟩,
      fun ⟨hs, hm, hh, hd, hmo, hw⟩ => ⟨hs, hm, hh, hd, hmo, hw⟩⟩

/-- The report of every n minutes. -/
def reportEvery (n : Nat) : Event Unit Unit := (Event.new (.command "report" [])).everyMinutes n

/-- Every quarter of an hour. -/
theorem quarters_apart : (reportEvery 15).ApartBy (syntaxCroner stepped Unit)
    (syntaxFires stepped fun _ => utcClock) () 15 :=
  (everyMinutes_apart_iff (syntaxCroner_reads stepped fun _ => utcClock) stepped_lawful
    stepped_steps rfl (.command "report" []) ⟨_, rfl⟩).mpr (by decide)

/-- Every seven minutes: after minute 56 the event fires at the full hour. -/
theorem sevens_not_apart :
    (∃ cron, (reportEvery 7).buildCron (syntaxCroner stepped Unit) = .ok cron) ∧
    ¬ (reportEvery 7).ApartBy (syntaxCroner stepped Unit)
      (syntaxFires stepped fun _ => utcClock) () 7 := by
  have hbuild : ∃ cron, (reportEvery 7).buildCron (syntaxCroner stepped Unit) = .ok cron :=
    ⟨_, rfl⟩
  have hoccurs : ∀ o, (reportEvery 7).Occurs (syntaxCroner stepped Unit)
      (syntaxFires stepped fun _ => utcClock) () o ↔
      ∃ k : Int, o = k * minute ∧ ((7 : Nat) : Int) ∣ k % 60 :=
    (occurs_everyMinutes_iff (syntaxCroner_reads stepped fun _ => utcClock) stepped_lawful
      stepped_steps rfl (.command "report" []) hbuild).2
  refine ⟨hbuild, ?_⟩
  intro hapart
  have hgap := hapart _ _ (consecutive_last hoccurs)
  exact absurd hgap (by decide)

end Kolas.Schedule

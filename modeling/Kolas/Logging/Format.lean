import Kolas.Lib.Json
import Kolas.Lib.Lists
import Kolas.Lib.SortedMap
import Mathlib.Data.List.Perm.Basic

/-!
# Log entries

`logging/format.rs`: an event of `tracing` is a level, a target and the values it records
under names, one after another, and `event_to_entry` makes an owned entry of it.  A
`FieldVisitor` takes the values in: a string or a value printed with `{:?}` under the name
`message` becomes the message, everything else goes into a map by its name.

* `entry_last`: the message and every field are the last value recorded for them, and the
  map is in the order of its keys.
* `eventToEntry_perm`: so the order of the values does not matter where no name stands twice.
-/

namespace Kolas.Logging

open Kolas.Lib

/-- `tracing::Level`. -/
inductive Level
  | trace
  | debug
  | info
  | warn
  | error
  deriving DecidableEq, Repr

def Level.text : Level → String
  | .trace => "TRACE"
  | .debug => "DEBUG"
  | .info => "INFO"
  | .warn => "WARN"
  | .error => "ERROR"

/-- An `f64`, by its bits. -/
abbrev F64 := BitVec 64

/-- Not all bits of the exponent are set: neither infinite nor not a number. -/
def F64.isFinite (x : F64) : Bool := (x >>> 52) &&& 0x7FF#64 != 0x7FF#64

/-- `serde_json::Number`. -/
inductive LogNumber
  | int (n : Int)
  | float (x : F64)
  deriving DecidableEq, Repr

/-- A value, by the method of `Visit` that records it; what is printed is its text. -/
inductive FieldValue
  | str (value : String)
  | debug (printed : String)
  | i64 (value : Int)
  | u64 (value : Nat)
  | f64 (value : F64)
  | bool (value : Bool)
  | error (printed : String)
  deriving DecidableEq, Repr

/-- An event, as `Event::record` goes through it. -/
structure TraceEvent where
  level : Level
  target : String
  values : List (String × FieldValue)
  deriving DecidableEq, Repr

/-- `LogEntry`; the timestamp is in nanoseconds. -/
structure LogEntry where
  timestamp : Int
  level : String
  target : String
  message : String
  fields : Json LogNumber
  spanName : Option String

structure FieldVisitor where
  message : Option String
  fields : List (String × Json LogNumber)

namespace FieldVisitor

def new : FieldVisitor := ⟨none, []⟩

def insert (v : FieldVisitor) (name : String) (value : Json LogNumber) : FieldVisitor :=
  { v with fields := SortedMap.insert name value v.fields }

def record (v : FieldVisitor) : String × FieldValue → FieldVisitor
  | (name, .str value) =>
    if name = "message" then { v with message := some value } else v.insert name (.string value)
  | (name, .debug printed) =>
    if name = "message" then { v with message := some printed }
    else v.insert name (.string printed)
  | (name, .i64 value) => v.insert name (.number (.int value))
  | (name, .u64 value) => v.insert name (.number (.int value))
  | (name, .f64 value) => v.insert name (.number (if value.isFinite then .float value else .int 0))
  | (name, .bool value) => v.insert name (.bool value)
  | (name, .error printed) => v.insert name (.string printed)

end FieldVisitor

/-- `event_to_entry`, in the span `span` at the time `now`. -/
def eventToEntry (event : TraceEvent) (span : Option String) (now : Int) : LogEntry :=
  let visitor := event.values.foldl FieldVisitor.record .new
  { timestamp := now
    level := event.level.text
    target := event.target
    message := visitor.message.getD ""
    fields := .object visitor.fields
    spanName := span }

/-! ### What a value is recorded as -/

/-- The text a value gives the message, under that name. -/
def FieldValue.asMessage : FieldValue → Option String
  | .str value => some value
  | .debug printed => some printed
  | _ => none

/-- The value in the map of fields. -/
def FieldValue.json : FieldValue → Json LogNumber
  | .str value => .string value
  | .debug printed => .string printed
  | .i64 value => .number (.int value)
  | .u64 value => .number (.int value)
  | .f64 value => .number (if value.isFinite then .float value else .int 0)
  | .bool value => .bool value
  | .error printed => .string printed

/-- What a recorded value says about the message. -/
def messageOf (recorded : String × FieldValue) : Option String :=
  if recorded.1 = "message" then recorded.2.asMessage else none

/-- What a recorded value says about the field `name`. -/
def fieldOf (name : String) (recorded : String × FieldValue) : Option (Json LogNumber) :=
  if recorded.1 = name ∧ messageOf recorded = none then some recorded.2.json else none

namespace FieldVisitor

/-- **What `record` does**: it sets the message, or one field. -/
theorem record_eq (v : FieldVisitor) (recorded : String × FieldValue) :
    v.record recorded = match messageOf recorded with
      | some text => { v with message := some text }
      | none => v.insert recorded.1 recorded.2.json := by
  obtain ⟨name, value⟩ := recorded
  by_cases hname : name = "message"
  · subst hname
    cases value with
    | str value => rfl
    | debug printed => rfl
    | _ => rfl
  · have hnone : messageOf (name, value) = none := by simp [messageOf, hname]
    rw [hnone]
    cases value with
    | str value => simp [record, hname, FieldValue.json]
    | debug printed => simp [record, hname, FieldValue.json]
    | _ => rfl

theorem record_message (v : FieldVisitor) (recorded : String × FieldValue) :
    (v.record recorded).message = (messageOf recorded).or v.message := by
  rw [record_eq]
  cases messageOf recorded with
  | none => rfl
  | some text => rfl

theorem record_lookup (name : String) (v : FieldVisitor) (recorded : String × FieldValue) :
    (v.record recorded).fields.lookup name =
      (fieldOf name recorded).or (v.fields.lookup name) := by
  rw [record_eq, fieldOf]
  cases messageOf recorded with
  | some text => simp
  | none =>
    by_cases hname : recorded.1 = name
    · rw [if_pos ⟨hname, rfl⟩, ← hname]
      exact SortedMap.lookup_insert_self ..
    · rw [if_neg fun h => hname h.1, Option.none_or]
      exact SortedMap.lookup_insert_of_ne (Ne.symm hname) ..

theorem record_sorted {v : FieldVisitor} (h : SortedMap.Sorted v.fields)
    (recorded : String × FieldValue) : SortedMap.Sorted (v.record recorded).fields := by
  rw [record_eq]
  cases messageOf recorded with
  | none => exact SortedMap.sorted_insert _ _ h
  | some text => exact h

theorem foldl_record_sorted (values : List (String × FieldValue)) {v : FieldVisitor}
    (h : SortedMap.Sorted v.fields) : SortedMap.Sorted (values.foldl record v).fields := by
  induction values generalizing v with
  | nil => exact h
  | cons recorded values ih => exact ih (record_sorted h recorded)

/-- Values under two names may be recorded in either order. -/
theorem record_comm (v : FieldVisitor) {a b : String × FieldValue} (h : a.1 ≠ b.1) :
    (v.record a).record b = (v.record b).record a := by
  rw [record_eq, record_eq (v.record b), record_eq v a, record_eq v b]
  cases ha : messageOf a with
  | none =>
    cases messageOf b with
    | none =>
      simp only [insert, FieldVisitor.mk.injEq, true_and]
      exact SortedMap.insert_comm (Ne.symm h) ..
    | some text => rfl
  | some text =>
    cases hb : messageOf b with
    | none => rfl
    | some text' =>
      -- both would be the message
      have hname {r : String × FieldValue} {t : String} (hr : messageOf r = some t) :
          r.1 = "message" := by
        by_contra hne
        simp [messageOf, hne] at hr
      exact absurd ((hname ha).trans (hname hb).symm) h

end FieldVisitor

/-- **The last value counts.**  The message is the last string or debug value recorded under
`message`, or empty; each field is the last other value recorded under its name; and
the fields are in the order of their names. -/
theorem entry_last (event : TraceEvent) (span : Option String) (now : Int) :
    (eventToEntry event span now).message =
        ((event.values.filterMap messageOf).getLast?).getD "" ∧
      ∃ fields, (eventToEntry event span now).fields = .object fields ∧
        SortedMap.Sorted fields ∧
        ∀ name, fields.lookup name = (event.values.filterMap (fieldOf name)).getLast? := by
  have hmessage := foldl_last FieldVisitor.message FieldVisitor.record_message event.values .new
  refine ⟨?_, _, rfl, ?_, ?_⟩
  · rw [show FieldVisitor.new.message = none from rfl, Option.or_none] at hmessage
    rw [← hmessage]
    rfl
  · exact FieldVisitor.foldl_record_sorted event.values List.Pairwise.nil
  · intro name
    have hfield := foldl_last (fun v : FieldVisitor => v.fields.lookup name)
      (FieldVisitor.record_lookup name) event.values FieldVisitor.new
    rw [show FieldVisitor.new.fields.lookup name = none from rfl, Option.or_none] at hfield
    exact hfield

/-- **The order of the values does not matter** where no name stands twice. -/
theorem eventToEntry_perm {event event' : TraceEvent} (hlevel : event.level = event'.level)
    (htarget : event.target = event'.target) (hnames : (event.values.map Prod.fst).Nodup)
    (hvalues : event.values.Perm event'.values) (span : Option String) (now : Int) :
    eventToEntry event span now = eventToEntry event' span now := by
  have hcomm : ∀ a ∈ event.values, ∀ b ∈ event.values, ∀ v : FieldVisitor,
      (v.record a).record b = (v.record b).record a := by
    intro a ha b hb v
    by_cases hname : a.1 = b.1
    · obtain rfl := List.inj_on_of_nodup_map hnames ha hb hname
      rfl
    · exact v.record_comm hname
  unfold eventToEntry
  rw [hlevel, htarget, hvalues.foldl_eq' hcomm]

end Kolas.Logging

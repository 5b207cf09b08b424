
/-!
# Frequencies

`schedule/frequency.rs`: the frequencies an event can have, and the cron
expression of each.  A `u32` of the source is a natural number; the builder
methods check its range.
-/

namespace Kolas.Schedule

/-- `chrono::Weekday`. -/
inductive Weekday
  | mon | tue | wed | thu | fri | sat | sun
  deriving DecidableEq, Repr

def weekdayNum : Weekday → Nat
  | .sun => 0
  | .mon => 1
  | .tue => 2
  | .wed => 3
  | .thu => 4
  | .fri => 5
  | .sat => 6

inductive Frequency
  | raw (expr : String)
  | everySecond
  | everyMinutes (n : Nat)
  | hourlyAt (minute : Nat)
  | dailyAt (hour minute : Nat)
  | twiceDaily (first second : Nat)
  | weeklyOn (day : Weekday) (hour minute : Nat)
  | monthlyOn (day hour minute : Nat)
  | quarterly
  | yearly
  deriving DecidableEq, Repr

def Frequency.toCronExpr : Frequency → String
  | .raw s => s
  | .everySecond => "* * * * * *"
  | .everyMinutes n =>
    if n = 1 then "0 * * * * *" else "0 */" ++ toString n ++ " * * * *"
  | .hourlyAt minute => "0 " ++ toString minute ++ " * * * *"
  | .dailyAt hour minute => "0 " ++ toString minute ++ " " ++ toString hour ++ " * * *"
  | .twiceDaily first second => "0 0 " ++ toString first ++ "," ++ toString second ++ " * * *"
  | .weeklyOn day hour minute =>
    "0 " ++ toString minute ++ " " ++ toString hour ++ " * * " ++ toString (weekdayNum day)
  | .monthlyOn day hour minute =>
    "0 " ++ toString minute ++ " " ++ toString hour ++ " " ++ toString day ++ " * *"
  | .quarterly => "0 0 0 1 1,4,7,10 *"
  | .yearly => "0 0 0 1 1 *"

/-- `char::is_whitespace`: the Unicode property `White_Space`. -/
def isWhitespace (c : Char) : Bool :=
  let n := c.toNat
  (9 ≤ n && n ≤ 13) || n == 0x20 || n == 0x85 || n == 0xA0 || n == 0x1680 ||
    (0x2000 ≤ n && n ≤ 0x200A) || n == 0x2028 || n == 0x2029 || n == 0x202F || n == 0x205F ||
    n == 0x3000

/-- `str::split_whitespace`: the non-empty pieces between white space. -/
def splitWhitespace (s : String) : List String :=
  ((s.toList.splitOnP isWhitespace).filter (· ≠ [])).map String.ofList

end Kolas.Schedule

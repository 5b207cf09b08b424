/-!
# Numbers as texts

* `readNumber_toString`: the digits of a number are read back.
* `not_mem_toString`: nothing but digits is in its text.
-/

namespace Kolas.Lib

/-- The number that digits spell. -/
def readNumber (cs : List Char) : Option Nat :=
  if cs ≠ [] ∧ cs.all Char.isDigit = true then some (Nat.ofDigitChars 10 cs 0) else none

theorem isDigit_toString {n : Nat} {c : Char} (h : c ∈ (toString n).toList) : c.isDigit = true := by
  rw [Nat.toString_eq_repr, Nat.toList_repr] at h
  exact Nat.isDigit_of_mem_toDigits (by decide) (by decide) h

theorem toString_toList_ne_nil (n : Nat) : (toString n).toList ≠ [] := by
  rw [Nat.toString_eq_repr, Nat.toList_repr]
  exact Nat.toDigits_ne_nil

theorem not_mem_toString {n : Nat} {c : Char} (hc : c.isDigit = false) :
    c ∉ (toString n).toList := by
  intro h
  rw [isDigit_toString h] at hc
  cases hc

/-- **The digits of a number are read back.** -/
theorem readNumber_toString (n : Nat) : readNumber (toString n).toList = some n := by
  unfold readNumber
  rw [if_pos ⟨toString_toList_ne_nil n, List.all_eq_true.mpr fun c hc => isDigit_toString hc⟩]
  rw [Nat.toString_eq_repr, Nat.toList_repr, Nat.ofDigitChars_ten_toDigits]

theorem toString_toList_inj {m n : Nat} (h : (toString m).toList = (toString n).toList) :
    m = n := by
  have hread := congrArg readNumber h
  rw [readNumber_toString, readNumber_toString] at hread
  exact Option.some.inj hread

end Kolas.Lib

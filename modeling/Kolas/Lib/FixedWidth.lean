import Kolas.Lib.Digits
import Mathlib.Data.List.Basic
import Mathlib.Tactic.Ring

/-!
# Numbers in fields of fixed width

A field is a number with zeros in front, up to a width that it fits in.  Fields one after
another spell a number themselves.

* `readNumber_text`: that number is read from the text.
* `number_lt_iff`: the numbers of the same widths are ordered as their fields, the first one
  counting most.
-/

namespace Kolas.Lib

structure FixedField where
  width : Nat
  value : Nat
  pos : 0 < width
  fits : value < 10 ^ width

namespace FixedField

/-- The digits of the value, with zeros in front. -/
def digits (f : FixedField) : List Char :=
  List.replicate (f.width - (Nat.toDigits 10 f.value).length) '0' ++ Nat.toDigits 10 f.value

/-- The fields one after another. -/
def text (fields : List FixedField) : List Char := fields.flatMap digits

/-- The width of all the fields. -/
def totalWidth (fields : List FixedField) : Nat := (fields.map width).sum

/-- The number that the fields spell. -/
def number : List FixedField → Nat
  | [] => 0
  | f :: fields => f.value * 10 ^ totalWidth fields + number fields

variable {f : FixedField} {fields fields' : List FixedField}

theorem length_digits (f : FixedField) : f.digits.length = f.width := by
  have hle : (Nat.toDigits 10 f.value).length ≤ f.width :=
    (Nat.length_toDigits_le_iff (by decide) f.pos).mpr f.fits
  rw [digits, List.length_append, List.length_replicate, Nat.sub_add_cancel hle]

theorem isDigit_digits {c : Char} (h : c ∈ f.digits) : c.isDigit = true := by
  rcases List.mem_append.mp h with h | h
  · rw [List.eq_of_mem_replicate h]
    rfl
  · exact Nat.isDigit_of_mem_toDigits (by decide) (by decide) h

theorem ofDigitChars_digits (f : FixedField) : Nat.ofDigitChars 10 f.digits 0 = f.value := by
  rw [digits, Nat.ofDigitChars_append, Nat.ofDigitChars_replicate_zero, Nat.mul_zero,
    Nat.ofDigitChars_ten_toDigits]

theorem length_text (fields : List FixedField) : (text fields).length = totalWidth fields := by
  rw [text, totalWidth, List.length_flatMap]
  simp only [length_digits]

theorem isDigit_text {c : Char} (h : c ∈ text fields) : c.isDigit = true := by
  obtain ⟨f, -, hc⟩ := List.mem_flatMap.mp h
  exact isDigit_digits hc

theorem ofDigitChars_text (fields : List FixedField) (init : Nat) :
    Nat.ofDigitChars 10 (text fields) init = 10 ^ totalWidth fields * init + number fields := by
  induction fields generalizing init with
  | nil => simp [text, totalWidth, number]
  | cons f fields ih =>
    have hfirst : Nat.ofDigitChars 10 f.digits init = 10 ^ f.width * init + f.value := by
      rw [Nat.ofDigitChars_eq_ofDigitChars_zero, length_digits, ofDigitChars_digits]
    show Nat.ofDigitChars 10 (f.digits ++ text fields) init = _
    rw [Nat.ofDigitChars_append, hfirst, ih]
    show _ = 10 ^ (f.width + totalWidth fields) * init + _
    rw [number, Nat.pow_add]
    ring

/-- **The fields are read as one number.** -/
theorem readNumber_text (h : fields ≠ []) : readNumber (text fields) = some (number fields) := by
  have hne : text fields ≠ [] := by
    cases fields with
    | nil => exact absurd rfl h
    | cons f fields =>
      intro hnil
      have hlength := length_text (f :: fields)
      rw [hnil, totalWidth, List.map_cons, List.sum_cons, List.length_nil] at hlength
      have hpos := f.pos
      omega
  unfold readNumber
  rw [if_pos ⟨hne, List.all_eq_true.mpr fun c hc => isDigit_text hc⟩, ofDigitChars_text,
    Nat.mul_zero, Nat.zero_add]

theorem number_lt (fields : List FixedField) : number fields < 10 ^ totalWidth fields := by
  induction fields with
  | nil => exact Nat.one_pos
  | cons f fields ih =>
    have hle : (f.value + 1) * 10 ^ totalWidth fields ≤ 10 ^ f.width * 10 ^ totalWidth fields :=
      Nat.mul_le_mul_right _ f.fits
    have hwidth : 10 ^ totalWidth (f :: fields) = 10 ^ f.width * 10 ^ totalWidth fields := by
      rw [← Nat.pow_add]
      rfl
    rw [hwidth, number]
    rw [Nat.succ_mul] at hle
    omega

/-- **The first field that differs decides.** -/
theorem number_lt_iff (h : fields.map width = fields'.map width) :
    number fields < number fields' ↔ fields.map value < fields'.map value := by
  induction fields generalizing fields' with
  | nil =>
    rw [List.map_nil] at h
    obtain rfl := List.map_eq_nil_iff.mp h.symm
    simp [number]
  | cons f fields ih =>
    cases fields' with
    | nil => cases h
    | cons f' fields' =>
      obtain ⟨-, hwidths⟩ := List.cons.inj h
      have htotal : totalWidth fields = totalWidth fields' := congrArg List.sum hwidths
      have hlt := number_lt fields
      have hlt' := number_lt fields'
      rw [List.map_cons, List.map_cons, List.cons_lt_cons_iff, ← ih hwidths, number, number, ← htotal]
      rw [← htotal] at hlt'
      constructor
      · intro hnumber
        rcases Nat.lt_trichotomy f.value f'.value with hvalue | hvalue | hvalue
        · exact Or.inl hvalue
        · rw [hvalue] at hnumber
          exact Or.inr ⟨hvalue, by omega⟩
        · have hle := Nat.mul_le_mul_right (10 ^ totalWidth fields) (Nat.succ_le_of_lt hvalue)
          rw [Nat.succ_mul] at hle
          omega
      · rintro (hvalue | ⟨hvalue, hrest⟩)
        · have hle := Nat.mul_le_mul_right (10 ^ totalWidth fields) (Nat.succ_le_of_lt hvalue)
          rw [Nat.succ_mul] at hle
          omega
        · rw [hvalue]
          omega

end FixedField

end Kolas.Lib

import Mathlib.Data.List.Induction
import Mathlib.Data.Rat.Floor
import Mathlib.Tactic.FieldSimp
import Mathlib.Tactic.Ring

/-! # Decimal texts

A text of digits is a number, and one with a point a number and a fraction of it. The first digits
of the fraction, with zeros for those that are missing, are its floor at that precision.
-/

namespace Decimal

open Nat (ofDigitChars)

abbrev digitsValue (digits : List Char) : ℕ := ofDigitChars 10 digits 0

variable {digits digits' : List Char}

theorem digitsValue_append (digits digits' : List Char) :
    digitsValue (digits ++ digits') =
      digitsValue digits * 10 ^ digits'.length + digitsValue digits' := by
  rw [digitsValue, Nat.ofDigitChars_append, Nat.ofDigitChars_eq_ofDigitChars_zero, mul_comm]

theorem digitsValue_lt (h : ∀ c ∈ digits, c.isDigit) :
    digitsValue digits < 10 ^ digits.length := by
  induction digits using List.reverseRecOn with
  | nil => simp [digitsValue]
  | append_singleton digits c ih =>
    have hc : digitsValue [c] < 10 := by
      have := Char.isDigit_iff_toNat.mp (h c (by simp))
      simp only [digitsValue, Nat.ofDigitChars_cons, Nat.ofDigitChars_nil]
      have h0 : '0'.toNat = 48 := rfl
      have h9 : '9'.toNat = 57 := rfl
      omega
    have hdigits := ih fun c hc => h c (by simp [hc])
    rw [digitsValue_append, List.length_append, List.length_singleton, pow_one, pow_succ]
    omega

theorem digitsValue_take (h : ∀ c ∈ digits, c.isDigit) (p : ℕ) :
    digitsValue (digits.take p) * 10 ^ (p - (digits.take p).length) =
      digitsValue digits * 10 ^ p / 10 ^ digits.length := by
  rcases le_total digits.length p with hp | hp
  · rw [List.take_of_length_le hp]
    refine (Nat.div_eq_of_eq_mul_left (by positivity) ?_).symm
    rw [mul_assoc, ← pow_add, Nat.sub_add_cancel hp]
  · have hlt : digitsValue (digits.drop p) < 10 ^ (digits.drop p).length :=
      digitsValue_lt fun c hc => h c (List.mem_of_mem_drop hc)
    have hvalue : digitsValue digits = digitsValue (digits.take p) *
        10 ^ (digits.drop p).length + digitsValue (digits.drop p) := by
      rw [← digitsValue_append, List.take_append_drop]
    have hlength : digits.length = (digits.drop p).length + p := by
      rw [List.length_drop, Nat.sub_add_cancel hp]
    rw [List.length_take_of_le hp, Nat.sub_self, pow_zero, mul_one, hlength, pow_add,
      Nat.mul_div_mul_right _ _ (by positivity), hvalue, mul_comm (digitsValue (digits.take p)),
      Nat.mul_add_div (by positivity), Nat.div_eq_of_lt hlt, add_zero]

end Decimal

/-- A decimal number as written: digits, and maybe a point with more digits. -/
structure DecimalText where
  whole : List Char
  fraction : List Char
  whole_ne_nil : whole ≠ []
  isDigit_whole : ∀ c ∈ whole, c.isDigit
  isDigit_fraction : ∀ c ∈ fraction, c.isDigit

namespace DecimalText

open Decimal

/-- A fraction without digits is written without a point. -/
def text (d : DecimalText) : List Char :=
  if d.fraction = [] then d.whole else d.whole ++ '.' :: d.fraction

def value (d : DecimalText) : ℚ :=
  digitsValue d.whole + digitsValue d.fraction / 10 ^ d.fraction.length

variable (d : DecimalText)

theorem mem_text {c : Char} (h : c ∈ d.text) : c.isDigit ∨ c = '.' := by
  have hwhole := d.isDigit_whole c
  have hfraction := d.isDigit_fraction c
  rw [text] at h
  split at h
  case isTrue => exact .inl (hwhole h)
  case isFalse =>
    rcases List.mem_append.mp h with h | h
    · exact .inl (hwhole h)
    · exact (List.mem_cons.mp h).symm.imp_left hfraction

theorem floor_value (p : ℕ) :
    ⌊10 ^ p * d.value⌋ = digitsValue d.whole * 10 ^ p +
      digitsValue (d.fraction.take p) * 10 ^ (p - (d.fraction.take p).length) := by
  have hratio : 10 ^ p * d.value =
      ((digitsValue d.fraction * 10 ^ p + 10 ^ d.fraction.length *
          (digitsValue d.whole * 10 ^ p) : ℕ) : ℚ) /
        ((10 ^ d.fraction.length : ℕ) : ℚ) := by
    rw [value]
    push_cast
    field_simp
    ring
  have htake := digitsValue_take d.isDigit_fraction p
  rw [hratio, Rat.floor_natCast_div_natCast]
  norm_cast
  rw [Nat.add_mul_div_left _ _ (by positivity), htake, add_comm]

end DecimalText

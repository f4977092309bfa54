import CryptoTrading.Lib.Decimal
import Mathlib.Data.List.TakeWhile

/-! # Numbers in texts

The conversions of the standard library skip spaces and read the longest number that the text
begins with.
-/

namespace CryptoTrading

open Decimal

def isSpace (c : Char) : Bool := c = ' ' || (9 ≤ c.toNat && c.toNat ≤ 13)

def leadingNumber (cs : List Char) : Option ℕ :=
  let digits := cs.takeWhile Char.isDigit
  if digits = [] then none
  else some (digits.foldl (fun n c => 10 * n + (c.toNat - Char.toNat '0')) 0)

/-- `std::stoll`; `none` where it throws. -/
def stoll (s : String) : Option ℤ := do
  let number ← match s.toList.dropWhile isSpace with
    | '-' :: cs => (leadingNumber cs).map fun n => -(n : ℤ)
    | '+' :: cs => (leadingNumber cs).map fun n => (n : ℤ)
    | cs => (leadingNumber cs).map fun n => (n : ℤ)
  if -2 ^ 63 ≤ number ∧ number < 2 ^ 63 then some number else none

def takeSign : List Char → ℤ × List Char
  | '-' :: cs => (-1, cs)
  | '+' :: cs => (1, cs)
  | cs => (1, cs)

/-- The exponent that the text begins with; 0 without one. -/
def leadingExponent : List Char → ℤ
  | 'e' :: cs | 'E' :: cs =>
    let (sign, cs) := takeSign cs
    (leadingNumber cs).elim 0 fun n => sign * n
  | _ => 0

/-- Zero and the magnitudes of normal doubles that do not round to infinity. -/
def InDoubleRange (x : ℚ) : Prop :=
  x = 0 ∨ 1 ≤ |x| * (2 ^ 1022 : ℕ) ∧ |x| < (2 ^ 1024 - 2 ^ 970 : ℕ)

instance (x : ℚ) : Decidable (InDoubleRange x) := inferInstanceAs (Decidable (_ ∨ _))

/-- `std::stod` of decimal numbers; `none` where it throws. -/
def stod (s : String) : Option ℚ :=
  let (sign, cs) := takeSign (s.toList.dropWhile isSpace)
  let whole := cs.takeWhile Char.isDigit
  let (fraction, cs) :=
    match cs.dropWhile Char.isDigit with
    | '.' :: cs => (cs.takeWhile Char.isDigit, cs.dropWhile Char.isDigit)
    | cs => ([], cs)
  let number := sign * digitsValue (whole ++ fraction) *
    (10 : ℚ) ^ (leadingExponent cs - fraction.length)
  if whole ++ fraction ≠ [] ∧ InDoubleRange number then some number else none

variable {digits : List Char}

theorem not_isSpace_of_isDigit {c : Char} (h : c.isDigit) : isSpace c = false := by
  have hc : '0'.toNat ≤ c.toNat ∧ c.toNat ≤ '9'.toNat := Char.isDigit_iff_toNat.mp h
  have hlow : 48 ≤ c.toNat := hc.1
  have hne : c ≠ ' ' := by
    rintro rfl
    exact absurd hlow (by decide)
  simp only [isSpace, hne, decide_false, Bool.false_or, Bool.and_eq_false_iff,
    decide_eq_false_iff_not]
  omega

theorem leadingNumber_of_digits (hne : digits ≠ []) (h : ∀ c ∈ digits, c.isDigit) :
    leadingNumber digits = some (digitsValue digits) := by
  have htake : digits.takeWhile Char.isDigit = digits := List.takeWhile_eq_self_iff.mpr h
  rw [leadingNumber, htake]
  simp only [if_neg hne, digitsValue, Nat.ofDigitChars_eq_foldl]

theorem stoll_of_digits (hne : digits ≠ []) (h : ∀ c ∈ digits, c.isDigit) :
    stoll (String.ofList digits) =
      if digitsValue digits < 2 ^ 63 then some (digitsValue digits : ℤ) else none := by
  obtain ⟨c, cs, rfl⟩ := List.exists_cons_of_ne_nil hne
  have hc := h c List.mem_cons_self
  have hspace : (c :: cs).dropWhile isSpace = c :: cs :=
    List.dropWhile_cons_of_neg (by simp [not_isSpace_of_isDigit hc])
  have hminus : c ≠ '-' := by rintro rfl; exact absurd hc (by decide)
  have hplus : c ≠ '+' := by rintro rfl; exact absurd hc (by decide)
  have hnumber := leadingNumber_of_digits hne h
  have hrange : (-2 ^ 63 ≤ (digitsValue (c :: cs) : ℤ) ∧ (digitsValue (c :: cs) : ℤ) < 2 ^ 63) ↔
      digitsValue (c :: cs) < 2 ^ 63 := by
    omega
  rw [stoll, String.toList_ofList, hspace]
  split
  case h_1 heq => exact absurd (List.cons.inj heq).1 hminus
  case h_2 heq => exact absurd (List.cons.inj heq).1 hplus
  case h_3 cs' _ _ =>
    rw [hnumber]
    by_cases hfit : digitsValue (c :: cs) < 2 ^ 63
    · rw [if_pos hfit]
      exact Option.bind_eq_some_iff.mpr ⟨digitsValue (c :: cs), rfl, if_pos (hrange.mpr hfit)⟩
    · rw [if_neg hfit]
      refine Option.bind_eq_none_iff.mpr fun number heq => ?_
      obtain rfl : (digitsValue (c :: cs) : ℤ) = number := Option.some.inj heq
      exact if_neg (mt hrange.mp hfit)

end CryptoTrading

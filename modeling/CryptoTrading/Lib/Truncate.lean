import Mathlib.Algebra.Order.Floor.Ring
import Mathlib.Data.Int.ConditionallyCompleteOrder

/-! # Rounding towards zero

The interval of numbers with a given integer part is closed towards zero and open away from
it. That of zero is open on both sides and twice as wide.
-/

namespace Truncate

variable {α : Type*} [Ring α] [LinearOrder α] [FloorRing α]

def truncate (a : α) : ℤ := if 0 < a then ⌊a⌋ else ⌈a⌉

variable {a b : α} {n : ℤ}

theorem truncate_of_pos (h : 0 < a) : truncate a = ⌊a⌋ := if_pos h

theorem truncate_of_nonpos (h : a ≤ 0) : truncate a = ⌈a⌉ := if_neg h.not_gt

theorem truncate_nonneg (h : 0 < a) : 0 ≤ truncate a := by
  rw [truncate_of_pos h]
  exact Int.floor_nonneg.mpr h.le

theorem truncate_nonpos (h : a ≤ 0) : truncate a ≤ 0 := by
  rw [truncate_of_nonpos h]
  exact Int.ceil_le.mpr (by rwa [Int.cast_zero])

theorem truncate_mono : Monotone (truncate : α → ℤ) := by
  intro a b hab
  rcases lt_or_ge 0 a with ha | ha
  · rw [truncate_of_pos ha, truncate_of_pos (ha.trans_le hab)]
    exact Int.floor_mono hab
  · rcases lt_or_ge 0 b with hb | hb
    · exact (truncate_nonpos ha).trans (truncate_nonneg hb)
    · rw [truncate_of_nonpos ha, truncate_of_nonpos hb]
      exact Int.ceil_mono hab

variable [IsStrictOrderedRing α]

theorem truncate_eq_iff_of_pos (hn : 0 < n) : truncate a = n ↔ (n : α) ≤ a ∧ a < n + 1 := by
  rcases lt_or_ge 0 a with ha | ha
  · rw [truncate_of_pos ha, Int.floor_eq_iff]
  · apply iff_of_false
    · exact ((truncate_nonpos ha).trans_lt hn).ne
    · rintro ⟨hle, -⟩
      exact (Int.cast_pos.mpr hn).not_ge (hle.trans ha)

theorem truncate_eq_iff_of_neg (hn : n < 0) : truncate a = n ↔ (n : α) - 1 < a ∧ a ≤ n := by
  rcases lt_or_ge 0 a with ha | ha
  · apply iff_of_false
    · exact (hn.trans_le (truncate_nonneg ha)).ne'
    · rintro ⟨-, hle⟩
      exact (ha.trans_le hle).not_gt (Int.cast_lt_zero.mpr hn)
  · rw [truncate_of_nonpos ha, Int.ceil_eq_iff]

theorem truncate_eq_zero_iff : truncate a = 0 ↔ |a| < 1 := by
  rcases lt_or_ge 0 a with ha | ha
  · rw [truncate_of_pos ha, Int.floor_eq_zero_iff, abs_of_pos ha, Set.mem_Ico]
    exact and_iff_right ha.le
  · rw [truncate_of_nonpos ha, Int.ceil_eq_iff, abs_of_nonpos ha, Int.cast_zero, zero_sub,
      neg_lt, and_iff_left ha]

@[simp] theorem truncate_intCast (n : ℤ) : truncate (n : α) = n := by
  unfold truncate
  split
  · exact Int.floor_intCast n
  · exact Int.ceil_intCast n

end Truncate

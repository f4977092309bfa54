import CryptoTrading.Lib.Truncate
import Mathlib.Data.Rat.Floor
import Mathlib.Tactic.Linarith

/-! # Levels of a grid

The number of a price's level counts whole widths from the reference price, towards it. The
price of a level is its end at the side of the reference.
-/

namespace CryptoTrading

open Truncate

namespace GridLevels

/-- Towards the trend, so that level zero is twice as wide as the others. -/
def getLevelNumber (price trend levelWidth : ℚ) : ℤ :=
  let diff := price - trend
  let dblNum := diff / levelWidth
  if 0 < dblNum then ⌊dblNum⌋ else ⌈dblNum⌉

def getPriceFromLevelNumber (levelNum : ℤ) (trend levelWidth : ℚ) : ℚ :=
  let offset := levelNum * levelWidth
  trend + offset

variable {price trend width : ℚ}

theorem price_between (hw : 0 < width) :
    getPriceFromLevelNumber (getLevelNumber price trend width - 1) trend width < price ∧
      price < getPriceFromLevelNumber (getLevelNumber price trend width + 1) trend width := by
  have hprice : price = trend + (price - trend) / width * width := by
    rw [div_mul_cancel₀ _ hw.ne']
    ring
  have hlevel : (getLevelNumber price trend width : ℚ) - 1 < (price - trend) / width ∧
      (price - trend) / width < (getLevelNumber price trend width : ℚ) + 1 := by
    unfold getLevelNumber
    simp only
    split
    · have hle := Int.floor_le ((price - trend) / width)
      have hlt := Int.lt_floor_add_one ((price - trend) / width)
      constructor <;> linarith
    · have hle := Int.le_ceil ((price - trend) / width)
      have hlt := Int.ceil_lt_add_one ((price - trend) / width)
      constructor <;> linarith
  obtain ⟨hbelow, habove⟩ := hlevel
  unfold getPriceFromLevelNumber
  push_cast
  constructor
  · have := mul_lt_mul_of_pos_right hbelow hw
    linarith
  · have := mul_lt_mul_of_pos_right habove hw
    linarith

theorem getLevelNumber_eq (price trend width : ℚ) :
    getLevelNumber price trend width = truncate ((price - trend) / width) := rfl

/-- A level above the reference is closed at its lower end. -/
theorem getLevelNumber_eq_iff_of_pos (hw : 0 < width) {n : ℤ} (hn : 0 < n) :
    getLevelNumber price trend width = n ↔
      trend + n * width ≤ price ∧ price < trend + (n + 1) * width := by
  rw [getLevelNumber_eq, truncate_eq_iff_of_pos hn, le_div_iff₀ hw, div_lt_iff₀ hw,
    le_sub_iff_add_le', sub_lt_iff_lt_add']

/-- A level below the reference is closed at its upper end. -/
theorem getLevelNumber_eq_iff_of_neg (hw : 0 < width) {n : ℤ} (hn : n < 0) :
    getLevelNumber price trend width = n ↔
      trend + (n - 1) * width < price ∧ price ≤ trend + n * width := by
  rw [getLevelNumber_eq, truncate_eq_iff_of_neg hn, lt_div_iff₀ hw, div_le_iff₀ hw,
    lt_sub_iff_add_lt', sub_le_iff_le_add']

theorem getLevelNumber_eq_zero_iff (hw : 0 < width) :
    getLevelNumber price trend width = 0 ↔ |price - trend| < width := by
  rw [getLevelNumber_eq, truncate_eq_zero_iff, abs_div, abs_of_pos hw, div_lt_one hw]

theorem getLevelNumber_mono (trend : ℚ) (hw : 0 < width) :
    Monotone fun price => getLevelNumber price trend width := by
  intro price price' hprice
  exact truncate_mono (div_le_div_of_nonneg_right (sub_le_sub_right hprice trend) hw.le)

theorem getLevelNumber_getPriceFromLevelNumber (n : ℤ) (trend : ℚ) (hw : width ≠ 0) :
    getLevelNumber (getPriceFromLevelNumber n trend width) trend width = n := by
  rw [getLevelNumber_eq, getPriceFromLevelNumber, add_sub_cancel_left, mul_div_cancel_right₀ _ hw,
    truncate_intCast]

/--
The levels divide the prices into intervals that are closed towards the reference price, in
the order of their numbers, and the price of a level lies in it.
-/
theorem levels_partition (trend : ℚ) (hw : 0 < width) :
    (∀ price (n : ℤ), 0 < n → (getLevelNumber price trend width = n ↔
      trend + n * width ≤ price ∧ price < trend + (n + 1) * width)) ∧
    (∀ price (n : ℤ), n < 0 → (getLevelNumber price trend width = n ↔
      trend + (n - 1) * width < price ∧ price ≤ trend + n * width)) ∧
    (∀ price, getLevelNumber price trend width = 0 ↔ |price - trend| < width) ∧
    (Monotone fun price => getLevelNumber price trend width) ∧
    ∀ n, getLevelNumber (getPriceFromLevelNumber n trend width) trend width = n := by
  refine ⟨?_, ?_, ?_, getLevelNumber_mono trend hw, ?_⟩
  · exact fun price n hn => getLevelNumber_eq_iff_of_pos hw hn
  · exact fun price n hn => getLevelNumber_eq_iff_of_neg hw hn
  · exact fun price => getLevelNumber_eq_zero_iff hw
  · exact fun n => getLevelNumber_getPriceFromLevelNumber n trend hw.ne'

/-- Levels of 10 around 100. -/
theorem levels_partition_ten :
    getLevelNumber 120 100 10 = 2 ∧ getLevelNumber 80 100 10 = -2 ∧
      getLevelNumber 91 100 10 = 0 ∧
      getLevelNumber (getPriceFromLevelNumber (-3) 100 10) 100 10 = -3 := by
  obtain ⟨habove, hbelow, hzero, -, hround⟩ := @levels_partition 10 100 (by norm_num)
  refine ⟨(habove 120 2 (by norm_num)).mpr ?_, (hbelow 80 (-2) (by norm_num)).mpr ?_,
    (hzero 91).mpr ?_, hround (-3)⟩
  · norm_num
  · norm_num
  · norm_num

end GridLevels

end CryptoTrading

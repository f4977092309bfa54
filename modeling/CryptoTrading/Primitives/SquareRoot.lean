import Mathlib.Analysis.Real.Sqrt

/-! # Square roots

A result of `std::sqrt` is its argument, which is not negative. -/

namespace CryptoTrading

@[ext] structure SquareRoot where
  radicand : ℚ
  nonneg : 0 ≤ radicand

namespace SquareRoot

instance : DecidableEq SquareRoot := fun _ _ => decidable_of_iff _ SquareRoot.ext_iff.symm

/-- A negative argument is replaced by zero. -/
def ofClamped (value : ℚ) : SquareRoot where
  radicand := if value < 0 then 0 else value
  nonneg := by split <;> linarith

noncomputable def toReal (r : SquareRoot) : ℝ := √(r.radicand : ℝ)

def ScaledLt (r : SquareRoot) (k d : ℚ) : Prop :=
  0 ≤ k ∧ 0 < d ∧ k ^ 2 * r.radicand < d ^ 2 ∨ k < 0 ∧ (0 < d ∨ d ^ 2 < k ^ 2 * r.radicand)

instance (r : SquareRoot) (k d : ℚ) : Decidable (r.ScaledLt k d) :=
  inferInstanceAs (Decidable (_ ∨ _))

variable {r : SquareRoot} {value k d : ℚ}

theorem toReal_sq : r.toReal ^ 2 = (r.radicand : ℝ) :=
  Real.sq_sqrt (Rat.cast_nonneg.mpr r.nonneg)

theorem toReal_nonneg : 0 ≤ r.toReal := Real.sqrt_nonneg _

theorem scaledLt_iff : r.ScaledLt k d ↔ r.toReal * k < d := by
  have hsq : (r.toReal * k) ^ 2 = ((k ^ 2 * r.radicand : ℚ) : ℝ) := by
    rw [mul_pow, toReal_sq]
    push_cast
    ring
  unfold ScaledLt
  rcases le_or_gt 0 k with hk | hk
  · rw [or_iff_left fun h => hk.not_gt h.1, and_iff_right hk]
    have hle : 0 ≤ r.toReal * k := mul_nonneg toReal_nonneg (Rat.cast_nonneg.mpr hk)
    constructor
    · rintro ⟨hd, hlt⟩
      refine lt_of_pow_lt_pow_left₀ 2 (Rat.cast_nonneg.mpr hd.le) ?_
      rw [hsq]
      exact_mod_cast hlt
    · intro hlt
      refine ⟨Rat.cast_pos.mp (hle.trans_lt hlt), ?_⟩
      have hpow : (r.toReal * k) ^ 2 < (d : ℝ) ^ 2 := pow_lt_pow_left₀ hlt hle two_ne_zero
      rw [hsq] at hpow
      exact_mod_cast hpow
  · rw [or_iff_right fun h => hk.not_ge h.1, and_iff_right hk]
    have hle : r.toReal * k ≤ 0 :=
      mul_nonpos_of_nonneg_of_nonpos toReal_nonneg (Rat.cast_nonpos.mpr hk.le)
    rcases lt_or_ge 0 d with hd | hd
    · exact iff_of_true (.inl hd) (hle.trans_lt (Rat.cast_pos.mpr hd))
    · -- neither side is positive, so that the squares are in the other order
      have hd' : (0 : ℝ) ≤ -d := neg_nonneg.mpr (Rat.cast_nonpos.mpr hd)
      have hpow : (-(d : ℝ)) ^ 2 < (-(r.toReal * k)) ^ 2 ↔ -(d : ℝ) < -(r.toReal * k) :=
        pow_lt_pow_iff_left₀ hd' (neg_nonneg.mpr hle) two_ne_zero
      rw [neg_sq, neg_sq, hsq, neg_lt_neg_iff] at hpow
      rw [or_iff_right (not_lt.mpr hd), ← hpow]
      norm_cast

theorem ofClamped_radicand (h : 0 ≤ value) : (ofClamped value).radicand = value :=
  if_neg (not_lt.mpr h)

end SquareRoot

end CryptoTrading

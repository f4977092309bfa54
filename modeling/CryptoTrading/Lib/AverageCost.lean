import CryptoTrading.Lib.CostBasis
import Mathlib.Algebra.Order.Field.Basic
import Mathlib.Algebra.Order.Ring.Abs
import Mathlib.Tactic.FieldSimp
import Mathlib.Tactic.Linarith

/-! # Average-cost accounting

A holding has one entry price for all it holds. Adding averages the prices by volume,
reducing keeps the price and hands out a share of the fee, and a fill through zero
leaves a remainder that was entered at the fill's own price.
-/

namespace CostBasis

variable {K : Type*} [Field K] [LinearOrder K]

/-- The open volume with its entry price and the entry fee paid for it. -/
structure Holding (K : Type*) where
  volume : K
  entryPrice : K
  entryFee : K

def Holding.empty : Holding K := ⟨0, 0, 0⟩

/-- The holding after a fill; what is not larger than `dust` counts as nothing. -/
def Holding.enter (dust : K) (h : Holding K) (f : Fill K) : Holding K :=
  let volume := h.volume + f.volume
  if |volume| ≤ dust then .empty
  else if 0 ≤ h.volume * f.volume then
    { volume
      entryPrice := (h.entryPrice * h.volume + f.price * f.volume) / volume
      entryFee := h.entryFee + f.fee }
  else if |f.volume| ≤ |h.volume| then
    { volume, entryPrice := h.entryPrice, entryFee := h.entryFee * (volume / h.volume) }
  else { volume, entryPrice := f.price, entryFee := f.fee * (volume / f.volume) }

namespace Holding

variable {dust : K} {h : Holding K} {f : Fill K}

/-- The fill takes the holding through zero and leaves a remainder on the other side. -/
def Crosses (dust : K) (h : Holding K) (f : Fill K) : Prop :=
  h.volume * f.volume < 0 ∧ |h.volume| < |f.volume| ∧ dust < |h.volume + f.volume|

theorem enter_of_dust (hd : |h.volume + f.volume| ≤ dust) : h.enter dust f = .empty := if_pos hd

theorem enter_of_add (hd : dust < |h.volume + f.volume|) (hs : 0 ≤ h.volume * f.volume) :
    h.enter dust f = ⟨h.volume + f.volume,
      (h.entryPrice * h.volume + f.price * f.volume) / (h.volume + f.volume),
      h.entryFee + f.fee⟩ := by
  rw [enter, if_neg hd.not_ge, if_pos hs]

theorem enter_of_reduce (hd : dust < |h.volume + f.volume|) (hs : h.volume * f.volume < 0)
    (hle : |f.volume| ≤ |h.volume|) :
    h.enter dust f = ⟨h.volume + f.volume, h.entryPrice,
      h.entryFee * ((h.volume + f.volume) / h.volume)⟩ := by
  rw [enter, if_neg hd.not_ge, if_neg hs.not_ge, if_pos hle]

theorem enter_of_crosses (hc : h.Crosses dust f) :
    h.enter dust f = ⟨h.volume + f.volume, f.price,
      f.fee * ((h.volume + f.volume) / f.volume)⟩ := by
  obtain ⟨hs, hlt, hd⟩ := hc
  rw [enter, if_neg hd.not_ge, if_neg hs.not_ge, if_neg hlt.not_ge]

theorem enter_volume :
    (h.enter dust f).volume =
      if |h.volume + f.volume| ≤ dust then 0 else h.volume + f.volume := by
  simp only [enter]
  split_ifs <;> rfl

section Remainder

variable [IsStrictOrderedRing K] {a b : K}

theorem remainder_eq (hs : a * b < 0) : (a + b) / a = 1 - |b| / |a| := by
  have ha : a ≠ 0 := left_ne_zero_of_mul hs.ne
  have hb : |b| / |a| = -(b / a) := by
    rw [← abs_div, ← mul_div_mul_left b a ha]
    exact abs_of_nonpos (div_nonpos_of_nonpos_of_nonneg hs.le (mul_self_nonneg a))
  rw [hb, add_div, div_self ha]
  ring

theorem remainder_nonneg (hs : a * b < 0) (hle : |b| ≤ |a|) : 0 ≤ (a + b) / a := by
  rw [remainder_eq hs]
  exact sub_nonneg.mpr (div_le_one_of_le₀ hle (abs_nonneg a))

theorem remainder_neg (hs : a * b < 0) (hlt : |a| < |b|) : (a + b) / a < 0 := by
  have ha : 0 < |a| := abs_pos.mpr (left_ne_zero_of_mul hs.ne)
  rw [remainder_eq hs]
  exact sub_neg.mpr ((one_lt_div ha).mpr hlt)

theorem remainder_pos (hs : a * b < 0) (hlt : |b| < |a|) : 0 < (a + b) / a := by
  have ha : 0 < |a| := abs_pos.mpr (left_ne_zero_of_mul hs.ne)
  rw [remainder_eq hs]
  exact sub_pos.mpr ((div_lt_one ha).mpr hlt)

/-- No part of a nonnegative fee is handed out twice. -/
theorem enter_entryFee_nonneg (hh : 0 ≤ h.entryFee) (hf : 0 ≤ f.fee) :
    0 ≤ (h.enter dust f).entryFee := by
  rcases le_or_gt |h.volume + f.volume| dust with hd | hd
  · rw [enter_of_dust hd]
    exact le_rfl
  rcases le_or_gt 0 (h.volume * f.volume) with hs | hs
  · rw [enter_of_add hd hs]
    exact add_nonneg hh hf
  rcases le_or_gt |f.volume| |h.volume| with hle | hlt
  · rw [enter_of_reduce hd hs hle]
    exact mul_nonneg hh (remainder_nonneg hs hle)
  · rw [enter_of_crosses ⟨hs, hlt, hd⟩]
    have := remainder_nonneg (mul_comm h.volume f.volume ▸ hs) hlt.le
    exact mul_nonneg hf (add_comm f.volume h.volume ▸ this)

end Remainder

end Holding

end CostBasis

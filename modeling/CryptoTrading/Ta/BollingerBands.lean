import CryptoTrading.Ta.StandardDeviation
import CryptoTrading.Ta.TimeWeightedMovingAverage

/-! # Bollinger bands

They lie a multiple of the standard deviation above and below a moving average. The deviation
is irrational, so the bands are kept by its radicand, and a price is compared with them exactly.
-/

namespace CryptoTrading

open Runs

structure BollingerBandsValue where
  trend : ℚ
  standardDeviation : SquareRoot
  stdDeviationCoefficient : ℚ
  deriving DecidableEq

namespace BollingerBandsValue

variable (b : BollingerBandsValue) (price : ℚ)

noncomputable def upperBand : ℝ := b.trend + b.standardDeviation.toReal * b.stdDeviationCoefficient

noncomputable def lowerBand : ℝ := b.trend - b.standardDeviation.toReal * b.stdDeviationCoefficient

def AboveUpper : Prop := b.standardDeviation.ScaledLt b.stdDeviationCoefficient (price - b.trend)

def BelowLower : Prop := b.standardDeviation.ScaledLt b.stdDeviationCoefficient (b.trend - price)

instance : Decidable (b.AboveUpper price) := inferInstanceAs (Decidable (SquareRoot.ScaledLt ..))

instance : Decidable (b.BelowLower price) := inferInstanceAs (Decidable (SquareRoot.ScaledLt ..))

variable {b price}

theorem aboveUpper_iff : b.AboveUpper price ↔ b.upperBand < price := by
  rw [AboveUpper, SquareRoot.scaledLt_iff, Rat.cast_sub, lt_sub_iff_add_lt', upperBand]

theorem belowLower_iff : b.BelowLower price ↔ (price : ℝ) < b.lowerBand := by
  rw [BelowLower, SquareRoot.scaledLt_iff, Rat.cast_sub, lt_sub_comm, lowerBand]

theorem AboveUpper.trend_lt (h : b.AboveUpper price) (hcoef : 0 ≤ b.stdDeviationCoefficient) :
    b.trend < price := by
  rcases h with ⟨-, hd, -⟩ | ⟨hneg, -⟩
  · exact sub_pos.mp hd
  · exact absurd hcoef hneg.not_ge

theorem BelowLower.lt_trend (h : b.BelowLower price) (hcoef : 0 ≤ b.stdDeviationCoefficient) :
    price < b.trend := by
  rcases h with ⟨-, hd, -⟩ | ⟨hneg, -⟩
  · exact sub_pos.mp hd
  · exact absurd hcoef hneg.not_ge

end BollingerBandsValue

structure BollingerBands where
  stdDeviationCoefficient : ℚ
  standardDeviation : StandardDeviation
  trend : TimeWeightedMovingAverage
  deriving DecidableEq

namespace BollingerBands

def new (interval : Milliseconds) (stdDeviationCoefficient : ℚ) : BollingerBands where
  stdDeviationCoefficient := stdDeviationCoefficient
  standardDeviation := .new interval
  trend := .new interval

variable (m : BollingerBands)

def pushValue (ts : Milliseconds) (price : ℚ) : BollingerBands × Option BollingerBandsValue :=
  let (standardDeviation, currentStandardDeviation) := m.standardDeviation.pushValue ts price
  let (currentTrend, trend) := m.trend.pushValue ts price
  let m := { m with standardDeviation, trend }
  match currentStandardDeviation, currentTrend with
  | some currentStandardDeviation, some currentTrend =>
    (m, some ⟨currentTrend, currentStandardDeviation, m.stdDeviationCoefficient⟩)
  | _, _ => (m, none)

variable {m} {ts : Milliseconds} {price : ℚ} {b : BollingerBandsValue}

theorem pushValue_fst : (m.pushValue ts price).1 =
    { m with
      standardDeviation := (m.standardDeviation.pushValue ts price).1
      trend := (m.trend.pushValue ts price).2 } := by
  unfold pushValue
  rcases m.standardDeviation.pushValue ts price with ⟨deviation, _ | value⟩ <;>
    rcases m.trend.pushValue ts price with ⟨_ | average, trend⟩ <;> rfl

theorem pushValue_snd_eq_some_iff : (m.pushValue ts price).2 = some b ↔
    (m.trend.pushValue ts price).1 = some b.trend ∧
      (m.standardDeviation.pushValue ts price).2 = some b.standardDeviation ∧
      m.stdDeviationCoefficient = b.stdDeviationCoefficient := by
  obtain ⟨trend, deviation, coefficient⟩ := b
  unfold pushValue
  rcases m.standardDeviation.pushValue ts price with ⟨_, _ | value⟩ <;>
    rcases m.trend.pushValue ts price with ⟨_ | average, _⟩ <;> simp

end BollingerBands

end CryptoTrading

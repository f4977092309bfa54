import CryptoTrading.MarketData.CandleBuilder
import CryptoTrading.Primitives.Order
import CryptoTrading.Strategy.GridLevels
import CryptoTrading.Ta.TimeWeightedMovingAverage
import Mathlib.Data.List.AList

/-! # The dynamic grid strategy

The levels of the grid lie around a moving average of the close prices. A candle that
closes in a level without an order asks for one, against the trend's side; its exits lie
strictly beyond the price at which it was filled, on either side.
-/

namespace CryptoTrading

structure DynamicGridStrategyConfig where
  timeframe : Milliseconds
  interval : ℕ
  levelsPerSide : UInt32
  /-- To the end of the last level. -/
  priceRadiusPerc : ℚ
  deriving DecidableEq

def DynamicGridStrategyConfig.getOneLevelWidth (c : DynamicGridStrategyConfig) (refPrice : ℚ) : ℚ :=
  let priceRadius := c.priceRadiusPerc * (1 / 100) * refPrice
  priceRadius / c.levelsPerSide.toNat

/-- `int(m_levels_per_side + 1)`, of an unsigned sum that wraps around. -/
def DynamicGridStrategyConfig.topLevel (c : DynamicGridStrategyConfig) : ℤ :=
  (c.levelsPerSide + 1).toInt32.toInt

/-- The orders of a level, each with the guid of a shared object. -/
structure Level where
  levelNum : ℤ
  marketOrder : Guid
  takeProfit : Option Guid := none
  stopLoss : Option Guid := none
  deriving DecidableEq

structure TpSlPrices where
  takeProfitPrice : ℚ
  stopLossPrice : ℚ
  deriving DecidableEq

structure DynamicGridStrategy where
  config : DynamicGridStrategyConfig
  trend : TimeWeightedMovingAverage
  lastTrendValue : ℚ
  ordersByLevels : AList fun _ : ℤ => Level

namespace DynamicGridStrategy

/-- `m_pos_currency_amount`. -/
def posCurrencyAmount : ℚ := 100

def init (config : DynamicGridStrategyConfig) : DynamicGridStrategy where
  config := config
  trend := .new (config.interval * config.timeframe)
  lastTrendValue := 0
  ordersByLevels := ∅

variable (s : DynamicGridStrategy)

def levelWidth : ℚ := s.config.getOneLevelWidth s.lastTrendValue

def getLevelNumber (price : ℚ) : ℤ := GridLevels.getLevelNumber price s.lastTrendValue s.levelWidth

def getPriceFromLevelNumber (levelNum : ℤ) : ℚ :=
  GridLevels.getPriceFromLevelNumber levelNum s.lastTrendValue s.levelWidth

/-- The first part of `push_candle`, which goes on when the trend has a value. -/
def pushTrend (ts : Milliseconds) (price : ℚ) : DynamicGridStrategy × Bool :=
  match s.trend.pushValue ts price with
  | (some v, trend) => ({ s with trend, lastTrendValue := v }, true)
  | (none, trend) => ({ s with trend }, false)

def entrySide (priceLevel : ℤ) : Side := if 0 < priceLevel then .sell else .buy

/-- The level and the size of the order that `push_candle` sends at this price, if any. -/
def entryFor (price : ℚ) : Option (ℤ × UnsignedVolume) :=
  let priceLevel := s.getLevelNumber price
  if priceLevel = 0 then none
  else if s.config.levelsPerSide.toNat ≤ priceLevel.natAbs then none
  else if priceLevel ∈ s.ordersByLevels then none
  else (UnsignedVolume.from? (posCurrencyAmount / price)).map (priceLevel, ·)

def calcTpSlPrices (orderPrice : ℚ) (side : Side) : TpSlPrices :=
  let currentLevel := s.getLevelNumber orderPrice
  let tpLevel := currentLevel + side.sign
  -- Top of the last level. The product is exact, also for the least `int`, whose negation
  -- overflows.
  let topLevel := s.config.topLevel
  let sign := -1 * side.sign
  { takeProfitPrice := s.getPriceFromLevelNumber tpLevel
    stopLossPrice := (topLevel * sign : ℤ) * s.levelWidth + orderPrice }

variable {s} {price : ℚ}

theorem pushTrend_ordersByLevels (ts : Milliseconds) (price : ℚ) :
    (s.pushTrend ts price).1.ordersByLevels = s.ordersByLevels := by
  unfold pushTrend
  split <;> rfl

theorem pushTrend_config (ts : Milliseconds) (price : ℚ) :
    (s.pushTrend ts price).1.config = s.config := by
  unfold pushTrend
  split <;> rfl

theorem pushTrend_levelWidth {ts : Milliseconds} (h : (s.pushTrend ts price).2 = false) :
    (s.pushTrend ts price).1.levelWidth = s.levelWidth := by
  unfold pushTrend at h ⊢
  split
  case h_1 hv =>
    rw [hv] at h
    cases h
  case h_2 => rfl

theorem lookup_of_entryFor {level : ℤ} {size : UnsignedVolume}
    (h : s.entryFor price = some (level, size)) : s.ordersByLevels.lookup level = none := by
  simp only [entryFor] at h
  split at h
  · cases h
  · split at h
    · cases h
    · split at h
      case isTrue => cases h
      case isFalse hmem =>
        obtain ⟨_, -, heq⟩ := Option.map_eq_some_iff.mp h
        obtain ⟨rfl, -⟩ := Prod.mk.inj heq
        exact AList.lookup_eq_none.mpr hmem

theorem takeProfitPrice_beyond (price : ℚ) (hw : 0 < s.levelWidth) :
    price < (s.calcTpSlPrices price .buy).takeProfitPrice ∧
      (s.calcTpSlPrices price .sell).takeProfitPrice < price :=
  ⟨(GridLevels.price_between hw).2, (GridLevels.price_between hw).1⟩

/-- Whether the stop losses lie behind the price is up to the sign of the top level. -/
theorem stopLossPrice_behind_iff (price : ℚ) (hw : 0 < s.levelWidth) :
    ((s.calcTpSlPrices price .buy).stopLossPrice < price ↔ 0 < s.config.topLevel) ∧
      (price < (s.calcTpSlPrices price .sell).stopLossPrice ↔ 0 < s.config.topLevel) := by
  have hpos : 0 < (s.config.topLevel : ℚ) * s.levelWidth ↔ 0 < s.config.topLevel := by
    rw [mul_pos_iff_of_pos_right hw, Int.cast_pos]
  simp only [calcTpSlPrices, Side.sign_buy, Side.sign_sell]
  push_cast
  constructor <;> rw [← hpos] <;> constructor <;> intro h <;> linarith

end DynamicGridStrategy

end CryptoTrading

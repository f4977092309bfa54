import CryptoTrading.Gateway.Backtest
import CryptoTrading.Lib.Follower
import Mathlib.Tactic.LinearCombination

/-! # The trailing stop of the backtest gateway

Prices taken with the sign of the position's side, it follows the best price, and it is
crossed by a price below its level.
-/

namespace CryptoTrading

theorem Side.sign_opposite (side : Side) : side.opposite.sign = -side.sign := by
  cases side <;> rfl

theorem Side.sign_mul_self_rat (side : Side) : (side.sign : ℚ) * side.sign = 1 := by
  exact_mod_cast side.sign_mul_self

namespace BacktestTrailingStopLoss

variable {b b' : BacktestTrailingStopLoss} {side : Side} {f g : Follower ℚ} {v : SignedVolume}
  {tsl : TrailingStopLoss} {price : ℚ}

structure Follows (b : BacktestTrailingStopLoss) (posSide : Side) (f : Follower ℚ) : Prop where
  distance : b.trailingStop.priceDistance = f.distance
  side : b.trailingStop.side = posSide.opposite
  level : b.currentStopLoss.stopPrice * (posSide.sign : ℚ) = f.level

/-- The stop is as close to the prices of this side as the other one, or closer. -/
def AtLeast (b' b : BacktestTrailingStopLoss) (posSide : Side) : Prop :=
  match posSide with
  | .buy => b.currentStopLoss.stopPrice ≤ b'.currentStopLoss.stopPrice
  | .sell => b'.currentStopLoss.stopPrice ≤ b.currentStopLoss.stopPrice

instance (b' b : BacktestTrailingStopLoss) (side : Side) : Decidable (b'.AtLeast b side) := by
  cases side <;> unfold AtLeast <;> infer_instance

theorem atLeast_iff : b'.AtLeast b side ↔
    b.currentStopLoss.stopPrice * (side.sign : ℚ) ≤
      b'.currentStopLoss.stopPrice * (side.sign : ℚ) := by
  cases side <;> simp [AtLeast]

theorem Follows.atLeast (h : b.Follows side f) (h' : b'.Follows side g)
    (hlevel : f.level ≤ g.level) : b'.AtLeast b side := by
  rwa [atLeast_iff, h.level, h'.level]

theorem sign_mul_new_stop (hside : tsl.side = side.opposite) (price : ℚ) :
    (price + tsl.priceDistance * (tsl.side.sign : ℚ)) * (side.sign : ℚ) =
      price * side.sign - tsl.priceDistance := by
  rw [hside, Side.sign_opposite]
  push_cast
  linear_combination (-tsl.priceDistance) * side.sign_mul_self_rat

theorem follows_new (hside : tsl.side = side.opposite) (price : ℚ) :
    ∃ b, new price tsl = some b ∧ b.Follows side ⟨price * side.sign, tsl.priceDistance⟩ :=
  ⟨_, rfl, rfl, hside, sign_mul_new_stop hside price⟩

theorem calcNewStopLoss_eq (h : b.Follows side f) (price : ℚ) :
    b.trailingStop.calcNewStopLoss price (some b.currentStopLoss) =
      if f.level < price * side.sign - f.distance then
        some ⟨b.trailingStop.symbolName,
          price + b.trailingStop.priceDistance * (b.trailingStop.side.sign : ℚ),
          b.trailingStop.side⟩
      else none := by
  have hnew := sign_mul_new_stop h.side price
  rw [h.distance] at hnew
  have hsign : (b.trailingStop.side.sign : ℚ) = -side.sign := by
    rw [h.side, Side.sign_opposite]
    push_cast
    rfl
  unfold TrailingStopLoss.calcNewStopLoss
  simp only [hsign, h.distance, mul_neg, neg_le_neg_iff] at hnew ⊢
  rw [h.level, hnew]
  simp only [← not_lt, ite_not]

/-- A price pulls the stop up, leaves it, or crosses it. -/
theorem Follows.onPriceUpdated (h : b.Follows side f) (hv : v.side = side) (ts : Milliseconds)
    (price : ℚ) :
    (∃ b' sl, b.onPriceUpdated v ts price = (b', some (.inr sl)) ∧
        b'.Follows side (f.follow (price * side.sign))) ∨
      (b.onPriceUpdated v ts price = (b, none) ∧ b.Follows side (f.follow (price * side.sign))) ∨
      ∃ trade, b.onPriceUpdated v ts price = (b, some (.inl trade)) ∧
        trade.signedVolume.value = -v.value ∧ price * side.sign < f.level := by
  have hnew := calcNewStopLoss_eq h price
  by_cases hpull : f.level < price * side.sign - f.distance
  · rw [if_pos hpull] at hnew
    refine .inl ⟨_, _, onPriceUpdated_pulled hnew, h.distance, h.side, ?_⟩
    rw [Follower.level_follow_of_lt hpull, ← h.distance]
    exact sign_mul_new_stop h.side price
  · rw [if_neg hpull] at hnew
    by_cases htr : b.triggered v.side price
    · obtain ⟨trade, htrade, hvol, hside⟩ := onPriceUpdated_trade ts hnew htr
      refine .inr (.inr ⟨trade, htrade, ?_, ?_⟩)
      · rw [Trade.signedVolume, hvol, hside, SignedVolume.value_ofUnsigned_opposite]
      · rw [← h.level]
        rw [hv] at htr
        cases side <;> simpa [triggered] using htr
    · refine .inr (.inl ⟨onPriceUpdated_idle hnew htr, h.distance, h.side, ?_⟩)
      rw [Follower.level_follow_of_le (not_lt.mp hpull), h.level]

end BacktestTrailingStopLoss

def TrailingStopLossUpdatedEvent.IsMove (r : TrailingStopLossUpdatedEvent) : Prop :=
  r.rejectReason = none ∧ r.stopLoss.isSome

def TrailingStopLossUpdatedEvent.IsRemoval (r : TrailingStopLossUpdatedEvent) : Prop :=
  r.rejectReason = none ∧ r.stopLoss = none

namespace BacktestTradingGateway

variable {g : BacktestTradingGateway} {b : BacktestTrailingStopLoss} {side : Side}
  {f : Follower ℚ}

/-- There are no exits but trailing stops. -/
structure OnlyTrails (g : BacktestTradingGateway) : Prop where
  tpsl : g.tpsl = none
  stopLosses : g.stopLosses = []
  takeProfits : g.takeProfits = []

theorem OnlyTrails.onNewPrice (h : g.OnlyTrails) (ts : Milliseconds) (price : ℚ) :
    g.onNewPrice ts price = (g.setPrice ts price).checkTrailingStop ts price := by
  have htpsl : (g.setPrice ts price).checkTpsl ts price = (g.setPrice ts price, []) := by
    simp [checkTpsl, tryTradeTpsl, h.tpsl]
  have hconditionals (g : BacktestTradingGateway) (hsl : g.stopLosses = [])
      (htp : g.takeProfits = []) : g.tryTriggerConditionals ts price = (g, []) := by
    obtain ⟨⟩ := g
    subst hsl htp
    rfl
  simp only [BacktestTradingGateway.onNewPrice, beforeConditionals, htpsl, List.nil_append]
  rw [hconditionals _ (by simp [h.stopLosses]) (by simp [h.takeProfits])]
  simp

theorem OnlyTrails.onNewPrice_of_none (h : g.OnlyTrails) (hb : g.trailingStop = none)
    (ts : Milliseconds) (price : ℚ) : g.onNewPrice ts price = (g.setPrice ts price, []) := by
  rw [h.onNewPrice, checkTrailingStop, setPrice_trailingStop, hb]

def traded (g : BacktestTradingGateway) (t : Trade) : BacktestTradingGateway :=
  { g with symbol := t.symbolName, posVolume := g.posVolume + t.signedVolume }

theorem OnlyTrails.pushOrderRequest (h : g.OnlyTrails) (o : MarketOrder) :
    ∃ t r, t.price = g.lastPrice ∧ (0 ≤ t.price → 0 ≤ t.fee) ∧
      g.pushOrderRequest o = (g.traded t, [.orderResponse r, .trade t]) := by
  have hrate : 0 ≤ takerFeeRate := by norm_num [takerFeeRate]
  let t : Trade := {
    ts := o.signalTs
    symbolName := o.symbol
    orderGuid := o.guid
    price := g.lastPrice
    unsignedVolume := o.targetVolume
    side := o.side
    fee := g.lastPrice * o.targetVolume.value * takerFeeRate }
  refine ⟨t, ⟨o.symbol, o.guid, none, false⟩, rfl, fun hprice => ?_, ?_⟩
  · exact mul_nonneg (mul_nonneg hprice o.targetVolume.nonneg) hrate
  · obtain ⟨_, tpsl⟩ := g
    obtain rfl : tpsl = none := h.tpsl
    rfl

def withTrailingStop (g : BacktestTradingGateway) (b : BacktestTrailingStopLoss) :
    BacktestTradingGateway :=
  { g with trailingStop := some b }

def closed (g : BacktestTradingGateway) : BacktestTradingGateway :=
  { g with trailingStop := none, posVolume := .zero }

theorem OnlyTrails.onNewPrice_cases (h : g.OnlyTrails) (hb : g.trailingStop = some b)
    (hf : b.Follows side f) (hv : g.posVolume.side = side) (ts : Milliseconds) (price : ℚ) :
    (∃ b' es, g.onNewPrice ts price = ((g.setPrice ts price).withTrailingStop b', es) ∧
        b'.Follows side (f.follow (price * side.sign)) ∧
        ∀ e ∈ es, ∃ r, e = .trailingStopUpdated r ∧ r.IsMove) ∨
      ∃ trade r, g.onNewPrice ts price =
          ((g.setPrice ts price).closed, [.trade trade, .trailingStopUpdated r]) ∧
        r.IsRemoval ∧ trade.signedVolume.value = -g.posVolume.value ∧
        price * side.sign < f.level := by
  rw [h.onNewPrice]
  obtain ⟨b', sl, hpull, hf'⟩ | ⟨hidle, hf'⟩ | ⟨trade, htrade, hvol, hcross⟩ :=
    hf.onPriceUpdated hv ts price
  · left
    refine ⟨b', [.trailingStopUpdated ⟨sl.symbolName, some sl, ts, none⟩], ?_, hf', ?_⟩
    · simp only [checkTrailingStop, setPrice_trailingStop, hb, setPrice_posVolume, hpull]
      rfl
    · simp [TrailingStopLossUpdatedEvent.IsMove]
  · left
    refine ⟨b, [], ?_, hf', by simp⟩
    simp only [checkTrailingStop, setPrice_trailingStop, hb, setPrice_posVolume, hidle]
    rfl
  · right
    refine ⟨trade, ⟨trade.symbolName, none, ts, none⟩, ?_, ⟨rfl, rfl⟩, hvol, hcross⟩
    simp only [checkTrailingStop, setPrice_trailingStop, hb, setPrice_posVolume, htrade]
    rfl

end BacktestTradingGateway

end CryptoTrading

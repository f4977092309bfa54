import CryptoTrading.Lib.Follower
import CryptoTrading.Gateway.Backtest
import CryptoTrading.Positions.PriceLevels

/-! # The trailing stop strategies

The exit strategy asks for a trailing stop when a position is opened. Its dynamic variant
asks once more, for a closer one, as soon as the position can no longer lose.
-/

namespace CryptoTrading

structure TrailigStopLossStrategy where
  risk : ℚ
  isPosOpened : Bool := false
  activeStopLoss : Option TrailingStopLoss := none
  /-- It is subscribed to a trailing stop of the order manager. -/
  tslSub : Bool := false
  deriving DecidableEq

namespace TrailigStopLossStrategy

variable (s : TrailigStopLossStrategy)

/-- The trailing stop for a trade, given the guid that `xg::newGuid` returned. -/
def calcTrailingStop (guid : Guid) (trade : Trade) : TrailingStopLoss :=
  let entryPrice := trade.price
  let totalFee := trade.fee * 2
  let feePriceDelta := totalFee / trade.unsignedVolume.value
  let risk := entryPrice * s.risk
  let priceDelta := risk - feePriceDelta
  { guid, symbolName := trade.symbolName, priceDistance := priceDelta
    side := trade.side.opposite }

def onTrade (guid : Guid) (trade : Trade) : Option TrailingStopLoss :=
  if s.isPosOpened ∧ s.tslSub then none
  else if ¬ s.isPosOpened then none
  else some (s.calcTrailingStop guid trade)

/-- A removed stop ends the subscription. -/
def onTrailingStopUpdated (tsl : Option TrailingStopLoss) : TrailigStopLossStrategy :=
  if (tsl.bind TrailingStopLoss.activeStopLossPrice).isSome then
    { s with activeStopLoss := tsl }
  else { s with activeStopLoss := none, tslSub := false }

variable {s}

theorem subscribed_of_onTrailingStopUpdated {tsl : Option TrailingStopLoss}
    (h : (s.onTrailingStopUpdated tsl).tslSub) : s.tslSub ∧ tsl.isSome := by
  unfold onTrailingStopUpdated at h
  split at h
  next hprice =>
    refine ⟨h, ?_⟩
    cases tsl with
    | none => cases hprice
    | some stop => rfl
  next => cases h

end TrailigStopLossStrategy

structure DynamicTrailingStopLossStrategy where
  risk : ℚ
  noLossCoef : ℚ
  isPosOpened : Bool := false
  activeStopLoss : Option TrailingStopLoss := none
  /-- It is subscribed to a trailing stop of the order manager. -/
  tslSub : Bool := false
  lastPosPriceLevels : ProfitPriceLevels := .zero
  triggeredOnce : Bool := false
  deriving DecidableEq

namespace DynamicTrailingStopLossStrategy

variable (s : DynamicTrailingStopLossStrategy)

def calcTrailingStop (guid : Guid) (trade : Trade) : TrailingStopLoss :=
  let entryPrice := trade.price
  let totalFee := trade.fee * 2
  let feePriceDelta := totalFee / trade.unsignedVolume.value
  let risk := entryPrice * s.risk
  let priceDelta := risk - feePriceDelta
  { guid, symbolName := trade.symbolName, priceDistance := priceDelta
    side := trade.side.opposite }

def onTrade (guid : Guid) (trade : Trade) : Option TrailingStopLoss :=
  if s.isPosOpened ∧ s.tslSub then none
  else if ¬ s.isPosOpened then none
  else some (s.calcTrailingStop guid trade)

def onTrailingStopUpdated (tsl : Option TrailingStopLoss) : DynamicTrailingStopLossStrategy :=
  if (tsl.bind TrailingStopLoss.activeStopLossPrice).isSome then
    { s with activeStopLoss := tsl }
  else { s with activeStopLoss := none, tslSub := false }

/-- The price from which on the closer stop does not lose. -/
def noRiskTriggerPrice (stop : TrailingStopLoss) : PriceLevel :=
  s.lastPosPriceLevels.noLossPrice.add
    (stop.priceDistance * s.noLossCoef * (stop.side.opposite.sign : ℚ))

def closerStop (guid : Guid) (stop : TrailingStopLoss) : TrailingStopLoss where
  guid := guid
  symbolName := stop.symbolName
  priceDistance := stop.priceDistance * s.noLossCoef
  side := stop.side

/-- The closer trailing stop, if the price is right for it. -/
def onPriceChanged (guid : Guid) (price : ℚ) :
    DynamicTrailingStopLossStrategy × Option TrailingStopLoss :=
  match s.tslSub, s.activeStopLoss with
  | true, some stop =>
    if s.triggeredOnce then (s, none)
    else if (s.noRiskTriggerPrice stop).IsShortOf price stop.side.opposite then (s, none)
    else ({ s with triggeredOnce := true }, some (s.closerStop guid stop))
  | _, _ => ({ s with triggeredOnce := false }, none)

variable {s} {guid : Guid} {price : ℚ} {stop : TrailingStopLoss}

theorem onPriceChanged_of_active (hsub : s.tslSub) (hactive : s.activeStopLoss = some stop) :
    s.onPriceChanged guid price =
      if s.triggeredOnce then (s, none)
      else if (s.noRiskTriggerPrice stop).IsShortOf price stop.side.opposite then (s, none)
      else ({ s with triggeredOnce := true }, some (s.closerStop guid stop)) := by
  unfold onPriceChanged
  split
  case h_1 stop' _ hactive' =>
    cases hactive.symm.trans hactive'
    rfl
  case h_2 hnot => exact absurd hactive (hnot stop hsub)

end DynamicTrailingStopLossStrategy

end CryptoTrading

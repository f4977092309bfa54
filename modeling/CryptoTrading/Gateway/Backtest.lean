import CryptoTrading.Primitives.Events
import CryptoTrading.Lib.EraseLoop

/-! # The backtest trading gateway

It trades every order at the last price of its price source and keeps the exits and
conditional orders that later prices trigger.
-/

namespace CryptoTrading

open EraseLoop (loop)

def takerFeeRate : ℚ := 1 / 1000

/-- The position volume it shares with the gateway is passed in. -/
structure BacktestTrailingStopLoss where
  currentStopLoss : StopLoss
  trailingStop : TrailingStopLoss
  deriving DecidableEq

namespace BacktestTrailingStopLoss

def new (currentPrice : ℚ) (trailingStop : TrailingStopLoss) : Option BacktestTrailingStopLoss :=
  (trailingStop.calcNewStopLoss currentPrice none).map (⟨·, trailingStop⟩)

def triggered (t : BacktestTrailingStopLoss) (side : Side) (price : ℚ) : Prop :=
  match side with
  | .buy => price < t.currentStopLoss.stopPrice
  | .sell => t.currentStopLoss.stopPrice < price

instance (t : BacktestTrailingStopLoss) (side : Side) (price : ℚ) :
    Decidable (t.triggered side price) := by
  cases side <;> unfold triggered <;> infer_instance

def onPriceUpdated (t : BacktestTrailingStopLoss) (posVolume : SignedVolume) (ts : Milliseconds)
    (price : ℚ) : BacktestTrailingStopLoss × Option (Trade ⊕ StopLoss) :=
  match t.trailingStop.calcNewStopLoss price (some t.currentStopLoss) with
  | some stopLoss => ({ t with currentStopLoss := stopLoss }, some (.inr stopLoss))
  | none =>
    if t.triggered posVolume.side price then
      (t, some (.inl {
        ts
        symbolName := t.trailingStop.symbolName
        orderGuid := t.trailingStop.guid
        price := t.currentStopLoss.stopPrice
        unsignedVolume := posVolume.unsigned
        side := posVolume.side.opposite
        fee := posVolume.value * price * (posVolume.sign : ℚ) * takerFeeRate }))
    else (t, none)

variable {t : BacktestTrailingStopLoss} {v : SignedVolume} {ts : Milliseconds} {price : ℚ}

theorem onPriceUpdated_pulled {sl : StopLoss}
    (h : t.trailingStop.calcNewStopLoss price (some t.currentStopLoss) = some sl) :
    t.onPriceUpdated v ts price = ({ t with currentStopLoss := sl }, some (.inr sl)) := by
  rw [onPriceUpdated, h]

theorem onPriceUpdated_idle
    (h : t.trailingStop.calcNewStopLoss price (some t.currentStopLoss) = none)
    (htr : ¬ t.triggered v.side price) : t.onPriceUpdated v ts price = (t, none) := by
  rw [onPriceUpdated, h]
  exact if_neg htr

theorem onPriceUpdated_closed (ts : Milliseconds)
    (h : t.trailingStop.calcNewStopLoss price (some t.currentStopLoss) = none)
    (htr : t.triggered v.side price) :
    t.onPriceUpdated v ts price = (t, some (.inl {
      ts
      symbolName := t.trailingStop.symbolName
      orderGuid := t.trailingStop.guid
      price := t.currentStopLoss.stopPrice
      unsignedVolume := v.unsigned
      side := v.side.opposite
      fee := v.value * price * (v.sign : ℚ) * takerFeeRate })) := by
  rw [onPriceUpdated, h]
  exact if_pos htr

theorem onPriceUpdated_trade (ts : Milliseconds)
    (h : t.trailingStop.calcNewStopLoss price (some t.currentStopLoss) = none)
    (htr : t.triggered v.side price) :
    ∃ trade : Trade, t.onPriceUpdated v ts price = (t, some (.inl trade)) ∧
      trade.unsignedVolume = v.unsigned ∧ trade.side = v.side.opposite :=
  ⟨_, onPriceUpdated_closed ts h htr, rfl, rfl⟩

end BacktestTrailingStopLoss

structure BacktestTradingGateway where
  symbol : String
  tpsl : Option TpslRequestEvent
  lastPrice : ℚ
  lastTs : Milliseconds
  trailingStop : Option BacktestTrailingStopLoss
  posVolume : SignedVolume
  stopLosses : List ConditionalMarketOrder
  takeProfits : List ConditionalMarketOrder
  deriving DecidableEq

def stopLossTriggered (price : ℚ) (o : ConditionalMarketOrder) : Bool :=
  match o.side with
  | .sell => price ≤ o.triggerPrice
  | .buy => o.triggerPrice ≤ price

def takeProfitTriggered (price : ℚ) (o : ConditionalMarketOrder) : Bool :=
  match o.side with
  | .sell => o.triggerPrice ≤ price
  | .buy => price ≤ o.triggerPrice

namespace BacktestTradingGateway

def init : BacktestTradingGateway where
  symbol := ""
  tpsl := none
  lastPrice := 0
  lastTs := 0
  trailingStop := none
  posVolume := .zero
  stopLosses := []
  takeProfits := []

variable (g : BacktestTradingGateway)

/-- The price at which the prices of the request close the position on this side. -/
def tpslTradePrice (tpsl : TpslRequestEvent) (posSide : Side) (lastPrice : ℚ) : Option ℚ :=
  match posSide with
  | .buy =>
    if tpsl.takeProfitPrice ≤ lastPrice then some tpsl.takeProfitPrice
    else if lastPrice ≤ tpsl.stopLossPrice then some tpsl.stopLossPrice
    else none
  | .sell =>
    if lastPrice ≤ tpsl.takeProfitPrice then some tpsl.takeProfitPrice
    else if tpsl.stopLossPrice ≤ lastPrice then some tpsl.stopLossPrice
    else none

/-- The trade and the update pushed just before it. -/
def tryTradeTpsl (ts : Milliseconds) (price : ℚ) : Option (Trade × TpslUpdatedEvent) := do
  let tpsl ← g.tpsl
  let posVolume := g.posVolume.unsigned
  let posSide := g.posVolume.side
  let tradePrice ← tpslTradePrice tpsl posSide price
  let trade : Trade := {
    ts
    symbolName := g.symbol
    orderGuid := tpsl.guid
    price := tradePrice
    unsignedVolume := posVolume
    side := posSide.opposite
    fee := posVolume.value * price * takerFeeRate }
  return (trade, { symbolName := g.symbol, guid := tpsl.guid, setUp := false, triggered := true })

/-- The first part of `on_new_price`: the full-position take profit and stop loss. -/
def checkTpsl (ts : Milliseconds) (price : ℚ) : BacktestTradingGateway × List GatewayEvent :=
  match g.tryTradeTpsl ts price with
  | some (trade, updated) =>
    ({ g with posVolume := .zero, tpsl := none }, [.tpslUpdated updated, .trade trade])
  | none => (g, [])

/-- The second part of `on_new_price`: the trailing stop. -/
def checkTrailingStop (ts : Milliseconds) (price : ℚ) :
    BacktestTradingGateway × List GatewayEvent :=
  match g.trailingStop with
  | none => (g, [])
  | some trailingStop =>
    match trailingStop.onPriceUpdated g.posVolume ts price with
    | (_, some (.inl trade)) =>
      ({ g with trailingStop := none, posVolume := .zero },
        [.trade trade, .trailingStopUpdated ⟨trade.symbolName, none, ts, none⟩])
    | (trailingStop, some (.inr stopLoss)) =>
      ({ g with trailingStop := some trailingStop },
        [.trailingStopUpdated ⟨stopLoss.symbolName, some stopLoss, ts, none⟩])
    | (trailingStop, none) => ({ g with trailingStop := some trailingStop }, [])

def conditionalTrade (ts : Milliseconds) (price : ℚ) (o : ConditionalMarketOrder) : Trade where
  ts := ts
  symbolName := g.symbol
  orderGuid := o.guid
  price := o.triggerPrice
  unsignedVolume := o.targetVolume
  side := o.side
  fee := o.targetVolume.value * price * takerFeeRate

def trigger (ts : Milliseconds) (price : ℚ) (takeProfit : Bool) (o : ConditionalMarketOrder) :
    List GatewayEvent :=
  [.trade (g.conditionalTrade ts price o),
    if takeProfit then .takeProfitUpdated ⟨o.guid, false⟩ else .stopLossUpdated ⟨o.guid, false⟩]

def addTriggered (posVolume : SignedVolume) (os : List ConditionalMarketOrder) : SignedVolume :=
  os.foldl (fun v o => v + ⟨o.targetVolume.value * (o.side.sign : ℚ)⟩) posVolume

def tryTriggerConditionals (ts : Milliseconds) (price : ℚ) :
    BacktestTradingGateway × List GatewayEvent :=
  let sl := loop (stopLossTriggered price) g.stopLosses
  let tp := loop (takeProfitTriggered price) g.takeProfits
  ({ g with
    posVolume := addTriggered (addTriggered g.posVolume sl.erased) tp.erased
    stopLosses := sl.left
    takeProfits := tp.left },
    sl.erased.flatMap (g.trigger ts price false) ++ tp.erased.flatMap (g.trigger ts price true))

def setPrice (ts : Milliseconds) (price : ℚ) : BacktestTradingGateway :=
  { g with lastPrice := price, lastTs := ts }

/-- The gateway when a new price comes to the conditional orders, and what it has pushed. -/
def beforeConditionals (ts : Milliseconds) (price : ℚ) :
    BacktestTradingGateway × List GatewayEvent :=
  let (g, tpslEvents) := (g.setPrice ts price).checkTpsl ts price
  let (g, trailingEvents) := g.checkTrailingStop ts price
  (g, tpslEvents ++ trailingEvents)

def onNewPrice (ts : Milliseconds) (price : ℚ) : BacktestTradingGateway × List GatewayEvent :=
  let (g, exitEvents) := g.beforeConditionals ts price
  let (g, conditionalEvents) := g.tryTriggerConditionals ts price
  (g, exitEvents ++ conditionalEvents)

def pushOrderRequest (order : MarketOrder) : BacktestTradingGateway × List GatewayEvent :=
  let trade : Trade := {
    ts := order.signalTs
    symbolName := order.symbol
    orderGuid := order.guid
    price := g.lastPrice
    unsignedVolume := order.targetVolume
    side := order.side
    fee := g.lastPrice * order.targetVolume.value * takerFeeRate }
  let posVolume := g.posVolume + .ofUnsigned order.targetVolume order.side
  let tpslEvents : List GatewayEvent :=
    match g.tpsl with
    | some tpsl =>
      if posVolume.value = 0 then
        [.tpslUpdated {
          symbolName := order.symbol, guid := tpsl.guid, setUp := false, triggered := false }]
      else []
    | none => []
  ({ g with symbol := order.symbol, posVolume },
    [.orderResponse { symbolName := order.symbol, requestGuid := order.guid }] ++
      tpslEvents ++ [.trade trade])

def pushTpslRequest (ev : TpslRequestEvent) : BacktestTradingGateway × List GatewayEvent :=
  if g.posVolume.value = 0 then
    (g, [.tpslUpdated {
      symbolName := ev.symbol.symbolName
      guid := ev.guid
      setUp := true
      triggered := false
      rejectReason := some "can not set tp/sl/ts for zero position" }])
  else
    ({ g with tpsl := some ev },
      [.tpslUpdated {
        symbolName := ev.symbol.symbolName, guid := ev.guid, setUp := true, triggered := false }])

def pushTrailingStopRequest (ev : TrailingStopLossRequestEvent) :
    BacktestTradingGateway × List GatewayEvent :=
  let trailingStop := BacktestTrailingStopLoss.new g.lastPrice ev.trailingStopLoss
  ({ g with trailingStop },
    [.trailingStopUpdated
      ⟨g.symbol, trailingStop.map BacktestTrailingStopLoss.currentStopLoss, g.lastTs, none⟩])

def pushStopLossRequest (order : ConditionalMarketOrder) :
    BacktestTradingGateway × List GatewayEvent :=
  let (g, events) := { g with stopLosses := g.stopLosses ++ [order] }.tryTriggerConditionals
    order.signalTs g.lastPrice
  (g, .stopLossUpdated ⟨order.guid, true⟩ :: events)

def pushTakeProfitRequest (order : ConditionalMarketOrder) :
    BacktestTradingGateway × List GatewayEvent :=
  let (g, events) := { g with takeProfits := g.takeProfits ++ [order] }.tryTriggerConditionals
    order.signalTs g.lastPrice
  (g, .takeProfitUpdated ⟨order.guid, true⟩ :: events)

def cancelStopLossRequest (guid : Guid) : BacktestTradingGateway × List GatewayEvent :=
  if g.stopLosses.any (·.guid = guid) then
    ({ g with stopLosses := g.stopLosses.eraseP (·.guid = guid) },
      [.stopLossUpdated ⟨guid, false⟩])
  else (g, [])

def cancelTakeProfitRequest (guid : Guid) : BacktestTradingGateway × List GatewayEvent :=
  if g.takeProfits.any (·.guid = guid) then
    ({ g with takeProfits := g.takeProfits.eraseP (·.guid = guid) },
      [.takeProfitUpdated ⟨guid, false⟩])
  else (g, [])

end BacktestTradingGateway

inductive GatewayCall
  | newPrice (ts : Milliseconds) (price : ℚ)
  | request (r : GatewayRequest)
  deriving DecidableEq

namespace BacktestTradingGateway

def pushRequest (g : BacktestTradingGateway) :
    GatewayRequest → BacktestTradingGateway × List GatewayEvent
  | .order o => g.pushOrderRequest o
  | .tpsl ev => g.pushTpslRequest ev
  | .trailingStop ev => g.pushTrailingStopRequest ev
  | .takeProfit o => g.pushTakeProfitRequest o
  | .stopLoss o => g.pushStopLossRequest o
  | .cancelStopLoss guid => g.cancelStopLossRequest guid
  | .cancelTakeProfit guid => g.cancelTakeProfitRequest guid

def handle (g : BacktestTradingGateway) : GatewayCall → BacktestTradingGateway × List GatewayEvent
  | .newPrice ts price => g.onNewPrice ts price
  | .request r => g.pushRequest r

def step (g : BacktestTradingGateway) (c : GatewayCall) : BacktestTradingGateway := (g.handle c).1

variable {g : BacktestTradingGateway} {ts : Milliseconds} {price : ℚ}

@[simp] theorem setPrice_tpsl : (g.setPrice ts price).tpsl = g.tpsl := rfl

@[simp] theorem setPrice_trailingStop : (g.setPrice ts price).trailingStop = g.trailingStop := rfl

@[simp] theorem setPrice_posVolume : (g.setPrice ts price).posVolume = g.posVolume := rfl

@[simp] theorem setPrice_stopLosses : (g.setPrice ts price).stopLosses = g.stopLosses := rfl

@[simp] theorem setPrice_takeProfits : (g.setPrice ts price).takeProfits = g.takeProfits := rfl

@[simp] theorem checkTpsl_stopLosses : (g.checkTpsl ts price).1.stopLosses = g.stopLosses := by
  unfold checkTpsl
  split <;> rfl

@[simp] theorem checkTpsl_takeProfits : (g.checkTpsl ts price).1.takeProfits = g.takeProfits := by
  unfold checkTpsl
  split <;> rfl

@[simp] theorem checkTrailingStop_stopLosses :
    (g.checkTrailingStop ts price).1.stopLosses = g.stopLosses := by
  unfold checkTrailingStop
  split
  · rfl
  · split <;> rfl

@[simp] theorem checkTrailingStop_takeProfits :
    (g.checkTrailingStop ts price).1.takeProfits = g.takeProfits := by
  unfold checkTrailingStop
  split
  · rfl
  · split <;> rfl

@[simp] theorem checkTrailingStop_tpsl : (g.checkTrailingStop ts price).1.tpsl = g.tpsl := by
  unfold checkTrailingStop
  split
  · rfl
  · split <;> rfl

theorem beforeConditionals_stopLosses :
    (g.beforeConditionals ts price).1.stopLosses = g.stopLosses := by simp [beforeConditionals]

theorem beforeConditionals_takeProfits :
    (g.beforeConditionals ts price).1.takeProfits = g.takeProfits := by simp [beforeConditionals]

end BacktestTradingGateway

end CryptoTrading

import CryptoTrading.Engine.OrderManager
import CryptoTrading.Gateway.Exposure
import CryptoTrading.Loop.Queue
import CryptoTrading.Strategy.DynamicGrid

/-! # The dynamic grid in a backtest

The strategy, the order manager and the backtest gateway on one event loop. The price
ticks have low priority and everything that follows from them has normal priority. A
subscriber of an order's channel is unsubscribed with its level, and its queued events
are discarded.
-/

namespace CryptoTrading

open Runs

inductive OrderRole
  | market
  | exit (kind : ConditionalType)
  deriving DecidableEq

namespace OrderManager

variable (om : OrderManager)

def conditionals : ConditionalType → GuidMap ConditionalOrderChannel
  | .stopLoss => om.stopLosses
  | .takeProfit => om.takeProfits

def sendExit (kind : ConditionalType) (price : ℚ) (vol : SignedVolume) (ts : Milliseconds) :
    OrderManager × List OrderManagerOutput × Option Guid :=
  match kind with
  | .stopLoss => om.sendStopLoss price vol ts
  | .takeProfit => om.sendTakeProfit price vol ts

def cancelExit (kind : ConditionalType) (guid : Guid) : OrderManager × List OrderManagerOutput :=
  match kind with
  | .stopLoss => om.cancelStopLoss guid
  | .takeProfit => om.cancelTakeProfit guid

def setExitSubscribers (kind : ConditionalType) (guid : Guid) (count : ℕ) :
    OrderManager × List OrderManagerOutput :=
  match kind with
  | .stopLoss => om.setStopLossSubscribers guid count
  | .takeProfit => om.setTakeProfitSubscribers guid count

def updated? : GatewayEvent → Option (OrderRole × Guid)
  | .orderResponse r =>
    if r.requestGuid ∈ om.orders ∧ r.rejectReason.isSome ∧ ¬ r.retry then
      some (.market, r.requestGuid)
    else none
  | .trade t =>
    if t.orderGuid ∈ om.orders then some (.market, t.orderGuid)
    else if t.orderGuid ∈ om.takeProfits then some (.exit .takeProfit, t.orderGuid)
    else if t.orderGuid ∈ om.stopLosses then some (.exit .stopLoss, t.orderGuid)
    else none
  | .takeProfitUpdated r =>
    if r.guid ∈ om.takeProfits then some (.exit .takeProfit, r.guid) else none
  | .stopLossUpdated r => if r.guid ∈ om.stopLosses then some (.exit .stopLoss, r.guid) else none
  | _ => none

end OrderManager

namespace Level

variable (l : Level)

def exit : ConditionalType → Option Guid
  | .stopLoss => l.stopLoss
  | .takeProfit => l.takeProfit

def setExit (kind : ConditionalType) (guid : Guid) : Level :=
  match kind with
  | .stopLoss => { l with stopLoss := some guid }
  | .takeProfit => { l with takeProfit := some guid }

end Level

inductive GridEvent
  | price (ts : Milliseconds) (price : ℚ)
  | candle (ts : Milliseconds) (candle : Candle)
  | gateway (e : GatewayEvent)
  /-- An update of an order, for the strategy's subscriber of the level. -/
  | update (role : OrderRole) (guid : Guid) (level : ℤ)
  deriving DecidableEq

@[reducible] def GridEvent.priority : GridEvent → Priority
  | price .. => .low
  | _ => .normal

structure GridSystem where
  om : OrderManager
  gateway : BacktestTradingGateway
  strategy : DynamicGridStrategy
  /-- The levels of the subscribers of the orders' channels. -/
  subscriptions : GuidMap ℤ
  queue : ThreadSafePriorityQueue GridEvent
  /-- A handler threw or dereferenced a null pointer. -/
  failed : Bool
  /-- The market orders sent so far, each with its level. -/
  sent : List (ℤ × Guid)
  /-- The exits sent so far, each behind its market order. -/
  exits : List (Guid × Guid)
  /-- All trades of the gateway. -/
  traded : List Trade

inductive GridStep
  | price (ts : Milliseconds) (price : ℚ)
  /-- The loop handles the next event; a price may complete candles. -/
  | run (candles : List (Milliseconds × Candle))
  deriving DecidableEq

namespace GridSystem

def init (symbol : Symbol) (config : DynamicGridStrategyConfig) : GridSystem where
  om := .init symbol
  gateway := .init
  strategy := .init config
  subscriptions := ∅
  queue := .empty
  failed := false
  sent := []
  exits := []
  traded := []

variable (s : GridSystem)

def push (e : GridEvent) : GridSystem := { s with queue := s.queue.push e.priority e }

def pushAll (es : List GridEvent) : GridSystem := es.foldl push s

def callGateway (c : GatewayCall) : GridSystem :=
  { s with
    gateway := s.gateway.step c
    traded := s.traded ++ s.gateway.trades c }.pushAll ((s.gateway.handle c).2.map .gateway)

def request (out : List OrderManagerOutput) : GridSystem :=
  out.foldl (fun s x =>
    match x with
    | .request r => s.callGateway (.request r)
    | .error _ => s) s

/-- The update of an order's channel, which has one subscriber at most. -/
def notify (role : OrderRole) (guid : Guid) : GridSystem :=
  match s.subscriptions.lookup guid with
  | some level => s.push (.update role guid level)
  | none => s

def subscribe (role : OrderRole) (guid : Guid) (level : ℤ) : GridSystem :=
  let s := { s with subscriptions := s.subscriptions.insert guid level }
  match role with
  | .market => { s with om := s.om.setSubscribers guid 1 }
  | .exit kind =>
    let (om, out) := s.om.setExitSubscribers kind guid 1
    { s with om }.request out

def unsubscribe (role : OrderRole) (guid : Guid) : GridSystem :=
  let s := { s with subscriptions := s.subscriptions.erase guid }
  let s :=
    match role with
    | .market => { s with om := s.om.setSubscribers guid 0 }
    | .exit kind =>
      let (om, out) := s.om.setExitSubscribers kind guid 0
      { s with om }.request out
  { s with
    queue := s.queue.discardEvents fun
      | .update _ guid' _ => guid' = guid
      | _ => false }

/-- `send_market_order`, the subscription to its channel and the new level. -/
def sendEntry (level : ℤ) (price : ℚ) (vol : SignedVolume) (ts : Milliseconds) : GridSystem :=
  match s.om.sendMarketOrder price vol ts with
  | (om, _, none) => { s with om, failed := true }
  | (om, out, some guid) =>
    let s := ({ s with om }.request out).subscribe .market guid level
    { s with
      strategy.ordersByLevels := s.strategy.ordersByLevels.insert level
        { levelNum := level, marketOrder := guid }
      sent := s.sent ++ [(level, guid)] }

def pushCandle (ts : Milliseconds) (candle : Candle) : GridSystem :=
  let price := candle.close
  let (strategy, hasValue) := s.strategy.pushTrend ts price
  let s := { s with strategy }
  if hasValue then
    match s.strategy.entryFor price with
    | some (level, size) =>
      s.sendEntry level price (.ofUnsigned size (DynamicGridStrategy.entrySide level)) ts
    | none => s
  else s

def sendExit (kind : ConditionalType) (l : Level) (price : ℚ) (vol : SignedVolume)
    (ts : Milliseconds) : GridSystem :=
  match s.om.sendExit kind price vol ts with
  | (om, _, none) => { s with om, failed := true }
  | (om, out, some guid) =>
    let s := ({ s with om }.request out).subscribe (.exit kind) guid l.levelNum
    { s with
      strategy.ordersByLevels := s.strategy.ordersByLevels.insert l.levelNum (l.setExit kind guid)
      exits := s.exits ++ [(l.marketOrder, guid)] }

/-- Nothing is sent after the first exit has thrown. -/
def onOrderTraded (order : MarketOrder) (priceLevel : ℤ) : GridSystem :=
  match s.strategy.ordersByLevels.lookup priceLevel with
  | none => s
  | some l =>
    if l.takeProfit.isSome ∨ l.stopLoss.isSome then s
    else
      let prices := s.strategy.calcTpSlPrices order.price order.side
      let vol := SignedVolume.ofUnsigned order.filledVolume order.side.opposite
      let s := s.sendExit .takeProfit l prices.takeProfitPrice vol order.signalTs
      if s.failed then s
      else
        match s.strategy.ordersByLevels.lookup priceLevel with
        | none => s
        | some l => s.sendExit .stopLoss l prices.stopLossPrice vol order.signalTs

def cancelExit (kind : ConditionalType) (guid : Guid) : GridSystem :=
  let s := if guid ∈ s.om.conditionals kind then s.notify (.exit kind) guid else s
  let (om, out) := s.om.cancelExit kind guid
  { s with om }.request out

/-- The members of the level are destroyed in the reverse order of their declaration. -/
def eraseLevel (l : Level) : GridSystem :=
  let s := { s with strategy.ordersByLevels := s.strategy.ordersByLevels.erase l.levelNum }
  let s := l.stopLoss.elim s (s.unsubscribe (.exit .stopLoss))
  let s := l.takeProfit.elim s (s.unsubscribe (.exit .takeProfit))
  s.unsubscribe .market l.marketOrder

/-- `on_take_profit_traded` and `on_stop_loss_traded`: the other exit is cancelled. -/
def onExitTraded (kind : ConditionalType) (priceLevel : ℤ) : GridSystem :=
  match s.strategy.ordersByLevels.lookup priceLevel with
  | none => s
  | some l =>
    match l.exit kind.other with
    | none => { s with failed := true }
    | some guid => (s.cancelExit kind.other guid).eraseLevel l

def onTakeProfitTraded (priceLevel : ℤ) : GridSystem := s.onExitTraded .takeProfit priceLevel

def onStopLossTraded (priceLevel : ℤ) : GridSystem := s.onExitTraded .stopLoss priceLevel

/-- A subscriber reads the order as it is by now. It outlives the entry of the order in the
maps of the order manager by no event. -/
def onUpdate (role : OrderRole) (guid : Guid) (level : ℤ) : GridSystem :=
  match role with
  | .market =>
    match s.om.marketOrders.lookup guid with
    | some order => if order.status = .filled then s.onOrderTraded order level else s
    | none => s
  | .exit kind =>
    match (s.om.conditionals kind).lookup guid with
    | some ch =>
      if ch.order.status = .filled then
        match kind with
        | .takeProfit => s.onTakeProfitTraded level
        | .stopLoss => s.onStopLossTraded level
      else s
    | none => s

def onGatewayEvent (e : GatewayEvent) : GridSystem :=
  let s' := { s with om := s.om.step e }
  match s.om.updated? e with
  | some (role, guid) => s'.notify role guid
  | none => s'

def handleEvent (candles : List (Milliseconds × Candle)) : GridEvent → GridSystem
  | .price ts price =>
    (s.callGateway (.newPrice ts price)).pushAll (candles.map fun (ts, c) => .candle ts c)
  | .candle ts candle => s.pushCandle ts candle
  | .gateway e => s.onGatewayEvent e
  | .update role guid level => s.onUpdate role guid level

def next? : Option (GridEvent × GridSystem) :=
  s.queue.waitAndPop.map fun (e, queue) => (e, { s with queue })

def advance : GridStep → GridSystem
  | .price ts price => s.push (.price ts price)
  | .run candles =>
    match s.next? with
    | some (e, s') => s'.handleEvent candles e
    | none => s

/-- A process that has failed does nothing. -/
def step (x : GridStep) : GridSystem := if s.failed then s else s.advance x

def handling? : GridStep → Option GridEvent
  | .run _ => if s.failed then none else s.next?.map Prod.fst
  | .price .. => none

end GridSystem

end CryptoTrading

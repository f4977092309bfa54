import CryptoTrading.Engine.Calls
import CryptoTrading.Positions.Manager
import CryptoTrading.Strategy.TrailingStop

/-! # An instance with a dynamic trailing stop

The loop of an instance in a backtest, as far as its normal priority goes: the gateway's
events are for the order manager, their trades for the instance too, and what these push
is for the exit strategy. A price is handled only when nothing else is queued.
-/

namespace CryptoTrading

open Runs

inductive TrailingStopEvent
  | priceChanged (ts : Milliseconds) (price : ℚ)
  | gateway (e : GatewayEvent)
  | trade (t : Trade)
  | priceLevels (levels : ProfitPriceLevels)
  | openedPos (v : Bool)
  | exitTrade (t : Trade)
  /-- The order manager's trailing stop, for the exit strategy. -/
  | trailingStopUpdated (tsl : Option TrailingStopLoss)
  deriving DecidableEq

namespace TrailingStopEvent

def ofGateway : GatewayEvent → List TrailingStopEvent
  | .trade t => [gateway (.trade t), trade t]
  | e => [gateway e]

/-- What the instance pushes after a trade that left the position manager like this. -/
def ofPosition (m : PositionManager) (t : Trade) : List TrailingStopEvent :=
  (m.openedPosition.toList.map fun pos => priceLevels pos.priceLevels) ++
    [openedPos m.openedPosition.isSome, exitTrade t]

def isTrailingStopUpdated : TrailingStopEvent → Bool
  | trailingStopUpdated _ => true
  | _ => false

end TrailingStopEvent

structure TrailingStopSystem where
  gateway : BacktestTradingGateway
  om : OrderManager
  positionManager : PositionManager
  strategy : DynamicTrailingStopLossStrategy
  queue : List TrailingStopEvent
  /-- The closer stops that were asked for since the last entry. -/
  tightenings : ℕ

inductive TrailingStopStep
  | price (ts : Milliseconds) (price : ℚ)
  /-- The entry strategy sends an order. -/
  | enter (price : ℚ) (vol : SignedVolume) (ts : Milliseconds)
  | run
  deriving DecidableEq

namespace TrailingStopSystem

def init (symbol : Symbol) (risk noLossCoef : ℚ) : TrailingStopSystem where
  gateway := .init
  om := .init symbol
  positionManager := .init
  strategy := { risk, noLossCoef }
  queue := []
  tightenings := 0

variable (s : TrailingStopSystem)

def callGateway (c : GatewayCall) : TrailingStopSystem :=
  { s with
    gateway := s.gateway.step c
    queue := s.queue ++ (s.gateway.handle c).2.flatMap TrailingStopEvent.ofGateway }

def request (out : List OrderManagerOutput) : TrailingStopSystem :=
  (out.filterMap OrderManagerOutput.request?).foldl (fun s r => s.callGateway (.request r)) s

/-- The strategy asks for a trailing stop and subscribes to it. The events for its old
subscription are discarded. -/
def sendTrailingStop (tsl : TrailingStopLoss) : TrailingStopSystem :=
  let (om, out) := { s.om with nextGuid := s.om.nextGuid + 1 }.sendTrailingStop tsl
  let s := { s with om }.request out
  { s with
    strategy.tslSub := true
    queue := s.queue.filter (! ·.isTrailingStopUpdated) }

def handlePriceChanged (price : ℚ) : TrailingStopSystem :=
  match s.strategy.onPriceChanged s.om.nextGuid price with
  | (strategy, none) => { s with strategy }
  | (strategy, some tsl) =>
    { { s with strategy }.sendTrailingStop tsl with tightenings := s.tightenings + 1 }

def handleGateway (e : GatewayEvent) : TrailingStopSystem :=
  let om := s.om.step e
  let updates :=
    match e with
    | .trailingStopUpdated r =>
      if r.rejectReason = none ∧ s.om.trailingStop.isSome ∧ s.strategy.tslSub then
        [TrailingStopEvent.trailingStopUpdated om.trailingStop]
      else []
    | _ => []
  { s with om, queue := s.queue ++ updates }

def handleTrade (t : Trade) : TrailingStopSystem :=
  let positionManager := s.positionManager.step t
  { s with positionManager, queue := s.queue ++ TrailingStopEvent.ofPosition positionManager t }

def handleExitTrade (t : Trade) : TrailingStopSystem :=
  match s.strategy.onTrade s.om.nextGuid t with
  | none => s
  | some tsl => s.sendTrailingStop tsl

def handleTrailingStopUpdated (tsl : Option TrailingStopLoss) : TrailingStopSystem :=
  let strategy := s.strategy.onTrailingStopUpdated tsl
  { s with
    strategy
    queue := if strategy.tslSub then s.queue else s.queue.filter (! ·.isTrailingStopUpdated) }

def handle : TrailingStopEvent → TrailingStopSystem
  | .priceChanged _ price => s.handlePriceChanged price
  | .gateway e => s.handleGateway e
  | .trade t => s.handleTrade t
  | .priceLevels levels => { s with strategy.lastPosPriceLevels := levels }
  | .openedPos v => { s with strategy.isPosOpened := v }
  | .exitTrade t => s.handleExitTrade t
  | .trailingStopUpdated tsl => s.handleTrailingStopUpdated tsl

def enter (price : ℚ) (vol : SignedVolume) (ts : Milliseconds) : TrailingStopSystem :=
  let (om, out, guid) := s.om.sendMarketOrder price vol ts
  { { s with om }.request out with tightenings := if guid.isSome then 0 else s.tightenings }

/-- The strategy is told of a price before the gateway's events for it. -/
def handlePrice (ts : Milliseconds) (price : ℚ) : TrailingStopSystem :=
  { s with queue := s.queue ++ [TrailingStopEvent.priceChanged ts price] }.callGateway
    (.newPrice ts price)

def step : TrailingStopStep → TrailingStopSystem
  | .price ts price => if s.queue = [] then s.handlePrice ts price else s
  | .enter price vol ts => s.enter price vol ts
  | .run =>
    match s.queue with
    | [] => s
    | e :: queue => { s with queue }.handle e

end TrailingStopSystem

end CryptoTrading

import CryptoTrading.Primitives.Order

/-! # Events between the gateway and its users -/

namespace CryptoTrading

structure OrderResponseEvent where
  symbolName : String
  requestGuid : Guid
  rejectReason : Option String := none
  retry : Bool := false
  deriving DecidableEq

structure TpslUpdatedEvent where
  symbolName : String
  guid : Guid
  setUp : Bool
  triggered : Bool
  rejectReason : Option String := none
  deriving DecidableEq

/-- `StopLossUpdatedEvent` and `TakeProfitUpdatedEvent`. -/
structure ConditionalOrderUpdateEvent where
  guid : Guid
  active : Bool
  deriving DecidableEq

structure TpslRequestEvent where
  symbol : Symbol
  takeProfitPrice : ℚ
  stopLossPrice : ℚ
  guid : Guid
  deriving DecidableEq

structure TrailingStopLossUpdatedEvent where
  symbolName : String
  stopLoss : Option StopLoss
  timestamp : Milliseconds
  rejectReason : Option String := none
  deriving DecidableEq

structure TrailingStopLossRequestEvent where
  symbol : Symbol
  trailingStopLoss : TrailingStopLoss
  deriving DecidableEq

inductive GatewayEvent
  | orderResponse (e : OrderResponseEvent)
  | trade (t : Trade)
  | tpslUpdated (e : TpslUpdatedEvent)
  | trailingStopUpdated (e : TrailingStopLossUpdatedEvent)
  | stopLossUpdated (e : ConditionalOrderUpdateEvent)
  | takeProfitUpdated (e : ConditionalOrderUpdateEvent)
  deriving DecidableEq

def GatewayEvent.trade? : GatewayEvent → Option Trade
  | .trade t => some t
  | _ => none

namespace GatewayEvent

@[simp] theorem trade?_trade (t : Trade) : (trade t).trade? = some t := rfl

@[simp] theorem trade?_orderResponse (r : OrderResponseEvent) :
    (orderResponse r).trade? = none := rfl

@[simp] theorem trade?_tpslUpdated (r : TpslUpdatedEvent) : (tpslUpdated r).trade? = none := rfl

@[simp] theorem trade?_trailingStopUpdated (r : TrailingStopLossUpdatedEvent) :
    (trailingStopUpdated r).trade? = none := rfl

@[simp] theorem trade?_stopLossUpdated (r : ConditionalOrderUpdateEvent) :
    (stopLossUpdated r).trade? = none := rfl

@[simp] theorem trade?_takeProfitUpdated (r : ConditionalOrderUpdateEvent) :
    (takeProfitUpdated r).trade? = none := rfl

end GatewayEvent

def GatewayEvent.orderGuid? : GatewayEvent → Option Guid
  | .orderResponse r => some r.requestGuid
  | .trade t => some t.orderGuid
  | _ => none

inductive GatewayRequest
  | order (order : MarketOrder)
  | tpsl (ev : TpslRequestEvent)
  | trailingStop (ev : TrailingStopLossRequestEvent)
  | takeProfit (order : ConditionalMarketOrder)
  | stopLoss (order : ConditionalMarketOrder)
  | cancelStopLoss (guid : Guid)
  | cancelTakeProfit (guid : Guid)
  deriving DecidableEq

end CryptoTrading

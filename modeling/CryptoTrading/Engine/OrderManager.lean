import CryptoTrading.Primitives.Events
import Mathlib.Data.List.AList

/-! # The order manager

It keeps the orders that wait for an event of the gateway, applies the gateway's
responses and trades to them, and complains about events it cannot assign.
-/

namespace CryptoTrading

abbrev GuidMap (α : Type) := AList fun _ : Guid => α

namespace GuidMap

variable {α : Type}

def modify (m : GuidMap α) (k : Guid) (f : α → α) : GuidMap α :=
  match m.lookup k with
  | some x => m.insert k (f x)
  | none => m

variable {m : GuidMap α} {k k' : Guid} {f : α → α}

@[simp] theorem lookup_modify_self : (m.modify k f).lookup k = (m.lookup k).map f := by
  unfold modify
  cases h : m.lookup k with
  | none => exact h
  | some x => exact AList.lookup_insert m

theorem lookup_modify_of_ne (h : k' ≠ k) : (m.modify k f).lookup k' = m.lookup k' := by
  unfold modify
  cases m.lookup k with
  | none => rfl
  | some x => exact AList.lookup_insert_ne h

section EraseOrInsert

variable {p : Prop} [Decidable p] {x y : α}

theorem lookup_eraseOrInsert_of_ne (h : k' ≠ k) :
    (if p then m.erase k else m.insert k x).lookup k' = m.lookup k' := by
  split
  · exact AList.lookup_erase_ne h
  · exact AList.lookup_insert_ne h

theorem eq_of_lookup_eraseOrInsert
    (h : (if p then m.erase k else m.insert k x).lookup k = some y) : ¬ p ∧ y = x := by
  split at h
  next =>
    rw [AList.lookup_erase] at h
    cases h
  next hp =>
    rw [AList.lookup_insert, Option.some.injEq] at h
    exact ⟨hp, h.symm⟩

end EraseOrInsert

@[simp] theorem mem_modify : k' ∈ m.modify k f ↔ k' ∈ m := by
  unfold modify
  cases h : m.lookup k with
  | none => rfl
  | some x =>
    have hk : k ∈ m := AList.lookup_isSome.mp (by rw [h]; rfl)
    rw [AList.mem_insert]
    constructor
    · rintro (rfl | hm)
      · exact hk
      · exact hm
    · exact Or.inr

end GuidMap

inductive OrderManagerError
  | noProperVolume (target qtyStep : ℚ)
  | zeroVolume
  | unsolicitedOrderResponse (guid : Guid)
  | unsolicitedTrade (guid : Guid)
  | noActiveTakeProfit (guid : Guid)
  | noActiveStopLoss (guid : Guid)
  | rejectedTrailingStop (reason : String)
  | unsolicitedTrailingStop
  | unsolicitedTpsl
  deriving DecidableEq

def OrderManagerError.text (number : ℚ → String) (guidStr : Guid → String) :
    OrderManagerError → String
  | noProperVolume target qtyStep =>
    "ERROR can't get proper volume on open_or_move, target_absolute_volume = " ++ number target ++
      ", qty_step = " ++ number qtyStep
  | zeroVolume => "Zero volume on market order send"
  | unsolicitedOrderResponse guid => "unsolicited OrderResponseEvent " ++ guidStr guid
  | unsolicitedTrade guid => "unsolicited TradeEvent " ++ guidStr guid
  | noActiveTakeProfit guid => "Can't find active tp on response: " ++ guidStr guid
  | noActiveStopLoss guid => "Can't find actiev sl on response: " ++ guidStr guid
  | rejectedTrailingStop reason => "Rejected tpsl: " ++ reason
  | unsolicitedTrailingStop => "Unsolicited trailing stop response"
  | unsolicitedTpsl => "Unsolicited tpsl response"

/-- The channel of a market order that waits for its response or its trade. -/
structure MarketOrderChannelWithAckInfo where
  subscribers : ℕ := 0
  acked : Bool := false
  traded : Bool := false
  deriving DecidableEq

structure ConditionalOrderChannel where
  order : ConditionalMarketOrder
  subscribers : ℕ := 0
  deriving DecidableEq

structure OrderManager where
  symbol : Symbol
  orders : GuidMap MarketOrderChannelWithAckInfo
  /-- The objects of all market orders; their users share them beyond `orders`. -/
  marketOrders : GuidMap MarketOrder
  takeProfits : GuidMap ConditionalOrderChannel
  stopLosses : GuidMap ConditionalOrderChannel
  tpsl : Option TpslFullPos
  lastTpslGuid : Option Guid
  trailingStop : Option TrailingStopLoss
  /-- What the next `xg::newGuid` returns. -/
  nextGuid : Guid

inductive OrderManagerOutput
  | request (r : GatewayRequest)
  | error (e : OrderManagerError)
  deriving DecidableEq

def OrderManagerOutput.error? : OrderManagerOutput → Option OrderManagerError
  | error e => some e
  | request _ => none

def OrderManagerOutput.order? : OrderManagerOutput → Option MarketOrder
  | request (.order order) => some order
  | _ => none

namespace OrderManager

def init (symbol : Symbol) : OrderManager where
  symbol := symbol
  orders := ∅
  marketOrders := ∅
  takeProfits := ∅
  stopLosses := ∅
  tpsl := none
  lastTpslGuid := none
  trailingStop := none
  nextGuid := Guid.first

variable (om : OrderManager)

def pendingOrders : List Guid := om.orders.keys

def adjustedVolume (vol : SignedVolume) : Except OrderManagerError SignedVolume :=
  match om.symbol.getQtyFloored vol with
  | none => .error (.noProperVolume vol.value om.symbol.lotSizeFilter.qtyStep)
  | some adjusted => if adjusted.value = 0 then .error .zeroVolume else .ok adjusted

/-- The guid of the sent order; `none` where reading the volume of an error throws. -/
def sendMarketOrder (price : ℚ) (vol : SignedVolume) (ts : Milliseconds) :
    OrderManager × List OrderManagerOutput × Option Guid :=
  match om.adjustedVolume vol with
  | .error e => (om, [.error e], none)
  | .ok adjusted =>
    let guid := om.nextGuid
    let order := MarketOrder.ofSigned guid om.symbol.symbolName price adjusted ts
    ({ om with
      orders := om.orders.insert guid {}
      marketOrders := om.marketOrders.insert guid order
      nextGuid := guid + 1 }, [.request (.order order)], some guid)

def sendConditional (type : ConditionalType) (price : ℚ) (vol : SignedVolume)
    (ts : Milliseconds) : Except OrderManagerError ConditionalMarketOrder :=
  (om.adjustedVolume vol).map fun adjusted =>
    .new om.nextGuid om.symbol.symbolName price adjusted.unsigned adjusted.side type ts

def sendTakeProfit (price : ℚ) (vol : SignedVolume) (ts : Milliseconds) :
    OrderManager × List OrderManagerOutput × Option Guid :=
  match om.sendConditional .takeProfit price vol ts with
  | .error e => (om, [.error e], none)
  | .ok order =>
    ({ om with
      takeProfits := om.takeProfits.insert order.guid ⟨order, 0⟩
      nextGuid := om.nextGuid + 1 }, [.request (.takeProfit order)], some order.guid)

def sendStopLoss (price : ℚ) (vol : SignedVolume) (ts : Milliseconds) :
    OrderManager × List OrderManagerOutput × Option Guid :=
  match om.sendConditional .stopLoss price vol ts with
  | .error e => (om, [.error e], none)
  | .ok order =>
    ({ om with
      stopLosses := om.stopLosses.insert order.guid ⟨order, 0⟩
      nextGuid := om.nextGuid + 1 }, [.request (.stopLoss order)], some order.guid)

def cancelTakeProfit (guid : Guid) : OrderManager × List OrderManagerOutput :=
  if guid ∈ om.takeProfits then
    ({ om with
      takeProfits := om.takeProfits.modify guid fun ch => { ch with order := ch.order.cancel } },
      [.request (.cancelTakeProfit guid)])
  else (om, [])

def cancelStopLoss (guid : Guid) : OrderManager × List OrderManagerOutput :=
  if guid ∈ om.stopLosses then
    ({ om with
      stopLosses := om.stopLosses.modify guid fun ch => { ch with order := ch.order.cancel } },
      [.request (.cancelStopLoss guid)])
  else (om, [])

def sendTrailingStop (trailingStop : TrailingStopLoss) :
    OrderManager × List OrderManagerOutput :=
  ({ om with trailingStop := some trailingStop },
    [.request (.trailingStop ⟨om.symbol, trailingStop⟩)])

def sendTpsl (takeProfitPrice stopLossPrice : ℚ) (side : Side) (ts : Milliseconds) :
    OrderManager × List OrderManagerOutput :=
  let guid := om.nextGuid
  ({ om with
    tpsl := some {
      symbol := om.symbol.symbolName
      guid
      signalTs := ts
      prices := ⟨takeProfitPrice, stopLossPrice⟩
      side }
    nextGuid := guid + 1 },
    [.request (.tpsl ⟨om.symbol, takeProfitPrice, stopLossPrice, guid⟩)])

/-- A change of the number of subscribers; without any left the order is erased. -/
def setSubscribers (guid : Guid) (count : ℕ) : OrderManager :=
  { om with
    orders :=
      if count = 0 then om.orders.erase guid
      else om.orders.modify guid fun mo => { mo with subscribers := count } }

/-- As for market orders, but an order that loses its last subscriber is cancelled first. -/
def setTakeProfitSubscribers (guid : Guid) (count : ℕ) :
    OrderManager × List OrderManagerOutput :=
  if count = 0 then
    let (om, events) := om.cancelTakeProfit guid
    ({ om with takeProfits := om.takeProfits.erase guid }, events)
  else
    ({ om with
      takeProfits := om.takeProfits.modify guid fun ch => { ch with subscribers := count } }, [])

def setStopLossSubscribers (guid : Guid) (count : ℕ) : OrderManager × List OrderManagerOutput :=
  if count = 0 then
    let (om, events) := om.cancelStopLoss guid
    ({ om with stopLosses := om.stopLosses.erase guid }, events)
  else
    ({ om with
      stopLosses := om.stopLosses.modify guid fun ch => { ch with subscribers := count } }, [])

def onOrderResponse (r : OrderResponseEvent) : OrderManager × List OrderManagerOutput :=
  match om.orders.lookup r.requestGuid with
  | none => (om, [.error (.unsolicitedOrderResponse r.requestGuid)])
  | some mo =>
    let marketOrders :=
      match r.rejectReason with
      | some reason =>
        if r.retry then om.marketOrders
        else om.marketOrders.modify r.requestGuid fun o => { o with rejectReason := reason }
      | none => om.marketOrders
    let orders :=
      if mo.traded then om.orders.erase r.requestGuid
      else om.orders.insert r.requestGuid { mo with acked := true }
    ({ om with orders, marketOrders }, [])

def tryTradeMarketOrder (t : Trade) : Option OrderManager :=
  (om.orders.lookup t.orderGuid).map fun mo =>
    { om with
      marketOrders := om.marketOrders.modify t.orderGuid
        (·.onTrade t.unsignedVolume t.price t.fee)
      orders :=
        if mo.subscribers = 0 ∧ mo.acked then om.orders.erase t.orderGuid
        else om.orders.insert t.orderGuid { mo with traded := true } }

def tryTradeConditional (orders : GuidMap ConditionalOrderChannel) (t : Trade) :
    Option (GuidMap ConditionalOrderChannel) :=
  (orders.lookup t.orderGuid).map fun ch =>
    if ch.subscribers = 0 then orders.erase t.orderGuid
    else orders.insert t.orderGuid
      { ch with order := ch.order.onTrade t.unsignedVolume t.price t.fee }

def tryTradeTakeProfit (t : Trade) : Option OrderManager :=
  (tryTradeConditional om.takeProfits t).map fun takeProfits => { om with takeProfits }

def tryTradeStopLoss (t : Trade) : Option OrderManager :=
  (tryTradeConditional om.stopLosses t).map fun stopLosses => { om with stopLosses }

/-- Trades of the exits of the full position belong to no order. -/
def isExitGuid (guid : Guid) : Bool :=
  om.trailingStop.any (·.guid = guid) || om.tpsl.any (·.guid = guid) ||
    om.lastTpslGuid.any (· = guid)

def onTrade (t : Trade) : OrderManager × List OrderManagerOutput :=
  match om.tryTradeMarketOrder t with
  | some om' => (om', [])
  | none =>
    match om.tryTradeTakeProfit t with
    | some om' => (om', [])
    | none =>
      match om.tryTradeStopLoss t with
      | some om' => (om', [])
      | none =>
        if om.isExitGuid t.orderGuid then (om, [])
        else (om, [.error (.unsolicitedTrade t.orderGuid)])

def onTakeProfitResponse (r : ConditionalOrderUpdateEvent) :
    OrderManager × List OrderManagerOutput :=
  if r.guid ∈ om.takeProfits then
    ({ om with
      takeProfits := om.takeProfits.modify r.guid fun ch =>
        { ch with order := ch.order.onStateChanged r.active } }, [])
  else (om, if r.active then [.error (.noActiveTakeProfit r.guid)] else [])

def onStopLossResponse (r : ConditionalOrderUpdateEvent) :
    OrderManager × List OrderManagerOutput :=
  if r.guid ∈ om.stopLosses then
    ({ om with
      stopLosses := om.stopLosses.modify r.guid fun ch =>
        { ch with order := ch.order.onStateChanged r.active } }, [])
  else (om, if r.active then [.error (.noActiveStopLoss r.guid)] else [])

def onTrailingStopResponse (r : TrailingStopLossUpdatedEvent) :
    OrderManager × List OrderManagerOutput :=
  match r.rejectReason with
  | some reason => (om, [.error (.rejectedTrailingStop reason)])
  | none =>
    match om.trailingStop, r.stopLoss with
    | none, _ => (om, [.error .unsolicitedTrailingStop])
    | some tsl, some sl =>
      ({ om with
        trailingStop := some {
          tsl with activeStopLossPrice := some sl.stopPrice, updateTs := r.timestamp } }, [])
    | some _, none => ({ om with trailingStop := none }, [])

def onTpslResponse (r : TpslUpdatedEvent) : OrderManager × List OrderManagerOutput :=
  match om.tpsl with
  | none => (om, [.error .unsolicitedTpsl])
  | some tpsl =>
    if ¬ r.setUp ∧ r.triggered then
      ({ om with lastTpslGuid := some tpsl.guid, tpsl := none }, [])
    else
      ({ om with
        tpsl := some {
          tpsl with
          acked := true
          rejectReason := r.rejectReason
          suspended := r.setUp
          triggered := r.triggered } }, [])

def onEvent : GatewayEvent → OrderManager × List OrderManagerOutput
  | .orderResponse r => om.onOrderResponse r
  | .trade t => om.onTrade t
  | .tpslUpdated r => om.onTpslResponse r
  | .trailingStopUpdated r => om.onTrailingStopResponse r
  | .stopLossUpdated r => om.onStopLossResponse r
  | .takeProfitUpdated r => om.onTakeProfitResponse r

def step (e : GatewayEvent) : OrderManager := (om.onEvent e).1

def errors (e : GatewayEvent) : List OrderManagerError :=
  (om.onEvent e).2.filterMap OrderManagerOutput.error?

variable {om} {price : ℚ} {vol adjusted : SignedVolume} {ts : Milliseconds} {guid : Guid}
  {mo : MarketOrderChannelWithAckInfo} {t : Trade} {r : OrderResponseEvent}

theorem sendMarketOrder_ok (h : om.adjustedVolume vol = .ok adjusted) :
    om.sendMarketOrder price vol ts =
      ({ om with
        orders := om.orders.insert om.nextGuid {}
        marketOrders := om.marketOrders.insert om.nextGuid
          (.ofSigned om.nextGuid om.symbol.symbolName price adjusted ts)
        nextGuid := om.nextGuid + 1 },
        [.request (.order (.ofSigned om.nextGuid om.symbol.symbolName price adjusted ts))],
        some om.nextGuid) := by
  rw [sendMarketOrder, h]

theorem sendMarketOrder_error {e : OrderManagerError} (h : om.adjustedVolume vol = .error e) :
    om.sendMarketOrder price vol ts = (om, [.error e], none) := by
  rw [sendMarketOrder, h]

theorem onOrderResponse_pending (h : om.orders.lookup r.requestGuid = some mo) :
    (om.onOrderResponse r).2 = [] ∧
      (om.onOrderResponse r).1.orders =
        if mo.traded then om.orders.erase r.requestGuid
        else om.orders.insert r.requestGuid { mo with acked := true } := by
  unfold onOrderResponse
  rw [h]
  exact ⟨rfl, rfl⟩

theorem onOrderResponse_unsolicited (h : om.orders.lookup r.requestGuid = none) :
    om.onOrderResponse r = (om, [.error (.unsolicitedOrderResponse r.requestGuid)]) := by
  rw [onOrderResponse, h]

theorem onOrderResponse_marketOrders (om : OrderManager) (h : r.rejectReason = none) :
    (om.onOrderResponse r).1.marketOrders = om.marketOrders := by
  unfold onOrderResponse
  cases om.orders.lookup r.requestGuid with
  | none => rfl
  | some mo => rw [h]

/-- A trade of a pending order is applied to it; acknowledged and without a subscriber, the
order is erased. -/
theorem onTrade_pending (h : om.orders.lookup t.orderGuid = some mo) :
    om.onTrade t =
      ({ om with
        marketOrders := om.marketOrders.modify t.orderGuid
          (·.onTrade t.unsignedVolume t.price t.fee)
        orders :=
          if mo.subscribers = 0 ∧ mo.acked then om.orders.erase t.orderGuid
          else om.orders.insert t.orderGuid { mo with traded := true } }, []) := by
  rw [onTrade, tryTradeMarketOrder, h]
  rfl

theorem onTrade_unsolicited (ho : om.orders.lookup t.orderGuid = none)
    (htp : om.takeProfits.lookup t.orderGuid = none)
    (hsl : om.stopLosses.lookup t.orderGuid = none) (hexit : om.isExitGuid t.orderGuid = false) :
    om.onTrade t = (om, [.error (.unsolicitedTrade t.orderGuid)]) := by
  rw [onTrade, tryTradeMarketOrder, ho, tryTradeTakeProfit, tryTradeConditional, htp,
    tryTradeStopLoss, tryTradeConditional, hsl]
  simp [hexit]

structure Adds (om om' : OrderManager) (o : MarketOrder) : Prop where
  guid : o.guid = om.nextGuid
  orders : om'.orders = om.orders.insert om.nextGuid {}
  nextGuid : om'.nextGuid = om.nextGuid + 1
  symbol : om'.symbol = om.symbol

theorem sendMarketOrder_cases (om : OrderManager) (price : ℚ) (vol : SignedVolume)
    (ts : Milliseconds) :
    (om.sendMarketOrder price vol ts).1 = om ∧
        (om.sendMarketOrder price vol ts).2.1.filterMap OrderManagerOutput.order? = [] ∨
      ∃ o, om.Adds (om.sendMarketOrder price vol ts).1 o ∧
        (om.sendMarketOrder price vol ts).2.1.filterMap OrderManagerOutput.order? = [o] ∧
        om.adjustedVolume vol = .ok o.signedVolume := by
  cases h : om.adjustedVolume vol with
  | error e =>
    rw [sendMarketOrder_error h]
    exact .inl ⟨rfl, rfl⟩
  | ok adjusted =>
    rw [sendMarketOrder_ok h]
    refine .inr ⟨_, ⟨rfl, rfl, rfl, rfl⟩, rfl, ?_⟩
    rw [MarketOrder.signedVolume_ofSigned]

/-- What an event can do to the pending orders: it erases or marks one of them. -/
structure ChangesPending (om om' : OrderManager) (e : GatewayEvent) : Prop where
  nextGuid : om'.nextGuid = om.nextGuid
  orders : om'.orders = om.orders ∨
    ∃ guid ∈ e.orderGuid?, guid ∈ om.orders ∧
      (om'.orders = om.orders.erase guid ∨ ∃ mo, om'.orders = om.orders.insert guid mo)

theorem step_response_cases (r : OrderResponseEvent) :
    ChangesPending om (om.step (.orderResponse r)) (.orderResponse r) := by
  simp only [step, onEvent, onOrderResponse]
  cases h : om.orders.lookup r.requestGuid with
  | none => exact ⟨rfl, .inl rfl⟩
  | some mo =>
    refine ⟨rfl, .inr ⟨_, rfl, AList.lookup_isSome.mp (by rw [h]; rfl), ?_⟩⟩
    by_cases htraded : mo.traded
    · exact .inl (if_pos htraded)
    · exact .inr ⟨_, if_neg htraded⟩

theorem step_trade_cases (t : Trade) : ChangesPending om (om.step (.trade t)) (.trade t) := by
  cases h : om.orders.lookup t.orderGuid with
  | some mo =>
    have hstep : om.onEvent (.trade t) = _ := onTrade_pending h
    rw [step, hstep]
    refine ⟨rfl, .inr ⟨_, rfl, AList.lookup_isSome.mp (by rw [h]; rfl), ?_⟩⟩
    by_cases hdone : mo.subscribers = 0 ∧ mo.acked
    · exact .inl (if_pos hdone)
    · exact .inr ⟨_, if_neg hdone⟩
  | none =>
    have hmarket : om.tryTradeMarketOrder t = none := by rw [tryTradeMarketOrder, h]; rfl
    simp only [step, onEvent, onTrade, hmarket]
    cases htp : om.tryTradeTakeProfit t with
    | some om' =>
      obtain ⟨_, _, rfl⟩ := Option.map_eq_some_iff.mp htp
      exact ⟨rfl, .inl rfl⟩
    | none =>
      cases hsl : om.tryTradeStopLoss t with
      | some om' =>
        obtain ⟨_, _, rfl⟩ := Option.map_eq_some_iff.mp hsl
        exact ⟨rfl, .inl rfl⟩
      | none =>
        simp only
        split <;> exact ⟨rfl, .inl rfl⟩

theorem step_cases (om : OrderManager) (e : GatewayEvent) : ChangesPending om (om.step e) e := by
  cases e with
  | orderResponse r => exact step_response_cases r
  | trade t => exact step_trade_cases t
  | tpslUpdated r =>
    simp only [step, onEvent, onTpslResponse]
    cases om.tpsl with
    | none => exact ⟨rfl, .inl rfl⟩
    | some tpsl =>
      simp only
      split <;> exact ⟨rfl, .inl rfl⟩
  | trailingStopUpdated r =>
    simp only [step, onEvent, onTrailingStopResponse]
    cases r.rejectReason with
    | some reason => exact ⟨rfl, .inl rfl⟩
    | none =>
      cases om.trailingStop <;> cases r.stopLoss <;> exact ⟨rfl, .inl rfl⟩
  | stopLossUpdated r =>
    simp only [step, onEvent, onStopLossResponse]
    split <;> exact ⟨rfl, .inl rfl⟩
  | takeProfitUpdated r =>
    simp only [step, onEvent, onTakeProfitResponse]
    split <;> exact ⟨rfl, .inl rfl⟩

theorem mem_of_mem_step {e : GatewayEvent} (h : guid ∈ (om.step e).orders) : guid ∈ om.orders := by
  rcases (step_cases om e).orders with horders | ⟨g, _, hg, horders | ⟨mo, horders⟩⟩
  · rwa [horders] at h
  · rw [horders] at h
    exact (AList.mem_erase.mp h).2
  · rw [horders] at h
    rcases AList.mem_insert _ |>.mp h with rfl | h
    · exact hg
    · exact h

theorem step_lookup_of_ne {e : GatewayEvent} (he : e.orderGuid? ≠ some guid) :
    (om.step e).orders.lookup guid = om.orders.lookup guid := by
  rcases (step_cases om e).orders with horders | ⟨g, hg, _, horders | ⟨mo, horders⟩⟩
  · rw [horders]
  · rw [horders]
    apply AList.lookup_erase_ne
    rintro rfl
    exact he hg
  · rw [horders]
    apply AList.lookup_insert_ne
    rintro rfl
    exact he hg

theorem mem_step_of_ne {e : GatewayEvent} (he : e.orderGuid? ≠ some guid) (h : guid ∈ om.orders) :
    guid ∈ (om.step e).orders := by
  rw [← AList.lookup_isSome, step_lookup_of_ne he]
  exact AList.lookup_isSome.mpr h

end OrderManager

end CryptoTrading

import CryptoTrading.Engine.QtySteps
import CryptoTrading.Gateway.Exposure
import CryptoTrading.Grid.System

/-! # One order in the order manager

A call or an event about one order leaves what the order manager holds about the others as
it is.
-/

namespace CryptoTrading

/-- What the order manager holds about one order. -/
@[ext] structure OrderEntry where
  channel : Option MarketOrderChannelWithAckInfo
  order : Option MarketOrder
  exit : ConditionalType → Option ConditionalOrderChannel

namespace OrderEntry

def setExit (e : OrderEntry) (kind : ConditionalType) (ch : Option ConditionalOrderChannel) :
    OrderEntry :=
  { e with exit := Function.update e.exit kind ch }

variable {e : OrderEntry} {kind : ConditionalType} {ch ch' : Option ConditionalOrderChannel}

theorem setExit_self (h : e.exit kind = ch) : e.setExit kind ch = e := by
  rw [setExit, ← h, Function.update_eq_self]

@[simp] theorem setExit_setExit : (e.setExit kind ch).setExit kind ch' = e.setExit kind ch' := by
  rw [setExit, setExit, Function.update_idem]
  rfl

@[simp] theorem exit_setExit : (e.setExit kind ch).exit kind = ch := Function.update_self ..

@[simp] theorem exit_setExit_other : (e.setExit kind ch).exit kind.other = e.exit kind.other :=
  Function.update_of_ne kind.other_ne ..

end OrderEntry

namespace OrderManager

def entry (om : OrderManager) (guid : Guid) : OrderEntry where
  channel := om.orders.lookup guid
  order := om.marketOrders.lookup guid
  exit kind := (om.conditionals kind).lookup guid

variable {om om' : OrderManager} {e : GatewayEvent} {g guid : Guid} {kind : ConditionalType}
  {role : OrderRole} {mo : MarketOrderChannelWithAckInfo} {ch : ConditionalOrderChannel} {t : Trade}
  {price : ℚ} {vol adjusted : SignedVolume} {ts : Milliseconds}

theorem entry_congr (horders : om'.orders.lookup g = om.orders.lookup g)
    (hmarket : om'.marketOrders.lookup g = om.marketOrders.lookup g)
    (htp : om'.takeProfits.lookup g = om.takeProfits.lookup g)
    (hsl : om'.stopLosses.lookup g = om.stopLosses.lookup g) : om'.entry g = om.entry g := by
  ext1
  · exact horders
  · exact hmarket
  · funext kind
    cases kind
    · exact hsl
    · exact htp

theorem entry_eq_setExit {ch : Option ConditionalOrderChannel}
    (horders : om'.orders = om.orders) (hmarket : om'.marketOrders = om.marketOrders)
    (hother : om'.conditionals kind.other = om.conditionals kind.other)
    (hkind : (om'.conditionals kind).lookup g = ch) :
    om'.entry g = (om.entry g).setExit kind ch := by
  ext1
  · exact congrArg (AList.lookup g) horders
  · exact congrArg (AList.lookup g) hmarket
  · funext k
    cases kind <;> cases k
    · exact hkind
    · exact congrArg (AList.lookup g) hother
    · exact congrArg (AList.lookup g) hother
    · exact hkind

def setConditionals (om : OrderManager) (kind : ConditionalType)
    (m : GuidMap ConditionalOrderChannel) : OrderManager :=
  match kind with
  | .stopLoss => { om with stopLosses := m }
  | .takeProfit => { om with takeProfits := m }

section SetConditionals

variable {m : GuidMap ConditionalOrderChannel}

@[simp] theorem conditionals_setConditionals :
    (om.setConditionals kind m).conditionals = Function.update om.conditionals kind m := by
  funext k
  cases kind <;> cases k <;> rfl

@[simp] theorem orders_setConditionals : (om.setConditionals kind m).orders = om.orders := by
  cases kind <;> rfl

@[simp] theorem nextGuid_setConditionals :
    (om.setConditionals kind m).nextGuid = om.nextGuid := by
  cases kind <;> rfl

@[simp] theorem symbol_setConditionals : (om.setConditionals kind m).symbol = om.symbol := by
  cases kind <;> rfl

theorem setConditionals_self : om.setConditionals kind (om.conditionals kind) = om := by
  cases kind <;> rfl

theorem entry_setConditionals :
    (om.setConditionals kind m).entry g = (om.entry g).setExit kind (m.lookup g) := by
  cases kind <;> exact entry_eq_setExit rfl rfl rfl rfl

end SetConditionals

theorem lookup_tryTradeConditional_of_ne {orders orders' : GuidMap ConditionalOrderChannel}
    (h : tryTradeConditional orders t = some orders') (hg : g ≠ t.orderGuid) :
    orders'.lookup g = orders.lookup g := by
  obtain ⟨ch, -, rfl⟩ := Option.map_eq_some_iff.mp h
  exact GuidMap.lookup_eraseOrInsert_of_ne hg

theorem entry_step_of_ne (h : e.guid? ≠ some g) : (om.step e).entry g = om.entry g := by
  cases e with
  | orderResponse r =>
    have hg : g ≠ r.requestGuid := fun hg => h (congrArg some hg.symm)
    simp only [step, onEvent, onOrderResponse]
    cases om.orders.lookup r.requestGuid with
    | none => rfl
    | some mo =>
      apply entry_congr
      · exact GuidMap.lookup_eraseOrInsert_of_ne hg
      · simp only
        split
        · split
          · rfl
          · exact GuidMap.lookup_modify_of_ne hg
        · rfl
      · rfl
      · rfl
  | trade t =>
    have hg : g ≠ t.orderGuid := fun hg => h (congrArg some hg.symm)
    rcases step_trade_routes om t with hm | ⟨takeProfits, htp, hs⟩ | ⟨stopLosses, hsl, hs⟩ | hs
    · obtain ⟨mo, -, hs⟩ := Option.map_eq_some_iff.mp hm
      rw [← hs]
      apply entry_congr
      · exact GuidMap.lookup_eraseOrInsert_of_ne hg
      · exact GuidMap.lookup_modify_of_ne hg
      · rfl
      · rfl
    · rw [hs]
      exact entry_congr rfl rfl (lookup_tryTradeConditional_of_ne htp hg) rfl
    · rw [hs]
      exact entry_congr rfl rfl rfl (lookup_tryTradeConditional_of_ne hsl hg)
    · rw [hs]
  | tpslUpdated r =>
    simp only [step, onEvent, onTpslResponse]
    split
    · rfl
    · split <;> rfl
  | trailingStopUpdated r =>
    simp only [step, onEvent, onTrailingStopResponse]
    split
    · rfl
    · split <;> rfl
  | stopLossUpdated r =>
    have hg : g ≠ r.guid := fun hg => h (congrArg some hg.symm)
    simp only [step, onEvent, onStopLossResponse]
    split
    · exact entry_congr rfl rfl rfl (GuidMap.lookup_modify_of_ne hg)
    · rfl
  | takeProfitUpdated r =>
    have hg : g ≠ r.guid := fun hg => h (congrArg some hg.symm)
    simp only [step, onEvent, onTakeProfitResponse]
    split
    · exact entry_congr rfl rfl (GuidMap.lookup_modify_of_ne hg) rfl
    · rfl

theorem guid?_of_updated? (h : om.updated? e = some (role, g)) : e.guid? = some g := by
  cases e <;> simp only [updated?] at h <;> grind [GatewayEvent.guid?]

theorem mem_of_lookup {α : Type} {m : GuidMap α} {x : α} (h : m.lookup g = some x) : g ∈ m :=
  AList.lookup_isSome.mp (by rw [h]; rfl)

theorem not_mem_of_lookup {α : Type} {m : GuidMap α} (h : m.lookup g = none) : g ∉ m :=
  AList.lookup_eq_none.mp h

theorem step_orderResponse {r : OrderResponseEvent} (h : om.orders.lookup r.requestGuid = some mo)
    (htraded : mo.traded = false) (hreject : r.rejectReason = none) :
    (om.step (.orderResponse r)).entry r.requestGuid =
        { om.entry r.requestGuid with channel := some { mo with acked := true } } ∧
      om.updated? (.orderResponse r) = none := by
  constructor
  · have hmarket := onOrderResponse_marketOrders om hreject
    simp only [step, onEvent, onOrderResponse, h, htraded, hreject]
    ext1
    · exact AList.lookup_insert _
    · rfl
    · rfl
  · simp [updated?, hreject]

theorem step_trade_market (h : om.orders.lookup t.orderGuid = some mo)
    (hsub : mo.subscribers ≠ 0) :
    (om.step (.trade t)).entry t.orderGuid =
        { om.entry t.orderGuid with
          channel := some { mo with traded := true }
          order := (om.entry t.orderGuid).order.map (·.onTrade t.unsignedVolume t.price t.fee) } ∧
      om.updated? (.trade t) = some (.market, t.orderGuid) := by
  constructor
  · rw [step, onEvent, onTrade_pending h]
    ext1
    · simp only [hsub, false_and, if_false]
      exact AList.lookup_insert _
    · exact GuidMap.lookup_modify_self
    · rfl
  · exact if_pos (mem_of_lookup h)

theorem tryTradeConditional_self {orders : GuidMap ConditionalOrderChannel}
    (h : orders.lookup t.orderGuid = some ch) :
    ∃ orders', tryTradeConditional orders t = some orders' ∧
      orders'.lookup t.orderGuid = if ch.subscribers = 0 then none else
        some { ch with order := ch.order.onTrade t.unsignedVolume t.price t.fee } := by
  rw [tryTradeConditional, h]
  refine ⟨_, rfl, ?_⟩
  simp only
  split
  · exact AList.lookup_erase t.orderGuid orders
  · exact AList.lookup_insert orders

theorem entry_step_trade_exit (hmarket : (om.entry t.orderGuid).channel = none)
    (h : (om.entry t.orderGuid).exit kind = some ch)
    (hother : (om.entry t.orderGuid).exit kind.other = none) :
    (om.step (.trade t)).entry t.orderGuid =
      (om.entry t.orderGuid).setExit kind (if ch.subscribers = 0 then none else
        some { ch with order := ch.order.onTrade t.unsignedVolume t.price t.fee }) := by
  have hnone : om.tryTradeMarketOrder t = none := by
    rw [tryTradeMarketOrder, Option.map_eq_none_iff]
    exact hmarket
  obtain ⟨orders', htrade, hself⟩ := tryTradeConditional_self h
  cases kind with
  | takeProfit =>
    have htrade' : om.tryTradeTakeProfit t = some { om with takeProfits := orders' } := by
      rw [tryTradeTakeProfit]
      exact congrArg (Option.map _) htrade
    simp only [step, onEvent, onTrade, hnone, htrade']
    exact entry_eq_setExit rfl rfl rfl hself
  | stopLoss =>
    have hother' : om.takeProfits.lookup t.orderGuid = none := hother
    have hnone' : om.tryTradeTakeProfit t = none := by
      rw [tryTradeTakeProfit, tryTradeConditional, hother']
      rfl
    have htrade' : om.tryTradeStopLoss t = some { om with stopLosses := orders' } := by
      rw [tryTradeStopLoss]
      exact congrArg (Option.map _) htrade
    simp only [step, onEvent, onTrade, hnone, hnone', htrade']
    exact entry_eq_setExit rfl rfl rfl hself

theorem step_trade_exit (hmarket : (om.entry t.orderGuid).channel = none)
    (h : (om.entry t.orderGuid).exit kind = some ch)
    (hother : (om.entry t.orderGuid).exit kind.other = none) (hsub : ch.subscribers ≠ 0) :
    (om.step (.trade t)).entry t.orderGuid =
        (om.entry t.orderGuid).setExit kind
          (some { ch with order := ch.order.onTrade t.unsignedVolume t.price t.fee }) ∧
      om.updated? (.trade t) = some (.exit kind, t.orderGuid) := by
  have hmem : t.orderGuid ∉ om.orders := not_mem_of_lookup hmarket
  constructor
  · rw [entry_step_trade_exit hmarket h hother, if_neg hsub]
  · cases kind with
    | takeProfit =>
      have hlookup : om.takeProfits.lookup t.orderGuid = some ch := h
      rw [updated?, if_neg hmem, if_pos (mem_of_lookup hlookup)]
    | stopLoss =>
      have hlookup : om.stopLosses.lookup t.orderGuid = some ch := h
      have hother' : om.takeProfits.lookup t.orderGuid = none := hother
      rw [updated?, if_neg hmem, if_neg (not_mem_of_lookup hother'),
        if_pos (mem_of_lookup hlookup)]

theorem step_updated {r : ConditionalOrderUpdateEvent}
    (h : (om.entry r.guid).exit kind = some ch) :
    (om.step (kind.updatedEvent r)).entry r.guid =
        (om.entry r.guid).setExit kind
          (some { ch with order := ch.order.onStateChanged r.active }) ∧
      om.updated? (kind.updatedEvent r) = some (.exit kind, r.guid) := by
  cases kind with
  | takeProfit =>
    have hlookup : om.takeProfits.lookup r.guid = some ch := h
    have hmem : r.guid ∈ om.takeProfits := mem_of_lookup hlookup
    constructor
    · simp only [step, onEvent, ConditionalType.updatedEvent, onTakeProfitResponse, if_pos hmem]
      refine entry_eq_setExit rfl rfl rfl ?_
      apply GuidMap.lookup_modify_self.trans
      rw [hlookup]
      rfl
    · exact if_pos hmem
  | stopLoss =>
    have hlookup : om.stopLosses.lookup r.guid = some ch := h
    have hmem : r.guid ∈ om.stopLosses := mem_of_lookup hlookup
    constructor
    · simp only [step, onEvent, ConditionalType.updatedEvent, onStopLossResponse, if_pos hmem]
      refine entry_eq_setExit rfl rfl rfl ?_
      apply GuidMap.lookup_modify_self.trans
      rw [hlookup]
      rfl
    · exact if_pos hmem

theorem step_idle (hchannel : (om.entry g).channel = none)
    (hexit : ∀ kind, (om.entry g).exit kind = none) (he : e.guid? = some g) :
    (om.step e).entry g = om.entry g ∧ om.updated? e = none := by
  have horders : g ∉ om.orders := not_mem_of_lookup hchannel
  have htp : g ∉ om.takeProfits := not_mem_of_lookup (hexit .takeProfit)
  have hsl : g ∉ om.stopLosses := not_mem_of_lookup (hexit .stopLoss)
  cases e with
  | orderResponse r =>
    obtain rfl : r.requestGuid = g := Option.some.inj he
    have hlookup : om.orders.lookup r.requestGuid = none := hchannel
    constructor
    · simp only [step, onEvent, onOrderResponse, hlookup]
    · simp [updated?, horders]
  | trade t =>
    obtain rfl : t.orderGuid = g := Option.some.inj he
    have hrest : om.step (.trade t) = om := by
      have hlookup : om.orders.lookup t.orderGuid = none := hchannel
      have htp' : om.takeProfits.lookup t.orderGuid = none := hexit .takeProfit
      have hsl' : om.stopLosses.lookup t.orderGuid = none := hexit .stopLoss
      simp only [step, onEvent, onTrade, tryTradeMarketOrder, tryTradeTakeProfit,
        tryTradeStopLoss, tryTradeConditional, hlookup, htp', hsl', Option.map_none]
      split <;> rfl
    constructor
    · rw [hrest]
    · simp [updated?, horders, htp, hsl]
  | takeProfitUpdated r =>
    obtain rfl : r.guid = g := Option.some.inj he
    constructor
    · simp only [step, onEvent, onTakeProfitResponse, if_neg htp]
    · exact if_neg htp
  | stopLossUpdated r =>
    obtain rfl : r.guid = g := Option.some.inj he
    constructor
    · simp only [step, onEvent, onStopLossResponse, if_neg hsl]
    · exact if_neg hsl
  | tpslUpdated r => cases he
  | trailingStopUpdated r => cases he

theorem entry_setSubscribers_of_ne {count : ℕ} (hg : g ≠ guid) :
    (om.setSubscribers guid count).entry g = om.entry g := by
  apply entry_congr
  · simp only [setSubscribers]
    split
    · exact AList.lookup_erase_ne hg
    · exact GuidMap.lookup_modify_of_ne hg
  · rfl
  · rfl
  · rfl

theorem entry_setSubscribers_zero :
    (om.setSubscribers guid 0).entry guid = { om.entry guid with channel := none } := by
  ext1
  · exact AList.lookup_erase _ _
  · rfl
  · rfl

def cancelled (om : OrderManager) (kind : ConditionalType) (guid : Guid) :
    GuidMap ConditionalOrderChannel :=
  (om.conditionals kind).modify guid fun ch => { ch with order := ch.order.cancel }

theorem cancelExit_out : (om.cancelExit kind guid).2 =
    if guid ∈ om.conditionals kind then [.request (kind.cancelOf guid)] else [] := by
  have hcancel : om.cancelExit kind guid = if guid ∈ om.conditionals kind then
      (om.setConditionals kind (om.cancelled kind guid), [.request (kind.cancelOf guid)])
    else (om, []) := by cases kind <;> rfl
  rw [hcancel]
  split <;> rfl

theorem cancelExit_eq (om : OrderManager) (kind : ConditionalType) (guid : Guid) :
    (om.cancelExit kind guid).1 = om.setConditionals kind (om.cancelled kind guid) := by
  by_cases hmem : guid ∈ om.conditionals kind
  · cases kind <;> exact congrArg Prod.fst (if_pos hmem)
  · have hsame : om.cancelled kind guid = om.conditionals kind := by
      rw [cancelled, GuidMap.modify, AList.lookup_eq_none.mpr hmem]
    rw [hsame, setConditionals_self]
    cases kind <;> exact congrArg Prod.fst (if_neg hmem)

theorem entry_cancelExit_of_ne (hg : g ≠ guid) :
    (om.cancelExit kind guid).1.entry g = om.entry g := by
  rw [cancelExit_eq, entry_setConditionals, cancelled, GuidMap.lookup_modify_of_ne hg]
  exact OrderEntry.setExit_self rfl

theorem entry_cancelExit_self : (om.cancelExit kind guid).1.entry guid =
    (om.entry guid).setExit kind (((om.entry guid).exit kind).map fun ch =>
      { ch with order := ch.order.cancel }) := by
  rw [cancelExit_eq, entry_setConditionals, cancelled, GuidMap.lookup_modify_self]
  rfl

/-- The last subscriber of an exit cancels and erases it. -/
theorem setExitSubscribers_zero_out :
    (om.setExitSubscribers kind guid 0).2 = (om.cancelExit kind guid).2 := by
  cases kind <;> rfl

theorem setExitSubscribers_zero (om : OrderManager) (kind : ConditionalType) (guid : Guid) :
    (om.setExitSubscribers kind guid 0).1 =
      om.setConditionals kind ((om.cancelled kind guid).erase guid) := by
  have hdrop : (om.setExitSubscribers kind guid 0).1 = (om.cancelExit kind guid).1.setConditionals
      kind (((om.cancelExit kind guid).1.conditionals kind).erase guid) := by
    cases kind <;> rfl
  rw [hdrop, cancelExit_eq]
  cases kind <;> rfl

theorem setExitSubscribers_of_pos {count : ℕ} (hcount : count ≠ 0) :
    om.setExitSubscribers kind guid count = (om.setConditionals kind
      ((om.conditionals kind).modify guid fun ch => { ch with subscribers := count }), []) := by
  cases kind <;> exact if_neg hcount

theorem entry_setExitSubscribers_of_ne {count : ℕ} (hg : g ≠ guid) :
    (om.setExitSubscribers kind guid count).1.entry g = om.entry g := by
  by_cases hcount : count = 0
  · rw [hcount, setExitSubscribers_zero, entry_setConditionals, AList.lookup_erase_ne hg,
      cancelled, GuidMap.lookup_modify_of_ne hg]
    exact OrderEntry.setExit_self rfl
  · rw [setExitSubscribers_of_pos hcount, entry_setConditionals, GuidMap.lookup_modify_of_ne hg]
    exact OrderEntry.setExit_self rfl

theorem entry_setExitSubscribers_zero :
    (om.setExitSubscribers kind guid 0).1.entry guid = (om.entry guid).setExit kind none := by
  rw [setExitSubscribers_zero, entry_setConditionals, AList.lookup_erase]

theorem nextGuid_cancelExit : (om.cancelExit kind guid).1.nextGuid = om.nextGuid := by
  cases kind
  · exact nextGuid_cancelStopLoss guid
  · exact nextGuid_cancelTakeProfit guid

theorem symbol_cancelExit : (om.cancelExit kind guid).1.symbol = om.symbol := by
  cases kind
  · exact symbol_call om (.cancelStopLoss guid)
  · exact symbol_call om (.cancelTakeProfit guid)

def release (om : OrderManager) (role : OrderRole) (guid : Guid) : OrderManager :=
  match role with
  | .market => om.setSubscribers guid 0
  | .exit kind => (om.setExitSubscribers kind guid 0).1

theorem nextGuid_release : (om.release role guid).nextGuid = om.nextGuid := by
  cases role with
  | market => rfl
  | exit kind =>
    cases kind
    · exact nextGuid_cancelStopLoss guid
    · exact nextGuid_cancelTakeProfit guid

theorem symbol_release : (om.release role guid).symbol = om.symbol := by
  cases role with
  | market => rfl
  | exit kind =>
    cases kind
    · exact symbol_call om (.setStopLossSubscribers guid 0)
    · exact symbol_call om (.setTakeProfitSubscribers guid 0)

theorem entry_release_of_ne (hg : g ≠ guid) : (om.release role guid).entry g = om.entry g := by
  cases role with
  | market => exact entry_setSubscribers_of_ne hg
  | exit kind => exact entry_setExitSubscribers_of_ne hg

theorem entry_release_exit :
    (om.release (.exit kind) guid).entry guid = (om.entry guid).setExit kind none :=
  entry_setExitSubscribers_zero

theorem entry_release_market :
    (om.release .market guid).entry guid = { om.entry guid with channel := none } :=
  entry_setSubscribers_zero

theorem adjustedVolume_ok (hmem : vol.value ∈ AddSubgroup.zmultiples om.qtyStep)
    (hne : vol.value ≠ 0) : om.adjustedVolume vol = .ok vol := by
  cases hadj : om.adjustedVolume vol with
  | ok adjusted => rw [adjustedVolume_of_mem hmem hadj]
  | error e =>
    exfalso
    unfold adjustedVolume at hadj
    cases hfloored : om.symbol.getQtyFloored vol with
    | none =>
      have hstep : om.qtyStep = 0 := by
        by_contra hstep
        have hstep' : ¬ om.symbol.lotSizeFilter.qtyStep = 0 := hstep
        rw [Symbol.getQtyFloored, if_neg hstep'] at hfloored
        cases hfloored
      rw [hstep, AddSubgroup.zmultiples_zero_eq_bot, AddSubgroup.mem_bot] at hmem
      exact hne hmem
    | some adjusted =>
      obtain rfl := Symbol.getQtyFloored_of_mem hmem hfloored
      simp only [hfloored, if_neg hne] at hadj
      cases hadj

theorem adjustedVolume_of_steps {size : UnsignedVolume} (side : Side)
    (h : 1 ≤ stdRound (size.value / om.qtyStep)) :
    ∃ adjusted, om.adjustedVolume (.ofUnsigned size side) = .ok adjusted ∧
      0 < |adjusted.value| := by
  have hstep : om.symbol.lotSizeFilter.qtyStep ≠ 0 := by
    intro hzero
    have hround : stdRound (size.value / om.qtyStep) = 0 := by
      have hdiv : size.value / om.qtyStep = ((0 : ℤ) : ℚ) := by
        rw [qtyStep, hzero, div_zero, Int.cast_zero]
      rw [hdiv, stdRound_intCast]
    omega
  have habs : |(SignedVolume.ofUnsigned size side).value| = size.value := by
    rw [← SignedVolume.value_unsigned, SignedVolume.unsigned_ofUnsigned]
  obtain ⟨adjusted, hadjusted, hvalue⟩ :
      ∃ adjusted, om.symbol.getQtyFloored (.ofUnsigned size side) = some adjusted ∧
        |adjusted.value| = |(stdRound (size.value / om.qtyStep) : ℚ) * om.qtyStep| := by
    refine ⟨_, if_neg hstep, ?_⟩
    simp only [habs]
    split <;> simp [qtyStep]
  have hpos : 0 < |adjusted.value| := by
    have hround : (stdRound (size.value / om.qtyStep) : ℚ) ≠ 0 := by
      have : stdRound (size.value / om.qtyStep) ≠ 0 := by omega
      exact_mod_cast this
    rw [hvalue]
    exact abs_pos.mpr (mul_ne_zero hround hstep)
  refine ⟨adjusted, ?_, hpos⟩
  rw [adjustedVolume, hadjusted]
  exact if_neg (abs_pos.mp hpos)

structure Enters (om om' : OrderManager) (guid : Guid) (e : OrderEntry) : Prop where
  fresh : guid = om.nextGuid
  nextGuid : om'.nextGuid = om.nextGuid + 1
  symbol : om'.symbol = om.symbol
  self : om'.entry guid = e
  of_ne : ∀ g ≠ guid, om'.entry g = om.entry g

theorem sendMarketOrder_enters {o : MarketOrder} (h : om.adjustedVolume vol = .ok adjusted)
    (ho : o = .ofSigned om.nextGuid om.symbol.symbolName price adjusted ts) :
    ∃ om', om.sendMarketOrder price vol ts = (om', [.request (.order o)], some o.guid) ∧
      om.Enters (om'.setSubscribers o.guid 1) o.guid
        { om.entry o.guid with channel := some { subscribers := 1 }, order := some o } := by
  subst ho
  refine ⟨_, sendMarketOrder_ok h, rfl, rfl, rfl, ?_, fun g hg => ?_⟩
  · apply OrderEntry.ext
    · apply GuidMap.lookup_modify_self.trans
      simp [MarketOrder.ofSigned]
    · exact AList.lookup_insert _
    · rfl
  · apply (entry_setSubscribers_of_ne hg).trans
    exact entry_congr (AList.lookup_insert_ne hg) (AList.lookup_insert_ne hg) rfl rfl

theorem sendExit_ok {o : ConditionalMarketOrder}
    (h : om.sendConditional kind price vol ts = .ok o) :
    om.sendExit kind price vol ts =
      ({ om.setConditionals kind ((om.conditionals kind).insert o.guid ⟨o, 0⟩) with
        nextGuid := om.nextGuid + 1 }, [.request (kind.requestOf o)], some o.guid) := by
  cases kind <;> simp only [sendExit, sendStopLoss, sendTakeProfit, h] <;> rfl

theorem sendExit_error {err : OrderManagerError}
    (h : om.sendConditional kind price vol ts = .error err) :
    om.sendExit kind price vol ts = (om, [.error err], none) := by
  cases kind <;> simp only [sendExit, sendStopLoss, sendTakeProfit, h]

theorem sendExit_enters {o : ConditionalMarketOrder} (h : om.adjustedVolume vol = .ok adjusted)
    (ho : o =
      .new om.nextGuid om.symbol.symbolName price adjusted.unsigned adjusted.side kind ts) :
    ∃ om', om.sendExit kind price vol ts = (om', [.request (kind.requestOf o)], some o.guid) ∧
      (om'.setExitSubscribers kind o.guid 1).2 = [] ∧
      om.Enters (om'.setExitSubscribers kind o.guid 1).1 o.guid
        ((om.entry o.guid).setExit kind (some ⟨o, 1⟩)) := by
  have hsend : om.sendConditional kind price vol ts = .ok o := by
    rw [sendConditional, h, ho]
    rfl
  have hguid : o.guid = om.nextGuid := by
    rw [ho]
    rfl
  let sent : OrderManager :=
    { om.setConditionals kind ((om.conditionals kind).insert o.guid ⟨o, 0⟩) with
      nextGuid := om.nextGuid + 1 }
  have hentry (g : Guid) : sent.entry g = (om.entry g).setExit kind
      (((om.conditionals kind).insert o.guid ⟨o, 0⟩).lookup g) := entry_setConditionals
  have hsubscribe : sent.setExitSubscribers kind o.guid 1 = _ :=
    setExitSubscribers_of_pos one_ne_zero
  refine ⟨sent, sendExit_ok hsend, by rw [hsubscribe], hguid, ?_, ?_, ?_, fun g hg => ?_⟩
  · rw [hsubscribe, nextGuid_setConditionals]
  · rw [hsubscribe, symbol_setConditionals]
    exact symbol_setConditionals
  · have hlookup : (sent.conditionals kind).lookup o.guid = some ⟨o, 0⟩ := by
      have hexit := congrArg (fun e => OrderEntry.exit e kind) (hentry o.guid)
      rwa [OrderEntry.exit_setExit, AList.lookup_insert] at hexit
    rw [hsubscribe, entry_setConditionals, GuidMap.lookup_modify_self, hlookup, hentry,
      OrderEntry.setExit_setExit]
    rfl
  · rw [entry_setExitSubscribers_of_ne hg, hentry, AList.lookup_insert_ne hg]
    exact OrderEntry.setExit_self rfl

end OrderManager

end CryptoTrading

import CryptoTrading.Engine.OrderManager
import CryptoTrading.Lib.Runs

/-! # Market orders and their fills

An order leaves the pending orders with its first trade and its response, whatever is
left to fill. With one trade for the whole volume this is right in every order of the
events of any number of orders.
-/

namespace CryptoTrading

open Runs

def tradeFees (ts : List Trade) : ℚ := (ts.map (·.fee)).sum

def MarketOrder.applyTrades (o : MarketOrder) (ts : List Trade) : MarketOrder :=
  ts.foldl (fun o t => o.onTrade t.unsignedVolume t.price t.fee) o

theorem MarketOrder.filledVolume_applyTrades (o : MarketOrder) (ts : List Trade) :
    (o.applyTrades ts).filledVolume.value = o.filledVolume.value + tradedVolume ts := by
  induction ts generalizing o with
  | nil => simp [applyTrades]
  | cons t ts ih =>
    have h := ih (o.onTrade t.unsignedVolume t.price t.fee)
    simp only [applyTrades, List.foldl_cons, tradedVolume_cons] at h ⊢
    rw [h]
    simp only [onTrade, UnsignedVolume.value_add]
    ring

theorem MarketOrder.fee_applyTrades (o : MarketOrder) (ts : List Trade) :
    (o.applyTrades ts).fee = o.fee + tradeFees ts := by
  induction ts generalizing o with
  | nil => simp [applyTrades, tradeFees]
  | cons t ts ih =>
    have h := ih (o.onTrade t.unsignedVolume t.price t.fee)
    simp only [applyTrades, tradeFees, List.foldl_cons, List.map_cons, List.sum_cons] at h ⊢
    rw [h]
    simp only [onTrade]
    ring

def GatewayEvent.isResponse : GatewayEvent → Bool
  | .orderResponse _ => true
  | _ => false

namespace OrderManager

structure Unused (om : OrderManager) (guid : Guid) : Prop where
  takeProfits : om.takeProfits.lookup guid = none
  stopLosses : om.stopLosses.lookup guid = none
  exits : om.isExitGuid guid = false

/-- The manager just after the order was sent, with this many subscribers of its channel. -/
def afterSend (om : OrderManager) (price : ℚ) (vol : SignedVolume) (ts : Milliseconds)
    (subscribers : ℕ) : OrderManager :=
  let om' := (om.sendMarketOrder price vol ts).1
  if subscribers = 0 then om' else om'.setSubscribers om.nextGuid subscribers

def fillEvents (fills : List Trade) (i : ℕ) (r : OrderResponseEvent) : List GatewayEvent :=
  (fills.take i).map .trade ++ .orderResponse r :: (fills.drop i).map .trade

/-- All trades are applied to the order, which is pending until it is acknowledged and filled,
and no error is pushed. -/
structure FilledProperly (om : OrderManager) (guid : Guid) (target : ℚ) (fills : List Trade)
    (es : List GatewayEvent) : Prop where
  applied : ∃ o, (after step om es).marketOrders.lookup guid = some o ∧
    o.filledVolume.value = target ∧ o.fee = tradeFees fills
  pending : ∀ pre, pre <+: es →
    ¬ (pre.any GatewayEvent.isResponse ∧
      tradedVolume (pre.filterMap GatewayEvent.trade?) = target) →
      guid ∈ (after step om pre).orders
  noErrors : outputs step errors om es = []

variable {om : OrderManager} {guid : Guid} {mo : MarketOrderChannelWithAckInfo} {t : Trade}
  {fills : List Trade} {r : OrderResponseEvent}

theorem step_trade_pending (h : om.orders.lookup t.orderGuid = some mo) :
    errors om (.trade t) = [] ∧
      (om.step (.trade t)).marketOrders = om.marketOrders.modify t.orderGuid
        (·.onTrade t.unsignedVolume t.price t.fee) ∧
      (om.step (.trade t)).orders =
        if mo.subscribers = 0 ∧ mo.acked then om.orders.erase t.orderGuid
        else om.orders.insert t.orderGuid { mo with traded := true } := by
  have hstep : om.onEvent (.trade t) = _ := onTrade_pending h
  rw [errors, step, hstep]
  exact ⟨rfl, rfl, rfl⟩

theorem step_trade_nextGuid (h : om.orders.lookup t.orderGuid = some mo) :
    (om.step (.trade t)).nextGuid = om.nextGuid ∧ (om.step (.trade t)).symbol = om.symbol := by
  have hstep : om.onEvent (.trade t) = _ := onTrade_pending h
  rw [step, hstep]
  exact ⟨rfl, rfl⟩

theorem Unused.step_trade (hu : om.Unused guid) (h : om.orders.lookup t.orderGuid = some mo) :
    (om.step (.trade t)).Unused guid := by
  have hstep : om.onEvent (.trade t) = _ := onTrade_pending h
  rw [step, hstep]
  exact ⟨hu.takeProfits, hu.stopLosses, hu.exits⟩

theorem step_response_pending (h : om.orders.lookup r.requestGuid = some mo)
    (hr : r.rejectReason = none) :
    errors om (.orderResponse r) = [] ∧
      (om.step (.orderResponse r)).marketOrders = om.marketOrders ∧
      (om.step (.orderResponse r)).orders =
        if mo.traded then om.orders.erase r.requestGuid
        else om.orders.insert r.requestGuid { mo with acked := true } := by
  obtain ⟨hout, horders⟩ := onOrderResponse_pending h
  have hobjects := onOrderResponse_marketOrders om hr
  refine ⟨?_, hobjects, horders⟩
  simp [errors, onEvent, hout]

theorem step_response_rest (om : OrderManager) (r : OrderResponseEvent) :
    (om.step (.orderResponse r)).nextGuid = om.nextGuid ∧
      (om.step (.orderResponse r)).symbol = om.symbol := by
  simp only [step, onEvent, onOrderResponse]
  cases om.orders.lookup r.requestGuid <;> exact ⟨rfl, rfl⟩

theorem Unused.step_response (hu : om.Unused guid) :
    (om.step (.orderResponse r)).Unused guid := by
  simp only [step, onEvent, onOrderResponse]
  cases om.orders.lookup r.requestGuid <;> exact ⟨hu.takeProfits, hu.stopLosses, hu.exits⟩

theorem errors_of_erased (hu : om.Unused guid) (hg : t.orderGuid = guid)
    (h : om.orders.lookup guid = none) : errors om (.trade t) ≠ [] := by
  subst hg
  have hstep : om.onEvent (.trade t) = _ :=
    onTrade_unsolicited h hu.takeProfits hu.stopLosses hu.exits
  rw [errors, hstep]
  simp [OrderManagerOutput.error?]

theorem run_trades (fills : List Trade) (hu : om.Unused guid) (h : om.orders.lookup guid = some mo)
    (hkeep : ¬ (mo.subscribers = 0 ∧ mo.acked)) (hg : ∀ t ∈ fills, t.orderGuid = guid) :
    outputs step errors om (fills.map .trade) = [] ∧
      (after step om (fills.map .trade)).orders.lookup guid =
        some { mo with traded := mo.traded || !fills.isEmpty } ∧
      (after step om (fills.map .trade)).marketOrders.lookup guid =
        (om.marketOrders.lookup guid).map (·.applyTrades fills) ∧
      (after step om (fills.map .trade)).Unused guid := by
  induction fills generalizing om mo with
  | nil => exact ⟨rfl, by simpa using h, by simp [MarketOrder.applyTrades], hu⟩
  | cons t fills ih =>
    obtain rfl : t.orderGuid = guid := hg t (by simp)
    obtain ⟨herr, hobjects, horders⟩ := step_trade_pending h
    rw [if_neg hkeep] at horders
    have hnext : (om.step (.trade t)).orders.lookup t.orderGuid =
        some { mo with traded := true } := by rw [horders, AList.lookup_insert]
    obtain ⟨hrun, hlookup, hobj, hu'⟩ := ih (hu.step_trade h) hnext hkeep
      fun t' ht' => hg t' (by simp [ht'])
    refine ⟨?_, ?_, ?_, hu'⟩
    · rw [List.map_cons, outputs, herr, hrun, List.nil_append]
    · rw [List.map_cons, after_cons, hlookup]
      simp
    · rw [List.map_cons, after_cons, hobj, hobjects, GuidMap.lookup_modify_self, Option.map_map]
      rfl

/-- While trades do not erase the order, it is pending before and after each of them. -/
theorem mem_orders_of_prefix (hu : om.Unused guid) (h : om.orders.lookup guid = some mo)
    (hkeep : ¬ (mo.subscribers = 0 ∧ mo.acked)) (hg : ∀ t ∈ fills, t.orderGuid = guid)
    {pre : List GatewayEvent} (hpre : pre <+: fills.map .trade) :
    guid ∈ (after step om pre).orders := by
  obtain ⟨fills', hfills', rfl⟩ : ∃ fills', fills' <+: fills ∧ pre = fills'.map .trade := by
    refine ⟨fills.take pre.length, List.take_prefix _ _, ?_⟩
    rw [List.map_take]
    exact List.prefix_iff_eq_take.mp hpre
  have hrun := run_trades _ hu h hkeep fun t ht => hg t (hfills'.subset ht)
  exact AList.lookup_isSome.mp (by rw [hrun.2.1]; rfl)

section Fill

variable {price : ℚ} {vol adjusted : SignedVolume} {ts : Milliseconds} {subscribers i : ℕ}

theorem Unused.afterSend (price : ℚ) (vol : SignedVolume) (ts : Milliseconds)
    (subscribers : ℕ) (hu : om.Unused guid) :
    (om.afterSend price vol ts subscribers).Unused guid := by
  simp only [OrderManager.afterSend, sendMarketOrder]
  cases om.adjustedVolume vol with
  | error e =>
    simp only
    split <;> exact ⟨hu.takeProfits, hu.stopLosses, hu.exits⟩
  | ok adjusted =>
    simp only
    split <;> exact ⟨hu.takeProfits, hu.stopLosses, hu.exits⟩

theorem afterSend_orders (price : ℚ) (ts : Milliseconds) (subscribers : ℕ)
    (h : om.adjustedVolume vol = .ok adjusted) :
    (om.afterSend price vol ts subscribers).orders.lookup om.nextGuid =
        some { subscribers } ∧
      (om.afterSend price vol ts subscribers).marketOrders.lookup om.nextGuid =
        some (.ofSigned om.nextGuid om.symbol.symbolName price adjusted ts) := by
  unfold afterSend
  rw [sendMarketOrder_ok h]
  by_cases hs : subscribers = 0
  · simp only [if_pos hs]
    rw [AList.lookup_insert, AList.lookup_insert, hs]
    exact ⟨rfl, rfl⟩
  · simp only [if_neg hs, setSubscribers]
    rw [GuidMap.lookup_modify_self, AList.lookup_insert, AList.lookup_insert]
    exact ⟨rfl, rfl⟩

theorem after_response (h : om.orders.lookup guid = some mo) (hr : r.rejectReason = none)
    (hg : r.requestGuid = guid) :
    errors om (.orderResponse r) = [] ∧
      (om.step (.orderResponse r)).marketOrders = om.marketOrders ∧
      (om.step (.orderResponse r)).orders.lookup guid =
        if mo.traded then none else some { mo with acked := true } := by
  subst hg
  obtain ⟨herr, hobjects, horders⟩ := step_response_pending h hr
  refine ⟨herr, hobjects, ?_⟩
  rw [horders]
  split
  · exact AList.lookup_erase _ _
  · exact AList.lookup_insert _

theorem filledProperly_response_last {o : MarketOrder} (hu : om.Unused guid)
    (h : om.orders.lookup guid = some { subscribers })
    (ho : om.marketOrders.lookup guid = some o) (hnew : o.filledVolume.value = 0 ∧ o.fee = 0)
    (hg : ∀ t ∈ fills, t.orderGuid = guid) (hr : r.rejectReason = none)
    (hrg : r.requestGuid = guid) :
    om.FilledProperly guid (tradedVolume fills) fills
      (fills.map .trade ++ [.orderResponse r]) := by
  have hkeep : ¬ (subscribers = 0 ∧ (false = true)) := by simp
  obtain ⟨herr, hlookup, hobject, hu'⟩ := run_trades _ hu h hkeep hg
  obtain ⟨herr', hobjects', _⟩ := after_response hlookup hr hrg
  refine ⟨?_, fun pre hpre hopen => ?_, ?_⟩
  · rw [after_concat, hobjects', hobject, ho]
    refine ⟨_, rfl, ?_, ?_⟩
    · rw [MarketOrder.filledVolume_applyTrades, hnew.1, zero_add]
    · rw [MarketOrder.fee_applyTrades, hnew.2, zero_add]
  · rcases List.prefix_concat_iff.mp hpre with rfl | hpre
    · refine absurd ⟨?_, ?_⟩ hopen
      · simp [GatewayEvent.isResponse]
      · have hnone : [GatewayEvent.orderResponse r].filterMap GatewayEvent.trade? = [] := rfl
        rw [List.filterMap_append, hnone, List.append_nil, List.filterMap_map]
        simp [Function.comp_def, GatewayEvent.trade?]
    · exact mem_orders_of_prefix hu h hkeep hg hpre
  · rw [outputs_concat, herr, herr', List.append_nil]

theorem filledProperly_response_first {o : MarketOrder} (hu : om.Unused guid)
    (h : om.orders.lookup guid = some { subscribers }) (hs : 0 < subscribers)
    (ho : om.marketOrders.lookup guid = some o) (hnew : o.filledVolume.value = 0 ∧ o.fee = 0)
    (hg : ∀ t ∈ fills, t.orderGuid = guid) (hr : r.rejectReason = none)
    (hrg : r.requestGuid = guid) :
    om.FilledProperly guid (tradedVolume fills) fills (.orderResponse r :: fills.map .trade) := by
  obtain ⟨herr', hobjects', hlookup'⟩ := after_response h hr hrg
  rw [if_neg (by simp)] at hlookup'
  have hkeep : ¬ (subscribers = 0 ∧ (true = true)) := by omega
  obtain ⟨herr, hlookup, hobject, _⟩ :=
    run_trades _ (hu.step_response (r := r)) hlookup' hkeep hg
  refine ⟨?_, fun pre hpre _ => ?_, ?_⟩
  · rw [after_cons, hobject, hobjects', ho]
    refine ⟨_, rfl, ?_, ?_⟩
    · rw [MarketOrder.filledVolume_applyTrades, hnew.1, zero_add]
    · rw [MarketOrder.fee_applyTrades, hnew.2, zero_add]
  · rcases List.prefix_cons_iff.mp hpre with rfl | ⟨pre', rfl, hpre'⟩
    · exact AList.lookup_isSome.mp (by rw [after_nil, h]; rfl)
    · exact mem_orders_of_prefix (hu.step_response (r := r)) hlookup' hkeep hg hpre'
  · rw [outputs, herr', herr, List.append_nil]

theorem filledProperly_single {o : MarketOrder} (h : om.orders.lookup guid = some {})
    (ho : om.marketOrders.lookup guid = some o) (hnew : o.filledVolume.value = 0 ∧ o.fee = 0)
    (hg : t.orderGuid = guid) (hr : r.rejectReason = none) (hrg : r.requestGuid = guid) :
    om.FilledProperly guid (tradedVolume [t]) [t] [.orderResponse r, .trade t] := by
  obtain ⟨herr', hobjects', hlookup'⟩ := after_response h hr hrg
  rw [if_neg (by simp)] at hlookup'
  subst hg
  obtain ⟨herr, hobjects, _⟩ := step_trade_pending hlookup'
  refine ⟨⟨o.applyTrades [t], ?_, ?_, ?_⟩, fun pre hpre hopen => ?_, ?_⟩
  · rw [after_cons, after_cons, after_nil, hobjects, GuidMap.lookup_modify_self, hobjects', ho]
    rfl
  · rw [MarketOrder.filledVolume_applyTrades, hnew.1, zero_add]
  · rw [MarketOrder.fee_applyTrades, hnew.2, zero_add]
  · rcases List.prefix_cons_iff.mp hpre with rfl | ⟨pre', rfl, hpre'⟩
    · exact AList.lookup_isSome.mp (by rw [after_nil, h]; rfl)
    · rcases List.prefix_cons_iff.mp hpre' with rfl | ⟨pre'', rfl, hnil⟩
      · exact AList.lookup_isSome.mp (by rw [after_cons, after_nil, hlookup']; rfl)
      obtain rfl := List.prefix_nil.mp hnil
      exact absurd ⟨rfl, rfl⟩ hopen
  · rw [outputs, outputs, outputs, herr', herr]
    rfl

theorem errors_after_erase (es : List GatewayEvent) (hu : om.Unused guid)
    (h : om.orders.lookup guid = none) (hg : t.orderGuid = guid) :
    outputs step errors om (.trade t :: es) ≠ [] := by
  rw [outputs]
  exact fun hnil => errors_of_erased hu hg h (List.append_eq_nil_iff.mp hnil).1

/-- With a trade left after the one that comes with the response, some trade finds the order
erased. -/
theorem noErrors_fails (hu : om.Unused guid) (h : om.orders.lookup guid = some { subscribers })
    (hg : ∀ t ∈ fills, t.orderGuid = guid) (hr : r.rejectReason = none)
    (hrg : r.requestGuid = guid) (hi : i < fills.length)
    (hbad : 0 < i ∨ subscribers = 0 ∧ 1 < fills.length) :
    outputs step errors om (fillEvents fills i r) ≠ [] := by
  have hdrop : ∀ t ∈ fills.drop i, t.orderGuid = guid := fun t ht => hg t (List.mem_of_mem_drop ht)
  rcases Nat.eq_zero_or_pos i with rfl | hpos
  · obtain ⟨rfl, hlen⟩ : subscribers = 0 ∧ 1 < fills.length := by omega
    obtain ⟨t, t', ts', rfl⟩ : ∃ t t' ts', fills = t :: t' :: ts' := by
      match fills, hlen with
      | t :: t' :: ts', _ => exact ⟨t, t', ts', rfl⟩
    obtain ⟨_, _, hacked⟩ := after_response h hr hrg
    rw [if_neg (by simp)] at hacked
    obtain rfl : t.orderGuid = guid := hg t (by simp)
    obtain ⟨_, _, horders⟩ := step_trade_pending hacked
    rw [if_pos (by simp)] at horders
    have hgone : ((om.step (.orderResponse r)).step (.trade t)).orders.lookup t.orderGuid =
        none := by rw [horders, AList.lookup_erase]
    have hrest := errors_after_erase (ts'.map .trade) (hu.step_response.step_trade hacked)
      hgone (hg t' (by simp))
    exact fun hnil => hrest (List.append_eq_nil_iff.mp (List.append_eq_nil_iff.mp hnil).2).2
  · obtain ⟨_, hlookup, _, hu'⟩ := run_trades (fills.take i) hu h (by simp)
      fun t ht => hg t (List.mem_of_mem_take ht)
    obtain ⟨_, _, herased⟩ := after_response hlookup hr hrg
    have hsome : (fills.take i).isEmpty = false := by
      rw [List.isEmpty_eq_false_iff]
      exact List.ne_nil_of_length_pos (by rw [List.length_take]; omega)
    rw [if_pos (by rw [hsome]; rfl)] at herased
    obtain ⟨t, ts', hts'⟩ : ∃ t ts', fills.drop i = t :: ts' :=
      List.exists_cons_of_length_pos (by rw [List.length_drop]; omega)
    have hrest := errors_after_erase (ts'.map .trade) hu'.step_response herased
      (hdrop t (by rw [hts']; simp))
    rw [fillEvents, hts', outputs_append]
    exact fun hnil => hrest (List.append_eq_nil_iff.mp (List.append_eq_nil_iff.mp hnil).2).2

/--
Every split of a sent order into trades is applied, without an error and while the order is
pending, just when there is only one trade, or the response comes after all of them, or it
comes before all of them and the order's channel has a subscriber.
-/
theorem filledProperly_iff (om : OrderManager) (price : ℚ) (vol adjusted : SignedVolume)
    (ts : Milliseconds) (subscribers : ℕ) (fills : List Trade) (i : ℕ) (r : OrderResponseEvent)
    (hunused : om.Unused om.nextGuid) (hsent : om.adjustedVolume vol = .ok adjusted)
    (hfills : fills ≠ []) (hguid : ∀ t ∈ fills, t.orderGuid = om.nextGuid)
    (htarget : tradedVolume fills = adjusted.unsigned.value) (hi : i ≤ fills.length)
    (hr : r.rejectReason = none) (hrguid : r.requestGuid = om.nextGuid) :
    (om.afterSend price vol ts subscribers).FilledProperly om.nextGuid adjusted.unsigned.value
        fills (fillEvents fills i r) ↔
      fills.length = 1 ∨ i = fills.length ∨ 0 < subscribers ∧ i = 0 := by
  obtain ⟨hlookup, hobject⟩ := afterSend_orders price ts subscribers hsent
  have hunused' := hunused.afterSend price vol ts subscribers
  have hnew : ((MarketOrder.ofSigned om.nextGuid om.symbol.symbolName price adjusted
      ts).filledVolume.value = 0 ∧ (MarketOrder.ofSigned om.nextGuid om.symbol.symbolName price
      adjusted ts).fee = 0) := ⟨rfl, rfl⟩
  rw [← htarget]
  constructor
  · intro hproper
    by_contra hbad
    obtain ⟨hone, hlast, hfirst⟩ : fills.length ≠ 1 ∧ i ≠ fills.length ∧
        ¬ (0 < subscribers ∧ i = 0) := by tauto
    refine noErrors_fails hunused' hlookup hguid hr hrguid ?_ ?_ hproper.noErrors
    · omega
    · omega
  · have hlast : (om.afterSend price vol ts subscribers).FilledProperly om.nextGuid
        (tradedVolume fills) fills (fillEvents fills fills.length r) := by
      rw [fillEvents, List.take_length, List.drop_length]
      exact filledProperly_response_last hunused' hlookup hobject hnew hguid hr hrguid
    have hfirst (hs : 0 < subscribers) : (om.afterSend price vol ts subscribers).FilledProperly
        om.nextGuid (tradedVolume fills) fills (fillEvents fills 0 r) :=
      filledProperly_response_first hunused' hlookup hs hobject hnew hguid hr hrguid
    rintro (hone | rfl | ⟨hs, rfl⟩)
    · obtain rfl | rfl : i = 0 ∨ i = fills.length := by omega
      · rcases Nat.eq_zero_or_pos subscribers with rfl | hs
        · obtain ⟨t, rfl⟩ := List.length_eq_one_iff.mp hone
          exact filledProperly_single hlookup hobject hnew (hguid t (by simp)) hr hrguid
        · exact hfirst hs
      · exact hlast
    · exact hlast
    · exact hfirst hs

/-- Two trades before the response, and no subscriber. -/
theorem filledProperly_iff_two_trades :
    let om := init ⟨"BTCUSDT", ⟨1, 100, 1⟩⟩
    let fill : Trade := ⟨2, "BTCUSDT", 1, 100, ⟨1, zero_le_one⟩, .buy, 1⟩
    om.Unused om.nextGuid ∧ om.adjustedVolume ⟨2⟩ = .ok ⟨2⟩ ∧
      (om.afterSend 100 ⟨2⟩ 1 0).FilledProperly om.nextGuid 2 [fill, fill]
        (fillEvents [fill, fill] 2 { symbolName := "BTCUSDT", requestGuid := 1 }) := by
  intro om fill
  have hunused : om.Unused om.nextGuid := ⟨rfl, rfl, rfl⟩
  have hsent : om.adjustedVolume ⟨2⟩ = .ok ⟨2⟩ := by decide +kernel
  refine ⟨hunused, hsent, ?_⟩
  exact (filledProperly_iff om 100 ⟨2⟩ ⟨2⟩ 1 0 [fill, fill] 2
    { symbolName := "BTCUSDT", requestGuid := 1 } hunused hsent (by simp) (by decide +kernel)
    (by decide +kernel) le_rfl rfl rfl).mpr (.inr (.inl rfl))

/-- The second of two trades after the response finds the order erased. -/
theorem second_fill_unsolicited :
    let om := init ⟨"BTCUSDT", ⟨1, 100, 1⟩⟩
    let fill : Trade := ⟨2, "BTCUSDT", 1, 100, ⟨1, zero_le_one⟩, .buy, 1⟩
    let es := fillEvents [fill, fill] 0 { symbolName := "BTCUSDT", requestGuid := 1 }
    outputs step errors (om.afterSend 100 ⟨2⟩ 1 0) es = [.unsolicitedTrade 1] ∧
      ¬ (om.afterSend 100 ⟨2⟩ 1 0).FilledProperly om.nextGuid 2 [fill, fill] es := by
  intro om fill es
  have herr : outputs step errors (om.afterSend 100 ⟨2⟩ 1 0) es = [.unsolicitedTrade 1] := by
    decide +kernel
  refine ⟨herr, fun h => ?_⟩
  have hnone := h.noErrors
  rw [herr] at hnone
  cases hnone

end Fill

end OrderManager

end CryptoTrading

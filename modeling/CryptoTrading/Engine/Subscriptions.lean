import CryptoTrading.Engine.Calls

/-! # Subscriptions to market orders

An order is erased when its last subscriber leaves, whether or not its response and its
trade have come. The guids of the orders and of their events are logged beside the order
manager.
-/

namespace CryptoTrading

open Runs

structure OrderWatch where
  om : OrderManager
  /-- The market orders that the gateway was asked for. -/
  sent : List Guid
  acked : List Guid
  traded : List Guid
  /-- The orders one of whose events was reported as unsolicited. -/
  unsolicited : List Guid

namespace OrderWatch

def init (symbol : Symbol) : OrderWatch := ⟨.init symbol, [], [], [], []⟩

variable (s : OrderWatch)

def call (c : OrderManagerCall) : OrderWatch :=
  let (om, out) := s.om.call c
  { s with om, sent := s.sent ++ (out.filterMap OrderManagerOutput.order?).map (·.guid) }

def event (e : GatewayEvent) : OrderWatch :=
  let unsolicited (guid : Guid) :=
    if s.om.errors e = [] then s.unsolicited else guid :: s.unsolicited
  match e with
  | .orderResponse r =>
    if r.requestGuid ∈ s.sent then
      { s with
        om := s.om.step e
        acked := r.requestGuid :: s.acked
        unsolicited := unsolicited r.requestGuid }
    else { s with om := s.om.step e }
  | .trade t =>
    if t.orderGuid ∈ s.sent then
      { s with
        om := s.om.step e
        traded := t.orderGuid :: s.traded
        unsolicited := unsolicited t.orderGuid }
    else { s with om := s.om.step e }
  | _ => { s with om := s.om.step e }

def step : OrderManagerCall ⊕ GatewayEvent → OrderWatch
  | .inl c => s.call c
  | .inr e => s.event e

/-- Each order is acknowledged once and trades once. -/
def OneEventEach : OrderManagerCall ⊕ GatewayEvent → Prop
  | .inr (.orderResponse r) => r.requestGuid ∉ s.acked
  | .inr (.trade t) => t.orderGuid ∉ s.traded
  | _ => True

instance : (x : OrderManagerCall ⊕ GatewayEvent) → Decidable (s.OneEventEach x)
  | .inr (.orderResponse _) => inferInstanceAs (Decidable (¬ _))
  | .inr (.trade _) => inferInstanceAs (Decidable (¬ _))
  | .inl _ | .inr (.tpslUpdated _) | .inr (.trailingStopUpdated _) | .inr (.stopLossUpdated _)
  | .inr (.takeProfitUpdated _) => isTrue trivial

def Finished (guid : Guid) : Prop := guid ∈ s.acked ∧ guid ∈ s.traded

instance (guid : Guid) : Decidable (s.Finished guid) := inferInstanceAs (Decidable (_ ∧ _))

/-- Unfinished orders are pending, and no event of an order was unsolicited. -/
structure Remembers : Prop where
  pending : ∀ g ∈ s.sent, ¬ s.Finished g → g ∈ s.om.pendingOrders
  solicited : s.unsolicited = []

/-- The last subscriber does not leave an order that is not finished. -/
def KeepsInFlight : OrderManagerCall ⊕ GatewayEvent → Prop
  | .inl (.setSubscribers guid count) => count = 0 → guid ∈ s.sent → s.Finished guid
  | _ => True

instance (x : OrderManagerCall ⊕ GatewayEvent) : Decidable (s.KeepsInFlight x) := by
  unfold KeepsInFlight
  split <;> infer_instance

structure Consistent : Prop where
  fresh : ∀ g ∈ s.sent, g < s.om.nextGuid
  orders : ∀ g ∈ s.om.orders, g ∈ s.sent
  acked : ∀ g ∈ s.acked, g ∈ s.sent
  traded : ∀ g ∈ s.traded, g ∈ s.sent
  flags : ∀ g mo, s.om.orders.lookup g = some mo →
    (mo.acked ↔ g ∈ s.acked) ∧ (mo.traded ↔ g ∈ s.traded)

end OrderWatch

theorem OrderManager.flags_setSubscribers (om : OrderManager) {g guid : Guid} {count : ℕ}
    {mo : MarketOrderChannelWithAckInfo}
    (h : (om.setSubscribers g count).orders.lookup guid = some mo) :
    ∃ mo', om.orders.lookup guid = some mo' ∧ mo'.acked = mo.acked ∧ mo'.traded = mo.traded := by
  simp only [setSubscribers] at h
  by_cases hcount : count = 0
  · rw [if_pos hcount] at h
    by_cases hg : guid = g
    · subst hg
      rw [AList.lookup_erase] at h
      cases h
    · rw [AList.lookup_erase_ne hg] at h
      exact ⟨mo, h, rfl, rfl⟩
  · rw [if_neg hcount] at h
    by_cases hg : guid = g
    · subst hg
      rw [GuidMap.lookup_modify_self] at h
      obtain ⟨mo', hmo', rfl⟩ := Option.map_eq_some_iff.mp h
      exact ⟨mo', hmo', rfl, rfl⟩
    · rw [GuidMap.lookup_modify_of_ne hg] at h
      exact ⟨mo, h, rfl, rfl⟩

theorem OrderManager.call_orders (om : OrderManager) (c : OrderManagerCall) :
    ((om.call c).1.orders = om.orders ∧
        (om.call c).2.filterMap OrderManagerOutput.order? = []) ∨
      (∃ o, om.Adds (om.call c).1 o ∧
        (om.call c).2.filterMap OrderManagerOutput.order? = [o]) ∨
      ∃ guid count, c = .setSubscribers guid count := by
  cases c with
  | sendMarketOrder price vol ts =>
    rcases sendMarketOrder_cases om price vol ts with ⟨hom, hout⟩ | ⟨o, hadds, hout, -⟩
    · exact .inl ⟨congrArg OrderManager.orders hom, hout⟩
    · exact .inr (.inl ⟨o, hadds, hout⟩)
  | sendTakeProfit price vol ts =>
    left
    simp only [call, sendTakeProfit]
    split <;> exact ⟨rfl, rfl⟩
  | sendStopLoss price vol ts =>
    left
    simp only [call, sendStopLoss]
    split <;> exact ⟨rfl, rfl⟩
  | cancelTakeProfit guid =>
    left
    simp only [call, cancelTakeProfit]
    split <;> exact ⟨rfl, rfl⟩
  | cancelStopLoss guid =>
    left
    simp only [call, cancelStopLoss]
    split <;> exact ⟨rfl, rfl⟩
  | sendTrailingStop trailingStop => exact .inl ⟨rfl, rfl⟩
  | sendTpsl takeProfitPrice stopLossPrice side ts => exact .inl ⟨rfl, rfl⟩
  | setSubscribers guid count => exact .inr (.inr ⟨guid, count, rfl⟩)
  | setTakeProfitSubscribers guid count =>
    left
    simp only [call, setTakeProfitSubscribers, cancelTakeProfit]
    split <;> [split <;> exact ⟨rfl, rfl⟩; exact ⟨rfl, rfl⟩]
  | setStopLossSubscribers guid count =>
    left
    simp only [call, setStopLossSubscribers, cancelStopLoss]
    split <;> [split <;> exact ⟨rfl, rfl⟩; exact ⟨rfl, rfl⟩]

namespace OrderWatch

variable {s : OrderWatch} {guid : Guid} {mo : MarketOrderChannelWithAckInfo} {e : GatewayEvent}
  {x : OrderManagerCall ⊕ GatewayEvent}

@[simp] theorem event_om (s : OrderWatch) (e : GatewayEvent) :
    (s.event e).om = s.om.step e := by
  cases e with
  | orderResponse r =>
    simp only [event]
    split <;> rfl
  | trade t =>
    simp only [event]
    split <;> rfl
  | tpslUpdated r | trailingStopUpdated r | stopLossUpdated r | takeProfitUpdated r => rfl

@[simp] theorem event_sent (s : OrderWatch) (e : GatewayEvent) : (s.event e).sent = s.sent := by
  cases e with
  | orderResponse r =>
    simp only [event]
    split <;> rfl
  | trade t =>
    simp only [event]
    split <;> rfl
  | tpslUpdated r | trailingStopUpdated r | stopLossUpdated r | takeProfitUpdated r => rfl

theorem event_response {r : OrderResponseEvent} (h : r.requestGuid ∈ s.sent) :
    (s.event (.orderResponse r)).acked = r.requestGuid :: s.acked ∧
      (s.event (.orderResponse r)).traded = s.traded := by
  simp [event, h]

theorem event_trade {t : Trade} (h : t.orderGuid ∈ s.sent) :
    (s.event (.trade t)).acked = s.acked ∧
      (s.event (.trade t)).traded = t.orderGuid :: s.traded := by
  simp [event, h]

theorem mem_event_of_ne (h : e.orderGuid? ≠ some guid) :
    (guid ∈ (s.event e).acked ↔ guid ∈ s.acked) ∧
      (guid ∈ (s.event e).traded ↔ guid ∈ s.traded) := by
  cases e with
  | orderResponse r =>
    have hne : guid ≠ r.requestGuid := fun heq => h (congrArg some heq.symm)
    simp only [event]
    split <;> simp [hne]
  | trade t =>
    have hne : guid ≠ t.orderGuid := fun heq => h (congrArg some heq.symm)
    simp only [event]
    split <;> simp [hne]
  | tpslUpdated r | trailingStopUpdated r | stopLossUpdated r | takeProfitUpdated r =>
    exact ⟨Iff.rfl, Iff.rfl⟩

theorem event_of_not_sent (h : ∀ g ∈ s.sent, e.orderGuid? ≠ some g) :
    (s.event e).acked = s.acked ∧ (s.event e).traded = s.traded ∧
      (s.event e).unsolicited = s.unsolicited := by
  cases e with
  | orderResponse r =>
    have hnot : r.requestGuid ∉ s.sent := fun hmem => h _ hmem rfl
    simp [event, hnot]
  | trade t =>
    have hnot : t.orderGuid ∉ s.sent := fun hmem => h _ hmem rfl
    simp [event, hnot]
  | tpslUpdated r | trailingStopUpdated r | stopLossUpdated r | takeProfitUpdated r =>
    exact ⟨rfl, rfl, rfl⟩

theorem Consistent.init (symbol : Symbol) : (init symbol).Consistent := by
  constructor
  · rintro g ⟨⟩
  · rintro g ⟨⟩
  · rintro g ⟨⟩
  · rintro g ⟨⟩
  · rintro g mo ⟨⟩

theorem call_sent_of_same {c : OrderManagerCall}
    (hout : (s.om.call c).2.filterMap OrderManagerOutput.order? = []) :
    (s.call c).sent = s.sent := by
  simp [OrderWatch.call, hout]

theorem call_sent_of_adds {c : OrderManagerCall} {o : MarketOrder}
    (hadds : s.om.Adds (s.om.call c).1 o)
    (hout : (s.om.call c).2.filterMap OrderManagerOutput.order? = [o]) :
    (s.call c).sent = s.sent ++ [s.om.nextGuid] := by
  simp [OrderWatch.call, hout, hadds.guid]

theorem setSubscribers_sent (s : OrderWatch) (g₀ : Guid) (count : ℕ) :
    (s.call (.setSubscribers g₀ count)).sent = s.sent := List.append_nil _

theorem Consistent.call_of_sent {c : OrderManagerCall} (h : s.Consistent)
    (hsent : (s.call c).sent = s.sent)
    (horders : ∀ g mo, (s.om.call c).1.orders.lookup g = some mo →
      ∃ mo', s.om.orders.lookup g = some mo' ∧ mo'.acked = mo.acked ∧ mo'.traded = mo.traded) :
    (s.call c).Consistent := by
  constructor
  · intro g hg
    rw [hsent] at hg
    exact (h.fresh g hg).trans_le (OrderManager.keeps_call s.om c).nextGuid
  · intro g hg
    rw [hsent]
    obtain ⟨mo, hmo⟩ := Option.isSome_iff_exists.mp (AList.lookup_isSome.mpr hg)
    obtain ⟨mo', hmo', -⟩ := horders g mo hmo
    exact h.orders g (AList.lookup_isSome.mp (by rw [hmo']; rfl))
  · rw [hsent]
    exact h.acked
  · rw [hsent]
    exact h.traded
  · intro g mo hmo
    obtain ⟨mo', hmo', hacked, htraded⟩ := horders g mo hmo
    rw [← hacked, ← htraded]
    exact h.flags g mo' hmo'

theorem Consistent.call_of_adds {c : OrderManagerCall} {o : MarketOrder} (h : s.Consistent)
    (hadds : s.om.Adds (s.om.call c).1 o)
    (hout : (s.om.call c).2.filterMap OrderManagerOutput.order? = [o]) :
    (s.call c).Consistent := by
  have hsent := call_sent_of_adds hadds hout
  constructor
  · intro g hg
    rw [hsent, List.mem_append, List.mem_singleton] at hg
    rw [show (s.call c).om.nextGuid = s.om.nextGuid + 1 from hadds.nextGuid]
    rcases hg with hg | rfl
    · exact Nat.lt_succ_of_lt (h.fresh g hg)
    · exact Nat.lt_succ_self _
  · intro g hg
    rw [show (s.call c).om.orders = _ from hadds.orders, AList.mem_insert] at hg
    rw [hsent, List.mem_append, List.mem_singleton]
    rcases hg with rfl | hg
    · exact .inr rfl
    · exact .inl (h.orders g hg)
  · intro g hg
    rw [hsent]
    exact List.mem_append_left _ (h.acked g hg)
  · intro g hg
    rw [hsent]
    exact List.mem_append_left _ (h.traded g hg)
  · intro g mo hmo
    rw [show (s.call c).om.orders = _ from hadds.orders] at hmo
    by_cases hg : g = s.om.nextGuid
    · -- a fresh guid is in no log
      have hfresh : g ∉ s.sent := fun hmem => (h.fresh g hmem).ne hg
      subst hg
      rw [AList.lookup_insert, Option.some.injEq] at hmo
      subst hmo
      constructor
      · exact iff_of_false Bool.false_ne_true fun hmem => hfresh (h.acked _ hmem)
      · exact iff_of_false Bool.false_ne_true fun hmem => hfresh (h.traded _ hmem)
    · rw [AList.lookup_insert_ne hg] at hmo
      exact h.flags g mo hmo

theorem Consistent.call (h : s.Consistent) (c : OrderManagerCall) : (s.call c).Consistent := by
  rcases s.om.call_orders c with ⟨horders, hout⟩ | ⟨o, hadds, hout⟩ | ⟨g₀, count, rfl⟩
  · apply h.call_of_sent (call_sent_of_same hout)
    rw [horders]
    exact fun g mo hmo => ⟨mo, hmo, rfl, rfl⟩
  · exact h.call_of_adds hadds hout
  · apply h.call_of_sent (s.setSubscribers_sent g₀ count)
    exact fun g mo hmo => s.om.flags_setSubscribers hmo

theorem Consistent.flags_response {r : OrderResponseEvent} (h : s.Consistent)
    (hmo : (s.event (.orderResponse r)).om.orders.lookup r.requestGuid = some mo) :
    (mo.acked ↔ r.requestGuid ∈ (s.event (.orderResponse r)).acked) ∧
      (mo.traded ↔ r.requestGuid ∈ (s.event (.orderResponse r)).traded) := by
  rw [event_om] at hmo
  cases hlookup : s.om.orders.lookup r.requestGuid with
  | none =>
    rw [OrderManager.step, OrderManager.onEvent,
      OrderManager.onOrderResponse_unsolicited hlookup, hlookup] at hmo
    cases hmo
  | some mo' =>
    have hsent := h.orders _ (AList.lookup_isSome.mp (by rw [hlookup]; rfl))
    obtain ⟨hacked, htraded⟩ := event_response hsent
    have horders : (s.om.step (.orderResponse r)).orders = _ :=
      (OrderManager.onOrderResponse_pending hlookup).2
    rw [horders] at hmo
    rw [hacked, htraded]
    obtain ⟨-, rfl⟩ := GuidMap.eq_of_lookup_eraseOrInsert hmo
    exact ⟨by simp, (h.flags _ _ hlookup).2⟩

theorem Consistent.flags_trade {t : Trade} (h : s.Consistent)
    (hmem : t.orderGuid ∈ s.om.orders)
    (hmo : (s.event (.trade t)).om.orders.lookup t.orderGuid = some mo) :
    (mo.acked ↔ t.orderGuid ∈ (s.event (.trade t)).acked) ∧
      (mo.traded ↔ t.orderGuid ∈ (s.event (.trade t)).traded) := by
  obtain ⟨mo', hlookup⟩ := Option.isSome_iff_exists.mp (AList.lookup_isSome.mpr hmem)
  obtain ⟨hacked, htraded⟩ := event_trade (h.orders _ hmem)
  have hstep : s.om.onEvent (.trade t) = _ := OrderManager.onTrade_pending hlookup
  rw [event_om, OrderManager.step, hstep] at hmo
  rw [hacked, htraded]
  obtain ⟨-, rfl⟩ := GuidMap.eq_of_lookup_eraseOrInsert hmo
  exact ⟨(h.flags _ _ hlookup).1, by simp⟩

theorem Consistent.event (h : s.Consistent) (e : GatewayEvent) : (s.event e).Consistent := by
  have hlogs (g : Guid) (hnew : g ∉ s.sent) :
      (g ∈ (s.event e).acked ↔ g ∈ s.acked) ∧ (g ∈ (s.event e).traded ↔ g ∈ s.traded) := by
    by_cases he : e.orderGuid? = some g
    · -- an event of an order that was not sent logs nothing
      have hnot (g' : Guid) (hg' : g' ∈ s.sent) : e.orderGuid? ≠ some g' := by
        rintro heq
        exact hnew (Option.some.inj (he.symm.trans heq) ▸ hg')
      obtain ⟨hacked, htraded, -⟩ := event_of_not_sent hnot
      rw [hacked, htraded]
      exact ⟨Iff.rfl, Iff.rfl⟩
    · exact mem_event_of_ne he
  constructor
  · intro g hg
    rw [event_sent] at hg
    rw [event_om, (OrderManager.step_cases s.om e).nextGuid]
    exact h.fresh g hg
  · intro g hg
    rw [event_om] at hg
    rw [event_sent]
    exact h.orders g (OrderManager.mem_of_mem_step hg)
  · intro g hg
    rw [event_sent]
    by_contra hnew
    exact hnew (h.acked g ((hlogs g hnew).1.mp hg))
  · intro g hg
    rw [event_sent]
    by_contra hnew
    exact hnew (h.traded g ((hlogs g hnew).2.mp hg))
  · intro g mo hmo
    by_cases he : e.orderGuid? = some g
    · have hmem : g ∈ s.om.orders := by
        apply OrderManager.mem_of_mem_step (e := e)
        rw [← event_om, ← AList.lookup_isSome, hmo]
        rfl
      cases e with
      | orderResponse r =>
        obtain rfl := Option.some.inj he
        exact h.flags_response hmo
      | trade t =>
        obtain rfl := Option.some.inj he
        exact h.flags_trade hmem hmo
      | tpslUpdated r | trailingStopUpdated r | stopLossUpdated r | takeProfitUpdated r => cases he
    · obtain ⟨hacked, htraded⟩ := mem_event_of_ne (s := s) he
      rw [event_om, OrderManager.step_lookup_of_ne he] at hmo
      rw [hacked, htraded]
      exact h.flags g mo hmo

theorem Consistent.step (h : s.Consistent) (x : OrderManagerCall ⊕ GatewayEvent) :
    (s.step x).Consistent := by
  cases x with
  | inl c => exact h.call c
  | inr e => exact h.event e

theorem Remembers.mem_orders (h : s.Remembers) (hx : s.OneEventEach (.inr e))
    (he : e.orderGuid? = some guid) (hg : guid ∈ s.sent) : guid ∈ s.om.orders := by
  apply h.pending guid hg
  cases e with
  | orderResponse r =>
    obtain rfl := Option.some.inj he
    exact fun hfinished => hx hfinished.1
  | trade t =>
    obtain rfl := Option.some.inj he
    exact fun hfinished => hx hfinished.2
  | tpslUpdated r | trailingStopUpdated r | stopLossUpdated r | takeProfitUpdated r => cases he

theorem errors_of_mem_orders {om : OrderManager} (he : e.orderGuid? = some guid)
    (hg : guid ∈ om.orders) : om.errors e = [] := by
  obtain ⟨mo, hlookup⟩ := Option.isSome_iff_exists.mp (AList.lookup_isSome.mpr hg)
  cases e with
  | orderResponse r =>
    obtain rfl := Option.some.inj he
    rw [OrderManager.errors, OrderManager.onEvent, (OrderManager.onOrderResponse_pending hlookup).1]
    rfl
  | trade t =>
    obtain rfl := Option.some.inj he
    rw [OrderManager.errors, OrderManager.onEvent, OrderManager.onTrade_pending hlookup]
    rfl
  | tpslUpdated r | trailingStopUpdated r | stopLossUpdated r | takeProfitUpdated r => cases he

theorem unsolicited_event (h : ∀ g ∈ s.sent, e.orderGuid? = some g → s.om.errors e = []) :
    (s.event e).unsolicited = s.unsolicited := by
  cases e with
  | orderResponse r =>
    simp only [event]
    split
    · rename_i hg
      exact if_pos (h _ hg rfl)
    · rfl
  | trade t =>
    simp only [event]
    split
    · rename_i hg
      exact if_pos (h _ hg rfl)
    · rfl
  | tpslUpdated r | trailingStopUpdated r | stopLossUpdated r | takeProfitUpdated r => rfl

theorem Consistent.mem_step (h : s.Consistent) (he : e.orderGuid? = some guid)
    (hg : guid ∈ s.om.orders) (hopen : ¬ (s.event e).Finished guid) :
    guid ∈ (s.om.step e).orders := by
  obtain ⟨mo, hlookup⟩ := Option.isSome_iff_exists.mp (AList.lookup_isSome.mpr hg)
  have hsent := h.orders guid hg
  obtain ⟨hacked, htraded⟩ := h.flags guid mo hlookup
  cases e with
  | orderResponse r =>
    obtain rfl := Option.some.inj he
    rw [Finished, (event_response hsent).1, (event_response hsent).2] at hopen
    have horders : (s.om.step (.orderResponse r)).orders = _ :=
      (OrderManager.onOrderResponse_pending hlookup).2
    rw [horders, if_neg fun hmo => hopen ⟨List.mem_cons_self, htraded.mp hmo⟩]
    exact (AList.mem_insert _).mpr (.inl rfl)
  | trade t =>
    obtain rfl := Option.some.inj he
    rw [Finished, (event_trade hsent).1, (event_trade hsent).2] at hopen
    have hstep : s.om.onEvent (.trade t) = _ := OrderManager.onTrade_pending hlookup
    rw [OrderManager.step, hstep]
    simp only
    rw [if_neg fun hmo => hopen ⟨hacked.mp hmo.2, List.mem_cons_self⟩]
    exact (AList.mem_insert _).mpr (.inl rfl)
  | tpslUpdated r | trailingStopUpdated r | stopLossUpdated r | takeProfitUpdated r => cases he

theorem Remembers.event (h : s.Remembers) (hc : s.Consistent) (hx : s.OneEventEach (.inr e)) :
    (s.event e).Remembers := by
  constructor
  · intro g hg hopen
    rw [event_sent] at hg
    rw [event_om]
    by_cases he : e.orderGuid? = some g
    · exact hc.mem_step he (h.mem_orders hx he hg) hopen
    · obtain ⟨hacked, htraded⟩ := mem_event_of_ne (s := s) he
      rw [Finished, hacked, htraded] at hopen
      exact OrderManager.mem_step_of_ne he (h.pending g hg hopen)
  · rw [unsolicited_event fun g hg he => errors_of_mem_orders he (h.mem_orders hx he hg)]
    exact h.solicited

theorem not_mem_call_of_drop (s : OrderWatch) (guid : Guid) :
    guid ∉ (s.call (.setSubscribers guid 0)).om.pendingOrders := by
  intro hmem
  have herased : guid ∈ s.om.orders.erase guid := hmem
  exact (AList.mem_erase.mp herased).1 rfl

theorem Remembers.keepsInFlight {c : OrderManagerCall} (h : (s.call c).Remembers) :
    s.KeepsInFlight (.inl c) := by
  cases c with
  | setSubscribers g₀ count =>
    rintro rfl hsent
    by_contra hopen
    exact s.not_mem_call_of_drop g₀ (h.pending g₀ (by rwa [setSubscribers_sent]) hopen)
  | _ => trivial

theorem Remembers.call (h : s.Remembers) {c : OrderManagerCall}
    (hc : s.KeepsInFlight (.inl c)) : (s.call c).Remembers := by
  constructor
  · intro g hg hopen
    rcases s.om.call_orders c with ⟨horders, hout⟩ | ⟨o, hadds, hout⟩ | ⟨g₀, count, rfl⟩
    · have horders' : (s.call c).om.pendingOrders = s.om.pendingOrders :=
        congrArg AList.keys horders
      rw [call_sent_of_same hout] at hg
      rw [horders']
      exact h.pending g hg hopen
    · have hmem : g ∈ (s.call c).om.orders ↔ g = s.om.nextGuid ∨ g ∈ s.om.orders := by
        rw [show (s.call c).om.orders = _ from hadds.orders]
        exact AList.mem_insert _
      rw [call_sent_of_adds hadds hout, List.mem_append, List.mem_singleton] at hg
      apply hmem.mpr
      rcases hg with hg | rfl
      · exact .inr (h.pending g hg hopen)
      · exact .inl rfl
    · rw [setSubscribers_sent] at hg
      have hpending : g ∈ s.om.orders := h.pending g hg hopen
      simp only [OrderWatch.call, OrderManager.call, OrderManager.setSubscribers,
        OrderManager.pendingOrders]
      by_cases hcount : count = 0
      · rw [if_pos hcount]
        apply AList.mem_erase.mpr
        constructor
        · rintro rfl
          exact hopen (hc hcount hg)
        · exact hpending
      · rw [if_neg hcount]
        exact GuidMap.mem_modify.mpr hpending
  · exact h.solicited

/-- A step forgets an order just when the last subscriber leaves one that is not finished. -/
theorem remembers_step_iff (h : s.Remembers) (hc : s.Consistent) (hx : s.OneEventEach x) :
    (s.step x).Remembers ↔ s.KeepsInFlight x := by
  cases x with
  | inl c =>
    constructor
    · exact Remembers.keepsInFlight
    · exact h.call
  | inr e => exact iff_of_true (h.event hc hx) trivial

/--
In every run in which each sent order is acknowledged once and trades once, every order stays
pending until both have come, and neither is unsolicited, just when no order loses its last
subscriber before that.
-/
theorem remembers_iff (symbol : Symbol) (xs : List (OrderManagerCall ⊕ GatewayEvent))
    (hxs : Meets step OneEventEach (OrderWatch.init symbol) xs) :
    (∀ pre, pre <+: xs → (after step (OrderWatch.init symbol) pre).Remembers) ↔
      Meets step KeepsInFlight (OrderWatch.init symbol) xs := by
  apply forall_prefix_iff_meets
  · constructor
    · rintro g ⟨⟩
    · rfl
  · intro pre x hpre hremembers
    rw [after_concat]
    have hconsistent : (after step (OrderWatch.init symbol) pre).Consistent :=
      (hxs.of_prefix ((List.prefix_append pre [x]).trans hpre)).invariant
        (fun s x h _ => h.step x) (.init symbol)
    exact remembers_step_iff hremembers hconsistent (meets_concat.mp (hxs.of_prefix hpre)).2

/-- A subscriber leaves after the response and the trade. -/
theorem remembers_iff_done :
    let xs : List (OrderManagerCall ⊕ GatewayEvent) :=
      [.inl (.sendMarketOrder 100 ⟨2⟩ 1), .inl (.setSubscribers 1 1),
        .inr (.orderResponse { symbolName := "BTCUSDT", requestGuid := 1 }),
        .inr (.trade ⟨2, "BTCUSDT", 1, 100, ⟨2, zero_le_two⟩, .buy, 1⟩),
        .inl (.setSubscribers 1 0)]
    ∀ pre, pre <+: xs →
      (after step (OrderWatch.init ⟨"BTCUSDT", ⟨1, 100, 1⟩⟩) pre).Remembers := by
  intro xs
  exact (remembers_iff ⟨"BTCUSDT", ⟨1, 100, 1⟩⟩ xs (by decide +kernel)).mpr (by decide +kernel)

/-- The last subscriber leaves before the response, and both events are unsolicited. -/
theorem forgotten_in_flight :
    let xs : List (OrderManagerCall ⊕ GatewayEvent) :=
      [.inl (.sendMarketOrder 100 ⟨2⟩ 1), .inl (.setSubscribers 1 1),
        .inl (.setSubscribers 1 0),
        .inr (.orderResponse { symbolName := "BTCUSDT", requestGuid := 1 }),
        .inr (.trade ⟨2, "BTCUSDT", 1, 100, ⟨2, zero_le_two⟩, .buy, 1⟩)]
    let s := after step (OrderWatch.init ⟨"BTCUSDT", ⟨1, 100, 1⟩⟩)
    Meets step OneEventEach (OrderWatch.init ⟨"BTCUSDT", ⟨1, 100, 1⟩⟩) xs ∧
      (s (xs.take 3)).sent = [1] ∧ (s (xs.take 3)).om.pendingOrders = [] ∧
      (s xs).unsolicited = [1, 1] ∧ ¬ (s xs).Remembers := by
  intro xs s
  have hunsolicited : (s xs).unsolicited = [1, 1] := by decide +kernel
  refine ⟨by decide +kernel, by decide +kernel, by decide +kernel, hunsolicited, fun h => ?_⟩
  rw [h.solicited] at hunsolicited
  cases hunsolicited

end OrderWatch

end CryptoTrading

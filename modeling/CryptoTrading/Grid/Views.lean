import CryptoTrading.Grid.Orders

/-! # One order in the whole system

What the parts of the system hold about an order, and what the operations of the system do
to it.
-/

namespace CryptoTrading

open EraseLoop

def GridEvent.guid? : GridEvent → Option Guid
  | gateway e => e.guid?
  | update _ guid _ => some guid
  | _ => none

def Level.Owns (l : Level) (guid : Guid) : Prop :=
  guid = l.marketOrder ∨ ∃ kind, l.exit kind = some guid

theorem Level.Owns.eq_marketOrder {l : Level} {guid : Guid} (h : l.Owns guid)
    (hexit : ∀ kind, l.exit kind = none) : guid = l.marketOrder := by
  rcases h with hg | ⟨kind, hg⟩
  · exact hg
  · rw [hexit kind] at hg
    cases hg

/-- What the order manager and the gateway hold about an order, its subscription and the
events about it. -/
@[ext] structure OrderView where
  entry : OrderEntry
  pending : ConditionalType → List ConditionalMarketOrder
  subscription : Option ℤ
  events : List GridEvent
  /-- The gateway has traded it. -/
  traded : Bool

namespace OrderView

def emit (v : OrderView) (pending : ConditionalType → List ConditionalMarketOrder)
    (es : List GatewayEvent) : OrderView :=
  { v with
    pending
    events := v.events ++ es.map .gateway
    traded := v.traded || es.any (·.trade?.isSome) }

/-- No part of the system refers to the order any more, except for the last events of the
gateway about it. -/
structure Idle (v : OrderView) : Prop where
  channel : v.entry.channel = none
  exit : ∀ kind, v.entry.exit kind = none
  pending : ∀ kind, v.pending kind = []
  subscription : v.subscription = none
  events : ∀ e ∈ v.events, ∃ ge, e = .gateway ge

theorem emit_nil (v : OrderView) : v.emit v.pending [] = v := by simp [emit]

end OrderView

namespace GridSystem

variable {s s₀ : GridSystem} {g guid : Guid} {e : GridEvent} {ge : GatewayEvent}
  {gw gw' : BacktestTradingGateway} {es es' : List GatewayEvent} {role : OrderRole} {n : ℤ}
  {kind : ConditionalType} {ts : Milliseconds} {price : ℚ}

def view (s : GridSystem) (guid : Guid) : OrderView where
  entry := s.om.entry guid
  pending := s.gateway.pendingOf guid
  subscription := s.subscriptions.lookup guid
  events := s.queue.normal.filter (·.guid? = some guid)
  traded := s.traded.any (·.orderGuid = guid)

section Queue

theorem pushAll_eq (s : GridSystem) (es : List GridEvent) : s.pushAll es =
    { s with queue := es.foldl (fun q e => q.push e.priority e) s.queue } := by
  induction es generalizing s with
  | nil => rfl
  | cons e es ih =>
    rw [pushAll, List.foldl_cons]
    exact ih (s.push e)

theorem normal_pushAll {es : List GridEvent} (h : ∀ e ∈ es, e.priority = .normal) :
    (s.pushAll es).queue.normal = s.queue.normal ++ es := by
  induction es generalizing s with
  | nil => exact (List.append_nil _).symm
  | cons e es ih =>
    have hpush : (s.push e).queue.normal = s.queue.normal ++ [e] := by
      rw [push, h e List.mem_cons_self]
      rfl
    have hrest := ih (s := s.push e) fun e' he' => h e' (.tail _ he')
    rw [hpush, List.append_assoc] at hrest
    exact hrest

theorem sorted_pushAll {es : List GridEvent} (h : s.queue.Sorted GridEvent.priority) :
    (s.pushAll es).queue.Sorted GridEvent.priority := by
  induction es generalizing s with
  | nil => exact h
  | cons e es ih =>
    rw [pushAll, List.foldl_cons]
    exact ih (s := s.push e) (h.push e)

theorem view_pushAll {es : List GridEvent} (hnormal : ∀ e ∈ es, e.priority = .normal)
    (hnone : ∀ e ∈ es, e.guid? = none) : (s.pushAll es).view g = s.view g := by
  have hfilter : es.filter (·.guid? = some g) = [] := by
    rw [List.filter_eq_nil_iff]
    intro e he
    simp [hnone e he]
  ext1
  · rw [pushAll_eq]
    rfl
  · rw [pushAll_eq]
    rfl
  · rw [pushAll_eq]
    rfl
  · simp only [view, normal_pushAll hnormal, List.filter_append, hfilter, List.append_nil]
  · rw [pushAll_eq]
    rfl

theorem view_push_price : (s.push (.price ts price)).view g = s.view g := rfl

theorem view_push_update_self : (s.push (.update role g n)).view g =
    { s.view g with events := (s.view g).events ++ [.update role g n] } := by
  have hfilter : [GridEvent.update role g n].filter (·.guid? = some g) =
      [.update role g n] := by simp [GridEvent.guid?]
  ext1
  · rfl
  · rfl
  · rfl
  · simp only [view, push, ThreadSafePriorityQueue.push, List.filter_append, hfilter]
  · rfl

theorem view_push_update_of_ne (h : g ≠ guid) :
    (s.push (.update role guid n)).view g = s.view g := by
  have hfilter : [GridEvent.update role guid n].filter (·.guid? = some g) = [] := by
    simp [GridEvent.guid?, h.symm]
  ext1
  · rfl
  · rfl
  · rfl
  · simp only [view, push, ThreadSafePriorityQueue.push, List.filter_append, hfilter,
      List.append_nil]
  · rfl

structure Pops (s s₀ : GridSystem) (e : GridEvent) : Prop where
  rest : s₀ = { s with queue := s₀.queue }
  sorted : s₀.queue.Sorted GridEvent.priority
  normal : s.queue.normal = e :: s₀.queue.normal

theorem pops_of_next? (hs : s.queue.Sorted GridEvent.priority) (h : s.next? = some (e, s₀))
    (he : e.priority = .normal) : s.Pops s₀ e := by
  obtain ⟨⟨e', q⟩, hpop, heq⟩ := Option.map_eq_some_iff.mp h
  obtain ⟨rfl, rfl⟩ := Prod.mk.inj heq
  obtain ⟨hsorted, ⟨-, hnormal⟩ | ⟨hne, -⟩⟩ := hs.waitAndPop hpop
  · exact ⟨rfl, hsorted, hnormal⟩
  · exact absurd he hne

theorem next?_of_low (hs : s.queue.Sorted GridEvent.priority) (h : s.next? = some (e, s₀))
    (he : e.priority = .low) :
    s₀ = { s with queue := s₀.queue } ∧ s₀.queue.Sorted GridEvent.priority ∧
      s.queue.normal = [] ∧ s₀.queue.normal = [] := by
  obtain ⟨⟨e', q⟩, hpop, heq⟩ := Option.map_eq_some_iff.mp h
  obtain ⟨rfl, rfl⟩ := Prod.mk.inj heq
  obtain ⟨hsorted, ⟨hnormal, -⟩ | ⟨-, hnormal⟩⟩ := hs.waitAndPop hpop
  · rw [he] at hnormal
    cases hnormal
  · obtain ⟨p, hp, -, hempty⟩ := ThreadSafePriorityQueue.ofPriority_of_waitAndPop hpop
    have hmem : e' ∈ s.queue.ofPriority p := by simp [hp]
    have hlow : p = .low := by
      cases p with
      | high => rw [hs.high e' hmem] at he; cases he
      | normal => rw [hs.normal e' hmem] at he; cases he
      | low => rfl
      | barrier => rw [hs.barrier e' hmem] at he; cases he
    have hnil : s.queue.normal = [] := hempty .normal (by rw [hlow]; decide)
    exact ⟨rfl, hsorted, hnil, hnormal.trans hnil⟩

theorem Pops.view_self (h : s.Pops s₀ e) (he : e.guid? = some g) :
    s.view g = { s₀.view g with events := e :: (s₀.view g).events } := by
  obtain ⟨hrest, -, hnormal⟩ := h
  rw [hrest]
  simp [view, hnormal, he]

theorem Pops.head (h : s.Pops s₀ e) (he : e.guid? = some g) :
    ∃ rest, (s.view g).events = e :: rest := by
  refine ⟨(s₀.view g).events, ?_⟩
  rw [h.view_self he]

theorem Pops.view_rest (h : s.Pops s₀ e) (he : e.guid? = some g) {es : List GridEvent}
    (hes : (s.view g).events = e :: es) : s₀.view g = { s.view g with events := es } := by
  rw [h.view_self he] at hes ⊢
  obtain rfl := (List.cons.inj hes).2
  rfl

theorem Pops.view_of_ne (h : s.Pops s₀ e) (he : e.guid? ≠ some g) : s₀.view g = s.view g := by
  obtain ⟨hrest, -, hnormal⟩ := h
  rw [hrest]
  simp [view, hnormal, he]

end Queue

section Gateway

def emit (s : GridSystem) (gateway : BacktestTradingGateway) (es : List GatewayEvent) :
    GridSystem :=
  { s with
    gateway
    traded := s.traded ++ es.filterMap GatewayEvent.trade? }.pushAll (es.map .gateway)

theorem callGateway_eq (c : GatewayCall) :
    s.callGateway c = s.emit (s.gateway.step c) (s.gateway.handle c).2 := rfl

theorem emit_eq (s : GridSystem) (gw : BacktestTradingGateway) (es : List GatewayEvent) :
    s.emit gw es = { s with
      gateway := gw
      queue := (s.emit gw es).queue
      traded := s.traded ++ es.filterMap GatewayEvent.trade? } := by
  rw [emit, pushAll_eq]

theorem emit_emit : (s.emit gw es).emit gw' es' = s.emit gw' (es ++ es') := by
  simp only [emit, pushAll_eq, List.map_append, List.foldl_append, List.filterMap_append,
    List.append_assoc]

theorem normal_emit : (s.emit gw es).queue.normal = s.queue.normal ++ es.map .gateway := by
  rw [emit, normal_pushAll]
  intro e he
  obtain ⟨_, -, rfl⟩ := List.mem_map.mp he
  rfl

theorem any_traded : (es.filterMap GatewayEvent.trade?).any (·.orderGuid = g) =
    (es.filter (·.guid? = some g)).any (·.trade?.isSome) := by
  induction es with
  | nil => rfl
  | cons e es ih =>
    cases e with
    | trade t =>
      by_cases ht : t.orderGuid = g
      · simp [GatewayEvent.trade?, ht]
      · simpa [GatewayEvent.trade?, ht] using ih
    | orderResponse r | stopLossUpdated r | takeProfitUpdated r =>
      simp only [List.filter_cons]
      split <;> simpa [GatewayEvent.trade?] using ih
    | tpslUpdated r | trailingStopUpdated r =>
      simpa [GatewayEvent.guid?, GatewayEvent.trade?] using ih

theorem view_emit : (s.emit gw es).view g =
    (s.view g).emit (gw.pendingOf g) (es.filter (·.guid? = some g)) := by
  have hmap : (es.map GridEvent.gateway).filter (·.guid? = some g) =
      (es.filter (·.guid? = some g)).map .gateway := by
    rw [List.filter_map]
    rfl
  ext1
  · rw [emit_eq]
    rfl
  · rw [emit_eq]
    rfl
  · rw [emit_eq]
    rfl
  · simp only [view, OrderView.emit, normal_emit, List.filter_append, hmap]
  · rw [emit_eq]
    simp only [view, OrderView.emit, List.any_append, any_traded]

def trigger (s : GridSystem) (ts : Milliseconds) : GridSystem :=
  s.emit (s.gateway.tryTriggerConditionals ts s.gateway.lastPrice).1
    (s.gateway.tryTriggerConditionals ts s.gateway.lastPrice).2

theorem view_trigger_of_idle (ts : Milliseconds) (h : ∀ kind, (s.view g).pending kind = []) :
    (s.trigger ts).view g = s.view g := by
  obtain ⟨hpending, hevents⟩ :=
    BacktestTradingGateway.tryTriggerConditionals_of_idle ts s.gateway.lastPrice h
  have hsame : (s.gateway.tryTriggerConditionals ts s.gateway.lastPrice).1.pendingOf g =
      (s.view g).pending := by
    funext kind
    rw [hpending, h]
  rw [trigger, view_emit, hevents, hsame, OrderView.emit_nil]

theorem view_trigger_of_pending {x : ConditionalMarketOrder} (ts : Milliseconds)
    (h : (s.view g).pending kind = [x]) (hother : (s.view g).pending kind.other = []) :
    (s.trigger ts).view g = s.view g ∨
      (kind.triggered s.gateway.lastPrice x ∧ ∃ t : Trade, t.orderGuid = g ∧
        t.unsignedVolume = x.targetVolume ∧ (s.trigger ts).view g = (s.view g).emit (fun _ => [])
          [.trade t, kind.updatedEvent ⟨g, false⟩]) := by
  have hguid : x.guid = g := by
    have hmem : x ∈ (s.view g).pending kind := by simp [h]
    simpa using (List.mem_filter.mp hmem).2
  rcases BacktestTradingGateway.tryTriggerConditionals_of_pending ts
    s.gateway.lastPrice h hother with ⟨hpending, hevents⟩ | ⟨htrig, hpending, hevents⟩
  · left
    rw [trigger, view_emit, hevents, funext hpending]
    exact OrderView.emit_nil _
  · right
    refine ⟨htrig, s.gateway.conditionalTrade ts s.gateway.lastPrice x, hguid, rfl, ?_⟩
    rw [trigger, view_emit, hevents, funext hpending, BacktestTradingGateway.triggerEvents, hguid]

end Gateway

end GridSystem

end CryptoTrading

import CryptoTrading.Grid.Views

/-! # The handlers as operations

An event of the gateway changes one order. Orders are sent and erased one at a time; only
the look at the pending orders that follows a new exit or a new price concerns the others.
-/

namespace CryptoTrading

namespace GridSystem

variable {s : GridSystem} {g guid : Guid} {ge : GatewayEvent} {role : OrderRole} {n : ℤ}
  {kind : ConditionalType} {ts : Milliseconds} {price : ℚ} {vol adjusted : SignedVolume} {l : Level}

section GatewayEvents

theorem view_onGatewayEvent_of_ne (h : ge.guid? ≠ some g) :
    (s.onGatewayEvent ge).view g = s.view g := by
  have hom : ({ s with om := s.om.step ge } : GridSystem).view g = s.view g := by
    ext1
    · exact OrderManager.entry_step_of_ne h
    · rfl
    · rfl
    · rfl
    · rfl
  simp only [onGatewayEvent]
  cases hupdated : s.om.updated? ge with
  | none => exact hom
  | some x =>
    obtain ⟨role, guid⟩ := x
    have hne : g ≠ guid := by
      rintro rfl
      exact h (OrderManager.guid?_of_updated? hupdated)
    simp only [notify]
    split
    · exact (view_push_update_of_ne hne).trans hom
    · exact hom

theorem view_onGatewayEvent_quiet (h : s.om.updated? ge = none) :
    (s.onGatewayEvent ge).view g = { s.view g with entry := (s.om.step ge).entry g } := by
  simp only [onGatewayEvent, h]
  rfl

theorem view_onGatewayEvent_update (h : s.om.updated? ge = some (role, g))
    (hsub : (s.view g).subscription = some n) :
    (s.onGatewayEvent ge).view g = { s.view g with
      entry := (s.om.step ge).entry g
      events := (s.view g).events ++ [.update role g n] } := by
  have hlookup : s.subscriptions.lookup g = some n := hsub
  simp only [onGatewayEvent, h, notify, hlookup]
  exact view_push_update_self

theorem onGatewayEvent_rest : s.onGatewayEvent ge =
    { s with om := s.om.step ge, queue := (s.onGatewayEvent ge).queue } := by
  simp only [onGatewayEvent]
  cases s.om.updated? ge with
  | none => rfl
  | some x =>
    obtain ⟨role, guid⟩ := x
    simp only [notify]
    split <;> rfl

end GatewayEvents

section Sends

theorem request_singleton (r : GatewayRequest) : s.request [.request r] =
    s.emit (s.gateway.pushRequest r).1 (s.gateway.pushRequest r).2 := rfl

/-- The system with a new exit, before the gateway looks at the pending orders. -/
def withExit (s : GridSystem) (om : OrderManager) (kind : ConditionalType)
    (o : ConditionalMarketOrder) (l : Level) : GridSystem :=
  { s with
    om
    subscriptions := s.subscriptions.insert o.guid l.levelNum
    strategy.ordersByLevels :=
      s.strategy.ordersByLevels.insert l.levelNum (l.setExit kind o.guid)
    exits := s.exits ++ [(l.marketOrder, o.guid)] }.emit
      (s.gateway.addPending kind o) [kind.updatedEvent ⟨o.guid, true⟩]

theorem sendExit_eq {o : ConditionalMarketOrder} (h : s.om.adjustedVolume vol = .ok adjusted)
    (ho : o =
      .new s.om.nextGuid s.om.symbol.symbolName price adjusted.unsigned adjusted.side kind ts) :
    ∃ om, s.om.Enters om o.guid ((s.om.entry o.guid).setExit kind (some ⟨o, 1⟩)) ∧
      s.sendExit kind l price vol ts = (s.withExit om kind o l).trigger o.signalTs := by
  obtain ⟨om, hsend, hout, henters⟩ := OrderManager.sendExit_enters h ho
  refine ⟨_, henters, ?_⟩
  have hrequest : ({ s with om } : GridSystem).request [.request (kind.requestOf o)] =
      (({ s with om } : GridSystem).emit (s.gateway.addPending kind o)
        [kind.updatedEvent ⟨o.guid, true⟩]).trigger o.signalTs := by
    rw [request_singleton, BacktestTradingGateway.pushRequest_exit, trigger, emit_emit]
    cases kind <;> rfl
  have hom : ((({ s with om } : GridSystem).emit (s.gateway.addPending kind o)
      [kind.updatedEvent ⟨o.guid, true⟩]).trigger o.signalTs).om = om := by
    simp only [trigger, emit, pushAll_eq]
  simp only [sendExit, hsend, hrequest, subscribe, hom, hout]
  simp only [withExit, trigger, emit, pushAll_eq, request, List.foldl_nil]

def withEntry (s : GridSystem) (om : OrderManager) (guid : Guid) (level : ℤ) : GridSystem :=
  { s with
    om
    subscriptions := s.subscriptions.insert guid level
    strategy.ordersByLevels := s.strategy.ordersByLevels.insert level
      { levelNum := level, marketOrder := guid }
    sent := s.sent ++ [(level, guid)] }

theorem sendEntry_eq {o : MarketOrder} (h : s.om.adjustedVolume vol = .ok adjusted)
    (ho : o = .ofSigned s.om.nextGuid s.om.symbol.symbolName price adjusted ts) :
    ∃ om, s.om.Enters om o.guid
        { s.om.entry o.guid with channel := some { subscribers := 1 }, order := some o } ∧
      s.sendEntry n price vol ts = (s.withEntry om o.guid n).emit
        (s.gateway.pushRequest (.order o)).1 (s.gateway.pushRequest (.order o)).2 := by
  obtain ⟨om, hsend, henters⟩ := OrderManager.sendMarketOrder_enters h ho
  refine ⟨_, henters, ?_⟩
  simp only [sendEntry, hsend, request_singleton, subscribe]
  simp only [withEntry, emit, pushAll_eq]

end Sends

section Erasing

structure Releases (s s' : GridSystem) (role : OrderRole) (guid : Guid) : Prop where
  rest : s' = { s with
    om := s.om.release role guid
    subscriptions := s'.subscriptions
    queue := s'.queue }
  sorted : s.queue.Sorted GridEvent.priority → s'.queue.Sorted GridEvent.priority
  of_ne : ∀ g ≠ guid, s'.view g = s.view g
  subscription : (s'.view guid).subscription = none
  events : ∀ e ∈ (s'.view guid).events, e ∈ (s.view guid).events ∧ ∃ ge, e = .gateway ge

def isUpdateOf (guid : Guid) : GridEvent → Bool
  | .update _ guid' _ => guid' = guid
  | _ => false

theorem unsubscribe_market : s.unsubscribe .market guid =
    { s with
      om := s.om.release .market guid
      subscriptions := s.subscriptions.erase guid
      queue := s.queue.discardEvents (isUpdateOf guid) } := rfl

theorem unsubscribe_exit (h : s.gateway.pendingOf guid kind = []) :
    s.unsubscribe (.exit kind) guid =
      { s with
        om := s.om.release (.exit kind) guid
        subscriptions := s.subscriptions.erase guid
        queue := s.queue.discardEvents (isUpdateOf guid) } := by
  have hrequest : ∀ om, ({ s with om, subscriptions := s.subscriptions.erase guid } :
      GridSystem).request (s.om.setExitSubscribers kind guid 0).2 =
        { s with om, subscriptions := s.subscriptions.erase guid } := by
    intro om
    rw [OrderManager.setExitSubscribers_zero_out, OrderManager.cancelExit_out]
    split
    · rw [request_singleton, BacktestTradingGateway.cancel_of_not_pending h]
      simp [emit, pushAll]
    · rfl
  simp only [unsubscribe, hrequest]
  rfl

theorem releases_unsubscribe
    (h : ∀ kind, role = .exit kind → s.gateway.pendingOf guid kind = []) :
    s.Releases (s.unsubscribe role guid) role guid := by
  have heq : s.unsubscribe role guid = { s with
      om := s.om.release role guid
      subscriptions := s.subscriptions.erase guid
      queue := s.queue.discardEvents (isUpdateOf guid) } := by
    cases role with
    | market => exact unsubscribe_market
    | exit kind => exact unsubscribe_exit (h kind rfl)
  rw [heq]
  constructor
  · rfl
  · exact fun hs => hs.discardEvents _
  · intro g hg
    ext1
    · exact OrderManager.entry_release_of_ne hg
    · rfl
    · exact AList.lookup_erase_ne hg
    · simp only [view, ThreadSafePriorityQueue.discardEvents, List.filter_filter]
      refine List.filter_congr fun e _ => ?_
      cases e with
      | update role' guid' n =>
        by_cases hg' : guid' = g
        · simp [GridEvent.guid?, isUpdateOf, hg', hg]
        · simp [GridEvent.guid?, hg']
      | price ts price | candle ts candle | gateway ge => simp [isUpdateOf]
    · rfl
  · exact AList.lookup_erase _ _
  · intro e he
    simp only [view, ThreadSafePriorityQueue.discardEvents, List.mem_filter] at he
    obtain ⟨⟨hmem, hdrop⟩, hguid⟩ := he
    refine ⟨List.mem_filter.mpr ⟨hmem, hguid⟩, ?_⟩
    cases e with
    | gateway ge => exact ⟨ge, rfl⟩
    | update role' guid' n => simp_all [GridEvent.guid?, isUpdateOf]
    | price ts price | candle ts candle => simp [GridEvent.guid?] at hguid

theorem Releases.nextGuid {s' : GridSystem} (h : s.Releases s' role guid) :
    s'.om.nextGuid = s.om.nextGuid := by
  rw [h.rest]
  exact OrderManager.nextGuid_release

theorem Releases.symbol {s' : GridSystem} (h : s.Releases s' role guid) :
    s'.om.symbol = s.om.symbol := by
  rw [h.rest]
  exact OrderManager.symbol_release

/-- The order has no part but the one that its subscriber keeps. -/
structure Held (s : GridSystem) (role : OrderRole) (guid : Guid) : Prop where
  channel : role ≠ .market → (s.view guid).entry.channel = none
  exit : ∀ kind, role ≠ .exit kind → (s.view guid).entry.exit kind = none
  pending : ∀ kind, (s.view guid).pending kind = []

theorem Held.congr {s' : GridSystem} (h : s.Held role guid) (hview : s'.view guid = s.view guid) :
    s'.Held role guid := by
  constructor
  · rw [hview]
    exact h.channel
  · rw [hview]
    exact h.exit
  · rw [hview]
    exact h.pending

theorem Held.idle {s' : GridSystem} (h : s.Held role guid) (hs : s.Releases s' role guid) :
    (s'.view guid).Idle := by
  have hentry : (s'.view guid).entry = (s.om.release role guid).entry guid := by
    rw [hs.rest]
    rfl
  have hpending : (s'.view guid).pending = (s.view guid).pending := by
    rw [hs.rest]
    rfl
  refine ⟨?_, ?_, ?_, hs.subscription, fun e he => (hs.events e he).2⟩
  · rw [hentry]
    cases role with
    | market => rw [OrderManager.entry_release_market]
    | exit kind =>
      rw [OrderManager.entry_release_exit]
      exact h.channel (by simp)
  · intro kind
    rw [hentry]
    cases role with
    | market =>
      rw [OrderManager.entry_release_market]
      exact h.exit kind (by simp)
    | exit kind' =>
      rw [OrderManager.entry_release_exit]
      rcases kind'.eq_or_eq_other kind with rfl | rfl
      · exact OrderEntry.exit_setExit
      · rw [OrderEntry.exit_setExit_other]
        refine h.exit _ fun heq => ?_
        injection heq with heq
        exact kind'.other_ne heq.symm
  · rw [hpending]
    exact h.pending

/-- The level is gone and nothing refers to its orders. -/
structure Erases (s s' : GridSystem) (l : Level) : Prop where
  rest : s' = { s with
    om := s'.om
    subscriptions := s'.subscriptions
    queue := s'.queue
    strategy.ordersByLevels := s.strategy.ordersByLevels.erase l.levelNum }
  nextGuid : s'.om.nextGuid = s.om.nextGuid
  symbol : s'.om.symbol = s.om.symbol
  sorted : s.queue.Sorted GridEvent.priority → s'.queue.Sorted GridEvent.priority
  of_not_owns : ∀ g, ¬ l.Owns g → s'.view g = s.view g
  idle : ∀ g, l.Owns g → (s'.view g).Idle

theorem erases_eraseLevel {tp sl : Guid} (htp : l.takeProfit = some tp)
    (hsl : l.stopLoss = some sl) (hmarket : s.Held .market l.marketOrder)
    (hexit : ∀ kind g, l.exit kind = some g → s.Held (.exit kind) g)
    (hne : tp ≠ sl) (htp' : tp ≠ l.marketOrder) (hsl' : sl ≠ l.marketOrder) :
    s.Erases (s.eraseLevel l) l := by
  have hheldSl : s.Held (.exit .stopLoss) sl := hexit .stopLoss sl hsl
  have hheldTp : s.Held (.exit .takeProfit) tp := hexit .takeProfit tp htp
  obtain ⟨s₀, hs₀⟩ : ∃ s₀ : GridSystem, s₀ =
      { s with strategy.ordersByLevels := s.strategy.ordersByLevels.erase l.levelNum } := ⟨_, rfl⟩
  have hview₀ : ∀ g, s₀.view g = s.view g := by
    intro g
    rw [hs₀]
    rfl
  have hfirst : s₀.Releases (s₀.unsubscribe (.exit .stopLoss) sl) (.exit .stopLoss) sl := by
    apply releases_unsubscribe
    rintro kind heq
    rw [hs₀]
    exact hheldSl.pending kind
  obtain ⟨s₁, hs₁⟩ : ∃ s₁, s₁ = s₀.unsubscribe (.exit .stopLoss) sl := ⟨_, rfl⟩
  rw [← hs₁] at hfirst
  have hsecond : s₁.Releases (s₁.unsubscribe (.exit .takeProfit) tp) (.exit .takeProfit) tp := by
    apply releases_unsubscribe
    rintro kind heq
    rw [hfirst.rest, hs₀]
    exact hheldTp.pending kind
  obtain ⟨s₂, hs₂⟩ : ∃ s₂, s₂ = s₁.unsubscribe (.exit .takeProfit) tp := ⟨_, rfl⟩
  rw [← hs₂] at hsecond
  have hthird : s₂.Releases (s₂.unsubscribe .market l.marketOrder) .market l.marketOrder :=
    releases_unsubscribe fun kind heq => by cases heq
  have herase : s.eraseLevel l = s₂.unsubscribe .market l.marketOrder := by
    simp only [eraseLevel, hsl, htp, Option.elim_some, hs₂, hs₁, hs₀]
  rw [← herase] at hthird
  refine ⟨?_, ?_, ?_, ?_, ?_, ?_⟩
  · rw [hthird.rest, hsecond.rest, hfirst.rest, hs₀]
  · rw [hthird.nextGuid, hsecond.nextGuid, hfirst.nextGuid, hs₀]
  · rw [hthird.symbol, hsecond.symbol, hfirst.symbol, hs₀]
  · intro hs
    apply hthird.sorted
    apply hsecond.sorted
    apply hfirst.sorted
    rwa [hs₀]
  · intro g hg
    have hgm : g ≠ l.marketOrder := fun heq => hg (.inl heq)
    have hgt : g ≠ tp := fun heq => hg (.inr ⟨.takeProfit, heq ▸ htp⟩)
    have hgs : g ≠ sl := fun heq => hg (.inr ⟨.stopLoss, heq ▸ hsl⟩)
    rw [hthird.of_ne g hgm, hsecond.of_ne g hgt, hfirst.of_ne g hgs, hview₀]
  · have hidleSl : ((s.eraseLevel l).view sl).Idle := by
      rw [hthird.of_ne sl hsl', hsecond.of_ne sl hne.symm]
      exact (hheldSl.congr (hview₀ sl)).idle hfirst
    have hidleTp : ((s.eraseLevel l).view tp).Idle := by
      rw [hthird.of_ne tp htp']
      exact (hheldTp.congr ((hfirst.of_ne tp hne).trans (hview₀ tp))).idle hsecond
    rintro g (rfl | ⟨kind, hg⟩)
    · refine (hmarket.congr ?_).idle hthird
      rw [hsecond.of_ne _ htp'.symm, hfirst.of_ne _ hsl'.symm, hview₀]
    · cases kind
      · obtain rfl : sl = g := Option.some.inj (hsl.symm.trans hg)
        exact hidleSl
      · obtain rfl : tp = g := Option.some.inj (htp.symm.trans hg)
        exact hidleTp

structure Cancels (s s' : GridSystem) (kind : ConditionalType) (guid : Guid) (vol : ℚ) : Prop where
  rest : s' = { s with
    om := (s.om.cancelExit kind guid).1
    gateway := s'.gateway
    queue := s'.queue }
  market : s.gateway.SameMarket s'.gateway
  exposure : s'.gateway.exposure = s.gateway.exposure - vol
  sorted : s.queue.Sorted GridEvent.priority → s'.queue.Sorted GridEvent.priority
  of_ne : ∀ g ≠ guid, s'.view g = s.view g
  held : s'.Held (.exit kind) guid

theorem sorted_emit {gw : BacktestTradingGateway} {es : List GatewayEvent}
    (h : s.queue.Sorted GridEvent.priority) : (s.emit gw es).queue.Sorted GridEvent.priority :=
  sorted_pushAll h

/-- The subscriber is told before the gateway has confirmed. -/
theorem cancelExit_eq {gw : BacktestTradingGateway} {es : List GatewayEvent}
    (hmem : guid ∈ s.om.conditionals kind) (hsub : s.subscriptions.lookup guid = some n)
    (hcancel : s.gateway.pushRequest (kind.cancelOf guid) = (gw, es)) :
    s.cancelExit kind guid =
      (({ s with om := (s.om.cancelExit kind guid).1 } : GridSystem).push
        (.update (.exit kind) guid n)).emit gw es := by
  have hout : (s.om.cancelExit kind guid).2 = [.request (kind.cancelOf guid)] := by
    rw [OrderManager.cancelExit_out, if_pos hmem]
  simp only [cancelExit, if_pos hmem, notify, hsub, push, hout, request_singleton, hcancel]

theorem cancels_cancelExit {ch : ConditionalOrderChannel} {x : ConditionalMarketOrder}
    (hentry : (s.view guid).entry.exit kind = some ch)
    (hsub : (s.view guid).subscription = some n) (hpending : (s.view guid).pending kind = [x])
    (hchannel : (s.view guid).entry.channel = none)
    (hother : (s.view guid).entry.exit kind.other = none)
    (hpending' : (s.view guid).pending kind.other = []) :
    s.Cancels (s.cancelExit kind guid) kind guid x.signedVolume.value := by
  have hmem : guid ∈ s.om.conditionals kind := OrderManager.mem_of_lookup hentry
  have hlookup : s.subscriptions.lookup guid = some n := hsub
  obtain ⟨gw, hcancel, hmarket, hexposure, hself, hother', hne⟩ :=
    BacktestTradingGateway.cancel_of_pending hpending
  have heq := cancelExit_eq hmem hlookup hcancel
  have hview : ∀ g, (s.cancelExit kind guid).view g =
      ((({ s with om := (s.om.cancelExit kind guid).1 } : GridSystem).push
        (.update (.exit kind) guid n)).view g).emit (gw.pendingOf g)
          ([kind.updatedEvent ⟨guid, false⟩].filter (·.guid? = some g)) := by
    intro g
    rw [heq, view_emit]
  constructor
  · rw [heq, emit_eq]
    simp [push]
  · rw [heq, emit_eq]
    exact hmarket
  · rw [heq, emit_eq]
    exact hexposure
  · intro hs
    rw [heq]
    exact sorted_emit (hs.push (.update (.exit kind) guid n))
  · intro g hg
    have hfilter : [kind.updatedEvent ⟨guid, false⟩].filter (·.guid? = some g) = [] := by
      simp [hg.symm]
    have hom : ({ s with om := (s.om.cancelExit kind guid).1 } : GridSystem).view g =
        s.view g := by
      ext1
      · exact OrderManager.entry_cancelExit_of_ne hg
      · rfl
      · rfl
      · rfl
      · rfl
    rw [hview, hfilter, view_push_update_of_ne hg, hom, hne g hg]
    exact OrderView.emit_nil _
  · have hentry' : ((s.cancelExit kind guid).view guid).entry =
        (s.om.cancelExit kind guid).1.entry guid := by
      rw [hview]
      rfl
    have hpend : ((s.cancelExit kind guid).view guid).pending = gw.pendingOf guid := by
      rw [hview]
      rfl
    constructor
    · intro _
      rw [hentry', OrderManager.entry_cancelExit_self]
      exact hchannel
    · intro k hk
      rw [hentry', OrderManager.entry_cancelExit_self]
      rcases kind.eq_or_eq_other k with rfl | rfl
      · exact absurd rfl hk
      · rw [OrderEntry.exit_setExit_other]
        exact hother
    · intro k
      rw [hpend]
      rcases kind.eq_or_eq_other k with rfl | rfl
      · exact hself
      · exact hother'.trans hpending'

end Erasing

end GridSystem

end CryptoTrading

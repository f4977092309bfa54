import CryptoTrading.Grid.Operations

/-! # The life of a level

A level begins with its market order, gets both exits when the order is filled, and ends
when one of the exits trades. In between its orders move with the events about them.
-/

namespace CryptoTrading

open GridSystem

structure MarketOrder.SameRequest (o o' : MarketOrder) : Prop where
  targetVolume : o'.targetVolume = o.targetVolume
  side : o'.side = o.side

theorem MarketOrder.SameRequest.refl (o : MarketOrder) : o.SameRequest o := ⟨rfl, rfl⟩

namespace OrderView

structure MarketOf (v : OrderView) (n : ℤ) (o : MarketOrder) : Prop where
  exit : ∀ kind, v.entry.exit kind = none
  pending : ∀ kind, v.pending kind = []
  subscription : v.subscription = some n
  order : v.entry.order = some o
  accepted : o.rejectReason = ""
  volume : 0 < o.targetVolume.value

/-- The market order is traded, which the order manager does not know yet. -/
structure Sent (v : OrderView) (g : Guid) (n : ℤ) (price : ℚ) (o : MarketOrder) : Prop
    extends MarketOf v n o where
  filled : o.filledVolume = .zero
  channel : ∃ mo, v.entry.channel = some mo ∧ mo.subscribers ≠ 0 ∧ mo.traded = false
  events : ∃ t : Trade, t.orderGuid = g ∧ t.price = price ∧ t.unsignedVolume = o.targetVolume ∧
    (v.events = [.gateway (.trade t)] ∨
      ∃ r : OrderResponseEvent, r.requestGuid = g ∧ r.rejectReason = none ∧
        v.events = [.gateway (.orderResponse r), .gateway (.trade t)])

/-- The market order is filled, which the strategy does not know yet. -/
structure Filled (v : OrderView) (g : Guid) (n : ℤ) (price : ℚ) (o : MarketOrder) : Prop
    extends MarketOf v n o where
  filled : o.filledVolume = o.targetVolume
  price : o.price = price
  events : v.events = [.update .market g n]

/-- Nothing more happens to the market order. -/
structure Settled (v : OrderView) (n : ℤ) (o : MarketOrder) : Prop extends MarketOf v n o where
  filled : o.filledVolume = o.targetVolume
  events : v.events = []

structure ExitOf (v : OrderView) (kind : ConditionalType) (n : ℤ) (o : MarketOrder)
    (ch : ConditionalOrderChannel) : Prop where
  channel : v.entry.channel = none
  exit : v.entry.exit kind = some ch
  other : v.entry.exit kind.other = none
  pending : v.pending kind.other = []
  subscription : v.subscription = some n
  subscribers : ch.subscribers ≠ 0
  accepted : ch.order.rejectReason = ""
  kept : ch.order.cancelRequested = false
  target : ch.order.targetVolume = o.targetVolume
  suspended : ch.order.suspendedVolume = .zero ∨ ch.order.suspendedVolume = o.targetVolume

/-- The event about the acceptance of an exit, or the update for its subscriber that follows from
it, unless they are handled. -/
def Acceptance (g : Guid) (kind : ConditionalType) (n : ℤ) (es : List GridEvent) : Prop :=
  es = [] ∨ es = [.gateway (kind.updatedEvent ⟨g, true⟩)] ∨ es = [.update (.exit kind) g n]

/-- The exit waits in the gateway. -/
structure Live (v : OrderView) (g : Guid) (kind : ConditionalType) (n : ℤ) (o : MarketOrder)
    (x : ConditionalMarketOrder) : Prop where
  exitOf : ∃ ch, v.ExitOf kind n o ch ∧ ch.order.filledVolume = .zero
  pending : v.pending kind = [x]
  side : x.side = o.side.opposite
  volume : x.targetVolume = o.targetVolume
  events : Acceptance g kind n v.events

/-- The exit is traded, which the strategy does not know yet. An update for the subscriber is pushed
with each of the events of the gateway. -/
structure Traded (v : OrderView) (g : Guid) (kind : ConditionalType) (n : ℤ) (o : MarketOrder) :
    Prop where
  exitOf : ∃ ch, v.ExitOf kind n o ch ∧
    ((ch.order.filledVolume = .zero ∧ ∃ t : Trade, t.orderGuid = g ∧
        t.unsignedVolume = o.targetVolume ∧ ∃ es k, Acceptance g kind n es ∧
        v.events = es ++ .gateway (.trade t) :: .gateway (kind.updatedEvent ⟨g, false⟩) ::
          .replicate k (.update (.exit kind) g n)) ∨
      (ch.order.filledVolume = o.targetVolume ∧ ch.order.suspendedVolume = .zero ∧
        ∃ k, v.events = .gateway (kind.updatedEvent ⟨g, false⟩) ::
            .replicate (k + 1) (.update (.exit kind) g n) ∨
          v.events = .replicate (k + 1) (.update (.exit kind) g n)))
  pending : v.pending kind = []
  traded : v.traded = true

end OrderView

namespace OrderView

variable {v : OrderView} {kind : ConditionalType} {n : ℤ} {o : MarketOrder}
  {ch : ConditionalOrderChannel}

theorem MarketOf.of_events (h : v.MarketOf n o) (es : List GridEvent) :
    ({ v with events := es } : OrderView).MarketOf n o :=
  ⟨h.exit, h.pending, h.subscription, h.order, h.accepted, h.volume⟩

theorem ExitOf.of_events (h : v.ExitOf kind n o ch) (es : List GridEvent) :
    ({ v with events := es } : OrderView).ExitOf kind n o ch :=
  ⟨h.channel, h.exit, h.other, h.pending, h.subscription, h.subscribers, h.accepted, h.kept,
    h.target, h.suspended⟩

theorem Settled.status (h : v.Settled n o) : o.status = .filled := by
  simp [MarketOrder.status, h.accepted, h.filled]

theorem ExitOf.status_ne (h : v.ExitOf kind n o ch) (hvol : 0 < o.targetVolume.value)
    (hfilled : ch.order.filledVolume = .zero) : ch.order.status ≠ .filled := by
  have hlt : ch.order.filledVolume.lt ch.order.targetVolume = true := by
    rw [hfilled, h.target]
    exact decide_eq_true hvol
  rw [ConditionalMarketOrder.status, if_neg (not_not.mpr h.accepted), h.kept]
  by_cases hsuspended : 0 < ch.order.suspendedVolume.value
  · simp [hsuspended]
  · simp [hsuspended, hlt]

theorem ExitOf.status_eq (h : v.ExitOf kind n o ch)
    (hfilled : ch.order.filledVolume = o.targetVolume)
    (hsuspended : ch.order.suspendedVolume = .zero) : ch.order.status = .filled := by
  simp [ConditionalMarketOrder.status, h.accepted, h.kept, hsuspended, hfilled, h.target]

end OrderView

namespace GridSystem

variable {s s₀ : GridSystem} {g : Guid} {ge : GatewayEvent} {n : ℤ} {kind : ConditionalType}
  {price : ℚ} {o : MarketOrder} {x : ConditionalMarketOrder} {v : OrderView}

section GatewayEvents

theorem Pops.view_quiet (h : s.Pops s₀ (.gateway ge)) (hge : ge.guid? = some g)
    (hquiet : s.om.updated? ge = none) :
    ∃ rest, (s.view g).events = .gateway ge :: rest ∧
      (s₀.onGatewayEvent ge).view g =
        { s.view g with entry := (s.om.step ge).entry g, events := rest } := by
  have hom : s₀.om = s.om := by rw [h.rest]
  refine ⟨(s₀.view g).events, ?_, ?_⟩
  · rw [h.view_self hge]
  · rw [h.view_self hge, view_onGatewayEvent_quiet (hom ▸ hquiet), hom]

theorem Pops.view_update {role : OrderRole} (h : s.Pops s₀ (.gateway ge))
    (hge : ge.guid? = some g) (hupdate : s.om.updated? ge = some (role, g))
    (hsub : (s.view g).subscription = some n) :
    ∃ rest, (s.view g).events = .gateway ge :: rest ∧
      (s₀.onGatewayEvent ge).view g = { s.view g with
        entry := (s.om.step ge).entry g
        events := rest ++ [.update role g n] } := by
  have hom : s₀.om = s.om := by rw [h.rest]
  have hself := h.view_self hge
  refine ⟨(s₀.view g).events, ?_, ?_⟩
  · rw [hself]
  · have hsub₀ : (s₀.view g).subscription = some n := by
      rw [hself] at hsub
      exact hsub
    rw [hself, view_onGatewayEvent_update (hom ▸ hupdate) hsub₀, hom]

theorem sent_onGatewayEvent (h : (s.view g).Sent g n price o) (hpop : s.Pops s₀ (.gateway ge))
    (hge : ge.guid? = some g) :
    ((s₀.onGatewayEvent ge).view g).Sent g n price o ∨
      ∃ o', o.SameRequest o' ∧ ((s₀.onGatewayEvent ge).view g).Filled g n price o' := by
  obtain ⟨mo, hmo, hsub, htraded⟩ := h.channel
  obtain ⟨t, ht, hprice, hvol, hevents | ⟨r, rfl, hreject, hevents⟩⟩ := h.events
  · right
    obtain rfl := ht
    obtain ⟨hentry, hupdate⟩ := OrderManager.step_trade_market hmo hsub
    obtain ⟨rest, hhead⟩ := hpop.head hge
    rw [hevents] at hhead
    obtain ⟨rfl, rfl⟩ : .trade t = ge ∧ [] = rest := by simpa using hhead
    obtain ⟨rest, hhead, hview⟩ := hpop.view_update hge hupdate h.subscription
    obtain rfl : [] = rest := by simpa [hevents] using hhead
    refine ⟨o.onTrade t.unsignedVolume t.price t.fee, ⟨rfl, rfl⟩, ?_⟩
    rw [hview, hentry]
    refine ⟨⟨h.exit, h.pending, h.subscription, ?_, h.accepted, h.volume⟩, ?_, hprice, rfl⟩
    · have horder : (s.om.entry t.orderGuid).order = some o := h.order
      simp only [horder, Option.map_some]
    · ext
      simp [MarketOrder.onTrade, h.filled, hvol]
  · left
    obtain ⟨hentry, hquiet⟩ := OrderManager.step_orderResponse hmo htraded hreject
    obtain ⟨rest, hhead⟩ := hpop.head hge
    rw [hevents] at hhead
    obtain ⟨rfl, -⟩ : .orderResponse r = ge ∧ [.gateway (.trade t)] = rest := by simpa using hhead
    obtain ⟨rest, hhead, hview⟩ := hpop.view_quiet hge hquiet
    obtain rfl : [.gateway (.trade t)] = rest := by simpa [hevents] using hhead
    rw [hview, hentry]
    exact ⟨⟨h.exit, h.pending, h.subscription, h.order, h.accepted, h.volume⟩, h.filled,
      ⟨_, rfl, hsub, htraded⟩, t, ht, hprice, hvol, .inl rfl⟩

theorem Pops.exit_onGatewayEvent {ch : ConditionalOrderChannel} {order : ConditionalMarketOrder}
    {rest : List GridEvent} (h : s.Pops s₀ (.gateway ge)) (hge : ge.guid? = some g)
    (hexit : (s.view g).ExitOf kind n o ch) (hevents : (s.view g).events = .gateway ge :: rest)
    (hstep : (s.om.step ge).entry g = (s.om.entry g).setExit kind (some { ch with order }) ∧
      s.om.updated? ge = some (.exit kind, g))
    (haccepted : order.rejectReason = ch.order.rejectReason)
    (hkept : order.cancelRequested = ch.order.cancelRequested)
    (htarget : order.targetVolume = ch.order.targetVolume)
    (hsuspended : order.suspendedVolume = .zero ∨ order.suspendedVolume = o.targetVolume) :
    ((s₀.onGatewayEvent ge).view g).ExitOf kind n o { ch with order } ∧
      ((s₀.onGatewayEvent ge).view g).pending = (s.view g).pending ∧
      ((s₀.onGatewayEvent ge).view g).traded = (s.view g).traded ∧
      ((s₀.onGatewayEvent ge).view g).events = rest ++ [.update (.exit kind) g n] := by
  obtain ⟨rest', hhead, hview⟩ := h.view_update hge hstep.2 hexit.subscription
  obtain rfl : rest = rest' := (List.cons.inj (hevents.symm.trans hhead)).2
  rw [hview, hstep.1]
  refine ⟨⟨hexit.channel, OrderEntry.exit_setExit,
    OrderEntry.exit_setExit_other.trans hexit.other, hexit.pending, hexit.subscription,
    hexit.subscribers, haccepted.trans hexit.accepted, hkept.trans hexit.kept,
    htarget.trans hexit.target, hsuspended⟩, rfl, rfl, rfl⟩

theorem live_onGatewayEvent (h : (s.view g).Live g kind n o x)
    (hpop : s.Pops s₀ (.gateway ge)) (hge : ge.guid? = some g) :
    ((s₀.onGatewayEvent ge).view g).Live g kind n o x := by
  obtain ⟨ch, hexit, hfilled⟩ := h.exitOf
  obtain ⟨rest, hhead⟩ := hpop.head hge
  rcases h.events with hevents | hevents | hevents
  · rw [hevents] at hhead
    cases hhead
  · rw [hevents] at hhead
    obtain ⟨rfl, -⟩ : kind.updatedEvent ⟨g, true⟩ = ge ∧ [] = rest := by simpa using hhead
    obtain ⟨hexit', hpending, -, hevents'⟩ := hpop.exit_onGatewayEvent hge hexit hevents
      (OrderManager.step_updated (r := ⟨g, true⟩) hexit.exit) rfl rfl rfl (.inr hexit.target)
    exact ⟨⟨_, hexit', hfilled⟩, hpending ▸ h.pending, h.side, h.volume, .inr (.inr hevents')⟩
  · rw [hevents] at hhead
    cases hhead

/-- The acceptance of an exit that has traded at once, its trade and the update after it. -/
theorem traded_onGatewayEvent (h : (s.view g).Traded g kind n o)
    (hpop : s.Pops s₀ (.gateway ge)) (hge : ge.guid? = some g) :
    ((s₀.onGatewayEvent ge).view g).Traded g kind n o := by
  obtain ⟨rest, hhead⟩ := hpop.head hge
  obtain ⟨ch, hexit, ⟨hzero, t, rfl, hvol, es, k, rfl | rfl | rfl, hevents⟩ |
    ⟨hfilled, hsuspended, k, hevents | hevents⟩⟩ := h.exitOf
  · obtain ⟨rfl, -⟩ : .trade t = ge ∧ _ = rest := by simpa [hevents] using hhead
    have hsuspended : (ch.order.onTrade t.unsignedVolume t.price t.fee).suspendedVolume =
        .zero := by
      rcases hexit.suspended with hs | hs
      · simp only [ConditionalMarketOrder.onTrade, hs, UnsignedVolume.zero_subAssign]
      · simp only [ConditionalMarketOrder.onTrade, hs, hvol, UnsignedVolume.subAssign_self]
    obtain ⟨hexit', hpending, htraded, hevents'⟩ := hpop.exit_onGatewayEvent hge hexit hevents
      (OrderManager.step_trade_exit hexit.channel hexit.exit hexit.other hexit.subscribers)
      rfl rfl rfl (.inl hsuspended)
    refine ⟨⟨_, hexit', .inr ⟨?_, hsuspended, k, .inl ?_⟩⟩, hpending ▸ h.pending,
      htraded.trans h.traded⟩
    · ext
      simp [ConditionalMarketOrder.onTrade, MarketOrder.onTrade, hzero, hvol]
    · rw [hevents', List.replicate_succ']
      rfl
  · obtain ⟨rfl, -⟩ : kind.updatedEvent ⟨t.orderGuid, true⟩ = ge ∧ _ = rest := by
      simpa [hevents] using hhead
    obtain ⟨hexit', hpending, htraded, hevents'⟩ := hpop.exit_onGatewayEvent hge hexit hevents
      (OrderManager.step_updated (r := ⟨t.orderGuid, true⟩) hexit.exit) rfl rfl rfl
      (.inr hexit.target)
    refine ⟨⟨_, hexit', .inl ⟨hzero, t, rfl, hvol, [], k + 1, .inl rfl, ?_⟩⟩,
      hpending ▸ h.pending, htraded.trans h.traded⟩
    rw [hevents', List.replicate_succ']
    rfl
  · simp [hevents] at hhead
  · obtain ⟨rfl, -⟩ : kind.updatedEvent ⟨g, false⟩ = ge ∧ _ = rest := by
      simpa [hevents] using hhead
    obtain ⟨hexit', hpending, htraded, hevents'⟩ := hpop.exit_onGatewayEvent hge hexit hevents
      (OrderManager.step_updated (r := ⟨g, false⟩) hexit.exit) rfl rfl rfl (.inl rfl)
    refine ⟨⟨_, hexit', .inr ⟨hfilled, rfl, k + 1, .inr ?_⟩⟩, hpending ▸ h.pending,
      htraded.trans h.traded⟩
    rw [hevents', List.replicate_succ' (n := k + 1)]
  · rw [hevents, List.replicate_succ] at hhead
    cases hhead

end GatewayEvents

section Trigger

theorem view_trigger_of_marketOf (ts : Milliseconds) (h : (s.view g).MarketOf n o) :
    (s.trigger ts).view g = s.view g := view_trigger_of_idle ts h.pending

theorem view_trigger_of_traded (ts : Milliseconds) (h : (s.view g).Traded g kind n o) :
    (s.trigger ts).view g = s.view g := by
  obtain ⟨ch, hexit, -⟩ := h.exitOf
  apply view_trigger_of_idle
  intro k
  rcases kind.eq_or_eq_other k with rfl | rfl
  · exact h.pending
  · exact hexit.pending

/-- An exit that waits goes on waiting, or its condition holds and it trades. -/
theorem live_trigger (ts : Milliseconds) (h : (s.view g).Live g kind n o x) :
    (s.trigger ts).view g = s.view g ∨
      kind.triggered s.gateway.lastPrice x ∧ ((s.trigger ts).view g).Traded g kind n o := by
  obtain ⟨ch, hexit, hfilled⟩ := h.exitOf
  rcases view_trigger_of_pending ts h.pending hexit.pending with
    hsame | ⟨hx, t, ht, hvol, hview⟩
  · exact .inl hsame
  · right
    refine ⟨hx, ?_⟩
    rw [hview]
    refine ⟨⟨ch, ?_, .inl ⟨hfilled, t, ht, hvol.trans h.volume, _, 0, h.events, rfl⟩⟩, rfl, ?_⟩
    · exact ⟨hexit.channel, hexit.exit, hexit.other, rfl, hexit.subscription, hexit.subscribers,
        hexit.accepted, hexit.kept, hexit.target, hexit.suspended⟩
    · simp [OrderView.emit]

end Trigger

end GridSystem

/-- The stage of a level with this market order. A level that is between two of the stages that
the loop sees is busy. -/
inductive Stage (views : Guid → OrderView) (price : ℚ) (busy : Option ℤ) (n : ℤ) (l : Level)
    (o : MarketOrder) : Prop
  | sent (hl : ∀ kind, l.exit kind = none)
    (h : (views l.marketOrder).Sent l.marketOrder n price o)
  | filled (hl : ∀ kind, l.exit kind = none)
    (h : (views l.marketOrder).Filled l.marketOrder n price o)
  | settled (hbusy : busy = some n) (hl : ∀ kind, l.exit kind = none)
    (h : (views l.marketOrder).Settled n o) (hprice : o.price = price)
  /-- Only the take profit is sent yet. -/
  | placed (hbusy : busy = some n) (tp : Guid) (x : ConditionalMarketOrder)
    (htp : l.takeProfit = some tp) (hsl : l.stopLoss = none)
    (h : (views l.marketOrder).Settled n o) (hprice : o.price = price)
    (hlive : (views tp).Live tp .takeProfit n o x) (hx : ¬ takeProfitTriggered price x)
  /-- The stop loss is sent as well, and the gateway has to look at it. -/
  | armed (hbusy : busy = some n) (exits : ConditionalType → Guid)
    (x : ConditionalType → ConditionalMarketOrder) (hl : ∀ kind, l.exit kind = some (exits kind))
    (h : (views l.marketOrder).Settled n o)
    (hlive : ∀ kind, (views (exits kind)).Live (exits kind) kind n o (x kind))
    (hx : ¬ takeProfitTriggered price (x .takeProfit))
  | resting (exits : ConditionalType → Guid) (x : ConditionalType → ConditionalMarketOrder)
    (hl : ∀ kind, l.exit kind = some (exits kind)) (h : (views l.marketOrder).Settled n o)
    (hlive : ∀ kind, (views (exits kind)).Live (exits kind) kind n o (x kind))
    (hapart : (x .takeProfit).Apart (x .stopLoss))
  | closing (kind : ConditionalType) (exits : ConditionalType → Guid) (x : ConditionalMarketOrder)
    (hl : ∀ kind, l.exit kind = some (exits kind)) (h : (views l.marketOrder).Settled n o)
    (htraded : (views (exits kind)).Traded (exits kind) kind n o)
    (hlive : (views (exits kind.other)).Live (exits kind.other) kind.other n o x)
    (hx : ¬ kind.other.triggered price x)

namespace Stage

variable {s s₀ : GridSystem} {views views' : Guid → OrderView} {price : ℚ} {busy : Option ℤ}
  {n : ℤ} {l : Level} {o : MarketOrder} {g : Guid}

theorem marketOf (h : Stage views price busy n l o) : (views l.marketOrder).MarketOf n o := by
  cases h with
  | sent hl h => exact h.toMarketOf
  | filled hl h => exact h.toMarketOf
  | settled hbusy hl h hprice => exact h.toMarketOf
  | placed hbusy tp x htp hsl h hprice hlive hx => exact h.toMarketOf
  | armed hbusy exits x hl h hlive hx => exact h.toMarketOf
  | resting exits x hl h hlive hapart => exact h.toMarketOf
  | closing kind exits x hl h htraded hlive hx => exact h.toMarketOf

theorem order_unique {busy' : Option ℤ} {o' : MarketOrder} (h : Stage views price busy n l o)
    (h' : Stage views price busy' n l o') : o' = o :=
  Option.some.inj (h'.marketOf.order.symm.trans h.marketOf.order)

theorem congr (h : Stage views price busy n l o) (hviews : ∀ g, l.Owns g → views' g = views g) :
    Stage views' price busy n l o := by
  have hmarket : views' l.marketOrder = views l.marketOrder := hviews _ (.inl rfl)
  cases h with
  | sent hl h => exact .sent hl (hmarket ▸ h)
  | filled hl h => exact .filled hl (hmarket ▸ h)
  | settled hbusy hl h hprice => exact .settled hbusy hl (hmarket ▸ h) hprice
  | placed hbusy tp x htp hsl h hprice hlive hx =>
    have htp' : views' tp = views tp := hviews _ (.inr ⟨.takeProfit, htp⟩)
    exact .placed hbusy tp x htp hsl (hmarket ▸ h) hprice (htp' ▸ hlive) hx
  | armed hbusy exits x hl h hlive hx =>
    refine .armed hbusy exits x hl (hmarket ▸ h) (fun kind => ?_) hx
    rw [hviews _ (.inr ⟨kind, hl kind⟩)]
    exact hlive kind
  | resting exits x hl h hlive hapart =>
    refine .resting exits x hl (hmarket ▸ h) (fun kind => ?_) hapart
    rw [hviews _ (.inr ⟨kind, hl kind⟩)]
    exact hlive kind
  | closing kind exits x hl h htraded hlive hx =>
    have hkind := hviews _ (.inr ⟨kind, hl kind⟩)
    have hother := hviews _ (.inr ⟨kind.other, hl kind.other⟩)
    exact .closing kind exits x hl (hmarket ▸ h) (hkind ▸ htraded) (hother ▸ hlive) hx

theorem trigger (ts : Milliseconds) (h : Stage s.view s.gateway.lastPrice busy n l o) :
    Stage (s.trigger ts).view s.gateway.lastPrice busy n l o := by
  have hmarket : (s.trigger ts).view l.marketOrder = s.view l.marketOrder :=
    view_trigger_of_marketOf ts h.marketOf
  cases h with
  | sent hl h => exact .sent hl (hmarket ▸ h)
  | filled hl h => exact .filled hl (hmarket ▸ h)
  | settled hbusy hl h hprice => exact .settled hbusy hl (hmarket ▸ h) hprice
  | placed hbusy tp x htp hsl h hprice hlive hx =>
    rcases live_trigger ts hlive with hsame | ⟨htrig, -⟩
    · exact .placed hbusy tp x htp hsl (hmarket ▸ h) hprice (hsame ▸ hlive) hx
    · exact absurd htrig hx
  | armed hbusy exits x hl h hlive hx =>
    rcases live_trigger ts (hlive .takeProfit) with htp | ⟨htrig, -⟩
    · rcases live_trigger ts (hlive .stopLoss) with hsl | ⟨-, hsl⟩
      · refine .armed hbusy exits x hl (hmarket ▸ h) (fun kind => ?_) hx
        cases kind
        · exact hsl ▸ hlive .stopLoss
        · exact htp ▸ hlive .takeProfit
      · exact .closing .stopLoss exits (x .takeProfit) hl (hmarket ▸ h) hsl
          (htp ▸ hlive .takeProfit) hx
    · exact absurd htrig hx
  | resting exits x hl h hlive hapart =>
    rcases live_trigger ts (hlive .takeProfit) with htp | ⟨htp, htp'⟩
    · rcases live_trigger ts (hlive .stopLoss) with hsl | ⟨hsl, hsl'⟩
      · refine .resting exits x hl (hmarket ▸ h) (fun kind => ?_) hapart
        cases kind
        · exact hsl ▸ hlive .stopLoss
        · exact htp ▸ hlive .takeProfit
      · exact .closing .stopLoss exits (x .takeProfit) hl (hmarket ▸ h) hsl'
          (htp ▸ hlive .takeProfit) fun htrig => hapart _ ⟨htrig, hsl⟩
    · rcases live_trigger ts (hlive .stopLoss) with hsl | ⟨hsl, -⟩
      · exact .closing .takeProfit exits (x .stopLoss) hl (hmarket ▸ h) htp'
          (hsl ▸ hlive .stopLoss) fun htrig => hapart _ ⟨htp, htrig⟩
      · exact absurd ⟨htp, hsl⟩ (hapart _)
  | closing kind exits x hl h htraded hlive hx =>
    have hkind := view_trigger_of_traded ts htraded
    rcases live_trigger ts hlive with hsame | ⟨htrig, -⟩
    · exact .closing kind exits x hl (hmarket ▸ h) (hkind ▸ htraded) (hsame ▸ hlive) hx
    · exact absurd htrig hx

theorem of_not_busy {busy' : Option ℤ} (h : Stage views price busy n l o) (hn : busy ≠ some n) :
    Stage views price busy' n l o := by
  cases h with
  | sent hl h => exact .sent hl h
  | filled hl h => exact .filled hl h
  | settled hbusy hl h hprice => exact absurd hbusy hn
  | placed hbusy tp x htp hsl h hprice hlive hx => exact absurd hbusy hn
  | armed hbusy exits x hl h hlive hx => exact absurd hbusy hn
  | resting exits x hl h hlive hapart => exact .resting exits x hl h hlive hapart
  | closing kind exits x hl h htraded hlive hx => exact .closing kind exits x hl h htraded hlive hx

theorem rest (h : Stage views price none n l o) (hevents : ∀ g, l.Owns g → (views g).events = []) :
    ∃ (exits : ConditionalType → Guid) (x : ConditionalType → ConditionalMarketOrder),
      (∀ kind, l.exit kind = some (exits kind)) ∧ (views l.marketOrder).Settled n o ∧
        (∀ kind, (views (exits kind)).Live (exits kind) kind n o (x kind)) ∧
        (x .takeProfit).Apart (x .stopLoss) := by
  have hmarket := hevents _ (.inl rfl)
  cases h with
  | sent hl h =>
    obtain ⟨t, -, -, -, hone | ⟨r, -, -, htwo⟩⟩ := h.events
    · rw [hmarket] at hone
      cases hone
    · rw [hmarket] at htwo
      cases htwo
  | filled hl h =>
    have hone := h.events
    rw [hmarket] at hone
    cases hone
  | settled hbusy hl h hprice => cases hbusy
  | placed hbusy tp x htp hsl h hprice hlive hx => cases hbusy
  | armed hbusy exits x hl h hlive hx => cases hbusy
  | resting exits x hl h hlive hapart => exact ⟨exits, x, hl, h, hlive, hapart⟩
  | closing kind exits x hl h htraded hlive hx =>
    have hnone := hevents _ (.inr ⟨kind, hl kind⟩)
    obtain ⟨ch, -, ⟨-, t, -, -, es, k, -, hev⟩ | ⟨-, -, k, hev | hev⟩⟩ := htraded.exitOf
    all_goals simp [hnone] at hev

theorem setPrice {price' : ℚ} (h : Stage views price none n l o)
    (hevents : ∀ g, l.Owns g → (views g).events = []) : Stage views price' none n l o := by
  obtain ⟨exits, x, hl, hmarket, hlive, hapart⟩ := h.rest hevents
  exact .resting exits x hl hmarket hlive hapart

theorem ne_marketOrder {kind : ConditionalType} {ch : ConditionalOrderChannel}
    (h : (views l.marketOrder).MarketOf n o) (hg : (views g).entry.exit kind = some ch) :
    g ≠ l.marketOrder := by
  rintro rfl
  rw [h.exit kind] at hg
  cases hg

theorem ne_other {kind : ConditionalType} {g' : Guid} {ch ch' : ConditionalOrderChannel}
    (h : (views g).ExitOf kind n o ch) (h' : (views g').ExitOf kind.other n o ch') : g ≠ g' := by
  rintro rfl
  have hnone := h.other
  rw [h'.exit] at hnone
  cases hnone

theorem exit_of_owns {exits : ConditionalType → Guid} {e : GridEvent} {rest : List GridEvent}
    (hl : ∀ kind, l.exit kind = some (exits kind)) (h : (views l.marketOrder).Settled n o)
    (hg : l.Owns g) (hhead : (views g).events = e :: rest) : ∃ kind, exits kind = g := by
  rcases hg with rfl | ⟨kind, hkind⟩
  · rw [h.events] at hhead
    cases hhead
  · exact ⟨kind, Option.some.inj ((hl kind).symm.trans hkind)⟩

theorem others_of_ne {kind : ConditionalType} {exits : ConditionalType → Guid}
    {x : ConditionalMarketOrder} {ch : ConditionalOrderChannel}
    (h : (views l.marketOrder).Settled n o) (hexit : (views (exits kind)).ExitOf kind n o ch)
    (hlive : (views (exits kind.other)).Live (exits kind.other) kind.other n o x)
    (hne : ∀ g ≠ exits kind, views' g = views g) :
    (views' l.marketOrder).Settled n o ∧
      (views' (exits kind.other)).Live (exits kind.other) kind.other n o x := by
  obtain ⟨ch', hexit', -⟩ := hlive.exitOf
  constructor
  · rw [hne _ (ne_marketOrder h.toMarketOf hexit.exit).symm]
    exact h
  · rw [hne _ (ne_other hexit hexit').symm]
    exact hlive

theorem resting_of_live {kind : ConditionalType} {exits : ConditionalType → Guid}
    {x : ConditionalType → ConditionalMarketOrder} (hl : ∀ kind, l.exit kind = some (exits kind))
    (h : (views l.marketOrder).Settled n o)
    (hlive : ∀ kind, (views (exits kind)).Live (exits kind) kind n o (x kind))
    (hapart : (x .takeProfit).Apart (x .stopLoss))
    (hne : ∀ g ≠ exits kind, views' g = views g)
    (hself : (views' (exits kind)).Live (exits kind) kind n o (x kind)) :
    Stage views' price busy n l o := by
  obtain ⟨ch, hexit, -⟩ := (hlive kind).exitOf
  obtain ⟨hmarket, hother⟩ := others_of_ne h hexit (hlive kind.other) hne
  refine .resting exits x hl hmarket (fun k => ?_) hapart
  rcases kind.eq_or_eq_other k with rfl | rfl
  · exact hself
  · exact hother

theorem closing_of_live {kind : ConditionalType} {exits : ConditionalType → Guid}
    {x : ConditionalMarketOrder} (hl : ∀ kind, l.exit kind = some (exits kind))
    (h : (views l.marketOrder).Settled n o)
    (htraded : (views (exits kind)).Traded (exits kind) kind n o)
    (hlive : (views (exits kind.other)).Live (exits kind.other) kind.other n o x)
    (hx : ¬ kind.other.triggered price x) (hne : ∀ g ≠ exits kind.other, views' g = views g)
    (hself : (views' (exits kind.other)).Live (exits kind.other) kind.other n o x) :
    Stage views' price busy n l o := by
  obtain ⟨ch, hexit, -⟩ := htraded.exitOf
  obtain ⟨ch', hexit', -⟩ := hlive.exitOf
  refine .closing kind exits x hl ?_ ?_ hself hx
  · rw [hne _ (ne_marketOrder h.toMarketOf hexit'.exit).symm]
    exact h
  · rw [hne _ (ne_other hexit hexit')]
    exact htraded

theorem gateway {ge : GatewayEvent} (h : Stage s.view price none n l o)
    (hpop : s.Pops s₀ (.gateway ge)) (hge : ge.guid? = some g) (hg : l.Owns g) :
    ∃ o', o.SameRequest o' ∧ Stage (s₀.onGatewayEvent ge).view price none n l o' := by
  have hne : ∀ g' ≠ g, (s₀.onGatewayEvent ge).view g' = s.view g' := by
    intro g' hg'
    have hge' : ge.guid? ≠ some g' := by
      rw [hge]
      exact fun heq => hg' (Option.some.inj heq).symm
    rw [view_onGatewayEvent_of_ne hge', hpop.view_of_ne hge']
  obtain ⟨rest, hhead⟩ := hpop.head hge
  cases h with
  | sent hl h =>
    obtain rfl := hg.eq_marketOrder hl
    rcases sent_onGatewayEvent h hpop hge with h' | ⟨o', ho', h'⟩
    · exact ⟨o, .refl o, .sent hl h'⟩
    · exact ⟨o', ho', .filled hl h'⟩
  | filled hl h =>
    obtain rfl := hg.eq_marketOrder hl
    rw [h.events] at hhead
    cases hhead
  | settled hbusy hl h hprice => cases hbusy
  | placed hbusy tp x htp hsl h hprice hlive hx => cases hbusy
  | armed hbusy exits x hl h hlive hx => cases hbusy
  | resting exits x hl h hlive hapart =>
    obtain ⟨kind, rfl⟩ := exit_of_owns hl h hg hhead
    exact ⟨o, .refl o, resting_of_live hl h hlive hapart hne
      (live_onGatewayEvent (hlive kind) hpop hge)⟩
  | closing kind exits x hl h htraded hlive hx =>
    obtain ⟨k, rfl⟩ := exit_of_owns hl h hg hhead
    rcases kind.eq_or_eq_other k with rfl | rfl
    · obtain ⟨ch, hexit, -⟩ := htraded.exitOf
      obtain ⟨hmarket, hother⟩ := others_of_ne h hexit hlive hne
      exact ⟨o, .refl o, .closing k exits x hl hmarket
        (traded_onGatewayEvent htraded hpop hge) hother hx⟩
    · exact ⟨o, .refl o, closing_of_live hl h htraded hlive hx hne
        (live_onGatewayEvent hlive hpop hge)⟩

end Stage

inductive Found (s : GridSystem) (price : ℚ) (n : ℤ) (l : Level) (o : MarketOrder) :
    OrderRole → Guid → Prop
  | filled (hl : ∀ kind, l.exit kind = none) (h : (s.view l.marketOrder).Settled n o)
    (hprice : o.price = price) : Found s price n l o .market l.marketOrder
  | waiting (kind : ConditionalType) (g : Guid) (ch : ConditionalOrderChannel)
    (hch : (s.view g).entry.exit kind = some ch) (hstatus : ch.order.status ≠ .filled)
    (h : Stage s.view price none n l o) : Found s price n l o (.exit kind) g
  | traded (kind : ConditionalType) (exits : ConditionalType → Guid) (x : ConditionalMarketOrder)
    (ch : ConditionalOrderChannel) (hl : ∀ kind, l.exit kind = some (exits kind))
    (h : (s.view l.marketOrder).Settled n o)
    (hexit : (s.view (exits kind)).ExitOf kind n o ch) (hstatus : ch.order.status = .filled)
    (hpending : (s.view (exits kind)).pending kind = [])
    (htraded : (s.view (exits kind)).traded = true)
    (hlive : (s.view (exits kind.other)).Live (exits kind.other) kind.other n o x) :
    Found s price n l o (.exit kind) (exits kind)

namespace Stage

variable {s s₀ : GridSystem} {price : ℚ} {n : ℤ} {l : Level} {o : MarketOrder} {g : Guid}

theorem live_update {kind : ConditionalType} {role : OrderRole} {level : ℤ}
    {x : ConditionalMarketOrder} (h : (s.view g).Live g kind n o x)
    (hpop : s.Pops s₀ (.update role g level)) (hvol : 0 < o.targetVolume.value) :
    level = n ∧ role = .exit kind ∧ (s₀.view g).Live g kind n o x ∧
      ∃ ch, (s₀.view g).entry.exit kind = some ch ∧ ch.order.status ≠ .filled := by
  obtain ⟨rest, hhead⟩ := hpop.head rfl
  obtain ⟨ch, hexit, hfilled⟩ := h.exitOf
  rcases h.events with hevents | hevents | hevents
  · rw [hevents] at hhead
    cases hhead
  · rw [hevents] at hhead
    cases hhead
  · rw [hpop.view_rest rfl hhead]
    rw [hevents] at hhead
    obtain ⟨⟨rfl, rfl⟩, rfl⟩ : (.exit kind = role ∧ n = level) ∧ [] = rest := by
      simpa using hhead
    exact ⟨rfl, rfl, ⟨⟨ch, hexit.of_events [], hfilled⟩, h.pending, h.side, h.volume, .inl rfl⟩,
      ch, hexit.exit, hexit.status_ne hvol hfilled⟩

/-- An update of an exit that has traded may be the one that follows from its acceptance. -/
theorem traded_update {kind : ConditionalType} {role : OrderRole} {level : ℤ}
    (h : (s.view g).Traded g kind n o) (hpop : s.Pops s₀ (.update role g level))
    (hvol : 0 < o.targetVolume.value) :
    level = n ∧ role = .exit kind ∧ ∃ ch, (s₀.view g).ExitOf kind n o ch ∧
      (ch.order.status ≠ .filled ∧ (s₀.view g).Traded g kind n o ∨
        ch.order.status = .filled ∧ (s₀.view g).pending kind = [] ∧
          (s₀.view g).traded = true) := by
  obtain ⟨rest, hhead⟩ := hpop.head rfl
  obtain ⟨ch, hexit, ⟨hzero, t, ht, hvol', es, k, rfl | rfl | rfl, hevents⟩ |
    ⟨hfilled, hsuspended, k, hevents | hevents⟩⟩ := h.exitOf
  · simp [hevents] at hhead
  · simp [hevents] at hhead
  · rw [hpop.view_rest rfl hhead]
    obtain ⟨⟨rfl, rfl⟩, rfl⟩ : (.exit kind = role ∧ n = level) ∧ _ = rest := by
      simpa [hevents] using hhead
    refine ⟨rfl, rfl, ch, hexit.of_events _, .inl ⟨hexit.status_ne hvol hzero, ?_⟩⟩
    exact ⟨⟨ch, hexit.of_events _, .inl ⟨hzero, t, ht, hvol', [], k, .inl rfl, rfl⟩⟩, h.pending,
      h.traded⟩
  · simp [hevents] at hhead
  · rw [hpop.view_rest rfl hhead]
    rw [hevents, List.replicate_succ] at hhead
    obtain ⟨⟨rfl, rfl⟩, rfl⟩ : (.exit kind = role ∧ n = level) ∧ _ = rest := by
      simpa using hhead
    exact ⟨rfl, rfl, ch, hexit.of_events _,
      .inr ⟨hexit.status_eq hfilled hsuspended, h.pending, h.traded⟩⟩

theorem update {role : OrderRole} {level : ℤ} (h : Stage s.view price none n l o)
    (hpop : s.Pops s₀ (.update role g level)) (hg : l.Owns g) :
    level = n ∧ Found s₀ price n l o role g := by
  have hne : ∀ g' ≠ g, s₀.view g' = s.view g' := by
    intro g' hg'
    exact hpop.view_of_ne fun heq => hg' (Option.some.inj heq).symm
  obtain ⟨rest, hhead⟩ := hpop.head rfl
  cases h with
  | sent hl h =>
    obtain rfl := hg.eq_marketOrder hl
    obtain ⟨t, -, -, -, hone | ⟨r, -, -, htwo⟩⟩ := h.events
    · rw [hone] at hhead
      cases hhead
    · rw [htwo] at hhead
      cases hhead
  | filled hl h =>
    obtain rfl := hg.eq_marketOrder hl
    have hrest := hpop.view_rest rfl hhead
    rw [h.events] at hhead
    obtain ⟨⟨rfl, rfl⟩, rfl⟩ : (.market = role ∧ n = level) ∧ [] = rest := by simpa using hhead
    refine ⟨rfl, .filled hl ?_ h.price⟩
    rw [hrest]
    exact ⟨h.toMarketOf.of_events [], h.filled, rfl⟩
  | settled hbusy hl h hprice => cases hbusy
  | placed hbusy tp x htp hsl h hprice hlive hx => cases hbusy
  | armed hbusy exits x hl h hlive hx => cases hbusy
  | resting exits x hl h hlive hapart =>
    obtain ⟨kind, rfl⟩ := exit_of_owns hl h hg hhead
    obtain ⟨rfl, rfl, hlive₀, ch, hch, hstatus⟩ := live_update (hlive kind) hpop h.volume
    exact ⟨rfl, .waiting kind _ ch hch hstatus (resting_of_live hl h hlive hapart hne hlive₀)⟩
  | closing kind exits x hl h htraded hlive hx =>
    obtain ⟨k, rfl⟩ := exit_of_owns hl h hg hhead
    rcases kind.eq_or_eq_other k with rfl | rfl
    · obtain ⟨ch, hexit, -⟩ := htraded.exitOf
      obtain ⟨hmarket, hother⟩ := others_of_ne h hexit hlive hne
      obtain ⟨rfl, rfl, ch₀, hexit₀, ⟨hstatus, htraded₀⟩ | ⟨hstatus, hpending, htraded₀⟩⟩ :=
        traded_update htraded hpop h.volume
      · exact ⟨rfl, .waiting k _ ch₀ hexit₀.exit hstatus
          (.closing k exits x hl hmarket htraded₀ hother hx)⟩
      · exact ⟨rfl, .traded k exits x ch₀ hl hmarket hexit₀ hstatus hpending htraded₀ hother⟩
    · obtain ⟨rfl, rfl, hlive₀, ch, hch, hstatus⟩ := live_update hlive hpop h.volume
      exact ⟨rfl, .waiting kind.other _ ch hch hstatus
        (closing_of_live hl h htraded hlive hx hne hlive₀)⟩

end Stage

end CryptoTrading

import CryptoTrading.Grid.Tracking

/-! # The exposure of the grid

With no exits a level adds the volume of its market order to the position. Its first exit
would close that, both of them would close it twice. So the position with all pending exits
follows from the levels, and with both exits of each level in the gateway so does the
position.
-/

namespace CryptoTrading

open AddSubgroup KeyedSum Runs

def Level.exitCount (l : Level) : ℚ :=
  (l.takeProfit.elim 0 fun _ => 1) + l.stopLoss.elim 0 fun _ => 1

namespace GridSystem

/-- What the level adds to the exposure of the gateway. -/
def hedge (s : GridSystem) (l : Level) : ℚ := s.entryVolume l * (1 - l.exitCount)

def hedgeAt (s : GridSystem) (n : ℤ) : ℚ := (s.level? n).elim 0 s.hedge

def ExitTraded (s : GridSystem) (marketOrder : Guid) : Prop :=
  ∃ g, (marketOrder, g) ∈ s.exits ∧ ∃ t ∈ s.traded, t.orderGuid = g

/-- Every market order of a level but the last one has been closed. -/
structure History (s : GridSystem) : Prop where
  sent : s.sent.Pairwise fun a b => a.1 = b.1 → s.ExitTraded a.2
  current : ∀ a ∈ s.sent, s.ExitTraded a.2 ∨ ∃ l, s.level? a.1 = some l ∧ l.marketOrder = a.2
  exits : ∀ n l kind g, s.level? n = some l → l.exit kind = some g → (l.marketOrder, g) ∈ s.exits

/-- Nothing has failed, and there are no exits of the full position. -/
structure Running (s : GridSystem) : Prop where
  failed : s.failed = false
  tpsl : s.gateway.tpsl = none
  trailingStop : s.gateway.trailingStop = none
  sorted : s.queue.Sorted GridEvent.priority

/-- Stop losses that do not lie behind the price have all traded. -/
def StopsGone (s : GridSystem) : Prop :=
  s.strategy.config.topLevel ≤ 0 → s.gateway.stopLosses = []

structure Sound (s : GridSystem) (busy : Option ℤ) : Prop where
  running : s.Running
  tracked : s.Tracked busy
  stops : busy = none → s.StopsGone
  balanced : s.gateway.exposure = overKeys s.strategy.ordersByLevels s.hedgeAt
  history : s.History

variable {s s' s₀ : GridSystem} {busy busy' : Option ℤ} {n : ℤ} {l : Level} {g : Guid}
  {o : MarketOrder}

theorem mem_levels_iff : n ∈ s.strategy.ordersByLevels ↔ ∃ l, s.level? n = some l := by
  rw [← AList.lookup_isSome, Option.isSome_iff_exists]
  rfl

theorem hedgeAt_of_level (hl : s.level? n = some l) : s.hedgeAt n = s.hedge l := by
  rw [hedgeAt, hl]
  rfl

theorem ExitTraded.mono (h : s.ExitTraded g) (hexits : ∀ a ∈ s.exits, a ∈ s'.exits)
    (htraded : ∀ t ∈ s.traded, t ∈ s'.traded) : s'.ExitTraded g := by
  obtain ⟨g', hg', t, ht, htg⟩ := h
  exact ⟨g', hexits _ hg', t, htraded t ht, htg⟩

section Changes

theorem Reworks.hedgeAt_eq {n' : ℤ} (h : Reworks s s' busy' n) (hn' : n' ≠ n) :
    s'.hedgeAt n' = s.hedgeAt n' := by
  rw [hedgeAt, hedgeAt, h.levels n' hn']
  cases hl : s.level? n' with
  | none => rfl
  | some l => simp [hedge, entryVolume, h.views n' hn' l hl l.marketOrder (.inl rfl)]

theorem Running.congr (h : s.Running) (hfailed : s'.failed = s.failed)
    (htpsl : s'.gateway.tpsl = s.gateway.tpsl)
    (htrailing : s'.gateway.trailingStop = s.gateway.trailingStop)
    (hsorted : s.queue.Sorted GridEvent.priority → s'.queue.Sorted GridEvent.priority) :
    s'.Running :=
  ⟨hfailed.trans h.failed, htpsl.trans h.tpsl, htrailing.trans h.trailingStop, hsorted h.sorted⟩

theorem History.current_of_rework (h : s.History) (hr : Reworks s s' busy' n)
    (htraded : ∀ {m}, s.ExitTraded m → s'.ExitTraded m)
    (hn : ∀ l, s.level? n = some l → s'.ExitTraded l.marketOrder ∨
      ∃ l', s'.level? n = some l' ∧ l'.marketOrder = l.marketOrder) :
    ∀ a ∈ s.sent, s'.ExitTraded a.2 ∨ ∃ l, s'.level? a.1 = some l ∧ l.marketOrder = a.2 := by
  rintro ⟨n', m⟩ ha
  rcases h.current _ ha with hm | ⟨l, hl, rfl⟩
  · exact .inl (htraded hm)
  · by_cases hn' : n' = n
    · subst hn'
      exact hn l hl
    · exact .inr ⟨l, (hr.levels n' hn').trans hl, rfl⟩

theorem History.exits_of_rework (h : s.History) (hr : Reworks s s' busy' n)
    (hexits : ∀ a ∈ s.exits, a ∈ s'.exits)
    (hn : ∀ l kind g, s'.level? n = some l → l.exit kind = some g →
      (l.marketOrder, g) ∈ s'.exits) :
    ∀ n' l kind g, s'.level? n' = some l → l.exit kind = some g →
      (l.marketOrder, g) ∈ s'.exits := by
  intro n' l kind g hl hg
  by_cases hn' : n' = n
  · subst hn'
    exact hn l kind g hl hg
  · rw [hr.levels n' hn'] at hl
    exact hexits _ (h.exits n' l kind g hl hg)

end Changes

section Quiet

/-- No order is sent and none is closed. -/
structure Quiet (s s' : GridSystem) : Prop where
  failed : s'.failed = s.failed
  tpsl : s'.gateway.tpsl = s.gateway.tpsl
  trailingStop : s'.gateway.trailingStop = s.gateway.trailingStop
  sorted : s.queue.Sorted GridEvent.priority → s'.queue.Sorted GridEvent.priority
  exposure : s'.gateway.exposure = s.gateway.exposure
  stopLosses : s.gateway.stopLosses = [] → s'.gateway.stopLosses = []
  config : s'.strategy.config = s.strategy.config
  sent : s'.sent = s.sent
  exits : s'.exits = s.exits
  traded : ∀ t ∈ s.traded, t ∈ s'.traded

theorem Quiet.stopsGone (h : Quiet s s') (hs : s.StopsGone) : s'.StopsGone := by
  intro htop
  rw [h.config] at htop
  exact h.stopLosses (hs htop)

theorem Sound.restage (h : s.Sound busy) (hr : Restages s s' busy busy') (hq : Quiet s s')
    (hstops : busy' = none → s'.StopsGone) : s'.Sound busy' := by
  have htraded : ∀ {m}, s.ExitTraded m → s'.ExitTraded m :=
    fun hm => hm.mono (fun a ha => hq.exits ▸ ha) hq.traded
  refine ⟨h.running.congr hq.failed hq.tpsl hq.trailingStop hq.sorted, h.tracked.restage hr,
    hstops, ?_, ⟨?_, ?_, ?_⟩⟩
  · rw [hq.exposure, h.balanced, hr.levels]
    refine (overKeys_congr fun n hn => ?_).symm
    obtain ⟨l, hl⟩ := mem_levels_iff.mp hn
    have hl' : s'.level? n = some l := (hr.level?_eq n).trans hl
    rw [hedgeAt_of_level hl, hedgeAt_of_level hl', hedge, hedge, hr.entryVolume_eq h.tracked hl]
  · rw [hq.sent]
    exact h.history.sent.imp fun hab heq => htraded (hab heq)
  · intro a ha
    rw [hq.sent] at ha
    rcases h.history.current a ha with hm | ⟨l, hl, hlm⟩
    · exact .inl (htraded hm)
    · exact .inr ⟨l, (hr.level?_eq _).trans hl, hlm⟩
  · intro n l kind g hl hg
    rw [hr.level?_eq] at hl
    rw [hq.exits]
    exact h.history.exits n l kind g hl hg

theorem Sound.restage_idle (h : s.Sound none) (hr : Restages s s' none none) (hq : Quiet s s') :
    s'.Sound none := h.restage hr hq fun _ => hq.stopsGone (h.stops rfl)

theorem Sound.settle (h : s.Sound (some n)) (hl : s.level? n = some l)
    (hstage : Stage s.view s.gateway.lastPrice none n l o) (hstops : s.StopsGone) :
    s.Sound none := by
  refine h.restage ⟨rfl, rfl, rfl, id, fun n' l' o' hl' hstage' => ?_, h.tracked.idle,
    fun g hg => (h.tracked.fresh g hg).2⟩ ⟨rfl, rfl, rfl, id, rfl, id, rfl, rfl, rfl, fun _ => id⟩
    fun _ => hstops
  by_cases hn : n' = n
  · subst hn
    obtain rfl : l = l' := Option.some.inj (hl.symm.trans hl')
    obtain rfl := hstage.order_unique hstage'
    exact ⟨o', .refl o', hstage⟩
  · exact ⟨o', .refl o', hstage'.of_not_busy fun heq => hn (Option.some.inj heq).symm⟩

theorem quiet_emit {gw : BacktestTradingGateway} {es : List GatewayEvent}
    (hmarket : s.gateway.SameMarket gw) (hexposure : gw.exposure = s.gateway.exposure)
    (hstops : s.gateway.stopLosses = [] → gw.stopLosses = []) : Quiet s (s.emit gw es) := by
  refine ⟨?_, ?_, ?_, sorted_emit, ?_, ?_, ?_, ?_, ?_, fun t ht => ?_⟩
  · rw [emit_eq]
  · rw [emit_eq]
    exact hmarket.tpsl
  · rw [emit_eq]
    exact hmarket.trailingStop
  · rw [emit_eq]
    exact hexposure
  · rw [emit_eq]
    exact hstops
  · rw [emit_eq]
  · rw [emit_eq]
  · rw [emit_eq]
  · rw [emit_eq]
    exact List.mem_append_left _ ht

theorem quiet_trigger (ts : Milliseconds) : Quiet s (s.trigger ts) :=
  quiet_emit ⟨rfl, rfl, rfl⟩ BacktestTradingGateway.exposure_tryTriggerConditionals
    (BacktestTradingGateway.stopLosses_trigger_of_nil ts s.gateway.lastPrice)

theorem Sound.trigger (ts : Milliseconds) (h : s.Sound busy) : (s.trigger ts).Sound busy :=
  h.restage (restages_trigger ts h.tracked) (quiet_trigger ts)
    fun hbusy => (quiet_trigger ts).stopsGone (h.stops hbusy)

theorem Sound.onGatewayEvent {ge : GatewayEvent} (h : s.Sound none)
    (hpop : s.Pops s₀ (.gateway ge)) : (s₀.onGatewayEvent ge).Sound none := by
  have hrest : s₀.onGatewayEvent ge = { s with
      om := s.om.step ge
      queue := (s₀.onGatewayEvent ge).queue } := by
    rw [onGatewayEvent_rest, hpop.rest]
  have hsorted : (s₀.onGatewayEvent ge).queue.Sorted GridEvent.priority := by
    simp only [GridSystem.onGatewayEvent]
    split
    · simp only [notify]
      split
      · exact hpop.sorted.push (.update _ _ _)
      · exact hpop.sorted
    · exact hpop.sorted
  have hquiet : Quiet s (s₀.onGatewayEvent ge) := by
    rw [hrest] at hsorted ⊢
    exact ⟨rfl, rfl, rfl, fun _ => hsorted, rfl, id, rfl, rfl, rfl, fun _ => id⟩
  exact h.restage_idle (restages_onGatewayEvent h.tracked hpop) hquiet

theorem Sound.newPrice (ts : Milliseconds) (price : ℚ) (candles : List (Milliseconds × Candle))
    (h : s.Sound none) (hnormal : s.queue.normal = []) :
    (s.handleEvent candles (.price ts price)).Sound none := by
  have hcall : s.callGateway (.newPrice ts price) =
      ({ s with gateway := s.gateway.setPrice ts price } : GridSystem).trigger ts := by
    have hnew : s.gateway.onNewPrice ts price =
        (s.gateway.setPrice ts price).tryTriggerConditionals ts price :=
      BacktestTradingGateway.onNewPrice_eq h.running.tpsl h.running.trailingStop
    have hemit : s.callGateway (.newPrice ts price) =
        s.emit (s.gateway.onNewPrice ts price).1 (s.gateway.onNewPrice ts price).2 := rfl
    rw [hemit, hnew]
    rfl
  have hset : ({ s with gateway := s.gateway.setPrice ts price } : GridSystem).Sound none :=
    h.restage_idle (restages_setPrice ts price h.tracked hnormal)
      ⟨rfl, rfl, rfl, id, rfl, id, rfl, rfl, rfl, fun _ => id⟩
  have htrigger := hset.trigger ts
  rw [← hcall] at htrigger
  simp only [handleEvent]
  generalize hes : candles.map _ = es
  have hcandles : ∀ e ∈ es, e.priority = .normal ∧ e.guid? = none := by
    intro e he
    rw [← hes] at he
    obtain ⟨c, -, rfl⟩ := List.mem_map.mp he
    exact ⟨rfl, rfl⟩
  have hquiet : Quiet (s.callGateway (.newPrice ts price))
      ((s.callGateway (.newPrice ts price)).pushAll es) := by
    refine ⟨?_, ?_, ?_, sorted_pushAll, ?_, ?_, ?_, ?_, ?_, fun t ht => ?_⟩
    all_goals rw [pushAll_eq]
    · exact id
    · exact ht
  refine htrigger.restage_idle (restages_of_views htrigger.tracked ?_ ?_ ?_ ?_ fun g => ?_) hquiet
  · rw [pushAll_eq]
  · rw [pushAll_eq]
  · rw [pushAll_eq]
    exact id
  · rw [pushAll_eq]
  · exact view_pushAll (fun e he => (hcandles e he).1) fun e he => (hcandles e he).2

end Quiet

section Exits

variable {om : OrderManager} {kind : ConditionalType} {x : ConditionalMarketOrder}

theorem exitCount_setExit (hnone : l.exit kind = none) :
    (l.setExit kind g).exitCount = l.exitCount + 1 := by
  cases kind with
  | stopLoss =>
    have hsl : l.stopLoss = none := hnone
    simp [Level.exitCount, Level.setExit, hsl]
  | takeProfit =>
    have htp : l.takeProfit = none := hnone
    simp only [Level.exitCount, Level.setExit, htp]
    simp [add_comm]

theorem Sound.withExit {e : OrderEntry} (h : s.Sound busy) (hbusy : ∀ n' ≠ n, busy ≠ some n')
    (hl : s.level? n = some l) (hnone : l.exit kind = none) (henters : s.om.Enters om x.guid e)
    (hvol : x.signedVolume.value = -s.entryVolume l)
    (hsafe : busy' = none → 0 < s.strategy.config.topLevel)
    (hstage : (s.withExit om kind x l).InStage busy' n (l.setExit kind x.guid)) :
    (s.withExit om kind x l).Sound busy' := by
  have hgains := gains_withExit h.tracked hl hnone henters
  have hreworks := hgains.reworks h.tracked (h.tracked.width n l hl) hstage
  have hmarket : (l.setExit kind x.guid).marketOrder = l.marketOrder := by cases kind <;> rfl
  have hsent : (s.withExit om kind x l).sent = s.sent := by
    rw [GridSystem.withExit, emit_eq]
  have hexits : (s.withExit om kind x l).exits = s.exits ++ [(l.marketOrder, x.guid)] := by
    rw [GridSystem.withExit, emit_eq]
  have hsub : ∀ a ∈ s.exits, a ∈ (s.withExit om kind x l).exits := by
    intro a ha
    rw [hexits]
    exact List.mem_append_left _ ha
  have htraded : ∀ {m}, s.ExitTraded m → (s.withExit om kind x l).ExitTraded m := by
    intro m hm
    refine hm.mono hsub fun t ht => ?_
    rw [GridSystem.withExit, emit_eq]
    exact List.mem_append_left _ ht
  refine ⟨h.running.congr ?_ ?_ ?_ fun hs => sorted_emit hs, h.tracked.rework hbusy hreworks,
    fun hnone htop => ?_, ?_, ⟨?_, ?_, ?_⟩⟩
  · rw [GridSystem.withExit, emit_eq]
  · rw [GridSystem.withExit, emit_eq]
    exact BacktestTradingGateway.sameMarket_addPending.tpsl
  · rw [GridSystem.withExit, emit_eq]
    exact BacktestTradingGateway.sameMarket_addPending.trailingStop
  · rw [GridSystem.withExit, emit_eq] at htop
    exact absurd htop (hsafe hnone).not_ge
  · have hmem : n ∈ s.strategy.ordersByLevels := mem_levels_iff.mpr ⟨l, hl⟩
    have hlevels : (s.withExit om kind x l).strategy.ordersByLevels =
        s.strategy.ordersByLevels.insert n (l.setExit kind x.guid) := by
      rw [GridSystem.withExit, emit_eq, h.tracked.levelNum n l hl]
    have hgateway : (s.withExit om kind x l).gateway = s.gateway.addPending kind x := by
      rw [GridSystem.withExit, emit_eq]
    have hview : (s.withExit om kind x l).view l.marketOrder = s.view l.marketOrder := by
      apply hgains.views
      intro heq
      exact (h.tracked.fresh _ henters.fresh.ge).1 (heq ▸ ⟨n, l, hl, .inl rfl⟩)
    rw [hgateway, BacktestTradingGateway.exposure_addPending, h.balanced, hlevels,
      overKeys_insert_of_mem hmem]
    symm
    apply overKeys_update hmem
    · rw [hedgeAt_of_level hgains.self, hedgeAt_of_level hl, hedge, hedge,
        exitCount_setExit hnone, hvol, entryVolume, entryVolume, hmarket, hview]
      ring
    · exact fun n' _ hn' => hreworks.hedgeAt_eq hn'
  · rw [hsent]
    exact h.history.sent.imp fun hab heq => htraded (hab heq)
  · rw [hsent]
    refine h.history.current_of_rework hreworks htraded fun l' hl' => ?_
    obtain rfl : l = l' := Option.some.inj (hl.symm.trans hl')
    exact .inr ⟨_, hgains.self, hmarket⟩
  · refine h.history.exits_of_rework hreworks hsub fun l' k g hl' hg => ?_
    rw [hgains.self] at hl'
    obtain rfl := Option.some.inj hl'
    rw [hmarket, hexits]
    rcases kind.eq_or_eq_other k with rfl | rfl
    · have hx : (l.setExit k x.guid).exit k = some x.guid := by cases k <;> rfl
      rw [hx] at hg
      rw [← Option.some.inj hg]
      simp
    · have hx : (l.setExit kind x.guid).exit kind.other = l.exit kind.other := by
        cases kind <;> rfl
      rw [hx] at hg
      exact List.mem_append_left _ (h.history.exits n l _ g hl hg)

structure Sends (s s' : GridSystem) (n : ℤ) (l : Level) : Prop where
  level : s'.level? n = some l
  failed : s'.failed = s.failed
  qtyStep : s'.om.qtyStep = s.om.qtyStep
  config : s'.strategy.config = s.strategy.config

theorem sendExit_of_settled (kind : ConditionalType) (l : Level) (price : ℚ) (ts : Milliseconds)
    (hmarket : (s.view g).Settled n o) (hsteps : o.targetVolume.value ∈ zmultiples s.om.qtyStep) :
    ∃ om x, s.om.Enters om x.guid ((s.om.entry x.guid).setExit kind (some ⟨x, 1⟩)) ∧
      x = .new x.guid s.om.symbol.symbolName price o.targetVolume o.side.opposite kind ts ∧
      s.sendExit kind l price (.ofUnsigned o.filledVolume o.side.opposite) ts =
        (s.withExit om kind x l).trigger x.signalTs := by
  rw [hmarket.filled]
  generalize hvol : SignedVolume.ofUnsigned o.targetVolume o.side.opposite = vol
  have hvalue : vol.value = o.targetVolume.value * (o.side.opposite.sign : ℚ) := by
    rw [← hvol, SignedVolume.value_ofUnsigned]
  have hne : vol.value ≠ 0 := by
    rw [hvalue]
    have := hmarket.volume
    cases o.side.opposite <;> simp [this.ne']
  have hadjusted : s.om.adjustedVolume vol = .ok vol := by
    apply OrderManager.adjustedVolume_ok _ hne
    rw [hvalue]
    exact sign_mul_mem_zmultiples hsteps _
  have hunsigned : vol.unsigned = o.targetVolume := by
    rw [← hvol, SignedVolume.unsigned_ofUnsigned]
  have hside : vol.side = o.side.opposite := by
    rw [← hvol]
    exact SignedVolume.side_ofUnsigned hmarket.volume _
  obtain ⟨om, henters, hsend⟩ := sendExit_eq (l := l) hadjusted rfl
  refine ⟨om, _, henters, ?_, hsend⟩
  rw [hunsigned, hside]
  rfl

theorem Sound.sendExit {price : ℚ} (kind : ConditionalType) (busy' : Option ℤ)
    (ts : Milliseconds) (h : s.Sound (some n))
    (hl : s.level? n = some l) (hnone : l.exit kind = none)
    (hmarket : (s.view l.marketOrder).Settled n o)
    (hsteps : o.targetVolume.value ∈ zmultiples s.om.qtyStep)
    (hsafe : busy' = none → 0 < s.strategy.config.topLevel)
    (hstage : ∀ (s' : GridSystem) (x : ConditionalMarketOrder),
      (∀ g, l.Owns g → s'.view g = s.view g) →
      (s'.view x.guid).Live x.guid kind n o x → x.triggerPrice = price →
      Stage s'.view s.gateway.lastPrice busy' n (l.setExit kind x.guid) o) :
    ∃ s' g, s.sendExit kind l price (.ofUnsigned o.filledVolume o.side.opposite) ts = s' ∧
      s'.Sound busy' ∧ s.Sends s' n (l.setExit kind g) ∧
      Stage s'.view s'.gateway.lastPrice busy' n (l.setExit kind g) o := by
  obtain ⟨om, x, henters, hx, hsend⟩ := sendExit_of_settled kind l price ts hmarket hsteps
  have hprice : x.triggerPrice = price := by
    rw [hx]
    rfl
  have hnew : x = .new x.guid s.om.symbol.symbolName x.triggerPrice o.targetVolume
      o.side.opposite kind ts := by
    rw [hx]
    rfl
  have hfresh := h.tracked.fresh _ henters.fresh.ge
  have hgains := gains_withExit h.tracked hl hnone henters
  have hlive := live_withExit (l := l) (o := o) henters hnew (h.tracked.idle _ hfresh.1) hfresh.2
  rw [h.tracked.levelNum n l hl] at hlive
  have hqty : (s.withExit om kind x l).om.qtyStep = s.om.qtyStep :=
    congrArg (·.lotSizeFilter.qtyStep) hgains.symbol
  have hstage' : Stage (s.withExit om kind x l).view (s.withExit om kind x l).gateway.lastPrice
      busy' n (l.setExit kind x.guid) o := by
    rw [hgains.lastPrice]
    refine hstage _ x (fun g hg => hgains.views g ?_) hlive hprice
    rintro rfl
    exact hfresh.1 ⟨n, l, hl, hg⟩
  have hvol : x.signedVolume.value = -s.entryVolume l := by
    rw [entryVolume, hmarket.order]
    exact MarketOrder.signedVolume_of_opposite hlive.volume hlive.side
  have hbusy : ∀ n' ≠ n, some n ≠ some n' := fun n' hn' heq => hn' (Option.some.inj heq).symm
  have hsound : (s.withExit om kind x l).Sound busy' :=
    h.withExit hbusy hl hnone henters hvol hsafe ⟨o, hstage', hqty ▸ hsteps⟩
  have hafter : ((s.withExit om kind x l).trigger x.signalTs).gateway.lastPrice =
      (s.withExit om kind x l).gateway.lastPrice := by
    rw [GridSystem.trigger, emit_eq]
    rfl
  refine ⟨_, x.guid, hsend, hsound.trigger x.signalTs, ⟨?_, ?_, ?_, ?_⟩, ?_⟩
  · rw [level?, GridSystem.trigger, emit_eq]
    exact hgains.self
  · rw [GridSystem.trigger, emit_eq, GridSystem.withExit, emit_eq]
  · rw [GridSystem.trigger, emit_eq]
    exact hqty
  · rw [GridSystem.trigger, emit_eq, GridSystem.withExit, emit_eq]
  · rw [hafter]
    exact hstage'.trigger x.signalTs

/-- A stop loss that its price triggers trades at once if there are no others. -/
theorem stopLosses_sendExit {price : ℚ} (kind : ConditionalType) (l : Level) (ts : Milliseconds)
    (hmarket : (s.view g).Settled n o) (hsteps : o.targetVolume.value ∈ zmultiples s.om.qtyStep)
    (hnil : s.gateway.stopLosses = [])
    (htriggered : kind = .stopLoss → ∀ x : ConditionalMarketOrder, x.side = o.side.opposite →
      x.triggerPrice = price → stopLossTriggered s.gateway.lastPrice x) :
    (s.sendExit kind l price (.ofUnsigned o.filledVolume o.side.opposite)
      ts).gateway.stopLosses = [] := by
  obtain ⟨om, x, -, hx, hsend⟩ := sendExit_of_settled kind l price ts hmarket hsteps
  have hwith : (s.withExit om kind x l).gateway = s.gateway.addPending kind x := by
    rw [GridSystem.withExit, emit_eq]
  have hgateway : ((s.withExit om kind x l).trigger x.signalTs).gateway =
      ((s.withExit om kind x l).gateway.tryTriggerConditionals x.signalTs
        (s.withExit om kind x l).gateway.lastPrice).1 := by
    rw [GridSystem.trigger, emit_eq]
  rw [hsend, hgateway, hwith, BacktestTradingGateway.sameMarket_addPending.lastPrice]
  cases kind with
  | stopLoss =>
    apply BacktestTradingGateway.stopLosses_trigger_of_singleton (x := x)
    · simp only [BacktestTradingGateway.addPending, hnil, List.nil_append]
    · apply htriggered rfl
      · rw [hx]
        rfl
      · rw [hx]
        rfl
  | takeProfit => exact BacktestTradingGateway.stopLosses_trigger_of_nil _ _ hnil

section Prices

variable {strategy : DynamicGridStrategy} {price : ℚ} {side : Side}

theorem not_takeProfitTriggered (hwidth : 0 < strategy.levelWidth) (hx : x.side = side.opposite)
    (hxp : x.triggerPrice = (strategy.calcTpSlPrices price side).takeProfitPrice) :
    ¬ takeProfitTriggered price x := by
  obtain ⟨hbuy, hsell⟩ := strategy.takeProfitPrice_beyond price hwidth
  cases side with
  | buy => simpa [takeProfitTriggered, hx, Side.opposite, hxp] using hbuy
  | sell => simpa [takeProfitTriggered, hx, Side.opposite, hxp] using hsell

/-- The price of the order triggers its stop loss if the top level has wrapped around. -/
theorem stopLossTriggered_iff (hwidth : 0 < strategy.levelWidth) (hx : x.side = side.opposite)
    (hxp : x.triggerPrice = (strategy.calcTpSlPrices price side).stopLossPrice) :
    stopLossTriggered price x ↔ strategy.config.topLevel ≤ 0 := by
  obtain ⟨hbuy, hsell⟩ := strategy.stopLossPrice_behind_iff price hwidth
  cases side with
  | buy => simpa [stopLossTriggered, hx, Side.opposite, hxp] using hbuy.not
  | sell => simpa [stopLossTriggered, hx, Side.opposite, hxp] using hsell.not

end Prices

/-- With both exits and no stop loss in the gateway, the stop loss has traded. -/
theorem Stage.of_no_stopLosses (h : Stage s.view s.gateway.lastPrice busy n l o)
    (hexits : ∀ kind, l.exit kind ≠ none) (hnil : s.gateway.stopLosses = []) :
    Stage s.view s.gateway.lastPrice none n l o := by
  have hnone : ∀ g x, ¬ (s.view g).Live g .stopLoss n o x := by
    intro g x hlive
    have hpending := hlive.pending
    rw [show (s.view g).pending .stopLoss = [] from
      BacktestTradingGateway.stopLosses_eq_nil_iff.mp hnil g] at hpending
    cases hpending
  cases h with
  | sent hl hm => exact absurd (hl .stopLoss) (hexits _)
  | filled hl hm => exact absurd (hl .stopLoss) (hexits _)
  | settled hbusy hl hm hprice => exact absurd (hl .stopLoss) (hexits _)
  | placed hbusy tp x htp hsl hm hprice hlive hx => exact absurd hsl (hexits .stopLoss)
  | armed hbusy exits x hl hm hlive hx => exact absurd (hlive .stopLoss) (hnone _ _)
  | resting exits x hl hm hlive hapart => exact absurd (hlive .stopLoss) (hnone _ _)
  | closing kind exits x hl hm htraded hlive hx =>
    cases kind with
    | stopLoss => exact .closing .stopLoss exits x hl hm htraded hlive hx
    | takeProfit => exact absurd hlive (hnone _ _)

theorem Sound.sendTakeProfit (h : s.Sound (some n)) (hl : s.level? n = some l)
    (hexits : ∀ kind, l.exit kind = none) (hmarket : (s.view l.marketOrder).Settled n o)
    (hprice : o.price = s.gateway.lastPrice)
    (hsteps : o.targetVolume.value ∈ zmultiples s.om.qtyStep) :
    ∃ s' tp x, s.sendExit .takeProfit l (s.strategy.calcTpSlPrices o.price o.side).takeProfitPrice
        (.ofUnsigned o.filledVolume o.side.opposite) o.signalTs = s' ∧
      s'.Sound (some n) ∧ s.Sends s' n (l.setExit .takeProfit tp) ∧
      (s'.view l.marketOrder).Settled n o ∧ o.price = s'.gateway.lastPrice ∧
      (s'.view tp).Live tp .takeProfit n o x ∧ ¬ takeProfitTriggered s'.gateway.lastPrice x := by
  have hwidth := h.tracked.width n l hl
  have hsl : l.stopLoss = none := hexits .stopLoss
  obtain ⟨s', tp, hs', hsound, hsends, hstage⟩ := h.sendExit .takeProfit (some n) o.signalTs hl
    (hexits .takeProfit) hmarket hsteps (by simp) fun s' x hviews hlive hxp => by
      have hm : s'.view l.marketOrder = s.view l.marketOrder := hviews _ (.inl rfl)
      exact .placed rfl x.guid x rfl hsl (hm ▸ hmarket) hprice hlive
        (hprice ▸ not_takeProfitTriggered hwidth hlive.side hxp)
  cases hstage with
  | sent hnone hm => cases hnone .takeProfit
  | filled hnone hm => cases hnone .takeProfit
  | settled hbusy hnone hm hp => cases hnone .takeProfit
  | placed hbusy tp' x htp' hsl' hm hp hlive hx =>
    obtain rfl : tp = tp' := Option.some.inj htp'
    exact ⟨s', tp, x, hs', hsound, hsends, hm, hp, hlive, hx⟩
  | armed hbusy exits x hsome hm hlive hx =>
    have hsome' : l.stopLoss = some (exits .stopLoss) := hsome .stopLoss
    rw [hsl] at hsome'
    cases hsome'
  | resting exits x hsome hm hlive hapart =>
    have hsome' : l.stopLoss = some (exits .stopLoss) := hsome .stopLoss
    rw [hsl] at hsome'
    cases hsome'
  | closing kind exits x hsome hm htraded hlive hx =>
    have hsome' : l.stopLoss = some (exits .stopLoss) := hsome .stopLoss
    rw [hsl] at hsome'
    cases hsome'

theorem Sound.sendStopLoss {tp : Guid} {strategy : DynamicGridStrategy} (h : s.Sound (some n))
    (hl : s.level? n = some l) (htp : l.takeProfit = some tp) (hsl : l.stopLoss = none)
    (hmarket : (s.view l.marketOrder).Settled n o) (hprice : o.price = s.gateway.lastPrice)
    (hlive : (s.view tp).Live tp .takeProfit n o x)
    (hx : ¬ takeProfitTriggered s.gateway.lastPrice x)
    (hsteps : o.targetVolume.value ∈ zmultiples s.om.qtyStep)
    (hwidth : 0 < strategy.levelWidth) (hconfig : strategy.config = s.strategy.config)
    (hstops : s.StopsGone) :
    (s.sendExit .stopLoss l (strategy.calcTpSlPrices o.price o.side).stopLossPrice
      (.ofUnsigned o.filledVolume o.side.opposite) o.signalTs).Sound none := by
  have htriggered (y : ConditionalMarketOrder) (hy : y.side = o.side.opposite)
      (hyp : y.triggerPrice = (strategy.calcTpSlPrices o.price o.side).stopLossPrice) :
      stopLossTriggered s.gateway.lastPrice y ↔ s.strategy.config.topLevel ≤ 0 := by
    rw [← hconfig, ← hprice]
    exact stopLossTriggered_iff hwidth hy hyp
  have hlives {s' : GridSystem} {y : ConditionalMarketOrder}
      (hviews : ∀ g, l.Owns g → s'.view g = s.view g)
      (hy : (s'.view y.guid).Live y.guid .stopLoss n o y) (k : ConditionalType) :
      (s'.view (k.pick y.guid tp)).Live (k.pick y.guid tp) k n o (k.pick y x) := by
    have htp' : s'.view tp = s.view tp := hviews _ (.inr ⟨.takeProfit, htp⟩)
    cases k
    · exact hy
    · exact htp' ▸ hlive
  have hboth (y : ConditionalMarketOrder) (k : ConditionalType) :
      (l.setExit .stopLoss y.guid).exit k = some (k.pick y.guid tp) := by
    cases k
    · rfl
    · exact htp
  by_cases hsafe : 0 < s.strategy.config.topLevel
  · obtain ⟨s', sl, hs', hsound, -, -⟩ := h.sendExit .stopLoss none o.signalTs hl hsl hmarket
      hsteps (fun _ => hsafe) fun s' y hviews hy hyp => by
        have hm : s'.view l.marketOrder = s.view l.marketOrder := hviews _ (.inl rfl)
        have hny : ¬ stopLossTriggered s.gateway.lastPrice y :=
          fun hy' => hsafe.not_ge ((htriggered y hy.side hyp).mp hy')
        exact .resting (·.pick y.guid tp) (·.pick y x) (hboth y) (hm ▸ hmarket)
          (hlives hviews hy)
          (ConditionalMarketOrder.apart_of_not_triggered (hlive.side.trans hy.side.symm) hx hny)
    rw [hs']
    exact hsound
  · obtain ⟨s', sl, hs', hsound, hsends, hstage⟩ := h.sendExit .stopLoss (some n) o.signalTs hl hsl
      hmarket hsteps (by simp) fun s' y hviews hy hyp => by
        have hm : s'.view l.marketOrder = s.view l.marketOrder := hviews _ (.inl rfl)
        exact .armed rfl (·.pick y.guid tp) (·.pick y x) (hboth y) (hm ▸ hmarket)
          (hlives hviews hy) hx
    have hnil := stopLosses_sendExit .stopLoss l o.signalTs hmarket hsteps
      (hstops (not_lt.mp hsafe)) fun _ y hy hyp => (htriggered y hy hyp).mpr (not_lt.mp hsafe)
    rw [hs'] at hnil ⊢
    refine hsound.settle hsends.level (Stage.of_no_stopLosses hstage (fun k => ?_) hnil)
      fun _ => hnil
    cases k
    · exact Option.some_ne_none _
    · exact fun hnone => Option.some_ne_none _ (htp.symm.trans hnone)

theorem Sound.onOrderTraded (h : s.Sound (some n)) (hl : s.level? n = some l)
    (hexits : ∀ kind, l.exit kind = none) (hmarket : (s.view l.marketOrder).Settled n o)
    (hprice : o.price = s.gateway.lastPrice)
    (hsteps : o.targetVolume.value ∈ zmultiples s.om.qtyStep) (hstops : s.StopsGone) :
    (s.onOrderTraded o n).Sound none := by
  have htp : l.takeProfit = none := hexits .takeProfit
  have hsl : l.stopLoss = none := hexits .stopLoss
  have hlookup : s.strategy.ordersByLevels.lookup n = some l := hl
  obtain ⟨s₁, tp, x, hs₁, hsound₁, hsends₁, hmarket₁, hprice₁, hlive₁, hx₁⟩ :=
    h.sendTakeProfit hl hexits hmarket hprice hsteps
  have hstops₁ : s₁.StopsGone := by
    intro htop
    rw [← hs₁]
    exact stopLosses_sendExit .takeProfit l o.signalTs hmarket hsteps
      (hstops (hsends₁.config ▸ htop)) (by simp)
  have hsound₂ := hsound₁.sendStopLoss hsends₁.level rfl hsl hmarket₁ hprice₁ hlive₁ hx₁
    (hsends₁.qtyStep ▸ hsteps) (h.tracked.width n l hl) hsends₁.config.symm hstops₁
  have hfailed : s₁.failed = false := hsends₁.failed.trans h.running.failed
  have hlookup₁ : s₁.strategy.ordersByLevels.lookup n = some (l.setExit .takeProfit tp) :=
    hsends₁.level
  have hhandler : s.onOrderTraded o n = s₁.sendExit .stopLoss (l.setExit .takeProfit tp)
      (s.strategy.calcTpSlPrices o.price o.side).stopLossPrice
      (.ofUnsigned o.filledVolume o.side.opposite) o.signalTs := by
    simp only [GridSystem.onOrderTraded, hlookup, htp, hsl, hs₁, hfailed, hlookup₁]
    simp
  rw [hhandler]
  exact hsound₂

end Exits

section Entry

variable {om : OrderManager} {gw : BacktestTradingGateway} {t : Trade}

theorem Sound.withTrade {e : OrderEntry} (h : s.Sound none) (hl : s.level? n = none)
    (henters : s.om.Enters om o.guid e) (hmarket : s.gateway.SameMarket gw)
    (hpending : gw.pendingOf = s.gateway.pendingOf)
    (hexposure : gw.exposure = s.gateway.exposure + o.signedVolume.value)
    (htrade : t.orderGuid = o.guid) (hwidth : 0 < s.strategy.levelWidth)
    (hstage : Stage (s.withTrade om o n gw t).view (s.withTrade om o n gw t).gateway.lastPrice none
      n { levelNum := n, marketOrder := o.guid } o)
    (hsteps : o.targetVolume.value ∈ zmultiples (s.withTrade om o n gw t).om.qtyStep) :
    (s.withTrade om o n gw t).Sound none := by
  have hgains := gains_withTrade (t := t) hl henters hmarket hpending htrade
  have hreworks := hgains.reworks h.tracked hwidth ⟨o, hstage, hsteps⟩
  have hsent : (s.withTrade om o n gw t).sent = s.sent ++ [(n, o.guid)] := by
    rw [GridSystem.withTrade, emit_eq]
    rfl
  have hexits : (s.withTrade om o n gw t).exits = s.exits := by
    rw [GridSystem.withTrade, emit_eq]
    rfl
  have htraded : ∀ {m}, s.ExitTraded m → (s.withTrade om o n gw t).ExitTraded m := by
    intro m hm
    refine hm.mono (fun a ha => hexits ▸ ha) fun t ht => ?_
    rw [GridSystem.withTrade, emit_eq]
    exact List.mem_append_left _ ht
  refine ⟨h.running.congr ?_ ?_ ?_ fun hs => sorted_emit hs,
    h.tracked.rework (by simp) hreworks, fun _ htop => ?_, ?_, ⟨?_, ?_, ?_⟩⟩
  · rw [GridSystem.withTrade, emit_eq]
    rfl
  · rw [GridSystem.withTrade, emit_eq]
    exact hmarket.tpsl
  · rw [GridSystem.withTrade, emit_eq]
    exact hmarket.trailingStop
  · rw [GridSystem.withTrade, emit_eq] at htop ⊢
    rw [BacktestTradingGateway.stopLosses_eq_nil_iff, hpending]
    exact BacktestTradingGateway.stopLosses_eq_nil_iff.mp (h.stops rfl htop)
  · have hmem : n ∉ s.strategy.ordersByLevels := by
      rw [mem_levels_iff, hl]
      rintro ⟨l, hl'⟩
      cases hl'
    have hlevels : (s.withTrade om o n gw t).strategy.ordersByLevels =
        s.strategy.ordersByLevels.insert n { levelNum := n, marketOrder := o.guid } := by
      rw [GridSystem.withTrade, emit_eq]
      rfl
    have hgateway : (s.withTrade om o n gw t).gateway = gw := by
      rw [GridSystem.withTrade, emit_eq]
    have hnew : (s.withTrade om o n gw t).hedgeAt n = o.signedVolume.value := by
      rw [hedgeAt_of_level hgains.self, hedge, entryVolume_of_stage hstage]
      simp [Level.exitCount]
    rw [hgateway, hexposure, h.balanced, hlevels, overKeys_insert hmem, hnew, add_comm]
    congr 1
    refine overKeys_congr fun n' hn' => (hreworks.hedgeAt_eq ?_).symm
    rintro rfl
    exact hmem hn'
  · rw [hsent, List.pairwise_append]
    refine ⟨h.history.sent.imp fun hab heq => htraded (hab heq), List.pairwise_singleton .., ?_⟩
    intro a ha b hb heq
    obtain rfl := List.mem_singleton.mp hb
    rcases h.history.current a ha with hm | ⟨l, hl', -⟩
    · exact htraded hm
    · rw [heq, hl] at hl'
      cases hl'
  · intro a ha
    rw [hsent, List.mem_append, List.mem_singleton] at ha
    rcases ha with ha | rfl
    · refine h.history.current_of_rework hreworks htraded (fun l hl' => ?_) a ha
      rw [hl] at hl'
      cases hl'
    · exact .inr ⟨_, hgains.self, rfl⟩
  · refine h.history.exits_of_rework hreworks (fun a ha => hexits ▸ ha) fun l k g hl' hg => ?_
    rw [hgains.self] at hl'
    obtain rfl := Option.some.inj hl'
    cases k <;> cases hg

theorem Sound.sendEntry {size : UnsignedVolume} (price : ℚ) (side : Side) (ts : Milliseconds)
    (h : s.Sound none) (hl : s.level? n = none) (hwidth : 0 < s.strategy.levelWidth)
    (hsize : 1 ≤ stdRound (size.value / s.om.qtyStep)) :
    (s.sendEntry n price (.ofUnsigned size side) ts).Sound none := by
  obtain ⟨adjusted, hadjusted, hpos⟩ := OrderManager.adjustedVolume_of_steps side hsize
  obtain ⟨o, ho⟩ : ∃ o, o = MarketOrder.ofSigned s.om.nextGuid s.om.symbol.symbolName price adjusted
      ts := ⟨_, rfl⟩
  obtain ⟨om, henters, hsend⟩ := sendEntry_eq (n := n) hadjusted ho
  obtain ⟨gw, t, hrequest, hmarket, hexposure, hpending, htrade, hprice, hvol⟩ :=
    BacktestTradingGateway.pushRequest_order (o := o) h.running.tpsl
  have hfresh := h.tracked.fresh _ henters.fresh.ge
  have htarget : o.targetVolume = adjusted.unsigned := by rw [ho]; rfl
  have hsent : ((s.withTrade om o n gw t).view o.guid).Sent o.guid n s.gateway.lastPrice o :=
    sent_withTrade henters hpending htrade hprice hvol
    (by rw [ho]; rfl) (by rw [ho]; rfl) (by rwa [htarget, SignedVolume.value_unsigned])
    (h.tracked.idle _ hfresh.1) hfresh.2
  rw [hsend, hrequest]
  have hgains := gains_withTrade (t := t) hl henters hmarket hpending htrade
  apply h.withTrade hl henters hmarket hpending hexposure htrade hwidth
  · rw [hgains.lastPrice]
    refine .sent (fun kind => ?_) hsent
    cases kind <;> rfl
  · have hqty : (s.withTrade om o n gw t).om.qtyStep = s.om.qtyStep :=
      congrArg (·.lotSizeFilter.qtyStep) hgains.symbol
    rw [hqty, htarget, SignedVolume.value_unsigned]
    exact abs_mem_zmultiples (OrderManager.adjustedVolume_mem hadjusted)

end Entry

section Close

theorem Closes.stopsGone {vol : ℚ} (hc : s.Closes s' n l vol) (h : s.StopsGone) :
    s'.StopsGone := by
  intro htop
  have hconfig : s'.strategy.config = s.strategy.config := by rw [hc.rest]
  have hnil := BacktestTradingGateway.stopLosses_eq_nil_iff.mp (h (hconfig ▸ htop))
  rw [BacktestTradingGateway.stopLosses_eq_nil_iff]
  intro g
  by_cases hg : l.Owns g
  · exact (hc.idle g hg).pending .stopLoss
  · exact (congrArg (·.pending .stopLoss) (hc.of_not_owns g hg)).trans (hnil g)

/-- A level whose exit has traded and whose other exit is cancelled. -/
theorem Sound.close {kind : ConditionalType} {vol : ℚ} (h : s.Sound none)
    (hl : s.level? n = some l) (hc : s.Closes s' n l vol) (hcount : l.exitCount = 2)
    (hvol : vol = -s.entryVolume l) (hexit : l.exit kind = some g)
    (htraded : (s.view g).traded = true) : s'.Sound none := by
  have hreworks : Reworks s s' none n := hc.reworks h.tracked hl
  have hexits : s'.exits = s.exits := by rw [hc.rest]
  have hsame : s'.traded = s.traded := by rw [hc.rest]
  have hmono : ∀ {m}, s.ExitTraded m → s'.ExitTraded m :=
    fun hm => hm.mono (fun a ha => hexits ▸ ha) fun t ht => hsame ▸ ht
  have hsent : s'.sent = s.sent := by rw [hc.rest]
  refine ⟨h.running.congr (by rw [hc.rest]) hc.market.tpsl hc.market.trailingStop hc.sorted,
    h.tracked.rework (by simp) hreworks, fun _ => hc.stopsGone (h.stops rfl), ?_, ⟨?_, ?_, ?_⟩⟩
  · have hlevels : s'.strategy.ordersByLevels = s.strategy.ordersByLevels.erase n := by
      rw [hc.rest]
    have hmem : n ∈ s.strategy.ordersByLevels := mem_levels_iff.mpr ⟨l, hl⟩
    have hsum := overKeys_erase (g := s.hedgeAt) hmem
    have hn : s.hedgeAt n = vol := by
      rw [hedgeAt_of_level hl, hedge, hcount, hvol]
      ring
    have hrest : overKeys (s.strategy.ordersByLevels.erase n) s'.hedgeAt =
        overKeys (s.strategy.ordersByLevels.erase n) s.hedgeAt :=
      overKeys_congr fun n' hn' => hreworks.hedgeAt_eq (AList.mem_erase.mp hn').1
    rw [hc.exposure, h.balanced, hlevels, hrest, ← hsum, hn]
    ring
  · rw [hsent]
    exact h.history.sent.imp fun hab heq => hmono (hab heq)
  · rw [hsent]
    refine h.history.current_of_rework hreworks hmono fun l' hl' => ?_
    left
    obtain rfl : l = l' := Option.some.inj (hl.symm.trans hl')
    obtain ⟨t, ht, htg⟩ := List.any_eq_true.mp htraded
    exact hmono ⟨g, h.history.exits n l kind g hl hexit, t, ht, of_decide_eq_true htg⟩
  · refine h.history.exits_of_rework hreworks (fun a ha => hexits ▸ ha) fun l' k g' hl' _ => ?_
    rw [hc.level?_self] at hl'
    cases hl'

end Close

end GridSystem

end CryptoTrading

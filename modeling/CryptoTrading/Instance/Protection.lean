import CryptoTrading.Gateway.Ledger
import CryptoTrading.Instance.Armed

/-! # The trailing stop never loosens

From the entry to the close of a position the stop of the gateway moves in one direction,
however the events of one position follow those of the last one.
-/

namespace CryptoTrading

open Runs

namespace TrailingStopSystem

open TrailingStopEvent (settle follow)

variable {s s' : TrailingStopSystem} {e : TrailingStopEvent} {q : List TrailingStopEvent}
  {side : Side} {f : Follower ℚ}

structure Flat (s : TrailingStopSystem) : Prop where
  unprotected : s.Unprotected
  volume : s.gateway.posVolume.value = 0
  manager : s.managerAhead.openedPosition = none
  inputs : FlatInputs s.strategy s.inputs
  coef : ValidCoef s.strategy
  once : s.tightenings ≤ 1

structure OpensWithStop (s : TrailingStopSystem) (t : Trade) : Prop where
  flat : s.gateway.posVolume.IsZero
  price : 0 ≤ t.price
  distance : 0 < (s.strategy.calcTrailingStop Guid.default t).priceDistance

structure Opened (s : TrailingStopSystem) (t : Trade) : Prop where
  unprotected : s.Unprotected
  volume : s.gateway.posVolume = t.signedVolume
  lastPrice : s.gateway.lastPrice = t.price
  dust : dustVolume < t.unsignedVolume.value
  fee : 0 ≤ t.fee
  distance : 0 < (s.strategy.calcTrailingStop Guid.default t).priceDistance
  coef : ValidCoef s.strategy
  tightenings : s.tightenings = 0

structure Entered (s : TrailingStopSystem) (t : Trade) : Prop extends s.Opened t where
  entry : ∃ guid, s.managerAhead.openedPosition = some (.ofTrade guid t) ∧
    EntryInputs s.strategy (OpenedPosition.ofTrade guid t).priceLevels t s.inputs

inductive Phase (s : TrailingStopSystem) : Prop
  | flat (h : s.Flat)
  | entered {t : Trade} (h : s.Entered t)
  | armed {side : Side} {f : Follower ℚ} (h : s.Armed side f)

/-- The stop of the gateway is not loosened, unless the position is closed. -/
def KeepsProtection (s s' : TrailingStopSystem) : Prop :=
  ∀ b ∈ s.gateway.trailingStop, s'.gateway.posVolume.IsZero ∨
    ∃ b' ∈ s'.gateway.trailingStop, b'.AtLeast b s.gateway.posVolume.side

theorem keepsProtection_of_eq (h : s'.gateway = s.gateway) : s.KeepsProtection s' := by
  intro b hb
  rw [h]
  exact .inr ⟨b, hb, BacktestTrailingStopLoss.atLeast_iff.mpr le_rfl⟩

theorem Unprotected.keepsProtection (h : s.Unprotected) : s.KeepsProtection s' := by
  intro b hb
  rw [h.trailingStop] at hb
  cases hb

theorem Unprotected.consume (h : s.Unprotected) (hq : s.queue = e :: q)
    (st : DynamicTrailingStopLossStrategy) :
    Unprotected { s with queue := q, strategy := st } :=
  ⟨h.onlyTrails, h.trailingStop, fun r hr => h.removal r (hq ▸ List.mem_cons_of_mem _ hr)⟩

theorem Flat.run (h : s.Flat) (hq : s.queue = e :: q) : (s.step .run).Flat := by
  by_cases he : e.isForStrategy
  · obtain ⟨hinputs, hmanager⟩ := inputs_of_isForStrategy hq he
    have hflat := hinputs ▸ h.inputs
    have hlast (he : e = .trailingStopUpdated none) (tsl : Option TrailingStopLoss) :
        .trailingStopUpdated tsl ∉ q := by
      subst he
      exact not_mem_queue (s := s) (by simp [hflat.last]) tsl
    obtain ⟨st, hrun, hflat', hparams⟩ := hflat.run hq hlast
    rw [hrun]
    exact ⟨h.unprotected.consume hq st, h.volume, hmanager ▸ h.manager, hflat',
      h.coef.of_same hparams, h.once⟩
  · obtain ⟨hremoval, hsub⟩ := h.inputs.removal
    obtain ⟨hunprotected, hsame⟩ := h.unprotected.run_pending hq (by simpa using he) hsub hremoval
    refine ⟨hunprotected, ?_, ?_, ?_, ?_, ?_⟩
    · rw [hsame.gateway]
      exact h.volume
    · rw [hsame.managerAhead]
      exact h.manager
    · rw [hsame.strategy, hsame.inputs]
      exact h.inputs
    · rw [hsame.strategy]
      exact h.coef
    · rw [hsame.tightenings]
      exact h.once

theorem Opened.consume {t : Trade} {st : DynamicTrailingStopLossStrategy} (h : s.Opened t)
    (hq : s.queue = e :: q) (hparams : SameParameters s.strategy st) :
    Opened { s with queue := q, strategy := st } t := by
  refine ⟨h.unprotected.consume hq st, h.volume, h.lastPrice, h.dust, h.fee, ?_,
    h.coef.of_same hparams, h.tightenings⟩
  simpa only [DynamicTrailingStopLossStrategy.calcTrailingStop, hparams.risk] using h.distance

theorem Opened.volume_ne_zero {t : Trade} (h : s.Opened t) : s.gateway.posVolume.value ≠ 0 := by
  rw [h.volume]
  exact not_isZero_signedVolume (dustVolume_pos.trans h.dust).ne'

theorem Opened.arm {t : Trade} {guid : Guid} (h : s.Opened t)
    (hopened : s.managerAhead.openedPosition = some (.ofTrade guid t))
    (hinputs : s.inputs = []) (hactive : s.strategy.activeStopLoss = none)
    (hlevels : s.strategy.lastPosPriceLevels = (OpenedPosition.ofTrade guid t).priceLevels)
    (guid' : Guid) :
    ∃ f, (s.sendTrailingStop (s.strategy.calcTrailingStop guid' t)).Armed t.side f := by
  obtain ⟨hmanager, hqueue⟩ := of_inputs_nil hinputs
  have hsends : s.Sends _ (s.strategy.calcTrailingStop guid' t) t.side := sends_sendTrailingStop rfl
  refine ⟨_, hsends.armed rfl h.unprotected.onlyTrails ?_ h.volume_ne_zero
    ⟨_, hmanager ▸ hopened, ?_⟩
    (fun e he _ => ?_) (fun _ ts price hprice => ?_) h.coef (h.tightenings.le.trans zero_le_one) ?_⟩
  · rw [h.volume]
    exact SignedVolume.side_ofUnsigned (dustVolume_pos.trans h.dust) t.side
  · rw [OpenedPosition.ofTrade_of_dust_lt guid h.dust]
    exact h.volume.symm
  · obtain ⟨g, rfl, hg⟩ := hqueue e he
    exact fun r hr => absurd hr (hg r)
  · obtain ⟨g, hg, _⟩ := hqueue _ hprice
    cases hg
  · intro _
    obtain ⟨n, hn, hle⟩ := OpenedPosition.noLossPrice_ofTrade guid h.dust h.fee
    refine ⟨h.tightenings, h.distance.le, ?_, n, ?_, .inl ?_⟩
    · rw [hsends.strategy, hactive]
      rintro _ ⟨⟩
    · rw [hsends.strategy, ← hn, ← hlevels]
    · have hdelta := mul_nonneg h.distance.le h.coef.nonneg
      rw [triggerLevel, hsends.strategy, h.lastPrice]
      exact hle.trans (le_add_of_nonneg_right hdelta)

theorem Entered.run {t : Trade} (h : s.Entered t) (hq : s.queue = e :: q) :
    (s.step .run).Entered t ∨ ∃ f, (s.step .run).Armed t.side f := by
  obtain ⟨guid, hopened, hentry⟩ := h.entry
  by_cases he : e.isForStrategy
  · obtain ⟨hinputs, hmanager⟩ := inputs_of_isForStrategy hq he
    rw [hinputs] at hentry
    have hlast (he : e = .trailingStopUpdated none) (tsl : Option TrailingStopLoss) :
        .trailingStopUpdated tsl ∉ q := by
      subst he
      exact not_mem_queue (s := s) hentry.last tsl
    obtain ⟨st, hrun, hentry', hparams⟩ | ⟨hnil, hactive, hlevels, hrun⟩ :=
      hentry.run hq hlast
    · rw [hrun]
      exact .inl ⟨h.consume hq hparams, guid, hmanager ▸ hopened, hentry'⟩
    · rw [hrun]
      have hopened' : Opened { s with queue := q } t := h.consume hq ⟨rfl, rfl⟩
      exact .inr (hopened'.arm (hmanager ▸ hopened) hnil hactive hlevels _)
  · obtain ⟨hremoval, hsub⟩ := hentry.removal
    obtain ⟨hunprotected, hsame⟩ := h.unprotected.run_pending hq (by simpa using he) hsub hremoval
    refine .inl ⟨⟨hunprotected, ?_, ?_, h.dust, h.fee, ?_, ?_, ?_⟩, guid, ?_, ?_⟩
    · rw [hsame.gateway]
      exact h.volume
    · rw [hsame.gateway]
      exact h.lastPrice
    · rw [hsame.strategy]
      exact h.distance
    · rw [hsame.strategy]
      exact h.coef
    · rw [hsame.tightenings]
      exact h.tightenings
    · rw [hsame.managerAhead]
      exact hopened
    · rw [hsame.strategy, hsame.inputs]
      exact hentry

theorem queue_callGateway {c : GatewayCall} {g : BacktestTradingGateway} {es : List GatewayEvent}
    (h : s.gateway.handle c = (g, es)) :
    s.callGateway c =
      { s with gateway := g, queue := s.queue ++ es.flatMap TrailingStopEvent.ofGateway } := by
  rw [callGateway, BacktestTradingGateway.step, h]

/-- A price of the position with a stop: the stop follows it, or the position is closed. -/
theorem Armed.price (h : s.Armed side f) (hq : s.queue = []) (ts : Milliseconds) (price : ℚ) :
    (s.handlePrice ts price).Armed side (f.follow (price * side.sign)) ∨
      (s.handlePrice ts price).Flat := by
  obtain ⟨b, hb, hf⟩ := h.stop
  obtain ⟨b', es, hnew, hf', hes⟩ | ⟨trade, r, hnew, hr, hvol, hcross⟩ :=
    h.onlyTrails.onNewPrice_cases hb hf h.side ts price
  · left
    have hprice : s.handlePrice ts price = _ := queue_callGateway hnew
    rw [hprice, hq]
    refine ⟨⟨h.1.1, h.1.2, h.1.3⟩, ⟨b', rfl, hf'⟩, h.side, h.volume, h.manager, h.known, h.sub, ?_,
      fun hactive => ?_, h.coef, h.once, fun htriggered => ?_⟩
    · intro e he
      rcases List.mem_append.mp he with he | he
      · rw [List.mem_singleton.mp he]
        rfl
      · obtain ⟨g, hg, he⟩ := List.mem_flatMap.mp he
        obtain ⟨r, rfl, hr⟩ := hes g hg
        rw [List.mem_singleton.mp he]
        rintro _ ⟨rfl⟩
        exact hr
    · obtain ⟨⟨e, he, _⟩, _⟩ := h.told hactive
      rw [hq] at he
      cases he
    · have hun := h.untriggered htriggered
      obtain ⟨n, hn, _⟩ := hun.best
      have hbest := hun.best_le hn (by simp [hq])
      refine ⟨hun.tightenings, hun.distance, hun.active, n, hn, .inr ⟨⟨ts, ?_⟩, ?_⟩⟩
      · exact List.mem_append_left _ (List.mem_singleton_self _)
      · exact max_le_max_right _ hbest
  · right
    have hprice : s.handlePrice ts price = _ := queue_callGateway hnew
    rw [hprice, hq]
    obtain ⟨pos, hpos, hposVol⟩ := h.manager
    have hne : ¬ trade.signedVolume.IsZero := by
      rw [SignedVolume.isZero_iff, hvol, neg_eq_zero]
      exact h.volume
    have hclosed := PositionManager.step_closing hpos (hposVol ▸ hvol) hne
    refine ⟨⟨⟨h.1.1, h.1.2, h.1.3⟩, rfl, fun r' hr' => ?_⟩, rfl, hclosed, ?_, h.coef, h.once⟩
    · have heq : r' = r := by simpa [TrailingStopEvent.ofGateway] using hr'
      obtain ⟨tsl, htsl, _⟩ := h.known
      exact ⟨heq ▸ hr, Option.isSome_of_eq_some htsl⟩
    · have hinputs : FlatInputs s.strategy [.priceChanged ts price, _, .exitTrade trade, _] :=
        .crossed h.sub (h.quiet hq hcross)
      simpa [inputs, outputs, TrailingStopEvent.ofGateway, TrailingStopEvent.isForStrategy,
        TrailingStopEvent.follow, TrailingStopEvent.settle, TrailingStopEvent.ofPosition,
        hclosed] using hinputs

theorem Armed.keepsProtection {g : Follower ℚ} (h : s.Armed side f) (h' : s'.Armed side g)
    (hlevel : f.level ≤ g.level) : s.KeepsProtection s' := by
  intro b hb
  obtain ⟨b₀, hb₀, hf⟩ := h.stop
  obtain ⟨b', hb', hg⟩ := h'.stop
  cases hb.symm.trans hb₀
  rw [h.side]
  exact .inr ⟨b', hb', hf.atLeast hg hlevel⟩

def entryTrades (s : TrailingStopSystem) (price : ℚ) (vol : SignedVolume) (ts : Milliseconds) :
    List Trade :=
  ((s.om.sendMarketOrder price vol ts).2.1.filterMap OrderManagerOutput.request?).flatMap fun r =>
    s.gateway.trades (.request r)

theorem enter_cases (honly : s.gateway.OnlyTrails) (price : ℚ) (vol : SignedVolume)
    (ts : Milliseconds) :
    s.enter price vol ts = s ∨
      ∃ t r, t ∈ s.entryTrades price vol ts ∧ t.price = s.gateway.lastPrice ∧
        (0 ≤ t.price → 0 ≤ t.fee) ∧
        s.enter price vol ts =
          { s with
            gateway := s.gateway.traded t
            om := (s.om.sendMarketOrder price vol ts).1
            queue := s.queue ++ [.gateway (.orderResponse r), .gateway (.trade t), .trade t]
            tightenings := 0 } := by
  cases hadj : s.om.adjustedVolume vol with
  | error e =>
    left
    rw [enter, OrderManager.sendMarketOrder_error hadj]
    rfl
  | ok adjusted =>
    right
    obtain ⟨t, r, hprice, hfee, hpush⟩ := honly.pushOrderRequest
      (.ofSigned s.om.nextGuid s.om.symbol.symbolName price adjusted ts)
    refine ⟨t, r, ?_, hprice, hfee, ?_⟩
    · rw [entryTrades, OrderManager.sendMarketOrder_ok hadj]
      simp [OrderManagerOutput.request?, BacktestTradingGateway.trades,
        BacktestTradingGateway.handle, BacktestTradingGateway.pushRequest, hpush]
    · rw [enter, OrderManager.sendMarketOrder_ok hadj]
      simp [OrderManagerOutput.request?, request, callGateway, BacktestTradingGateway.step,
        BacktestTradingGateway.handle, BacktestTradingGateway.pushRequest, hpush,
        TrailingStopEvent.ofGateway]

theorem trailingStop_sendMarketOrder (om : OrderManager) (price : ℚ) (vol : SignedVolume)
    (ts : Milliseconds) : (om.sendMarketOrder price vol ts).1.trailingStop = om.trailingStop := by
  unfold OrderManager.sendMarketOrder
  split <;> rfl

theorem Flat.enter {price : ℚ} {vol : SignedVolume} {ts : Milliseconds} (h : s.Flat)
    (hopens : ∀ t ∈ s.entryTrades price vol ts,
      s.OpensWithStop t ∧ dustVolume < t.unsignedVolume.value) :
    s.enter price vol ts = s ∨ ∃ t, (s.enter price vol ts).Entered t := by
  obtain hsame | ⟨t, r, ht, hprice, hfee, henter⟩ :=
    enter_cases h.unprotected.onlyTrails price vol ts
  · exact .inl hsame
  right
  obtain ⟨hopen, hdust⟩ := hopens t ht
  refine ⟨t, ?_⟩
  rw [henter]
  have hes : ∀ e ∈ ([.gateway (.orderResponse r), .gateway (.trade t), .trade t] :
      List TrailingStopEvent), e.isForStrategy = false := by simp [TrailingStopEvent.isForStrategy]
  have hqueue : (s.enter price vol ts).queue = s.queue ++ _ := congrArg queue henter
  have hsame : (s.enter price vol ts).positionManager = s.positionManager := by rw [henter]
  obtain ⟨hinputs, hmanager⟩ := inputs_append hes hqueue hsame
  rw [henter] at hinputs hmanager
  have hstep := PositionManager.onTradeReceived_open (t := t) h.manager
  refine ⟨⟨⟨⟨h.unprotected.1.1, h.unprotected.1.2, h.unprotected.1.3⟩, h.unprotected.trailingStop,
    fun r' hr' => ?_⟩, ?_, hprice.symm, hdust, hfee hopen.price, hopen.distance, h.coef, rfl⟩,
    s.managerAhead.nextGuid, ?_, ?_⟩
  · have hmem : .gateway (.trailingStopUpdated r') ∈ s.queue := by simpa using hr'
    obtain ⟨hremoval, htsl⟩ := h.unprotected.removal r' hmem
    exact ⟨hremoval, by rwa [trailingStop_sendMarketOrder]⟩
  · ext
    rw [BacktestTradingGateway.traded, SignedVolume.value_add, h.volume, zero_add]
  · rw [hmanager]
    exact congrArg (·.1.openedPosition) hstep
  · rw [hinputs]
    have hopened : (s.managerAhead.step t).openedPosition = _ := congrArg (·.1.openedPosition) hstep
    have hentry : EntryInputs s.strategy
        (OpenedPosition.ofTrade s.managerAhead.nextGuid t).priceLevels t _ := .waiting h.inputs
    simpa [outputs, follow, settle, TrailingStopEvent.ofPosition, hopened] using hentry

theorem Flat.price (h : s.Flat) (hq : s.queue = []) (ts : Milliseconds) (price : ℚ) :
    (s.handlePrice ts price).Flat := by
  have hprice : s.handlePrice ts price = _ := queue_callGateway
    (h.unprotected.onlyTrails.onNewPrice_of_none h.unprotected.trailingStop ts price)
  have hinputs := inputs_of_queue_nil hq ▸ h.inputs
  rw [hprice, hq]
  refine ⟨⟨⟨h.unprotected.1.1, h.unprotected.1.2, h.unprotected.1.3⟩, h.unprotected.trailingStop,
    fun r hr => ?_⟩, h.volume, ?_, ?_, h.coef, h.once⟩
  · simp at hr
  · have hmanager := h.manager
    rw [managerAhead, hq] at hmanager
    exact hmanager
  · cases hinputs with
    | idle _ hopened hsub hactive =>
      refine .idle (fun e he => ?_) hopened hsub hactive
      refine ⟨ts, price, ?_⟩
      simpa [TrailingStopSystem.inputs, outputs, TrailingStopEvent.isForStrategy, follow] using he

theorem Entered.queue_ne_nil {t : Trade} (h : s.Entered t) : s.queue ≠ [] := by
  intro hq
  obtain ⟨guid, _, hentry⟩ := h.entry
  rw [inputs_of_queue_nil hq] at hentry
  generalize hnil : ([] : List TrailingStopEvent) = es at hentry
  cases hentry with
  | waiting => simp at hnil
  | told => cases hnil
  | opened => cases hnil

/-- No order adds to a position. -/
def EntersFlat (s : TrailingStopSystem) : TrailingStopStep → Prop
  | .enter price vol ts => ∀ t ∈ s.entryTrades price vol ts, s.OpensWithStop t
  | _ => True

/-- Every position is larger than dust. -/
def EntersWithoutDust (s : TrailingStopSystem) : TrailingStopStep → Prop
  | .enter price vol ts =>
    ∀ t ∈ s.entryTrades price vol ts, dustVolume < t.unsignedVolume.value
  | _ => True

instance (s : TrailingStopSystem) (t : Trade) : Decidable (s.OpensWithStop t) :=
  decidable_of_iff (s.gateway.posVolume.IsZero ∧ 0 ≤ t.price ∧
      0 < (s.strategy.calcTrailingStop Guid.default t).priceDistance)
    ⟨fun h => ⟨h.1, h.2.1, h.2.2⟩, fun h => ⟨h.1, h.2, h.3⟩⟩

instance (s : TrailingStopSystem) : (x : TrailingStopStep) → Decidable (s.EntersFlat x)
  | .enter price vol ts =>
    inferInstanceAs (Decidable (∀ t ∈ s.entryTrades price vol ts, s.OpensWithStop t))
  | .price _ _ => isTrue trivial
  | .run => isTrue trivial

instance (s : TrailingStopSystem) : (x : TrailingStopStep) → Decidable (s.EntersWithoutDust x)
  | .enter price vol ts =>
    inferInstanceAs
      (Decidable (∀ t ∈ s.entryTrades price vol ts, dustVolume < t.unsignedVolume.value))
  | .price _ _ => isTrue trivial
  | .run => isTrue trivial

instance (s s' : TrailingStopSystem) : Decidable (s.KeepsProtection s') :=
  inferInstanceAs (Decidable (∀ b ∈ s.gateway.trailingStop, s'.gateway.posVolume.IsZero ∨
    ∃ b' ∈ s'.gateway.trailingStop, b'.AtLeast b s.gateway.posVolume.side))

theorem enter_of_position {price : ℚ} {vol : SignedVolume} {ts : Milliseconds}
    (honly : s.gateway.OnlyTrails) (hvol : s.gateway.posVolume.value ≠ 0)
    (hopens : s.EntersFlat (.enter price vol ts)) : s.enter price vol ts = s := by
  obtain hsame | ⟨t, _, ht, _⟩ := enter_cases honly price vol ts
  · exact hsame
  · exact absurd (hopens t ht).flat hvol

theorem Phase.once (h : s.Phase) : s.tightenings ≤ 1 := by
  cases h with
  | flat h => exact h.once
  | entered h => exact h.tightenings.le.trans zero_le_one
  | armed h => exact h.once

theorem Phase.step (h : s.Phase) {x : TrailingStopStep} (hopens : s.EntersFlat x)
    (hdust : s.EntersWithoutDust x) : (s.step x).Phase ∧ s.KeepsProtection (s.step x) := by
  cases x with
  | price ts price =>
    by_cases hq : s.queue = []
    · rw [TrailingStopSystem.step, if_pos hq]
      cases h with
      | flat h => exact ⟨.flat (h.price hq ts price), h.unprotected.keepsProtection⟩
      | entered h => exact absurd hq h.queue_ne_nil
      | armed h =>
        obtain harmed | hflat := h.price hq ts price
        · exact ⟨.armed harmed, h.keepsProtection harmed Follower.level_le_follow⟩
        · exact ⟨.flat hflat, fun _ _ => .inl hflat.volume⟩
    · rw [TrailingStopSystem.step, if_neg hq]
      exact ⟨h, keepsProtection_of_eq rfl⟩
  | enter price vol ts =>
    rw [TrailingStopSystem.step]
    cases h with
    | flat h =>
      refine ⟨?_, h.unprotected.keepsProtection⟩
      obtain hsame | ⟨t, hentered⟩ := h.enter fun t ht => ⟨hopens t ht, hdust t ht⟩
      · rw [hsame]
        exact .flat h
      · exact .entered hentered
    | entered h =>
      rw [enter_of_position h.unprotected.onlyTrails h.volume_ne_zero hopens]
      exact ⟨.entered h, keepsProtection_of_eq rfl⟩
    | armed h =>
      rw [enter_of_position h.onlyTrails h.volume hopens]
      exact ⟨.armed h, keepsProtection_of_eq rfl⟩
  | run =>
    cases hq : s.queue with
    | nil =>
      rw [TrailingStopSystem.step, hq]
      exact ⟨h, keepsProtection_of_eq rfl⟩
    | cons e q =>
      cases h with
      | flat h => exact ⟨.flat (h.run hq), h.unprotected.keepsProtection⟩
      | entered h =>
        refine ⟨?_, h.unprotected.keepsProtection⟩
        obtain hentered | ⟨f, harmed⟩ := h.run hq
        · exact .entered hentered
        · exact .armed harmed
      | armed h =>
        obtain ⟨g, hlevel, harmed⟩ := h.run hq
        exact ⟨.armed harmed, h.keepsProtection harmed hlevel⟩

theorem init_flat (symbol : Symbol) (risk noLossCoef : ℚ) (h₀ : 0 ≤ noLossCoef)
    (h₁ : noLossCoef ≤ 1) : (init symbol risk noLossCoef).Flat := by
  have hunprotected : (init symbol risk noLossCoef).Unprotected := by
    refine ⟨⟨rfl, rfl, rfl⟩, rfl, fun r hr => ?_⟩
    cases hr
  have hinputs : (init symbol risk noLossCoef).inputs = [] := inputs_of_queue_nil rfl
  refine ⟨hunprotected, rfl, rfl, ?_, ⟨h₀, h₁⟩, zero_le_one⟩
  rw [hinputs]
  exact .idle (by simp) rfl rfl rfl

/--
From the entry of each position to its close no step loosens its stop, and a closer stop is
asked for once at most, provided that each position is opened by one trade, at a distance from
its stop, and is larger than dust.
-/
theorem stop_never_loosened (symbol : Symbol) (risk noLossCoef : ℚ) (h₀ : 0 ≤ noLossCoef)
    (h₁ : noLossCoef ≤ 1) (xs : List TrailingStopStep)
    (hopens : Meets step EntersFlat (init symbol risk noLossCoef) xs)
    (hdust : Meets step EntersWithoutDust (init symbol risk noLossCoef) xs) :
    Meets step (fun s x => s.KeepsProtection (s.step x) ∧ (s.step x).tightenings ≤ 1)
      (init symbol risk noLossCoef) xs := by
  refine (hopens.and hdust).of_invariant (I := Phase) (fun s x h hx => ?_)
    (.flat (init_flat symbol risk noLossCoef h₀ h₁))
  obtain ⟨hphase, hkeeps⟩ := h.step hx.1 hx.2
  exact ⟨hphase, hkeeps, hphase.once⟩

/-- A bought unit, a closer stop at 106 and the close at 90. -/
theorem stop_never_loosened_long :
    let s := init ⟨"BTCUSDT", ⟨1, 10, 1⟩⟩ (1 / 10) (1 / 2)
    let runs : List TrailingStopStep := List.replicate 8 .run
    let xs := [.price 1 100] ++ runs ++ [.enter 100 ⟨1⟩ 1] ++ runs ++ [.price 2 104] ++ runs ++
      [.price 3 106] ++ runs ++ [.price 4 90] ++ runs
    Meets step (fun s x => s.KeepsProtection (s.step x) ∧ (s.step x).tightenings ≤ 1) s xs ∧
      (after step s xs).tightenings = 1 := by
  intro s runs xs
  have hopens : Meets step EntersFlat s xs := by decide +kernel
  have hdust : Meets step EntersWithoutDust s xs := by decide +kernel
  exact ⟨stop_never_loosened _ _ _ (by norm_num) (by norm_num) xs hopens hdust, by decide +kernel⟩

/-- The price levels of a short position of dust are infinite, and the next price asks for a
closer stop, which is not closer. -/
theorem stop_loosened_of_dust :
    let s := init ⟨"BTCUSDT", ⟨1 / 10 ^ 8, 10, 1 / 10 ^ 8⟩⟩ (1 / 10) 1
    let runs : List TrailingStopStep := List.replicate 8 .run
    let xs := [.price 1 100] ++ runs ++ [.enter 100 ⟨-(1 / 10 ^ 8)⟩ 1] ++ runs ++
      [.price 2 105] ++ runs
    Meets step EntersFlat s xs ∧
      ¬ Meets step (fun s x => s.KeepsProtection (s.step x) ∧ (s.step x).tightenings ≤ 1) s xs := by
  decide +kernel

end TrailingStopSystem

end CryptoTrading

import CryptoTrading.Instance.ExitInputs

/-! # A position with a trailing stop

The strategy knows its stop and asks for a closer one once, at the first price that is not
short of the trigger. All the prices before were short of it, so that this one is the best
so far.
-/

namespace CryptoTrading

namespace TrailingStopSystem

variable {s s' : TrailingStopSystem} {e : TrailingStopEvent} {q : List TrailingStopEvent}
  {side : Side} {f : Follower ℚ}

def Routine (lastPrice : ℚ) (posSide : Side) (distance : ℚ) : TrailingStopEvent → Prop
  | .priceChanged _ price => price = lastPrice
  | .gateway e => ∀ r, e = .trailingStopUpdated r → r.IsMove
  | .trailingStopUpdated tsl => ∃ a, tsl = some a ∧ a.activeStopLossPrice.isSome ∧
      a.priceDistance = distance ∧ a.side = posSide.opposite
  | _ => False

def IsUpdate : TrailingStopEvent → Prop
  | .gateway (.trailingStopUpdated _) => True
  | .trailingStopUpdated _ => True
  | _ => False

/-- The price, with the sign of the side, from which on the strategy asks for a closer stop. -/
def triggerLevel (s : TrailingStopSystem) (side : Side) (noLossPrice distance : ℚ) : ℚ :=
  noLossPrice * (side.sign : ℚ) + distance * s.strategy.noLossCoef

structure Untriggered (s : TrailingStopSystem) (posSide : Side) (f : Follower ℚ) : Prop where
  tightenings : s.tightenings = 0
  distance : 0 ≤ f.distance
  active : ∀ a ∈ s.strategy.activeStopLoss,
    a.priceDistance = f.distance ∧ a.side = posSide.opposite
  /-- All prices were short of the trigger, but for the one the strategy does not know yet. -/
  best : ∃ n, s.strategy.lastPosPriceLevels.noLossPrice = .number n ∧
    (f.best ≤ s.triggerLevel posSide n f.distance ∨
      (∃ ts, .priceChanged ts s.gateway.lastPrice ∈ s.queue) ∧
        f.best ≤ max (s.triggerLevel posSide n f.distance)
          (s.gateway.lastPrice * (posSide.sign : ℚ)))

structure ValidCoef (st : DynamicTrailingStopLossStrategy) : Prop where
  nonneg : 0 ≤ st.noLossCoef
  le_one : st.noLossCoef ≤ 1

structure Armed (s : TrailingStopSystem) (posSide : Side) (f : Follower ℚ) : Prop where
  onlyTrails : s.gateway.OnlyTrails
  stop : ∃ b, s.gateway.trailingStop = some b ∧ b.Follows posSide f
  side : s.gateway.posVolume.side = posSide
  volume : s.gateway.posVolume.value ≠ 0
  manager : ∃ pos, s.positionManager.openedPosition = some pos ∧
    pos.absoluteVolume = s.gateway.posVolume
  known : ∃ tsl, s.om.trailingStop = some tsl ∧ tsl.priceDistance = f.distance ∧
    tsl.side = posSide.opposite
  sub : s.strategy.tslSub
  queue : ∀ e ∈ s.queue, Routine s.gateway.lastPrice posSide f.distance e
  told : s.strategy.activeStopLoss = none →
    (∃ e ∈ s.queue, IsUpdate e) ∧ ∀ ts price, .priceChanged ts price ∉ s.queue
  coef : ValidCoef s.strategy
  once : s.tightenings ≤ 1
  untriggered : s.strategy.triggeredOnce = false → s.Untriggered posSide f

structure Sends (s s' : TrailingStopSystem) (tsl : TrailingStopLoss) (posSide : Side) : Prop where
  stop : ∃ b r, s'.gateway = s.gateway.withTrailingStop b ∧
    b.Follows posSide ⟨s.gateway.lastPrice * posSide.sign, tsl.priceDistance⟩ ∧ r.IsMove ∧
    s'.queue = s.queue.filter (! ·.isTrailingStopUpdated) ++ [.gateway (.trailingStopUpdated r)]
  known : s'.om.trailingStop = some tsl
  manager : s'.positionManager = s.positionManager
  strategy : s'.strategy = { s.strategy with tslSub := true }

theorem sends_sendTrailingStop {tsl : TrailingStopLoss} (hside : tsl.side = side.opposite) :
    s.Sends (s.sendTrailingStop tsl) tsl side := by
  obtain ⟨b, hb, hf⟩ := BacktestTrailingStopLoss.follows_new hside s.gateway.lastPrice
  refine ⟨⟨b, ⟨s.gateway.symbol, some b.currentStopLoss, s.gateway.lastTs, none⟩, ?_, hf,
    ⟨rfl, rfl⟩, ?_⟩, rfl, rfl, rfl⟩
  · have hgateway : (s.sendTrailingStop tsl).gateway =
        (s.gateway.pushTrailingStopRequest ⟨s.om.symbol, tsl⟩).1 := rfl
    rw [hgateway, BacktestTradingGateway.pushTrailingStopRequest, hb]
    rfl
  · have hqueue : (s.sendTrailingStop tsl).queue = (s.queue ++
        (s.gateway.pushTrailingStopRequest ⟨s.om.symbol, tsl⟩).2.flatMap
          TrailingStopEvent.ofGateway).filter (! ·.isTrailingStopUpdated) := rfl
    rw [hqueue, BacktestTradingGateway.pushTrailingStopRequest, hb]
    simp [TrailingStopEvent.ofGateway, TrailingStopEvent.isTrailingStopUpdated]

theorem ValidCoef.of_same {st st' : DynamicTrailingStopLossStrategy} (h : ValidCoef st)
    (hst : SameParameters st st') : ValidCoef st' :=
  ⟨hst.noLossCoef ▸ h.nonneg, hst.noLossCoef ▸ h.le_one⟩

theorem Sends.armed {tsl : TrailingStopLoss} (h : s.Sends s' tsl side)
    (htsl : tsl.side = side.opposite) (honly : s.gateway.OnlyTrails)
    (hside : s.gateway.posVolume.side = side) (hvolume : s.gateway.posVolume.value ≠ 0)
    (hmanager : ∃ pos, s.positionManager.openedPosition = some pos ∧
      pos.absoluteVolume = s.gateway.posVolume)
    (hqueue : ∀ e ∈ s.queue, e.isTrailingStopUpdated = false →
      Routine s.gateway.lastPrice side tsl.priceDistance e)
    (htold : s.strategy.activeStopLoss = none → ∀ ts price, .priceChanged ts price ∉ s.queue)
    (hcoef : ValidCoef s.strategy) (honce : s'.tightenings ≤ 1)
    (huntriggered : s'.strategy.triggeredOnce = false →
      s'.Untriggered side ⟨s.gateway.lastPrice * side.sign, tsl.priceDistance⟩) :
    s'.Armed side ⟨s.gateway.lastPrice * side.sign, tsl.priceDistance⟩ := by
  obtain ⟨b, r, hgateway, hf, hr, hq⟩ := h.stop
  constructor
  · rw [hgateway]
    exact ⟨honly.1, honly.2, honly.3⟩
  · rw [hgateway]
    exact ⟨b, rfl, hf⟩
  · rw [hgateway]
    exact hside
  · rw [hgateway]
    exact hvolume
  · rw [hgateway, h.manager]
    exact hmanager
  · exact ⟨tsl, h.known, rfl, htsl⟩
  · rw [h.strategy]
  · intro e he
    rw [hgateway]
    rw [hq] at he
    rcases List.mem_append.mp he with he | he
    · obtain ⟨he, hnot⟩ := List.mem_filter.mp he
      exact hqueue e he (by simpa using hnot)
    · rw [List.mem_singleton.mp he]
      rintro _ ⟨rfl⟩
      exact hr
  · intro hactive
    rw [h.strategy] at hactive
    rw [hq]
    constructor
    · exact ⟨_, List.mem_append_right _ (List.mem_singleton_self _), trivial⟩
    · intro ts price hprice
      rcases List.mem_append.mp hprice with hprice | hprice
      · exact htold hactive ts price (List.mem_filter.mp hprice).1
      · cases List.mem_singleton.mp hprice
  · rw [h.strategy]
    exact hcoef.of_same ⟨rfl, rfl⟩
  · exact honce
  · exact huntriggered

theorem isShortOf_iff {a : TrailingStopLoss} {n price : ℚ}
    (hn : s.strategy.lastPosPriceLevels.noLossPrice = .number n)
    (hside : a.side = side.opposite) :
    (s.strategy.noRiskTriggerPrice a).IsShortOf price a.side.opposite ↔
      price * side.sign < s.triggerLevel side n a.priceDistance := by
  rw [DynamicTrailingStopLossStrategy.noRiskTriggerPrice, hn, hside, Side.opposite_opposite,
    triggerLevel, PriceLevel.add, PriceLevel.IsShortOf, sub_mul, add_mul,
    mul_assoc _ (side.sign : ℚ), side.sign_mul_self_rat, mul_one, sub_neg]

theorem Untriggered.best_le (h : s.Untriggered side f) {n : ℚ}
    (hn : s.strategy.lastPosPriceLevels.noLossPrice = .number n)
    (hq : ∀ ts price, .priceChanged ts price ∉ s.queue) :
    f.best ≤ s.triggerLevel side n f.distance := by
  obtain ⟨n', hn', hle | ⟨⟨ts, hprice⟩, _⟩⟩ := h.best
  · cases hn.symm.trans hn'
    exact hle
  · exact absurd hprice (hq _ _)

/-- A price that crosses the stop is not one that asks for a closer stop. -/
theorem Armed.quiet (h : s.Armed side f) (hq : s.queue = []) {price : ℚ}
    (hcross : price * side.sign < f.level) (guid : Guid) :
    s.strategy.onPriceChanged guid price = (s.strategy, none) := by
  cases hactive : s.strategy.activeStopLoss with
  | none =>
    obtain ⟨⟨e, he, _⟩, _⟩ := h.told hactive
    rw [hq] at he
    cases he
  | some a =>
    rw [DynamicTrailingStopLossStrategy.onPriceChanged_of_active h.sub hactive]
    cases htriggered : s.strategy.triggeredOnce with
    | true => rfl
    | false =>
      have hun := h.untriggered htriggered
      obtain ⟨n, hn, _⟩ := hun.best
      obtain ⟨hdistance, hside⟩ := hun.active a hactive
      have hbest := hun.best_le hn (by simp [hq])
      have hshort := Follower.lt_best_of_lt_level hun.distance hcross
      rw [← hdistance] at hbest
      rw [if_neg Bool.false_ne_true, if_pos ((isShortOf_iff hn hside).mpr (hshort.trans_le hbest))]

theorem Routine.of_distance {lastPrice distance distance' : ℚ}
    (h : Routine lastPrice side distance e) (he : e.isTrailingStopUpdated = false) :
    Routine lastPrice side distance' e := by
  cases e with
  | trailingStopUpdated tsl => cases he
  | _ => exact h

theorem Armed.tighten {a : TrailingStopLoss} {ts : Milliseconds} {n : ℚ} (h : s.Armed side f)
    (hq : s.queue = .priceChanged ts s.gateway.lastPrice :: q)
    (hactive : s.strategy.activeStopLoss = some a) (hun : s.Untriggered side f)
    (hn : s.strategy.lastPosPriceLevels.noLossPrice = .number n)
    (hlong : s.triggerLevel side n a.priceDistance ≤ s.gateway.lastPrice * side.sign)
    (guid : Guid) :
    ∃ g, f.level ≤ g.level ∧
      Armed { sendTrailingStop { s with queue := q, strategy.triggeredOnce := true }
          (s.strategy.closerStop guid a) with
        tightenings := s.tightenings + 1 } side g := by
  obtain ⟨hdistance, hside⟩ := hun.active a hactive
  rw [hdistance] at hlong
  have hcloser : (s.strategy.closerStop guid a).side = side.opposite := hside
  have hsends := sends_sendTrailingStop (s := { s with queue := q, strategy.triggeredOnce := true })
    hcloser
  have hbest : f.best ≤ s.gateway.lastPrice * side.sign := by
    obtain ⟨n', hn', hle | ⟨_, hle⟩⟩ := hun.best
    · cases hn.symm.trans hn'
      exact hle.trans hlong
    · cases hn.symm.trans hn'
      exact hle.trans (max_le hlong le_rfl)
  refine ⟨_, ?_, Sends.armed (s := { s with queue := q, strategy.triggeredOnce := true })
    ⟨hsends.stop, hsends.known, hsends.manager, hsends.strategy⟩ hcloser h.onlyTrails h.side
    h.volume h.manager (fun e he hnot => ?_) ?_ (h.coef.of_same ⟨rfl, rfl⟩) ?_ ?_⟩
  · apply Follower.level_mono hbest
    rw [← hdistance]
    exact mul_le_of_le_one_right (hdistance ▸ hun.distance) h.coef.le_one
  · exact (h.queue e (hq ▸ List.mem_cons_of_mem _ he)).of_distance hnot
  · intro hnone
    cases hactive.symm.trans hnone
  · rw [hun.tightenings]
  · intro htriggered
    rw [hsends.strategy] at htriggered
    cases htriggered

theorem Untriggered.consume (h : s.Untriggered side f) (hq : s.queue = e :: q)
    {s' : TrailingStopSystem} (hgateway : s'.gateway = s.gateway)
    (hstrategy : s'.strategy = s.strategy) (htightenings : s'.tightenings = s.tightenings)
    (hqueue : ∀ e ∈ q, e ∈ s'.queue) (he : ∀ ts price, e ≠ .priceChanged ts price) :
    s'.Untriggered side f := by
  obtain ⟨n, hn, hbest⟩ := h.best
  refine ⟨htightenings ▸ h.tightenings, h.distance, hstrategy ▸ h.active, n, hstrategy ▸ hn, ?_⟩
  rw [hgateway, triggerLevel, hstrategy]
  refine hbest.imp_right (And.imp_left ?_)
  rintro ⟨ts, hprice⟩
  rw [hq] at hprice
  exact ⟨ts, hqueue _ ((List.mem_cons.mp hprice).resolve_left (he ts _).symm)⟩

theorem Armed.routine (h : s.Armed side f) (hq : s.queue = e :: q) :
    ∀ e ∈ q, Routine s.gateway.lastPrice side f.distance e :=
  fun e he => h.queue e (hq ▸ List.mem_cons_of_mem _ he)

theorem Armed.skip {a : TrailingStopLoss} (h : s.Armed side f) (hq : s.queue = e :: q)
    (hactive : s.strategy.activeStopLoss = some a)
    (hun : s.strategy.triggeredOnce = false → Untriggered { s with queue := q } side f) :
    Armed { s with queue := q } side f :=
  ⟨h.onlyTrails, h.stop, h.side, h.volume, h.manager, h.known, h.sub, h.routine hq,
    fun hnone => absurd (hactive.symm.trans hnone) (Option.some_ne_none a), h.coef, h.once, hun⟩

theorem Armed.run_priceChanged {ts : Milliseconds} {price : ℚ} (h : s.Armed side f)
    (hq : s.queue = .priceChanged ts price :: q) :
    ∃ g, f.level ≤ g.level ∧ (s.step .run).Armed side g := by
  have hprice : Routine s.gateway.lastPrice side f.distance (.priceChanged ts price) :=
    h.queue _ (hq ▸ List.mem_cons_self ..)
  obtain rfl : price = s.gateway.lastPrice := hprice
  obtain ⟨a, hactive⟩ : ∃ a, s.strategy.activeStopLoss = some a := by
    refine Option.ne_none_iff_exists'.mp fun hnone => ?_
    exact (h.told hnone).2 ts s.gateway.lastPrice (hq ▸ List.mem_cons_self ..)
  rw [step_run hq, handle, handlePriceChanged,
    DynamicTrailingStopLossStrategy.onPriceChanged_of_active h.sub hactive]
  cases htriggered : s.strategy.triggeredOnce with
  | true =>
    refine ⟨f, le_rfl, h.skip hq hactive fun hfalse => ?_⟩
    cases htriggered.symm.trans hfalse
  | false =>
    have hun := h.untriggered htriggered
    obtain ⟨n, hn, hbest⟩ := hun.best
    obtain ⟨hdistance, hside⟩ := hun.active a hactive
    by_cases hshort : s.gateway.lastPrice * side.sign < s.triggerLevel side n a.priceDistance
    · rw [if_neg Bool.false_ne_true, if_pos ((isShortOf_iff hn hside).mpr hshort)]
      rw [hdistance] at hshort
      refine ⟨f, le_rfl, h.skip hq hactive fun _ =>
        ⟨hun.tightenings, hun.distance, hun.active, n, hn, .inl ?_⟩⟩
      exact hbest.elim id fun hbest => hbest.2.trans (max_le le_rfl hshort.le)
    · rw [if_neg Bool.false_ne_true, if_neg ((isShortOf_iff hn hside).not.mpr hshort)]
      exact h.tighten hq hactive hun hn (not_lt.mp hshort) _

theorem Armed.run_gateway {e : GatewayEvent} (h : s.Armed side f)
    (hq : s.queue = .gateway e :: q) : (s.step .run).Armed side f := by
  have he := h.queue _ (hq ▸ List.mem_cons_self ..)
  obtain ⟨tsl, htsl, hdistance, hside⟩ := h.known
  rw [step_run hq]
  by_cases hr : ∃ r, e = .trailingStopUpdated r
  · obtain ⟨r, rfl⟩ := hr
    obtain ⟨tsl', htsl', hsome, hdistance', hside'⟩ := trailingStop_step_move (he r rfl) htsl
    have hhandle : { s with queue := q }.handle (.gateway (.trailingStopUpdated r)) =
        { s with
          om := s.om.step (.trailingStopUpdated r)
          queue := q ++ [.trailingStopUpdated (some tsl')] } := by
      simp [handle, handleGateway, (he r rfl).1, htsl, h.sub, htsl']
    rw [hhandle]
    refine ⟨h.onlyTrails, h.stop, h.side, h.volume, h.manager,
      ⟨tsl', htsl', hdistance'.trans hdistance, hside'.trans hside⟩, h.sub, fun e he => ?_,
      fun hactive => ?_, h.coef, h.once, fun htriggered => ?_⟩
    · rcases List.mem_append.mp he with he | he
      · exact h.routine hq e he
      · rw [List.mem_singleton.mp he]
        exact ⟨tsl', rfl, hsome, hdistance'.trans hdistance, hside'.trans hside⟩
    · constructor
      · exact ⟨_, List.mem_append_right _ (List.mem_singleton_self _), trivial⟩
      · intro ts price hprice
        rcases List.mem_append.mp hprice with hprice | hprice
        · exact (h.told hactive).2 ts price (hq ▸ List.mem_cons_of_mem _ hprice)
        · cases List.mem_singleton.mp hprice
    · exact (h.untriggered htriggered).consume hq rfl rfl rfl
        (fun e he => List.mem_append_left _ he) (by rintro _ _ ⟨⟩)
  · rw [not_exists] at hr
    have hhandle : { s with queue := q }.handle (.gateway e) =
        { s with om := s.om.step e, queue := q } := by
      cases e with
      | trailingStopUpdated r => exact absurd rfl (hr r)
      | _ => simp [handle, handleGateway]
    rw [hhandle]
    refine ⟨h.onlyTrails, h.stop, h.side, h.volume, h.manager,
      ⟨tsl, (trailingStop_step hr).trans htsl, hdistance, hside⟩, h.sub, h.routine hq,
      fun hactive => ?_, h.coef, h.once, fun htriggered => ?_⟩
    · obtain ⟨⟨e', he', hupdate⟩, hprice⟩ := h.told hactive
      rw [hq] at he' hprice
      refine ⟨⟨e', ?_, hupdate⟩, fun ts price hp => hprice ts price (List.mem_cons_of_mem _ hp)⟩
      refine (List.mem_cons.mp he').resolve_left ?_
      rintro rfl
      cases e with
      | trailingStopUpdated r => exact hr r rfl
      | _ => exact hupdate
    · exact (h.untriggered htriggered).consume hq rfl rfl rfl (fun _ => id) (by rintro _ _ ⟨⟩)

theorem Armed.run_trailingStopUpdated {tsl : Option TrailingStopLoss} (h : s.Armed side f)
    (hq : s.queue = .trailingStopUpdated tsl :: q) : (s.step .run).Armed side f := by
  obtain ⟨a, rfl, hsome, hdistance, hside⟩ := h.queue _ (hq ▸ List.mem_cons_self ..)
  have hhandle : { s with queue := q }.handle (.trailingStopUpdated (some a)) =
      { s with queue := q, strategy := { s.strategy with activeStopLoss := some a } } := by
    simp [handle, handleTrailingStopUpdated,
      DynamicTrailingStopLossStrategy.onTrailingStopUpdated, hsome, h.sub]
  rw [step_run hq, hhandle]
  refine ⟨h.onlyTrails, h.stop, h.side, h.volume, h.manager, h.known, h.sub, h.routine hq, ?_,
    h.coef.of_same ⟨rfl, rfl⟩, h.once, fun htriggered => ?_⟩
  · rintro ⟨⟩
  · have hun : Untriggered { s with queue := q } side f :=
      (h.untriggered htriggered).consume hq rfl rfl rfl (fun _ => id) (by rintro _ _ ⟨⟩)
    refine ⟨hun.tightenings, hun.distance, ?_, hun.best⟩
    rintro _ ⟨rfl⟩
    exact ⟨hdistance, hside⟩

theorem Armed.run (h : s.Armed side f) (hq : s.queue = e :: q) :
    ∃ g, f.level ≤ g.level ∧ (s.step .run).Armed side g := by
  have he := h.queue e (hq ▸ List.mem_cons_self ..)
  cases e with
  | priceChanged ts price => exact h.run_priceChanged hq
  | gateway e => exact ⟨f, le_rfl, h.run_gateway hq⟩
  | trailingStopUpdated tsl => exact ⟨f, le_rfl, h.run_trailingStopUpdated hq⟩
  | _ => exact he.elim

end TrailingStopSystem

end CryptoTrading

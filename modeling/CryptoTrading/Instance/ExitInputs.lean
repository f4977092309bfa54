import CryptoTrading.Gateway.TrailingStop
import CryptoTrading.Instance.TrailingStop

/-! # What the exit strategy will be told

Without a trailing stop, the queued events tell the exit strategy about an entry and the
removal of the last stop. Those that are not for the strategy itself will be followed by
some that are, which are taken into account here before they are pushed.
-/

namespace CryptoTrading

open Runs

namespace TrailingStopEvent

def isForStrategy : TrailingStopEvent → Bool
  | gateway _ => false
  | trade _ => false
  | _ => true

def settle (m : PositionManager) : TrailingStopEvent → PositionManager
  | trade t => m.step t
  | _ => m

def follow (m : PositionManager) : TrailingStopEvent → List TrailingStopEvent
  | trade t => ofPosition (m.step t) t
  | gateway (.trailingStopUpdated _) => [trailingStopUpdated none]
  | _ => []

variable {m : PositionManager} {e : TrailingStopEvent} {es : List TrailingStopEvent}

theorem settle_of_isForStrategy (h : e.isForStrategy) : settle m e = m := by
  cases e with
  | trade t => cases h
  | _ => rfl

theorem follow_of_isForStrategy (h : e.isForStrategy) : follow m e = [] := by
  cases e with
  | trade t => cases h
  | gateway e => cases h
  | _ => rfl

theorem isForStrategy_of_mem_follow {e' : TrailingStopEvent} (h : e' ∈ follow m e) :
    e'.isForStrategy := by
  unfold follow at h
  split at h
  · rcases List.mem_append.mp h with h | h
    · obtain ⟨pos, _, rfl⟩ := List.mem_map.mp h
      rfl
    · rcases List.mem_pair.mp h with rfl | rfl <;> rfl
  · rw [List.mem_singleton.mp h]
    rfl
  · cases h

theorem outputs_of_isForStrategy (h : ∀ e ∈ es, e.isForStrategy) :
    outputs settle follow m es = [] ∧ after settle m es = m := by
  induction es with
  | nil => exact ⟨rfl, rfl⟩
  | cons e es ih =>
    have he := h e (List.mem_cons_self ..)
    rw [outputs, after_cons, settle_of_isForStrategy he, follow_of_isForStrategy he]
    exact ih fun e' he' => h e' (List.mem_cons_of_mem _ he')

theorem of_outputs_nil (hes : ∀ e ∈ es, e.isForStrategy = false)
    (h : outputs settle follow m es = []) :
    after settle m es = m ∧
      ∀ e ∈ es, ∃ g, e = gateway g ∧ ∀ r, g ≠ .trailingStopUpdated r := by
  induction es with
  | nil => exact ⟨rfl, by simp⟩
  | cons e es ih =>
    obtain ⟨hfollow, houtputs⟩ := List.append_eq_nil_iff.mp h
    have he := hes e (List.mem_cons_self ..)
    cases e with
    | trade t => simp [follow, ofPosition] at hfollow
    | gateway g =>
      obtain ⟨hmanager, hq⟩ := ih (fun e he => hes e (List.mem_cons_of_mem _ he)) houtputs
      refine ⟨hmanager, fun e he => ?_⟩
      rcases List.mem_cons.mp he with rfl | he
      · refine ⟨g, rfl, ?_⟩
        rintro r rfl
        cases hfollow
      · exact hq e he
    | _ => cases he

theorem mem_outputs_of_removal {r : TrailingStopLossUpdatedEvent}
    (h : gateway (.trailingStopUpdated r) ∈ es) :
    trailingStopUpdated none ∈ outputs settle follow m es := by
  obtain ⟨pre, post, rfl⟩ := List.append_of_mem h
  rw [outputs_append]
  exact List.mem_append_right _ (List.mem_cons_self ..)

end TrailingStopEvent

namespace TrailingStopSystem

open TrailingStopEvent (settle follow)

def inputs (s : TrailingStopSystem) : List TrailingStopEvent :=
  s.queue.filter (·.isForStrategy) ++ outputs settle follow s.positionManager s.queue

def managerAhead (s : TrailingStopSystem) : PositionManager :=
  after settle s.positionManager s.queue

/-- There is no trailing stop, and the queue may hold the removal of the last one. -/
structure Unprotected (s : TrailingStopSystem) : Prop where
  onlyTrails : s.gateway.OnlyTrails
  trailingStop : s.gateway.trailingStop = none
  removal : ∀ r, .gateway (.trailingStopUpdated r) ∈ s.queue →
    r.IsRemoval ∧ s.om.trailingStop.isSome

/-- The states differ in what only the events say that are not for the strategy. -/
structure SameOutlook (s s' : TrailingStopSystem) : Prop where
  gateway : s'.gateway = s.gateway
  strategy : s'.strategy = s.strategy
  tightenings : s'.tightenings = s.tightenings
  inputs : s'.inputs = s.inputs
  managerAhead : s'.managerAhead = s.managerAhead

variable {s s' : TrailingStopSystem} {e : TrailingStopEvent} {q : List TrailingStopEvent}

theorem inputs_of_queue_nil (h : s.queue = []) : s.inputs = [] := by simp [inputs, h]

theorem step_run (h : s.queue = e :: q) : s.step .run = { s with queue := q }.handle e := by
  simp only [step, h]

theorem inputs_of_isForStrategy (h : s.queue = e :: q) (he : e.isForStrategy) :
    s.inputs = e :: { s with queue := q }.inputs ∧
      s.managerAhead = { s with queue := q }.managerAhead := by
  have hsettle := TrailingStopEvent.settle_of_isForStrategy (m := s.positionManager) he
  have hfollow := TrailingStopEvent.follow_of_isForStrategy (m := s.positionManager) he
  constructor
  · rw [inputs, h, List.filter_cons_of_pos he, outputs, hsettle, hfollow]
    rfl
  · rw [managerAhead, h, after_cons, hsettle]
    rfl

theorem of_inputs_nil (h : s.inputs = []) :
    s.managerAhead = s.positionManager ∧
      ∀ e ∈ s.queue, ∃ g, e = .gateway g ∧ ∀ r, g ≠ .trailingStopUpdated r := by
  obtain ⟨hfilter, houtputs⟩ := List.append_eq_nil_iff.mp h
  apply TrailingStopEvent.of_outputs_nil _ houtputs
  simpa [List.filter_eq_nil_iff] using hfilter

theorem inputs_of_follow (h : s.queue = e :: q) (he : e.isForStrategy = false)
    (hqueue : s'.queue = q ++ follow s.positionManager e)
    (hmanager : s'.positionManager = settle s.positionManager e) :
    s'.inputs = s.inputs ∧ s'.managerAhead = s.managerAhead := by
  have hfollow : ∀ e' ∈ follow s.positionManager e, e'.isForStrategy :=
    fun _ => TrailingStopEvent.isForStrategy_of_mem_follow
  obtain ⟨houtputs, hafter⟩ := TrailingStopEvent.outputs_of_isForStrategy
    (m := after settle (settle s.positionManager e) q) hfollow
  constructor
  · simp only [inputs, h, hqueue, hmanager, outputs, outputs_append, houtputs, List.filter_append,
      List.filter_eq_self.mpr hfollow, List.append_nil, List.append_assoc]
    rw [List.filter_cons_of_neg (by simp [he])]
  · simp only [managerAhead, h, hqueue, hmanager, after_cons, after_append, hafter]

theorem inputs_append {es : List TrailingStopEvent} (hes : ∀ e ∈ es, e.isForStrategy = false)
    (hqueue : s'.queue = s.queue ++ es) (hmanager : s'.positionManager = s.positionManager) :
    s'.inputs = s.inputs ++ outputs settle follow s.managerAhead es ∧
      s'.managerAhead = after settle s.managerAhead es := by
  have hfilter : es.filter (·.isForStrategy) = [] := by simpa [List.filter_eq_nil_iff] using hes
  constructor
  · rw [inputs, hqueue, hmanager, List.filter_append, hfilter, List.append_nil, outputs_append,
      ← List.append_assoc]
    rfl
  · rw [managerAhead, hqueue, hmanager, after_append]
    rfl

theorem trailingStop_step {om : OrderManager} {e : GatewayEvent}
    (h : ∀ r, e ≠ .trailingStopUpdated r) : (om.step e).trailingStop = om.trailingStop :=
  (om.step_rest e).2 h

theorem trailingStop_step_removal {om : OrderManager} {r : TrailingStopLossUpdatedEvent}
    (hr : r.IsRemoval) (h : om.trailingStop.isSome) :
    (om.step (.trailingStopUpdated r)).trailingStop = none := by
  obtain ⟨tsl, htsl⟩ := Option.isSome_iff_exists.mp h
  simp only [OrderManager.step, OrderManager.onEvent, OrderManager.onTrailingStopResponse, hr.1,
    hr.2, htsl]

theorem trailingStop_step_move {om : OrderManager} {r : TrailingStopLossUpdatedEvent}
    {tsl : TrailingStopLoss} (hr : r.IsMove) (h : om.trailingStop = some tsl) :
    ∃ tsl', (om.step (.trailingStopUpdated r)).trailingStop = some tsl' ∧
      tsl'.activeStopLossPrice.isSome ∧ tsl'.priceDistance = tsl.priceDistance ∧
      tsl'.side = tsl.side := by
  obtain ⟨sl, hsl⟩ := Option.isSome_iff_exists.mp hr.2
  simp only [OrderManager.step, OrderManager.onEvent, OrderManager.onTrailingStopResponse, hr.1,
    hsl, h]
  exact ⟨_, rfl, rfl, rfl, rfl⟩

/-- The removal of the stop is queued once. -/
theorem not_mem_of_removal {r : TrailingStopLossUpdatedEvent}
    (hq : s.queue = .gateway (.trailingStopUpdated r) :: q)
    (hcount : s.inputs.count (.trailingStopUpdated none) ≤ 1)
    (r' : TrailingStopLossUpdatedEvent) : .gateway (.trailingStopUpdated r') ∉ q := by
  intro hr'
  have hpos := List.count_pos_iff.mpr
    (TrailingStopEvent.mem_outputs_of_removal (m := s.positionManager) hr')
  have hinputs : s.inputs = q.filter (·.isForStrategy) ++
      .trailingStopUpdated none :: outputs settle follow s.positionManager q := by
    rw [inputs, hq]
    rfl
  rw [hinputs, List.count_append, List.count_cons_self] at hcount
  omega

theorem Unprotected.run_pending (h : s.Unprotected) (hq : s.queue = e :: q)
    (he : e.isForStrategy = false)
    (hsub : .trailingStopUpdated none ∈ s.inputs → s.strategy.tslSub)
    (hcount : s.inputs.count (.trailingStopUpdated none) ≤ 1) :
    (s.step .run).Unprotected ∧ s.SameOutlook (s.step .run) := by
  rw [step_run hq]
  have hmem {e'} (he' : e' ∈ q) : e' ∈ s.queue := hq ▸ List.mem_cons_of_mem _ he'
  cases e with
  | trade t =>
    have hqueue : ({ s with queue := q }.handle (.trade t)).queue =
        q ++ follow s.positionManager (.trade t) := rfl
    obtain ⟨hinputs, hmanager⟩ := inputs_of_follow hq he hqueue rfl
    refine ⟨⟨h.onlyTrails, h.trailingStop, fun r hr => ?_⟩, rfl, rfl, rfl, hinputs, hmanager⟩
    rcases List.mem_append.mp hr with hr | hr
    · exact h.removal r (hmem hr)
    · cases TrailingStopEvent.isForStrategy_of_mem_follow (e := .trade t) hr
  | gateway e =>
    by_cases hr : ∃ r, e = .trailingStopUpdated r
    · obtain ⟨r, rfl⟩ := hr
      obtain ⟨hremoval, htsl⟩ := h.removal r (hq ▸ List.mem_cons_self ..)
      have htsl' := trailingStop_step_removal hremoval htsl
      have hnone := not_mem_of_removal hq hcount
      have hsub' : s.strategy.tslSub := by
        apply hsub
        rw [inputs, hq]
        exact List.mem_append_right _ (List.mem_cons_self ..)
      have hqueue : ({ s with queue := q }.handle (.gateway (.trailingStopUpdated r))).queue =
          q ++ [.trailingStopUpdated none] := by
        simp [handle, handleGateway, hremoval.1, htsl, hsub', htsl']
      obtain ⟨hinputs, hmanager⟩ := inputs_of_follow hq he hqueue rfl
      refine ⟨⟨h.onlyTrails, h.trailingStop, fun r' hr' => ?_⟩, rfl, rfl, rfl, hinputs, hmanager⟩
      rw [hqueue] at hr'
      exact absurd (by simpa using hr') (hnone r')
    · rw [not_exists] at hr
      have hqueue : ({ s with queue := q }.handle (.gateway e)).queue = q := by
        cases e with
        | trailingStopUpdated r => exact absurd rfl (hr r)
        | _ => simp [handle, handleGateway]
      have hfollow : follow s.positionManager (.gateway e) = [] := by
        cases e with
        | trailingStopUpdated r => exact absurd rfl (hr r)
        | _ => rfl
      have hqueue' : ({ s with queue := q }.handle (.gateway e)).queue =
          q ++ follow s.positionManager (.gateway e) := by rw [hqueue, hfollow, List.append_nil]
      obtain ⟨hinputs, hmanager⟩ := inputs_of_follow hq he hqueue' rfl
      refine ⟨⟨h.onlyTrails, h.trailingStop, fun r' hr' => ?_⟩, rfl, rfl, rfl, hinputs, hmanager⟩
      obtain ⟨hremoval, htsl⟩ := h.removal r' (hmem (hqueue ▸ hr'))
      have hom : ({ s with queue := q }.handle (.gateway e)).om = s.om.step e := rfl
      exact ⟨hremoval, by rwa [hom, trailingStop_step hr]⟩
  | _ => cases he

inductive FlatInputs (st : DynamicTrailingStopLossStrategy) : List TrailingStopEvent → Prop
  | idle {es : List TrailingStopEvent} (hes : ∀ e ∈ es, ∃ ts price, e = .priceChanged ts price)
      (hopened : st.isPosOpened = false) (hsub : st.tslSub = false)
      (hactive : st.activeStopLoss = none) : FlatInputs st es
  /-- The price that has closed the position is not one for a closer stop. -/
  | crossed {ts : Milliseconds} {price : ℚ} {t : Trade} (hsub : st.tslSub)
      (hquiet : ∀ guid, st.onPriceChanged guid price = (st, none)) :
      FlatInputs st
        [.priceChanged ts price, .openedPos false, .exitTrade t, .trailingStopUpdated none]
  | closed {t : Trade} (hsub : st.tslSub) :
      FlatInputs st [.openedPos false, .exitTrade t, .trailingStopUpdated none]
  | traded {t : Trade} (hsub : st.tslSub) (hopened : st.isPosOpened = false) :
      FlatInputs st [.exitTrade t, .trailingStopUpdated none]
  | removed (hsub : st.tslSub) (hopened : st.isPosOpened = false) :
      FlatInputs st [.trailingStopUpdated none]

variable {st : DynamicTrailingStopLossStrategy} {es : List TrailingStopEvent} {t : Trade}

theorem FlatInputs.removal (h : FlatInputs st es) :
    es.count (.trailingStopUpdated none) ≤ 1 ∧ (.trailingStopUpdated none ∈ es → st.tslSub) := by
  cases h with
  | idle hes =>
    have hnone : .trailingStopUpdated none ∉ es := by
      intro hmem
      obtain ⟨_, _, he⟩ := hes _ hmem
      cases he
    rw [List.count_eq_zero_of_not_mem hnone]
    exact ⟨zero_le_one, fun hmem => absurd hmem hnone⟩
  | crossed hsub => exact ⟨by simp, fun _ => hsub⟩
  | closed hsub => exact ⟨by simp, fun _ => hsub⟩
  | traded hsub => exact ⟨by simp, fun _ => hsub⟩
  | removed hsub => exact ⟨by simp, fun _ => hsub⟩

theorem FlatInputs.last (h : FlatInputs st (.trailingStopUpdated none :: es)) : es = [] := by
  cases h with
  | idle hes =>
    obtain ⟨_, _, h⟩ := hes _ (List.mem_cons_self ..)
    cases h
  | removed => rfl

theorem not_mem_queue (h : ∀ tsl, .trailingStopUpdated tsl ∉ { s with queue := q }.inputs)
    (tsl : Option TrailingStopLoss) : .trailingStopUpdated tsl ∉ q :=
  fun htsl => h tsl (List.mem_append_left _ (List.mem_filter.mpr ⟨htsl, rfl⟩))

structure SameParameters (st st' : DynamicTrailingStopLossStrategy) : Prop where
  risk : st'.risk = st.risk
  noLossCoef : st'.noLossCoef = st.noLossCoef

theorem FlatInputs.run (h : FlatInputs s.strategy (e :: es)) (hq : s.queue = e :: q)
    (hlast : e = .trailingStopUpdated none → ∀ tsl, .trailingStopUpdated tsl ∉ q) :
    ∃ st, s.step .run = { s with queue := q, strategy := st } ∧ FlatInputs st es ∧
      SameParameters s.strategy st := by
  rw [step_run hq]
  cases h with
  | idle hes hopened hsub hactive =>
    obtain ⟨ts, price, rfl⟩ := hes _ (List.mem_cons_self ..)
    refine ⟨{ s.strategy with triggeredOnce := false }, ?_, ?_, ⟨rfl, rfl⟩⟩
    · simp only [handle, handlePriceChanged, DynamicTrailingStopLossStrategy.onPriceChanged, hsub]
    · exact .idle (fun e he => hes e (List.mem_cons_of_mem _ he)) hopened hsub hactive
  | crossed hsub hquiet =>
    refine ⟨s.strategy, ?_, .closed hsub, ⟨rfl, rfl⟩⟩
    simp only [handle, handlePriceChanged, hquiet]
  | closed hsub => exact ⟨_, rfl, .traded hsub rfl, ⟨rfl, rfl⟩⟩
  | traded hsub hopened =>
    refine ⟨s.strategy, ?_, .removed hsub hopened, ⟨rfl, rfl⟩⟩
    simp [handle, handleExitTrade, DynamicTrailingStopLossStrategy.onTrade, hopened]
  | removed hsub hopened =>
    refine ⟨{ s.strategy with activeStopLoss := none, tslSub := false }, ?_,
      .idle (by simp) hopened rfl rfl, ⟨rfl, rfl⟩⟩
    have hfilter : q.filter (! ·.isTrailingStopUpdated) = q := by
      refine List.filter_eq_self.mpr fun e he => ?_
      cases e with
      | trailingStopUpdated tsl => exact absurd he (hlast rfl tsl)
      | _ => rfl
    simp [handle, handleTrailingStopUpdated,
      DynamicTrailingStopLossStrategy.onTrailingStopUpdated, hfilter]

inductive EntryInputs (st : DynamicTrailingStopLossStrategy) (levels : ProfitPriceLevels)
    (t : Trade) : List TrailingStopEvent → Prop
  | waiting {es : List TrailingStopEvent} (h : FlatInputs st es) :
      EntryInputs st levels t (es ++ [.priceLevels levels, .openedPos true, .exitTrade t])
  | told (hsub : st.tslSub = false) (hactive : st.activeStopLoss = none)
      (hlevels : st.lastPosPriceLevels = levels) :
      EntryInputs st levels t [.openedPos true, .exitTrade t]
  | opened (hsub : st.tslSub = false) (hactive : st.activeStopLoss = none)
      (hlevels : st.lastPosPriceLevels = levels) (hopened : st.isPosOpened) :
      EntryInputs st levels t [.exitTrade t]

variable {levels : ProfitPriceLevels}

theorem EntryInputs.removal (h : EntryInputs st levels t es) :
    es.count (.trailingStopUpdated none) ≤ 1 ∧ (.trailingStopUpdated none ∈ es → st.tslSub) := by
  cases h with
  | waiting h => simpa [List.count_append] using h.removal
  | told => simp
  | opened => simp

theorem EntryInputs.last (h : EntryInputs st levels t (.trailingStopUpdated none :: es))
    (tsl : Option TrailingStopLoss) : .trailingStopUpdated tsl ∉ es := by
  generalize hall : TrailingStopEvent.trailingStopUpdated none :: es = all at h
  cases h with
  | @waiting pre hflat =>
    cases pre with
    | nil => cases hall
    | cons e pre =>
      cases hall
      simp [hflat.last]
  | told => cases hall
  | opened => cases hall

theorem EntryInputs.run (h : EntryInputs s.strategy levels t (e :: es)) (hq : s.queue = e :: q)
    (hlast : e = .trailingStopUpdated none → ∀ tsl, .trailingStopUpdated tsl ∉ q) :
    (∃ st, s.step .run = { s with queue := q, strategy := st } ∧ EntryInputs st levels t es ∧
        SameParameters s.strategy st) ∨
      es = [] ∧ s.strategy.activeStopLoss = none ∧ s.strategy.lastPosPriceLevels = levels ∧
        s.step .run = { s with queue := q }.sendTrailingStop
          (s.strategy.calcTrailingStop s.om.nextGuid t) := by
  generalize hall : e :: es = all at h
  cases h with
  | @waiting pre hflat =>
    left
    cases pre with
    | nil =>
      cases hall
      cases hflat with
      | idle hes hopened hsub hactive => exact ⟨_, step_run hq, .told hsub hactive rfl, ⟨rfl, rfl⟩⟩
    | cons e' pre =>
      cases hall
      obtain ⟨st, hrun, hflat', hparams⟩ := hflat.run hq hlast
      exact ⟨st, hrun, .waiting hflat', hparams⟩
  | told hsub hactive hlevels =>
    cases hall
    exact .inl ⟨_, step_run hq, .opened hsub hactive hlevels rfl, ⟨rfl, rfl⟩⟩
  | opened hsub hactive hlevels hopened =>
    cases hall
    refine .inr ⟨rfl, hactive, hlevels, ?_⟩
    rw [step_run hq]
    simp [handle, handleExitTrade, DynamicTrailingStopLossStrategy.onTrade, hopened, hsub]

end TrailingStopSystem

end CryptoTrading

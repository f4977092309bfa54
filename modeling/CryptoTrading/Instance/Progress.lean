import CryptoTrading.Instance.Finish
import CryptoTrading.Instance.Closing

/-! # A backtest that finishes

A backtest goes through its start request, the answer to its request, the prices, the
stop request and the trade that closes the position. In every phase something is on its
way, so that the queue does not run dry before the finish promise is set. An answer
without a trade stops the chain, and so does a closing order that does not close the
position.
-/

namespace CryptoTrading

open Runs AddSubgroup

def BacktestEvent.isEmptyFeed (pendingRequests : List Guid) : BacktestEvent → Bool
  | feed guid reader => guid ∈ pendingRequests && reader.remaining = []
  | _ => false

namespace BacktestSystem

/-- The backtest is started once and answered with trades. A stop request with an open
position finds no trade on its way, and callbacks send no orders while only the position
keeps the instance from finishing. -/
def Completes (s : BacktestSystem) (x : BacktestStep) : Prop :=
  (x = .runAsync → s.started = false) ∧
    (∀ e ∈ s.handling? x, e.isEmptyFeed s.pendingRequests = false) ∧
    (s.handling? x = some .stop → s.opened.isSome → s.inTransit = []) ∧
    (s.handling? x = some .callback → s.AwaitsClose → x.sends = false)

instance (s : BacktestSystem) (x : BacktestStep) : Decidable (s.Completes x) :=
  inferInstanceAs (Decidable ((_ → _) ∧ (∀ e ∈ s.handling? x, _) ∧ (_ → _ → _) ∧ (_ → _ → _)))

structure Drained (s : BacktestSystem) : Prop where
  failure : s.failure = none
  queue : s.queue.toList = []
  outbox : s.outbox = []
  mdRequests : s.mdRequests = []

def control (s : BacktestSystem) : List BacktestEvent := s.inFlight.filter (! ·.isStrategic)

/-- The order that closes the position is traded, and nothing else is on its way. -/
def ClosingInTransit (s : BacktestSystem) : Prop :=
  ∃ pos t, s.opened = some pos ∧ s.inTransit = [t] ∧
    t.signedVolume.value = -pos.absoluteVolume.value ∧ ¬ t.signedVolume.IsZero

inductive Phase (s : BacktestSystem) : Prop
  | unstarted (started : s.started = false) (start : s.control.count .start = 0)
      (pending : s.pendingRequests = []) (generator : s.historicalMdGenerator = none)
      (progress : s.backtestInProgress = false)
  | starting (started : s.started = true) (start : s.control.count .start = 1)
      (pending : s.pendingRequests = []) (generator : s.historicalMdGenerator = none)
      (progress : s.backtestInProgress = false)
  | requested (guid : Guid) (started : s.started = true) (start : s.control.count .start = 0)
      (pending : s.pendingRequests = [guid]) (generator : s.historicalMdGenerator = none)
      (progress : s.backtestInProgress = false)
      (waiting : guid ∈ s.mdRequests ∨ ∃ reader, .feed guid reader ∈ s.control)
  | feeding (started : s.started = true) (start : s.control.count .start = 0)
      (pending : s.pendingRequests = []) (price : 0 < s.pricesInFlight)
      (progress : s.historicalMdGenerator.isSome → s.backtestInProgress = true)
  | ending (started : s.started = true) (start : s.control.count .start = 0)
      (pending : s.pendingRequests = []) (generator : s.historicalMdGenerator = none)
      (progress : s.backtestInProgress = true) (stop : .stop ∈ s.control)
  | closing (started : s.started = true) (start : s.control.count .start = 0)
      (pending : s.pendingRequests = []) (generator : s.historicalMdGenerator = none)
      (progress : s.backtestInProgress = false) (handled : s.stopRequestHandled = true)

/-- Whatever is traded or held is in whole steps. -/
structure Stepped (s : BacktestSystem) : Prop where
  gateway : s.gateway.InSteps s.om.qtyStep
  trades : ∀ t, .trade t ∈ s.inFlight → t.signedVolume.value ∈ zmultiples s.om.qtyStep
  volume : s.results.positionManager.volume ∈ zmultiples s.om.qtyStep

variable {s s' : BacktestSystem} {e : BacktestEvent} {es outbox : List BacktestEvent}
  {r : Reaction} {t : PublicTrade} {reader : SequentialMarketDataReader}

namespace Stepped

theorem init (symbol : Symbol) : (init symbol).Stepped where
  gateway := BacktestTradingGateway.init_inSteps
  trades := fun t h => by simp [inFlight, BacktestSystem.init] at h
  volume := zero_mem _

theorem congr (h : s.Stepped) (hgateway : s'.gateway = s.gateway)
    (hsymbol : s'.om.symbol = s.om.symbol)
    (htrades : ∀ t, .trade t ∈ s'.inFlight → .trade t ∈ s.inFlight)
    (hpm : s'.results.positionManager = s.results.positionManager) : s'.Stepped := by
  have hstep : s'.om.qtyStep = s.om.qtyStep := by simp only [OrderManager.qtyStep, hsymbol]
  constructor
  · rw [hgateway, hstep]
    exact h.gateway
  · rw [hstep]
    exact fun t ht => h.trades t (htrades t ht)
  · rw [hpm, hstep]
    exact h.volume

theorem emits (h : s.Stepped) (he : s.Emits s' es) : s'.Stepped := by
  have hstep : s'.om.qtyStep = s.om.qtyStep := by simp only [OrderManager.qtyStep, he.symbol]
  obtain ⟨hgateway, htrades⟩ := he.inSteps h.gateway
  constructor
  · rw [hstep]
    exact hgateway
  · intro t ht
    rw [hstep]
    rw [he.inFlight, List.mem_append] at ht
    rcases ht with ht | ht
    · exact h.trades t ht
    · exact htrades t (List.mem_filterMap.mpr ⟨_, ht, rfl⟩)
  · rw [he.positionManager, hstep]
    exact h.volume

theorem push (h : s.Stepped) (he : e.trade? = none) : (s.push e).Stepped := by
  have htrades : ∀ t, .trade t ∈ (s.push e).inFlight → .trade t ∈ s.inFlight := by
    intro t ht
    rcases List.mem_cons.mp (inFlight_push.subset ht) with rfl | ht
    · cases he
    · exact ht
  exact h.congr rfl rfl htrades rfl

theorem emit (h : s.Stepped) (he : e.trade? = none) : (s.emit [e]).Stepped := by
  have htrades : ∀ t, .trade t ∈ (s.emit [e]).inFlight → .trade t ∈ s.inFlight := by
    intro t ht
    rw [inFlight_emit, List.mem_append, List.mem_singleton] at ht
    rcases ht with ht | rfl
    · exact ht
    · cases he
  exact h.congr rfl rfl htrades rfl

theorem finishes (h : s.Stepped) (hf : s.Finishes s') : s'.Stepped := by
  apply h.congr
  · rw [hf.eq]
  · rw [hf.eq]
  · rw [hf.inFlight]
    exact fun _ => id
  · exact hf.positionManager

theorem setPanic (h : s.Stepped) (doPanic : Bool) : (s.setPanic doPanic).Stepped := by
  cases doPanic with
  | false => exact h
  | true => exact h.congr rfl rfl (fun _ => id) rfl

theorem handleFeed {guid : Guid} (h : s.Stepped) : (s.handleFeed guid reader).Stepped := by
  rcases s.handleFeed_cases guid reader with
    ⟨-, heq⟩ | ⟨-, -, ⟨reader', -, heq⟩ | ⟨t, reader', -, heq⟩⟩
  · rwa [heq]
  · rw [heq]
    exact h.congr rfl rfl (fun _ => id) rfl
  · rw [heq]
    exact emit (h.congr rfl rfl (fun _ => id) rfl) rfl

theorem handlePrice (h : s.Stepped) : (s.handlePrice r t).Stepped := by
  obtain ⟨es, hes⟩ := s.emits_handleMdPrice r t
  have hs := h.emits hes
  unfold BacktestSystem.handlePrice
  rcases (s.handleMdPrice r t).pushNextPrice_cases with
    ⟨-, heq⟩ | ⟨reader, -, -, heq⟩ | ⟨reader, t', reader', -, -, heq⟩
  · rw [heq]
    exact hs.congr rfl rfl (fun _ => id) rfl
  · rw [heq]
    exact emit (hs.congr rfl rfl (fun _ => id) rfl) rfl
  · rw [heq]
    exact emit (hs.congr rfl rfl (fun _ => id) rfl) rfl

theorem handleStop (h : s.Stepped) : s.handleStop.Stepped := by
  obtain ⟨es, hes⟩ := s.emits_closePosition s.lastTsAndPrice.2 s.lastTsAndPrice.1
  have hs := h.emits hes
  simp only [BacktestSystem.handleStop]
  split
  · exact hs.congr rfl rfl (fun _ => id) rfl
  · exact hs

theorem handleTrade {t : Trade} (h : s.Stepped)
    (ht : t.signedVolume.value ∈ zmultiples s.om.qtyStep) : (s.handleTrade r t).Stepped := by
  have hs : ({ s with
      results := s.results.handleTrade t
      handled := s.handled ++ [t] } : BacktestSystem).Stepped := by
    refine ⟨h.gateway, h.trades, ?_⟩
    simp only [InstanceResults.handleTrade_positionManager]
    exact PositionManager.step_mem h.volume ht
  exact hs.emits (emits_emitCallbacks _ r.first)

theorem next (h : s.Stepped) (hnext : s.next? = some (e, s')) : s'.Stepped := by
  obtain ⟨-, -, heq⟩ := next?_spec hnext
  apply h.congr
  · rw [heq]
  · rw [heq]
  · intro t ht
    rw [inFlight_next hnext]
    exact List.mem_cons_of_mem _ ht
  · rw [heq]

theorem run (h : s.Stepped) (hnext : s.next? = some (e, s')) : (s'.handleEvent r e).Stepped := by
  have hs := h.next hnext
  cases e with
  | start =>
    have hstart : s'.handleStart.Stepped := hs.congr rfl rfl (fun _ => id) rfl
    exact hstart.finishes (finishes_afterEveryEvent _)
  | stop => exact hs.handleStop.finishes (finishes_afterEveryEvent _)
  | feed guid reader => exact hs.handleFeed.finishes (finishes_afterEveryEvent _)
  | price t => exact hs.handlePrice.finishes (finishes_afterEveryEvent _)
  | error doPanic => exact (hs.setPanic doPanic).emit rfl
  | gateway x =>
    have hom : s'.Emits { s' with om := s'.om.step x } [] :=
      .of_eq rfl id rfl (OrderManager.symbol_step s'.om x)
    exact hs.emits (hom.trans (emits_emitCallbacks _ r.first))
  | trade t =>
    have ht := h.trades t (by simp [inFlight_next hnext])
    obtain ⟨-, -, heq⟩ := next?_spec hnext
    have hstep : s'.om.qtyStep = s.om.qtyStep := by rw [heq]
    exact (hs.handleTrade (hstep ▸ ht)).finishes (finishes_afterEveryEvent _)
  | callback =>
    obtain ⟨es, hes, -⟩ := s'.emits_actions r.actions
    exact hs.emits hes

/-- In every run all trades and positions are in whole steps. -/
theorem step (h : s.Stepped) (x : BacktestStep) : (s.step x).Stepped := by
  unfold BacktestSystem.step
  split
  case isFalse => exact h
  case isTrue =>
    cases x with
    | runAsync => exact push (h.congr rfl rfl (fun _ => id) rfl) rfl
    | stopAsync doPanic => exact (h.setPanic doPanic).push rfl
    | answer guid reader => exact push (h.congr rfl rfl (fun _ => id) rfl) rfl
    | delayed => exact h.push rfl
    | flush =>
      simp only [advance]
      split
      case h_1 e outbox hout =>
        exact h.congr rfl rfl (fun t ht => (inFlight_flush hout).subset ht) rfl
      case h_2 => exact h
    | run r =>
      simp only [advance]
      cases hnext : s.next? with
      | none => exact h
      | some p => exact h.run hnext

end Stepped

theorem control_push : (s.push e).control.Perm ((e :: s.inFlight).filter (! ·.isStrategic)) :=
  inFlight_push.filter _

theorem mem_control_push {x : BacktestEvent} (h : x ∈ s.control) : x ∈ (s.push e).control := by
  apply control_push.symm.subset
  rw [List.filter_cons]
  split
  · exact List.mem_cons_of_mem _ h
  · exact h

theorem count_control_push (h : e ≠ .start) :
    (s.push e).control.count .start = s.control.count .start := by
  rw [control_push.count_eq, List.filter_cons]
  split
  · exact List.count_cons_of_ne h
  · rfl

@[simp] theorem control_emit :
    (s.emit es).control = s.control ++ es.filter (! ·.isStrategic) := by
  rw [control, inFlight_emit, List.filter_append]
  rfl

theorem control_flush (h : s.outbox = e :: outbox) :
    ({ s with outbox }.push e).control.Perm s.control :=
  (inFlight_flush h).filter _

theorem Emits.control (h : s.Emits s' es) : s'.control = s.control :=
  h.filter_inFlight fun e he => by rw [he]; rfl

theorem Finishes.control (h : s.Finishes s') : s'.control = s.control := by
  rw [BacktestSystem.control, h.inFlight]
  rfl

theorem Finishes.failure (h : s.Finishes s') : s'.failure = s.failure := by rw [h.eq]

theorem control_next (h : s.next? = some (e, s')) :
    s.control = (e :: s'.inFlight).filter (! ·.isStrategic) := by
  rw [control, inFlight_next h]

structure KeepsControl (s s' : BacktestSystem) : Prop where
  control : s'.control = s.control
  started : s'.started = s.started
  pending : s'.pendingRequests = s.pendingRequests
  mdRequests : s'.mdRequests = s.mdRequests
  prices : s'.pricesInFlight = s.pricesInFlight

theorem handleStop_spec (s : BacktestSystem) (hlive : s.handleStop.failure = none) :
    (s.handleStop.historicalMdGenerator = none ∧ s.handleStop.backtestInProgress = false ∧
      s.handleStop.stopRequestHandled = true) ∧ s.KeepsControl s.handleStop := by
  obtain ⟨es, hes⟩ := s.emits_closePosition s.lastTsAndPrice.2 s.lastTsAndPrice.1
  simp only [handleStop] at hlive ⊢
  split at hlive
  case isFalse hf => exact absurd hlive hf
  case isTrue hf =>
    rw [if_pos hf]
    refine ⟨⟨rfl, rfl, rfl⟩, hes.control, ?_, ?_, ?_, hes.pricesInFlight⟩ <;> rw [hes.eq]

namespace Phase

theorem congr (h : s.Phase) (hstarted : s'.started = s.started)
    (hstart : s'.control.count .start = s.control.count .start)
    (hmem : ∀ e ∈ s.control, e ∈ s'.control) (hprices : s'.pricesInFlight = s.pricesInFlight)
    (hpending : s'.pendingRequests = s.pendingRequests)
    (hgenerator : s'.historicalMdGenerator = s.historicalMdGenerator)
    (hprogress : s'.backtestInProgress = s.backtestInProgress)
    (hhandled : s'.stopRequestHandled = s.stopRequestHandled)
    (hmd : ∀ guid ∈ s.mdRequests,
      guid ∈ s'.mdRequests ∨ ∃ reader, .feed guid reader ∈ s'.control) : s'.Phase := by
  cases h with
  | unstarted h₁ h₂ h₃ h₄ h₅ =>
    exact .unstarted (hstarted.trans h₁) (hstart.trans h₂) (hpending.trans h₃)
      (hgenerator.trans h₄) (hprogress.trans h₅)
  | starting h₁ h₂ h₃ h₄ h₅ =>
    exact .starting (hstarted.trans h₁) (hstart.trans h₂) (hpending.trans h₃)
      (hgenerator.trans h₄) (hprogress.trans h₅)
  | requested guid h₁ h₂ h₃ h₄ h₅ hwaiting =>
    apply requested guid (hstarted.trans h₁) (hstart.trans h₂) (hpending.trans h₃)
      (hgenerator.trans h₄) (hprogress.trans h₅)
    rcases hwaiting with hwaiting | ⟨reader, hwaiting⟩
    · exact hmd guid hwaiting
    · exact .inr ⟨reader, hmem _ hwaiting⟩
  | feeding h₁ h₂ h₃ h₄ h₅ =>
    refine .feeding (hstarted.trans h₁) (hstart.trans h₂) (hpending.trans h₃) (hprices ▸ h₄) ?_
    rwa [hgenerator, hprogress]
  | ending h₁ h₂ h₃ h₄ h₅ h₆ =>
    exact .ending (hstarted.trans h₁) (hstart.trans h₂) (hpending.trans h₃)
      (hgenerator.trans h₄) (hprogress.trans h₅) (hmem _ h₆)
  | closing h₁ h₂ h₃ h₄ h₅ h₆ =>
    exact .closing (hstarted.trans h₁) (hstart.trans h₂) (hpending.trans h₃)
      (hgenerator.trans h₄) (hprogress.trans h₅) (hhandled.trans h₆)

theorem emits (h : s.Phase) (he : s.Emits s' es) : s'.Phase := by
  have hcontrol := he.control
  have hprices := he.pricesInFlight
  rw [he.eq] at hcontrol hprices ⊢
  exact h.congr rfl (by rw [hcontrol]) (by rw [hcontrol]; exact fun _ => id) hprices rfl rfl rfl rfl
    fun _ => .inl

theorem finishes (h : s.Phase) (hf : s.Finishes s') : s'.Phase := by
  have hcontrol := hf.control
  have hprices := hf.pricesInFlight
  rw [hf.eq] at hcontrol hprices ⊢
  exact h.congr rfl (by rw [hcontrol]) (by rw [hcontrol]; exact fun _ => id) hprices rfl rfl rfl rfl
    fun _ => .inl

theorem push (h : s.Phase) (hstart : e ≠ .start) (hprice : e.isPrice = false) :
    (s.push e).Phase := by
  have hprices : (s.push e).pricesInFlight = s.pricesInFlight := by
    rw [pricesInFlight_push, List.countP_singleton, if_neg (by simp [hprice]), add_zero]
  exact h.congr rfl (count_control_push hstart) (fun _ => mem_control_push) hprices rfl rfl rfl rfl
    fun _ => .inl

theorem setPanic (h : s.Phase) (doPanic : Bool) : (s.setPanic doPanic).Phase := by
  cases doPanic with
  | false => exact h
  | true => exact h.congr rfl rfl (fun _ => id) rfl rfl rfl rfl rfl fun _ => .inl

theorem emitStop (h : s.Phase) : (s.emit [.stop]).Phase := by
  have hstart : (s.emit [.stop]).control.count .start = s.control.count .start := by
    rw [control_emit, List.count_append]
    rfl
  have hmem : ∀ e ∈ s.control, e ∈ (s.emit [.stop]).control := by
    intro e he
    rw [control_emit]
    exact List.mem_append_left _ he
  exact h.congr rfl hstart hmem pricesInFlight_emit rfl rfl rfl rfl fun _ => .inl

theorem flush (h : s.Phase) (hout : s.outbox = e :: outbox) : ({ s with outbox }.push e).Phase := by
  have hcontrol := control_flush hout
  exact h.congr rfl (hcontrol.count_eq _) (fun _ he => hcontrol.symm.subset he)
    (pricesInFlight_flush hout) rfl rfl rfl rfl fun _ => .inl

theorem next (h : s.Phase) (hnext : s.next? = some (e, s')) (he : e.isStrategic) : s'.Phase := by
  have hcontrol : s'.control = s.control := by
    rw [control_next hnext, List.filter_cons_of_neg (by simp [he])]
    rfl
  have hprices : s'.pricesInFlight = s.pricesInFlight := by
    rw [pricesInFlight_next hnext, List.countP_singleton, if_neg, add_zero]
    cases e <;> simp [BacktestEvent.isPrice, BacktestEvent.isStrategic] at he ⊢
  obtain ⟨-, -, heq⟩ := next?_spec hnext
  rw [heq] at hcontrol hprices ⊢
  exact h.congr rfl (by rw [hcontrol]) (by rw [hcontrol]; exact fun _ => id) hprices rfl rfl rfl rfl
    fun _ => .inl

theorem handleStart (h : s.Phase) (hnext : s.next? = some (.start, s')) :
    s'.handleStart.Phase := by
  obtain ⟨-, -, heq⟩ := next?_spec hnext
  have hcontrol : s.control = .start :: s'.control := control_next hnext
  have hcount : s.control.count .start = s'.control.count .start + 1 := by
    rw [hcontrol, List.count_cons_self]
  cases h with
  | starting h₁ h₂ h₃ h₄ h₅ =>
    have hsame : s'.handleStart.control = s'.control := rfl
    apply requested s'.nextRequest
    · rw [heq]
      exact h₁
    · rw [hsame]
      omega
    · rw [heq]
      exact congrArg (s.nextRequest :: ·) h₃
    · rw [heq]
      exact h₄
    · rw [heq]
      exact h₅
    · exact .inl (List.mem_append_right _ (List.mem_singleton_self _))
  | unstarted _ h₂ | requested _ _ h₂ | feeding _ h₂ | ending _ h₂ | closing _ h₂ => omega

theorem handleStop (h : s.Phase) (hnext : s.next? = some (.stop, s'))
    (hlive : s'.handleStop.failure = none) : s'.handleStop.Phase := by
  obtain ⟨-, -, heq⟩ := next?_spec hnext
  obtain ⟨hflags, hsame⟩ := s'.handleStop_spec hlive
  have hcontrol : s.control = .stop :: s'.handleStop.control := by
    rw [hsame.control]
    exact control_next hnext
  have hstarted : s'.handleStop.started = s.started := by rw [hsame.started, heq]
  have hpending : s'.handleStop.pendingRequests = s.pendingRequests := by rw [hsame.pending, heq]
  have hmd : s'.handleStop.mdRequests = s.mdRequests := by rw [hsame.mdRequests, heq]
  have hstart : s'.handleStop.control.count .start = s.control.count .start := by
    rw [hcontrol, List.count_cons_of_ne (by decide)]
  obtain ⟨hgenerator, hprogress, hhandled⟩ := hflags
  have hprices : s'.handleStop.pricesInFlight = s.pricesInFlight :=
    hsame.prices.trans (pricesInFlight_next hnext).symm
  cases h with
  | unstarted h₁ h₂ h₃ h₄ h₅ =>
    exact .unstarted (hstarted.trans h₁) (hstart.trans h₂) (hpending.trans h₃) hgenerator hprogress
  | starting h₁ h₂ h₃ h₄ h₅ =>
    exact .starting (hstarted.trans h₁) (hstart.trans h₂) (hpending.trans h₃) hgenerator hprogress
  | requested guid h₁ h₂ h₃ h₄ h₅ hwaiting =>
    apply requested guid (hstarted.trans h₁) (hstart.trans h₂) (hpending.trans h₃) hgenerator
      hprogress
    rcases hwaiting with hwaiting | ⟨reader, hwaiting⟩
    · exact .inl (hmd ▸ hwaiting)
    · rw [hcontrol] at hwaiting
      exact .inr ⟨reader, List.mem_of_ne_of_mem (by simp) hwaiting⟩
  | feeding h₁ h₂ h₃ h₄ =>
    refine .feeding (hstarted.trans h₁) (hstart.trans h₂) (hpending.trans h₃) (hprices ▸ h₄) ?_
    rw [hgenerator]
    exact fun hsome => by cases hsome
  | ending h₁ h₂ h₃ h₄ h₅ h₆ =>
    exact .closing (hstarted.trans h₁) (hstart.trans h₂) (hpending.trans h₃) hgenerator hprogress
      hhandled
  | closing h₁ h₂ h₃ h₄ h₅ h₆ =>
    exact .closing (hstarted.trans h₁) (hstart.trans h₂) (hpending.trans h₃) hgenerator hprogress
      hhandled

theorem handleFeed {guid : Guid} (h : s.Phase) (hnext : s.next? = some (.feed guid reader, s'))
    (hfull : guid ∈ s.pendingRequests → reader.remaining ≠ []) :
    (s'.handleFeed guid reader).Phase := by
  obtain ⟨-, -, heq⟩ := next?_spec hnext
  have hcontrol : s.control = .feed guid reader :: s'.control := control_next hnext
  have hprices : s'.pricesInFlight = s.pricesInFlight := (pricesInFlight_next hnext).symm
  have hstart : s'.control.count .start = s.control.count .start := by
    rw [hcontrol, List.count_cons_of_ne (by simp)]
  have hstarted : s'.started = s.started := by rw [heq]
  have hpending : s'.pendingRequests = s.pendingRequests := by rw [heq]
  have hgenerator : s'.historicalMdGenerator = s.historicalMdGenerator := by rw [heq]
  have hprogress : s'.backtestInProgress = s.backtestInProgress := by rw [heq]
  have hhandled : s'.stopRequestHandled = s.stopRequestHandled := by rw [heq]
  have hmd : s'.mdRequests = s.mdRequests := by rw [heq]
  rcases s'.handleFeed_cases guid reader with
    ⟨hignored, hsame⟩ | ⟨hnone, hmem, ⟨reader', hempty, -⟩ | ⟨t, reader', -, hfeed⟩⟩
  · rw [hsame]
    rw [hgenerator, hpending] at hignored
    cases h with
    | unstarted h₁ h₂ h₃ h₄ h₅ =>
      exact .unstarted (hstarted.trans h₁) (hstart.trans h₂) (hpending.trans h₃)
        (hgenerator.trans h₄) (hprogress.trans h₅)
    | starting h₁ h₂ h₃ h₄ h₅ =>
      exact .starting (hstarted.trans h₁) (hstart.trans h₂) (hpending.trans h₃)
        (hgenerator.trans h₄) (hprogress.trans h₅)
    | requested guid' h₁ h₂ h₃ h₄ h₅ hwaiting =>
      apply requested guid' (hstarted.trans h₁) (hstart.trans h₂) (hpending.trans h₃)
        (hgenerator.trans h₄) (hprogress.trans h₅)
      have hne : guid ≠ guid' := by simpa [h₃, h₄] using hignored
      rcases hwaiting with hwaiting | ⟨reader', hwaiting⟩
      · exact .inl (hmd ▸ hwaiting)
      · rw [hcontrol] at hwaiting
        exact .inr ⟨reader', List.mem_of_ne_of_mem (by simp [hne.symm]) hwaiting⟩
    | feeding h₁ h₂ h₃ h₄ h₅ =>
      refine .feeding (hstarted.trans h₁) (hstart.trans h₂) (hpending.trans h₃) (hprices ▸ h₄) ?_
      rwa [hgenerator, hprogress]
    | ending h₁ h₂ h₃ h₄ h₅ h₆ =>
      rw [hcontrol] at h₆
      exact .ending (hstarted.trans h₁) (hstart.trans h₂) (hpending.trans h₃)
        (hgenerator.trans h₄) (hprogress.trans h₅) (List.mem_of_ne_of_mem (by simp) h₆)
    | closing h₁ h₂ h₃ h₄ h₅ h₆ =>
      exact .closing (hstarted.trans h₁) (hstart.trans h₂) (hpending.trans h₃)
        (hgenerator.trans h₄) (hprogress.trans h₅) (hhandled.trans h₆)
  · rw [hpending] at hmem
    exact absurd hempty (hfull hmem)
  · rw [hpending] at hmem
    rw [hfeed]
    cases h with
    | requested guid' h₁ h₂ h₃ h₄ h₅ hwaiting =>
      obtain rfl : guid = guid' := by simpa [h₃] using hmem
      apply feeding
      · exact hstarted.trans h₁
      · rw [control_emit, List.count_append, List.filter_singleton]
        exact hstart.trans h₂
      · simp [emit, hpending, h₃]
      · rw [pricesInFlight_emit]
        exact Nat.succ_pos _
      · exact fun _ => rfl
    | unstarted _ _ h₃ | starting _ _ h₃ | feeding _ _ h₃ | ending _ _ h₃ | closing _ _ h₃ =>
      simp [h₃] at hmem

/-- With a generator, a price belongs to the feed in progress. -/
theorem progress_of_generator (h : s.Phase) (hgenerator : s.historicalMdGenerator.isSome) :
    s.started = true ∧ s.control.count .start = 0 ∧ s.pendingRequests = [] ∧
      s.backtestInProgress = true := by
  cases h with
  | feeding h₁ h₂ h₃ _ h₅ => exact ⟨h₁, h₂, h₃, h₅ hgenerator⟩
  | unstarted _ _ _ hnone | starting _ _ _ hnone | requested _ _ _ _ hnone
  | ending _ _ _ hnone | closing _ _ _ hnone =>
    rw [hnone] at hgenerator
    cases hgenerator

theorem handlePrice (h : s.Phase) (hnext : s.next? = some (.price t, s'))
    (hlive : (s'.handlePrice r t).failure = none) : (s'.handlePrice r t).Phase := by
  obtain ⟨-, -, heq⟩ := next?_spec hnext
  obtain ⟨es, hes⟩ := s'.emits_handleMdPrice r t
  have hcontrol : (s'.handleMdPrice r t).control = s'.control := hes.control
  have hstart : s.control.count .start = (s'.handleMdPrice r t).control.count .start := by
    rw [hcontrol, control_next hnext, List.filter_cons_of_pos rfl,
      List.count_cons_of_ne (by simp)]
    rfl
  have hstarted : (s'.handleMdPrice r t).started = s.started := by rw [hes.eq, heq]
  have hpending : (s'.handleMdPrice r t).pendingRequests = s.pendingRequests := by rw [hes.eq, heq]
  have hgenerator : (s'.handleMdPrice r t).historicalMdGenerator = s.historicalMdGenerator := by
    rw [hes.eq, heq]
  have hprogress : (s'.handleMdPrice r t).backtestInProgress = s.backtestInProgress := by
    rw [hes.eq, heq]
  unfold BacktestSystem.handlePrice at hlive ⊢
  rcases (s'.handleMdPrice r t).pushNextPrice_cases with
    ⟨-, hnew⟩ | ⟨reader, hsome, -, hnew⟩ | ⟨reader, t', reader', hsome, -, hnew⟩
  · rw [hnew] at hlive
    cases hlive
  · obtain ⟨h₁, h₂, h₃, h₅⟩ := h.progress_of_generator (by rw [← hgenerator, hsome]; rfl)
    rw [hnew]
    apply ending
    · exact hstarted.trans h₁
    · rw [control_emit, List.count_append, List.filter_singleton]
      exact hstart.symm.trans h₂
    · exact hpending.trans h₃
    · rfl
    · exact hprogress.trans h₅
    · rw [control_emit]
      exact List.mem_append_right _ (List.mem_singleton_self _)
  · obtain ⟨h₁, h₂, h₃, h₅⟩ := h.progress_of_generator (by rw [← hgenerator, hsome]; rfl)
    rw [hnew]
    apply feeding
    · exact hstarted.trans h₁
    · rw [control_emit, List.count_append, List.filter_singleton]
      exact hstart.symm.trans h₂
    · exact hpending.trans h₃
    · rw [pricesInFlight_emit]
      exact Nat.succ_pos _
    · exact fun _ => hprogress.trans h₅

theorem runAsync (h : s.Phase) (hnew : s.started = false) :
    ({ s with started := true }.push .start).Phase := by
  cases h with
  | unstarted h₁ h₂ h₃ h₄ h₅ =>
    refine .starting rfl ?_ h₃ h₄ h₅
    rw [control_push.count_eq, List.filter_cons_of_pos rfl, List.count_cons_self]
    exact congrArg (· + 1) h₂
  | starting h₁ | requested _ h₁ | feeding h₁ | ending h₁ | closing h₁ =>
    rw [hnew] at h₁
    cases h₁

theorem answer {guid : Guid} (h : s.Phase) :
    ({ s with mdRequests := s.mdRequests.erase guid }.push (.feed guid reader)).Phase := by
  set s' : BacktestSystem := { s with mdRequests := s.mdRequests.erase guid } with hs'
  have hstart : (s'.push (.feed guid reader)).control.count .start = s.control.count .start :=
    count_control_push (by simp)
  have hmem : ∀ e ∈ s.control, e ∈ (s'.push (.feed guid reader)).control :=
    fun _ he => mem_control_push (by exact he)
  have hprices : (s'.push (.feed guid reader)).pricesInFlight = s.pricesInFlight :=
    pricesInFlight_push
  have hmd : ∀ guid' ∈ s.mdRequests, guid' ∈ (s'.push (.feed guid reader)).mdRequests ∨
      ∃ reader', .feed guid' reader' ∈ (s'.push (.feed guid reader)).control := by
    intro guid' hguid'
    by_cases hsame : guid' = guid
    · refine .inr ⟨reader, control_push.symm.subset ?_⟩
      rw [hsame, List.filter_cons_of_pos rfl]
      exact List.mem_cons_self
    · exact .inl ((List.mem_erase_of_ne hsame).mpr hguid')
  exact h.congr rfl hstart hmem hprices rfl rfl rfl rfl hmd

/-- As long as the process lives, something keeps the backtest going. -/
theorem step {x : BacktestStep} (h : s.failure = none → s.Phase) (hok : s.Completes x)
    (hlive : (s.step x).failure = none) : (s.step x).Phase := by
  unfold BacktestSystem.step at hlive ⊢
  split at hlive
  case isFalse hf => exact absurd hlive hf
  case isTrue hf =>
    rw [if_pos hf]
    replace h := h hf
    cases x with
    | runAsync => exact h.runAsync (hok.1 rfl)
    | stopAsync doPanic =>
      exact (h.setPanic doPanic).push (by simp) rfl
    | answer guid reader => exact h.answer
    | delayed => exact h.push (by simp) rfl
    | flush =>
      simp only [advance]
      split
      case h_1 e outbox hout => exact h.flush hout
      case h_2 => exact h
    | run r =>
      simp only [advance] at hlive ⊢
      cases hnext : s.next? with
      | none => exact h
      | some p =>
        obtain ⟨e, s'⟩ := p
        have hhandling : s.handling? (.run r) = some e := by simp [handling?, hf, hnext]
        rw [hnext] at hlive
        cases e with
        | start => exact (h.handleStart hnext).finishes (finishes_afterEveryEvent _)
        | stop =>
          have hfinishes := finishes_afterEveryEvent s'.handleStop
          have hlive' : s'.handleStop.failure = none := hfinishes.failure.symm.trans hlive
          exact (h.handleStop hnext hlive').finishes hfinishes
        | feed guid reader =>
          have hfull := hok.2.1 _ hhandling
          refine (h.handleFeed hnext ?_).finishes (finishes_afterEveryEvent _)
          simpa [BacktestEvent.isEmptyFeed] using hfull
        | price t =>
          have hfinishes := finishes_afterEveryEvent (s'.handlePrice r t)
          have hlive' : (s'.handlePrice r t).failure = none := hfinishes.failure.symm.trans hlive
          exact (h.handlePrice hnext hlive').finishes hfinishes
        | error doPanic => exact ((h.next hnext rfl).setPanic doPanic).emitStop
        | gateway x =>
          have hom : s'.Emits { s' with om := s'.om.step x } [] :=
            .of_eq rfl id rfl (OrderManager.symbol_step s'.om x)
          exact (h.next hnext rfl).emits (hom.trans (emits_emitCallbacks _ r.first))
        | trade t =>
          have hs := h.next hnext rfl
          have htrade : ({ s' with
              results := s'.results.handleTrade t
              handled := s'.handled ++ [t] } : BacktestSystem).Phase :=
            hs.congr rfl rfl (fun _ => id) rfl rfl rfl rfl rfl fun _ => .inl
          exact (htrade.emits (emits_emitCallbacks _ r.first)).finishes (finishes_afterEveryEvent _)
        | callback =>
          obtain ⟨es, hes, -⟩ := s'.emits_actions r.actions
          exact (h.next hnext rfl).emits hes

end Phase

theorem Finishes.opened_ne_none (h : s.Finishes s') (hlive : s.failure = none)
    (hc : s'.AwaitsClose) : s.opened ≠ none := by
  intro hopened
  obtain ⟨hhandled, hno, hpending, hprogress, hgenerator⟩ := h.awaitsClose hc
  have hyes := h.stopped.mpr (.inr ⟨hlive, hhandled, hopened, hpending, hprogress, hgenerator⟩)
  rw [hc.2.1] at hyes
  cases hyes

namespace ClosingInTransit

theorem congr (h : s.ClosingInTransit) (hopened : s'.opened = s.opened)
    (htransit : s'.inTransit = s.inTransit) : s'.ClosingInTransit := by
  obtain ⟨pos, t, hpos, ht, hclosing⟩ := h
  exact ⟨pos, t, hopened.trans hpos, htransit.trans ht, hclosing⟩

theorem finishes (h : s.ClosingInTransit) (hf : s.Finishes s') : s'.ClosingInTransit := by
  apply h.congr
  · rw [opened, hf.positionManager]
    rfl
  · rw [hf.eq]
    rfl

end ClosingInTransit

/-- The order for the open position is in transit while the instance awaits its trade. -/
def Closes (s : BacktestSystem) : Prop := s.failure = none → s.AwaitsClose → s.ClosingInTransit

namespace Closes

theorem congr (h : s.Closes) (hfailure : s'.failure = none → s.failure = none)
    (hawaits : s'.AwaitsClose → s.AwaitsClose) (hopened : s'.opened = s.opened)
    (htransit : s'.inTransit = s.inTransit) : s'.Closes :=
  fun hlive hc => (h (hfailure hlive) (hawaits hc)).congr hopened htransit

theorem push (h : s.Closes) (he : e.trade? = none) : (s.push e).Closes :=
  h.congr id id rfl (inTransit_push he)

theorem setPanic (h : s.Closes) (doPanic : Bool) : (s.setPanic doPanic).Closes := by
  cases doPanic with
  | false => exact h
  | true => exact h.congr id id rfl rfl

theorem emits (h : s.Closes) (hlive : s.failure = none) (he : s.Emits s' es)
    (hquiet : s.AwaitsClose → es.filterMap BacktestEvent.trade? = []) : s'.Closes := by
  intro _ hc
  have hc' := he.awaitsClose.mp hc
  apply (h hlive hc').congr he.opened
  rw [he.inTransit, hquiet hc', List.append_nil]

theorem finishes (h : s.Closes) (hf : s.Finishes s') : s'.Closes := by
  intro hlive hc
  exact (h (hf.failure.symm.trans hlive) (hf.awaitsClose hc)).finishes hf

theorem next (h : s.Closes) (hq : s.queue.Sorted BacktestEvent.priority)
    (hnext : s.next? = some (e, s')) (he : e.trade? = none) : s'.Closes := by
  have htransit := inTransit_next hq hnext
  rw [he] at htransit
  obtain ⟨-, -, heq⟩ := next?_spec hnext
  rw [heq] at htransit ⊢
  exact h.congr id id rfl htransit.symm

theorem handleStop (hlive : s.failure = none) (hstepped : s.Stepped)
    (hnone : s.opened.isSome → s.inTransit = []) (hf : s.handleStop.Finishes s') :
    s'.Closes := by
  intro hlive' hc
  rw [hf.failure] at hlive'
  apply ClosingInTransit.finishes _ hf
  have hopened := hf.opened_ne_none hlive' hc
  simp only [BacktestSystem.handleStop] at hlive' hopened ⊢
  rcases s.closePosition_cases s.lastTsAndPrice.2 s.lastTsAndPrice.1 with
    ⟨hflat, heq⟩ | ⟨pos, hpos, heq | ⟨es, t, hes, hfailure, htrades, hvol⟩⟩
  · rw [heq, if_pos hlive] at hopened
    exact absurd hflat hopened
  · rw [heq, if_neg (by simp)] at hlive'
    cases hlive'
  · rw [if_pos (hfailure.trans hlive)]
    have hvolume : s.results.positionManager.volume = pos.absoluteVolume.value :=
      PositionManager.volume_of_opened hpos
    have hmem := hvolume ▸ hstepped.volume
    have hclosing : t.signedVolume = InstanceSystem.closingVolume pos := by
      apply OrderManager.adjustedVolume_of_mem _ hvol
      rw [InstanceSystem.value_closingVolume]
      exact neg_mem hmem
    have htransit : (s.closePosition s.lastTsAndPrice.2 s.lastTsAndPrice.1).inTransit = [t] := by
      rw [hes.inTransit, hnone (by rw [hpos]; rfl), htrades]
      rfl
    refine ⟨pos, t, hes.opened.trans hpos, htransit, ?_, ?_⟩
    · rw [hclosing, InstanceSystem.value_closingVolume]
    · rw [SignedVolume.isZero_iff]
      exact InstanceSystem.adjustedVolume_ne_zero hvol

theorem handleFeed {guid : Guid} (h : s.Closes) : (s.handleFeed guid reader).Closes := by
  rcases s.handleFeed_cases guid reader with
    ⟨-, heq⟩ | ⟨-, -, ⟨reader', -, heq⟩ | ⟨t, reader', -, heq⟩⟩
  · rwa [heq]
  · rw [heq]
    rintro - ⟨-, -, -, -, hgenerator⟩
    cases hgenerator
  · rw [heq]
    rintro - ⟨-, -, -, -, hgenerator⟩
    cases hgenerator

theorem handlePrice (hprogress : s.historicalMdGenerator.isSome → s.backtestInProgress = true) :
    (s.handlePrice r t).Closes := by
  obtain ⟨es, hes⟩ := s.emits_handleMdPrice r t
  have hgenerator : (s.handleMdPrice r t).historicalMdGenerator = s.historicalMdGenerator := by
    rw [hes.eq]
  have hprogress' : (s.handleMdPrice r t).backtestInProgress = s.backtestInProgress := by
    rw [hes.eq]
  unfold BacktestSystem.handlePrice
  rcases (s.handleMdPrice r t).pushNextPrice_cases with
    ⟨-, heq⟩ | ⟨reader, hsome, -, heq⟩ | ⟨reader, t', reader', -, -, heq⟩
  · rw [heq]
    intro hlive
    cases hlive
  · rw [heq]
    rintro - ⟨-, -, -, hno, -⟩
    have hyes := hprogress (by rw [← hgenerator, hsome]; rfl)
    cases (hprogress'.trans hyes).symm.trans hno
  · rw [heq]
    rintro - ⟨-, -, -, -, hno⟩
    cases hno

theorem handleTrade {t : Trade} (h : s.Closes) (hlive : s.failure = none)
    (hq : s.queue.Sorted BacktestEvent.priority) (hnext : s.next? = some (.trade t, s'))
    {s'' : BacktestSystem} (hf : (s'.handleTrade r t).Finishes s'') : s''.Closes := by
  intro hlive' hc
  obtain ⟨-, -, heq⟩ := next?_spec hnext
  have hc' := hf.awaitsClose hc
  rw [hf.failure] at hlive'
  have hopened := hf.opened_ne_none hlive' hc
  obtain ⟨pos, t', hpos, htransit, hsum, hz⟩ := h hlive (by rw [heq] at hc'; exact hc')
  rw [inTransit_next hq hnext] at htransit
  obtain ⟨rfl, -⟩ := List.cons.inj htransit
  have hflat : (s.results.positionManager.step t).openedPosition = none :=
    PositionManager.step_closing hpos hsum hz
  have hsame : (s'.handleTrade r t).opened =
      (s.results.positionManager.step t).openedPosition := by
    rw [heq]
    exact congrArg PositionManager.openedPosition InstanceResults.handleTrade_positionManager
  exact absurd (hsame.trans hflat) hopened

theorem run (h : s.Closes) (hlive : s.failure = none) (hphase : s.Phase) (hstepped : s.Stepped)
    (hq : s.queue.Sorted BacktestEvent.priority) (hnext : s.next? = some (e, s'))
    (hok : s.Completes (.run r)) : (s'.handleEvent r e).Closes := by
  have hhandling : s.handling? (.run r) = some e := by simp [handling?, hlive, hnext]
  obtain ⟨-, -, heq⟩ := next?_spec hnext
  have hlive' : s'.failure = none := by rw [heq]; exact hlive
  cases e with
  | start =>
    have hstart : s'.handleStart.Closes := by
      rintro - ⟨-, -, hpending, -⟩
      cases hpending
    exact hstart.finishes (finishes_afterEveryEvent _)
  | stop =>
    apply handleStop hlive' (hstepped.next hnext) _ (finishes_afterEveryEvent _)
    intro hopened
    have htransit : s.inTransit = s'.inTransit := inTransit_next hq hnext
    rw [← htransit]
    exact hok.2.2.1 hhandling (by rw [heq] at hopened; exact hopened)
  | feed guid reader =>
    exact (h.next hq hnext rfl).handleFeed.finishes (finishes_afterEveryEvent _)
  | price t =>
    have hprice : (s'.handlePrice r t).Closes := by
      apply handlePrice
      rw [heq]
      exact fun hgenerator => (hphase.progress_of_generator hgenerator).2.2.2
    exact hprice.finishes (finishes_afterEveryEvent _)
  | error doPanic =>
    have htransit : ((s'.setPanic doPanic).emit [.stop]).inTransit =
        (s'.setPanic doPanic).inTransit := by simp [inTransit, emit, BacktestEvent.trade?]
    exact ((h.next hq hnext rfl).setPanic doPanic).congr id id rfl htransit
  | gateway x =>
    have hom : s'.Emits { s' with om := s'.om.step x } [] :=
      .of_eq rfl id rfl (OrderManager.symbol_step s'.om x)
    apply (h.next hq hnext rfl).emits hlive' (hom.trans (emits_emitCallbacks _ r.first))
    intro _
    rw [List.nil_append, List.filterMap_replicate_of_none rfl]
  | trade t => exact h.handleTrade hlive hq hnext (finishes_afterEveryEvent _)
  | callback =>
    obtain ⟨es, hes, hquiet⟩ := s'.emits_actions r.actions
    apply (h.next hq hnext rfl).emits hlive' hes
    intro hc
    apply hquiet
    have hno := hok.2.2.2 hhandling (by rw [heq] at hc; exact hc)
    simpa [BacktestStep.sends] using hno

theorem step {x : BacktestStep} (h : s.Closes) (hphase : s.failure = none → s.Phase)
    (hstepped : s.Stepped) (hq : s.queue.Sorted BacktestEvent.priority)
    (hok : s.Completes x) : (s.step x).Closes := by
  unfold BacktestSystem.step
  split
  case isFalse => exact h
  case isTrue hlive =>
    cases x with
    | runAsync => exact push (h.congr id id rfl rfl) rfl
    | stopAsync doPanic => exact (h.setPanic doPanic).push rfl
    | answer guid reader => exact push (h.congr id id rfl rfl) rfl
    | delayed => exact h.push rfl
    | flush =>
      simp only [advance]
      split
      case h_1 e outbox hout => exact h.congr id id rfl (inTransit_flush hout)
      case h_2 => exact h
    | run r =>
      simp only [advance]
      cases hnext : s.next? with
      | none => exact h
      | some p => exact h.run hlive (hphase hlive) hstepped hq hnext hok

end Closes

structure Steady (s : BacktestSystem) : Prop where
  sorted : s.queue.Sorted BacktestEvent.priority
  stepped : s.Stepped
  closes : s.Closes
  phase : s.failure = none → s.Phase

theorem mem_inFlight_of_mem_inTransit {t : Trade} (h : t ∈ s.inTransit) :
    .trade t ∈ s.inFlight := by
  obtain ⟨e, he, ht⟩ := List.mem_filterMap.mp h
  have hsame : e = .trade t := by
    cases e <;> simp_all [BacktestEvent.trade?]
  rw [hsame] at he
  rcases List.mem_append.mp he with he | he
  · exact List.mem_append_left _ (ThreadSafePriorityQueue.mem_toList.mpr ⟨.normal, he⟩)
  · exact List.mem_append_right _ he

theorem Finishes.queue (h : s.Finishes s') : s'.queue = s.queue := by rw [h.eq]

@[simp] theorem queue_handleEvent : (s.handleEvent r e).queue = s.queue := by
  cases e with
  | start => exact (finishes_afterEveryEvent _).queue
  | stop =>
    obtain ⟨es, hes⟩ := s.emits_closePosition s.lastTsAndPrice.2 s.lastTsAndPrice.1
    apply (finishes_afterEveryEvent _).queue.trans
    simp only [handleStop]
    split <;> rw [hes.eq]
  | feed guid reader =>
    apply (finishes_afterEveryEvent _).queue.trans
    rcases s.handleFeed_cases guid reader with
      ⟨-, heq⟩ | ⟨-, -, ⟨reader', -, heq⟩ | ⟨t, reader', -, heq⟩⟩
    · rw [heq]
    · rw [heq]
    · rw [heq]
      rfl
  | price t =>
    obtain ⟨es, hes⟩ := s.emits_handleMdPrice r t
    have hsame : (s.handleMdPrice r t).queue = s.queue := by rw [hes.eq]
    apply (finishes_afterEveryEvent _).queue.trans
    rw [← hsame, handlePrice]
    rcases (s.handleMdPrice r t).pushNextPrice_cases with
      ⟨-, heq⟩ | ⟨reader, -, -, heq⟩ | ⟨reader, t', reader', -, -, heq⟩
    · rw [heq]
    · rw [heq]
      rfl
    · rw [heq]
      rfl
  | error doPanic => cases doPanic <;> rfl
  | gateway x => rfl
  | trade t => exact (finishes_afterEveryEvent _).queue
  | callback =>
    obtain ⟨es, hes, -⟩ := s.emits_actions r.actions
    rw [handleEvent, hes.eq]

theorem sorted_step {x : BacktestStep} (h : s.queue.Sorted BacktestEvent.priority) :
    (s.step x).queue.Sorted BacktestEvent.priority := by
  unfold BacktestSystem.step
  split
  case isFalse => exact h
  case isTrue =>
    cases x with
    | runAsync => exact h.push .start
    | stopAsync doPanic => cases doPanic <;> exact h.push .stop
    | answer guid reader => exact h.push (.feed guid reader)
    | delayed => exact h.push .callback
    | flush =>
      simp only [advance]
      split
      case h_1 e outbox hout => exact h.push e
      case h_2 => exact h
    | run r =>
      simp only [advance]
      cases hnext : s.next? with
      | none => exact h
      | some p =>
        obtain ⟨-, hpop, -⟩ := next?_spec hnext
        simp only [queue_handleEvent]
        exact (h.waitAndPop hpop).1

namespace Steady

theorem init (symbol : Symbol) : (init symbol).Steady where
  sorted := ThreadSafePriorityQueue.sorted_empty
  stepped := .init symbol
  closes := fun _ ⟨hhandled, _⟩ => by cases hhandled
  phase := fun _ => .unstarted rfl rfl rfl rfl rfl

theorem step {x : BacktestStep} (h : s.Steady) (hok : s.Completes x) : (s.step x).Steady where
  sorted := sorted_step h.sorted
  stepped := h.stepped.step x
  closes := h.closes.step h.phase h.stepped h.sorted hok
  phase := Phase.step h.phase hok

theorem stopped (h : s.Steady) (hdrained : s.Drained) (hstarted : s.started = true) :
    s.stopped = true := by
  have hflight : s.inFlight = [] := by rw [inFlight, hdrained.queue, hdrained.outbox]; rfl
  have hcontrol : s.control = [] := by rw [control, hflight]; rfl
  cases h.phase hdrained.failure with
  | unstarted h₁ =>
    rw [hstarted] at h₁
    cases h₁
  | starting _ h₂ =>
    rw [hcontrol] at h₂
    cases h₂
  | requested guid _ _ _ _ _ hwaiting =>
    rw [hcontrol, hdrained.mdRequests] at hwaiting
    simp at hwaiting
  | feeding _ _ _ hprice _ =>
    rw [pricesInFlight, hflight] at hprice
    cases hprice
  | ending _ _ _ _ _ hstop =>
    rw [hcontrol] at hstop
    cases hstop
  | closing _ _ hpending hgenerator hprogress hhandled =>
    by_contra hno
    have hc : s.AwaitsClose := ⟨hhandled, by simpa using hno, hpending, hprogress, hgenerator⟩
    obtain ⟨pos, t, -, htransit, -⟩ := h.closes hdrained.failure hc
    have hmem := mem_inFlight_of_mem_inTransit (htransit ▸ List.mem_singleton_self t)
    rw [hflight] at hmem
    cases hmem

end Steady

/--
A backtest that was started has finished once nothing is on its way any more, if it is started
once, the answer to its request has a trade, a stop request that closes a position finds no
trade on its way, and nothing is sent while the position is being closed.
-/
theorem stopped_of_completes (symbol : Symbol) (xs : List BacktestStep)
    (h : Meets step Completes (init symbol) xs)
    (hstarted : (after step (init symbol) xs).started = true)
    (hdrained : (after step (init symbol) xs).Drained) :
    (after step (init symbol) xs).stopped = true :=
  (h.invariant (fun _ _ hs hok => hs.step hok) (Steady.init symbol)).stopped hdrained hstarted

/-- A callback buys, the feed ends, and the position is closed. -/
theorem stopped_of_completes_bought :
    let symbol : Symbol := ⟨"BTCUSDT", ⟨1, 100, 1⟩⟩
    let reader : SequentialMarketDataReader := .new [[⟨1, 100, ⟨1⟩⟩, ⟨2, 101, ⟨1⟩⟩]]
    let xs : List BacktestStep :=
      [.runAsync, .run {}, .answer Guid.first reader, .run {}, .flush, .run { first := 1 }, .flush,
        .flush, .run { actions := [.call (.sendMarketOrder 100 ⟨1⟩ 1)] }, .flush, .flush, .flush,
        .run {}, .run {}, .run {}, .run {}, .flush, .run {}, .flush, .flush, .flush, .run {},
        .run {}, .run {}]
    Meets step Completes (init symbol) xs ∧ (after step (init symbol) xs).traded.length = 2 ∧
      (after step (init symbol) xs).stopped = true := by
  intro symbol reader xs
  have h : Meets step Completes (init symbol) xs := by decide +kernel
  have hstarted : (after step (init symbol) xs).started = true := by decide +kernel
  have hdrained : (after step (init symbol) xs).Drained := by constructor <;> decide +kernel
  exact ⟨h, by decide +kernel, stopped_of_completes symbol xs h hstarted hdrained⟩

/-- The answer without a file leaves the instance with a generator. -/
theorem drained_after_empty_feed :
    let symbol : Symbol := ⟨"BTCUSDT", ⟨1, 100, 1⟩⟩
    let s := after step (init symbol)
      [.runAsync, .run {}, .answer Guid.first (.new []), .run {}]
    s.Drained ∧ s.started = true ∧ s.stopped = false ∧ s.historicalMdGenerator.isSome := by
  intro symbol s
  exact ⟨by constructor <;> decide +kernel, by decide +kernel⟩

end BacktestSystem

end CryptoTrading

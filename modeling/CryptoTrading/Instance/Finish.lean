import CryptoTrading.Instance.Feed

/-! # Finishing with all trades

The finish promise is set once a stop request was handled and no position is open. The
instance looks at its own position only, which does not know of the trades that are
still queued. They are all handled if no trade was queued when a stop request is
handled and nothing else is sent while the position is being closed.
-/

namespace CryptoTrading

open Runs

namespace BacktestSystem

def inTransit (s : BacktestSystem) : List Trade :=
  (s.queue.normal ++ s.outbox).filterMap BacktestEvent.trade?

/-- Only an open position keeps the instance from finishing. -/
def AwaitsClose (s : BacktestSystem) : Prop :=
  s.stopRequestHandled = true ∧ s.stopped = false ∧ s.pendingRequests = [] ∧
    s.backtestInProgress = false ∧ s.historicalMdGenerator = none

instance (s : BacktestSystem) : Decidable s.AwaitsClose :=
  inferInstanceAs (Decidable (_ ∧ _ ∧ _ ∧ _ ∧ _))

end BacktestSystem

def BacktestStep.sends : BacktestStep → Bool
  | .run r => r.actions.any StrategyAction.sends
  | _ => false

namespace BacktestSystem

def LeavesNoDust (s : BacktestSystem) (t : Trade) : Prop :=
  s.results.positionManager.volume + t.signedVolume.value = 0 ∨
    dustVolume < |s.results.positionManager.volume + t.signedVolume.value|

instance (s : BacktestSystem) (t : Trade) : Decidable (s.LeavesNoDust t) :=
  inferInstanceAs (Decidable (_ ∨ _))

/-- A stop request is handled while neither a price of the feed nor a trade is on its way,
callbacks send no orders while only an open position keeps the instance from finishing, and
no trade leaves dust. -/
def ClosesAlone (s : BacktestSystem) (e : BacktestStep) : Prop :=
  (s.handling? e = some .stop → s.pricesInFlight = 0 ∧ s.inTransit = []) ∧
    (s.handling? e = some .callback → s.AwaitsClose → e.sends = false) ∧
    ∀ x ∈ s.handling? e, ∀ t ∈ x.trade?, s.LeavesNoDust t

instance (s : BacktestSystem) (e : BacktestStep) : Decidable (s.ClosesAlone e) :=
  inferInstanceAs (Decidable ((_ → _) ∧ (_ → _ → _) ∧ ∀ x ∈ s.handling? e, ∀ t ∈ x.trade?, _))

/-- Every trade was handled, and none of the parties holds a position. -/
structure Settled (s : BacktestSystem) : Prop where
  handled : s.handled = s.traded
  opened : s.opened = none
  posVolume : s.gateway.posVolume.value = 0

/-- The books agree with the trades that were handled. While the instance waits for its
position to be closed, at most one trade is on its way, and none once it is closed. -/
structure Booked (s : BacktestSystem) : Prop where
  fed : s.Fed
  sorted : s.queue.Sorted BacktestEvent.priority
  traded : s.traded = s.handled ++ s.inTransit
  ledger : s.gateway.posVolume.value = netVolume s.traded
  volume : s.results.positionManager.volume = netVolume s.handled
  few : s.AwaitsClose → s.inTransit.length ≤ 1
  flat : s.AwaitsClose → s.opened = none → s.inTransit = []

variable {s s' : BacktestSystem} {e : BacktestEvent} {es outbox : List BacktestEvent}
  {r : Reaction} {t : PublicTrade} {reader : SequentialMarketDataReader}

theorem inTransit_push (h : e.trade? = none) : (s.push e).inTransit = s.inTransit := by
  by_cases hp : e.priority = .normal
  · simp [inTransit, push, hp, ThreadSafePriorityQueue.push, h]
  · simp only [inTransit, push, ThreadSafePriorityQueue.normal_push_of_ne hp]

theorem inTransit_flush (h : s.outbox = e :: outbox) :
    ({ s with outbox }.push e).inTransit = s.inTransit := by
  cases he : e.trade? with
  | none =>
    rw [inTransit_push he]
    simp [inTransit, h, he]
  | some t =>
    have hp : e.priority = .normal := by cases e <;> first | rfl | cases he
    simp [inTransit, push, hp, ThreadSafePriorityQueue.push, h]

theorem inTransit_next (hq : s.queue.Sorted BacktestEvent.priority)
    (h : s.next? = some (e, s')) : s.inTransit = e.trade?.toList ++ s'.inTransit := by
  obtain ⟨hout, hpop, heq⟩ := next?_spec h
  have houtbox : s'.outbox = [] := by rw [heq]; exact hout
  rcases (hq.waitAndPop hpop).2 with ⟨-, hnormal⟩ | ⟨hp, hnormal⟩
  · rw [inTransit, inTransit, hnormal, hout, houtbox]
    cases he : e.trade? <;> simp [he]
  · have he : e.trade? = none := by cases e <;> first | rfl | exact absurd rfl hp
    rw [inTransit, inTransit, ← hnormal, hout, houtbox, he]
    rfl

theorem Emits.inTransit (h : s.Emits s' es) :
    s'.inTransit = s.inTransit ++ es.filterMap BacktestEvent.trade? := by
  have hsame : s'.inTransit = (s.emit es).inTransit := by
    rw [h.eq]
    rfl
  rw [hsame]
  simp [BacktestSystem.inTransit, emit]

theorem Emits.awaitsClose (h : s.Emits s' es) : s'.AwaitsClose ↔ s.AwaitsClose := by
  rw [h.eq]
  rfl

theorem Finishes.awaitsClose (h : s.Finishes s') (hc : s'.AwaitsClose) : s.AwaitsClose := by
  obtain ⟨hhandled, hno, hrest⟩ := hc
  have hno' : s.stopped = false := by
    by_contra hyes
    have := h.stopped.mpr (.inl (by simpa using hyes))
    simp [hno] at this
  rw [h.eq] at hhandled hrest
  exact ⟨hhandled, hno', hrest⟩

theorem Emits.opened (h : s.Emits s' es) : s'.opened = s.opened := by
  rw [BacktestSystem.opened, h.positionManager]
  rfl

namespace Booked

theorem init (symbol : Symbol) : (init symbol).Booked where
  fed := .init symbol
  sorted := ThreadSafePriorityQueue.sorted_empty
  traded := rfl
  ledger := rfl
  volume := rfl
  few := fun _ => Nat.zero_le _
  flat := fun _ _ => rfl

theorem emits_of (h : s.Booked) (he : s.Emits s' es)
    (hfew : s.AwaitsClose → s'.inTransit.length ≤ 1)
    (hflat : s.AwaitsClose → s.opened = none → s'.inTransit = []) : s'.Booked := by
  have hhandled : s'.handled = s.handled := by rw [he.eq]
  have htraded : s'.traded = s.traded ++ es.filterMap BacktestEvent.trade? := by rw [he.eq]
  constructor
  · exact h.fed.emits he
  · rw [he.eq]
    exact h.sorted
  · rw [htraded, hhandled, he.inTransit, h.traded, List.append_assoc]
  · rw [htraded, netVolume_append, he.ledger, h.ledger]
  · rw [hhandled, he.positionManager]
    exact h.volume
  · rw [he.awaitsClose]
    exact hfew
  · rw [he.awaitsClose, he.opened]
    exact hflat

theorem emits (h : s.Booked) (he : s.Emits s' es)
    (hquiet : s.AwaitsClose → es.filterMap BacktestEvent.trade? = []) : s'.Booked := by
  have hsame : s.AwaitsClose → s'.inTransit = s.inTransit := by
    intro hc
    rw [he.inTransit, hquiet hc, List.append_nil]
  apply h.emits_of he
  · intro hc
    rw [hsame hc]
    exact h.few hc
  · intro hc hopened
    rw [hsame hc]
    exact h.flat hc hopened

theorem of_flags (h : s.Booked) (hfed : s'.Fed) (hqueue : s'.queue = s.queue)
    (htransit : s'.inTransit = s.inTransit) (htraded : s'.traded = s.traded)
    (hhandled : s'.handled = s.handled) (hgateway : s'.gateway = s.gateway)
    (hpm : s'.results.positionManager = s.results.positionManager)
    (hfew : s'.AwaitsClose → s.inTransit.length ≤ 1)
    (hflat : s'.AwaitsClose → s.opened = none → s.inTransit = []) : s'.Booked where
  fed := hfed
  sorted := hqueue ▸ h.sorted
  traded := by rw [htraded, hhandled, htransit, h.traded]
  ledger := by rw [hgateway, htraded, h.ledger]
  volume := by rw [hpm, hhandled, h.volume]
  few := by rwa [htransit]
  flat := by rwa [htransit, opened, hpm]

theorem push (h : s.Booked) (ht : e.trade? = none) (hp : e.isPrice = false) :
    (s.push e).Booked where
  fed := h.fed.push hp
  sorted := h.sorted.push e
  traded := by rw [inTransit_push ht]; exact h.traded
  ledger := h.ledger
  volume := h.volume
  few := by rw [inTransit_push ht]; exact h.few
  flat := by rw [inTransit_push ht]; exact h.flat

theorem flush (h : s.Booked) (hout : s.outbox = e :: outbox) :
    ({ s with outbox }.push e).Booked where
  fed := h.fed.congr (pricesInFlight_flush hout) rfl rfl h.fed.sound
  sorted := h.sorted.push e
  traded := by rw [inTransit_flush hout]; exact h.traded
  ledger := h.ledger
  volume := h.volume
  few := by rw [inTransit_flush hout]; exact h.few
  flat := by rw [inTransit_flush hout]; exact h.flat

theorem setPanic (h : s.Booked) (doPanic : Bool) : (s.setPanic doPanic).Booked := by
  have hfed := h.fed.setPanic doPanic
  cases doPanic with
  | false => exact h
  | true => exact h.of_flags hfed rfl rfl rfl rfl rfl rfl h.few h.flat

end Booked

structure Outcome (s s' : BacktestSystem) : Prop where
  booked : s'.Booked
  settled : s.stopped = false → s'.stopped = true → s'.inTransit = [] ∧ s'.opened = none

namespace Booked

theorem unfinished (h : s'.Booked) (hstopped : s'.stopped = s.stopped) : s.Outcome s' where
  booked := h
  settled := fun hs hs' => by rw [hstopped, hs] at hs'; cases hs'

/-- The checks after a handler find the instance ready only once its last trade is handled. -/
theorem finishes {s₀ : BacktestSystem} (h : s.Booked) (hf : s.Finishes s')
    (hstopped : s.stopped = s₀.stopped) : s₀.Outcome s' := by
  have htransit : s'.inTransit = s.inTransit := by
    rw [hf.eq]
    rfl
  have hopened : s'.opened = s.opened := by
    rw [opened, hf.positionManager]
    rfl
  constructor
  · apply h.of_flags (h.fed.finishes hf)
    · rw [hf.eq]
    · exact htransit
    · rw [hf.eq]
    · rw [hf.eq]
    · rw [hf.eq]
    · exact hf.positionManager
    · exact fun hc => h.few (hf.awaitsClose hc)
    · exact fun hc => h.flat (hf.awaitsClose hc)
  · intro hno hyes
    rw [← hstopped] at hno
    rcases hf.stopped.mp hyes with hs | ⟨-, hhandled, hopen, hpending, hprogress, hgenerator⟩
    · simp [hno] at hs
    · rw [htransit, hopened]
      exact ⟨h.flat ⟨hhandled, hno, hpending, hprogress, hgenerator⟩ hopen, hopen⟩

theorem handleStart (h : s.Booked) : s.handleStart.Booked := by
  have hfed : s.handleStart.Fed := h.fed.congr rfl rfl rfl h.fed.sound
  apply h.of_flags hfed rfl rfl rfl rfl rfl rfl
  · rintro ⟨-, -, hpending, -⟩
    cases hpending
  · rintro ⟨-, -, hpending, -⟩
    cases hpending

theorem handleStop (h : s.Booked) (hlive : s.failure = none) (hprices : s.pricesInFlight = 0)
    (hnone : s.inTransit = []) : s.handleStop.Booked := by
  have hfed := Fed.handleStop hprices h.fed.sound
  have hcases := s.closePosition_cases s.lastTsAndPrice.2 s.lastTsAndPrice.1
  simp only [BacktestSystem.handleStop] at hfed ⊢
  rcases hcases with ⟨-, heq⟩ | ⟨pos, hopened, heq | ⟨es, t, hes, hfailure, htrades, -⟩⟩
  · rw [heq, if_pos hlive] at hfed ⊢
    apply h.of_flags hfed rfl rfl rfl rfl rfl rfl <;> simp [hnone]
  · rw [heq, if_neg (by simp)]
    exact h.emits (.of_eq rfl (fun hf => by cases hf) rfl rfl) fun _ => rfl
  · rw [if_pos (hfailure.trans hlive)] at hfed ⊢
    have htransit : (s.closePosition s.lastTsAndPrice.2 s.lastTsAndPrice.1).inTransit = [t] := by
      rw [hes.inTransit, hnone, htrades]
      rfl
    have hclosing : (s.closePosition s.lastTsAndPrice.2 s.lastTsAndPrice.1).Booked := by
      apply h.emits_of hes
      · intro _
        rw [htransit]
        exact le_rfl
      · intro _ hflat
        rw [hopened] at hflat
        cases hflat
    apply hclosing.of_flags hfed rfl rfl rfl rfl rfl rfl
    · intro _
      rw [htransit]
      exact le_rfl
    · intro _ hflat
      rw [hes.opened, hopened] at hflat
      cases hflat

theorem handleFeed {guid : Guid} (h : s.Booked) : (s.handleFeed guid reader).Booked := by
  have hfed : (s.handleFeed guid reader).Fed := h.fed.handleFeed
  rcases s.handleFeed_cases guid reader with
    ⟨-, heq⟩ | ⟨-, -, ⟨reader', -, heq⟩ | ⟨t, reader', -, heq⟩⟩
  · rwa [heq]
  · rw [heq] at hfed ⊢
    apply h.of_flags hfed rfl rfl rfl rfl rfl rfl
    · rintro ⟨-, -, -, -, hgenerator⟩
      cases hgenerator
    · rintro ⟨-, -, -, -, hgenerator⟩
      cases hgenerator
  · rw [heq] at hfed ⊢
    apply h.of_flags hfed rfl _ rfl rfl rfl rfl
    · rintro ⟨-, -, -, -, hgenerator⟩
      cases hgenerator
    · rintro ⟨-, -, -, -, hgenerator⟩
      cases hgenerator
    · simp [inTransit, emit, BacktestEvent.trade?]

theorem handlePrice (h : s.Booked) (hnone : s.pricesInFlight = 0)
    (hprogress : s.backtestInProgress = true) (hgenerator : s.historicalMdGenerator.isSome) :
    (s.handlePrice r t).Booked := by
  have hfed := Fed.handlePrice (r := r) (t := t) hnone hprogress hgenerator h.fed.sound
  obtain ⟨es, hes⟩ := s.emits_handleMdPrice r t
  have hbooked : (s.handleMdPrice r t).Booked := by
    apply h.emits hes
    rintro ⟨-, -, -, hno, -⟩
    rw [hprogress] at hno
    cases hno
  have hprogress' : (s.handleMdPrice r t).backtestInProgress = true := by
    rw [hes.eq]
    exact hprogress
  unfold BacktestSystem.handlePrice at hfed ⊢
  rcases (s.handleMdPrice r t).pushNextPrice_cases with
    ⟨hno, -⟩ | ⟨reader, -, -, heq⟩ | ⟨reader, t', reader', -, -, heq⟩
  · rw [hes.eq] at hno
    rw [show s.historicalMdGenerator = none from hno] at hgenerator
    cases hgenerator
  · rw [heq] at hfed ⊢
    apply hbooked.of_flags hfed rfl _ rfl rfl rfl rfl
    · rintro ⟨-, -, -, hno, -⟩
      cases hprogress'.symm.trans hno
    · rintro ⟨-, -, -, hno, -⟩
      cases hprogress'.symm.trans hno
    · simp [inTransit, emit, BacktestEvent.trade?]
  · rw [heq] at hfed ⊢
    apply hbooked.of_flags hfed rfl _ rfl rfl rfl rfl
    · rintro ⟨-, -, -, -, hno⟩
      cases hno
    · rintro ⟨-, -, -, -, hno⟩
      cases hno
    · simp [inTransit, emit, BacktestEvent.trade?]

theorem handleTrade {s₀ : BacktestSystem} {t : Trade} (h : s₀.Booked)
    (hnext : s₀.next? = some (.trade t, s)) (hdust : s₀.LeavesNoDust t) :
    (s.handleTrade r t).Booked := by
  obtain ⟨-, hpop, heq⟩ := next?_spec hnext
  have htransit : s₀.inTransit = t :: s.inTransit := inTransit_next h.sorted hnext
  have hprices : s₀.pricesInFlight = s.pricesInFlight := pricesInFlight_next hnext
  have htransit' : (s.handleTrade r t).inTransit = s.inTransit := by
    simp [BacktestSystem.handleTrade, emitCallbacks, emit, inTransit, BacktestEvent.trade?]
  have hhandled : (s.handleTrade r t).handled = s₀.handled ++ [t] := by rw [heq]; rfl
  have hnone : (s.handleTrade r t).AwaitsClose → s.inTransit = [] := by
    intro hc
    have hfew := h.few (by rw [heq] at hc; exact hc)
    rw [htransit, List.length_cons] at hfew
    exact List.length_eq_zero_iff.mp (by omega)
  constructor
  · have hsound : s.failure ≠ some .badDereference := by rw [heq]; exact h.fed.sound
    have hs : s.Fed := h.fed.congr hprices.symm (by rw [heq]) (by rw [heq]) hsound
    have hresults : ({ s with
        results := s.results.handleTrade t
        handled := s.handled ++ [t] } : BacktestSystem).Fed := hs.congr rfl rfl rfl hs.sound
    exact hresults.emits (emits_emitCallbacks _ r.first)
  · exact (h.sorted.waitAndPop hpop).1
  · have htraded : (s.handleTrade r t).traded = s₀.traded := by rw [heq]; rfl
    rw [htraded, hhandled, htransit', h.traded, htransit, List.append_assoc]
    rfl
  · rw [heq]
    exact h.ledger
  · have hpm : (s.handleTrade r t).results.positionManager =
        (s₀.results.handleTrade t).positionManager := by
      rw [heq]
      rfl
    rw [hpm, hhandled, InstanceResults.handleTrade_positionManager,
      PositionManager.volume_step hdust, h.volume, netVolume_concat]
  · intro hc
    rw [htransit', hnone hc]
    exact Nat.zero_le _
  · intro hc _
    rw [htransit', hnone hc]

theorem next (h : s.Booked) (hnext : s.next? = some (e, s')) (ht : e.trade? = none) :
    s'.Booked := by
  obtain ⟨-, hpop, heq⟩ := next?_spec hnext
  have htransit : s'.inTransit = s.inTransit := by
    rw [inTransit_next h.sorted hnext, ht]
    rfl
  have hsound : s'.failure ≠ some .badDereference := by rw [heq]; exact h.fed.sound
  have hcount := pricesInFlight_next hnext
  constructor
  · cases hp : e.isPrice with
    | true =>
      have hone := h.fed.one
      rw [List.countP_singleton, if_pos (by simp [hp])] at hcount
      exact .of_none (by omega) hsound
    | false =>
      rw [List.countP_singleton, if_neg (by simp [hp]), add_zero] at hcount
      exact h.fed.congr hcount.symm (by rw [heq]) (by rw [heq]) hsound
  · exact (h.sorted.waitAndPop hpop).1
  · rw [htransit, heq]
    exact h.traded
  · rw [heq]
    exact h.ledger
  · rw [heq]
    exact h.volume
  · intro hc
    rw [htransit]
    exact h.few (by rw [heq] at hc; exact hc)
  · intro hc hopened
    rw [htransit]
    exact h.flat (by rw [heq] at hc; exact hc) (by rw [heq] at hopened; exact hopened)

theorem run (h : s.Booked) (hlive : s.failure = none) (hnext : s.next? = some (e, s'))
    (hok : s.ClosesAlone (.run r)) : s.Outcome (s'.handleEvent r e) := by
  have hhandling : s.handling? (.run r) = some e := by simp [handling?, hlive, hnext]
  obtain ⟨-, -, heq⟩ := next?_spec hnext
  have hstopped : s'.stopped = s.stopped := by rw [heq]
  have hlive' : s'.failure = none := by rw [heq]; exact hlive
  cases e with
  | start =>
    exact (h.next hnext rfl).handleStart.finishes (finishes_afterEveryEvent _) hstopped
  | stop =>
    have hs := h.next hnext rfl
    obtain ⟨hprices, htransit⟩ := hok.1 hhandling
    have hprices' : s'.pricesInFlight = 0 := (pricesInFlight_next hnext).symm.trans hprices
    have htransit' : s'.inTransit = [] := (inTransit_next h.sorted hnext).symm.trans htransit
    have hstop := hs.handleStop hlive' hprices' htransit'
    exact hstop.finishes (finishes_afterEveryEvent _) (by simpa using hstopped)
  | feed guid reader =>
    exact (h.next hnext rfl).handleFeed.finishes (finishes_afterEveryEvent _)
      (by simpa using hstopped)
  | price t =>
    have hs := h.next hnext rfl
    have hcount := pricesInFlight_next hnext
    have hsame : [BacktestEvent.price t].countP BacktestEvent.isPrice = 1 := rfl
    have hone := h.fed.one
    obtain ⟨hgenerator, hprogress⟩ := h.fed.generator (by omega)
    have hbooked : (s'.handlePrice r t).Booked := by
      apply hs.handlePrice (by omega)
      · rw [heq]
        exact hprogress
      · rw [heq]
        exact hgenerator
    exact hbooked.finishes (finishes_afterEveryEvent _) (by simpa using hstopped)
  | error doPanic =>
    have hs := (h.next hnext rfl).setPanic doPanic
    apply unfinished _ (by cases doPanic <;> exact hstopped)
    have htransit : ((s'.setPanic doPanic).emit [.stop]).inTransit =
        (s'.setPanic doPanic).inTransit := by simp [inTransit, emit, BacktestEvent.trade?]
    have hfed : ((s'.setPanic doPanic).emit [.stop]).Fed :=
      hs.fed.congr (by simp [BacktestEvent.isPrice]) rfl rfl hs.fed.sound
    exact hs.of_flags hfed rfl htransit rfl rfl rfl rfl hs.few hs.flat
  | gateway x =>
    have hs := h.next hnext rfl
    have hom : s'.Emits { s' with om := s'.om.step x } [] :=
      .of_eq rfl id rfl (OrderManager.symbol_step s'.om x)
    have hemits := hom.trans (emits_emitCallbacks _ r.first)
    have hquiet : s'.AwaitsClose →
        ([] ++ List.replicate r.first BacktestEvent.callback).filterMap BacktestEvent.trade? =
          [] := by
      intro _
      rw [List.nil_append, List.filterMap_replicate_of_none rfl]
    exact (hs.emits hemits hquiet).unfinished hstopped
  | trade t =>
    have hdust := hok.2.2 _ hhandling t rfl
    exact (h.handleTrade hnext hdust).finishes (finishes_afterEveryEvent _) hstopped
  | callback =>
    have hs := h.next hnext rfl
    obtain ⟨es, hes, hquiet⟩ := s'.emits_actions r.actions
    apply unfinished _ (by rw [BacktestSystem.handleEvent, hes.eq]; exact hstopped)
    apply hs.emits hes
    intro hc
    apply hquiet
    have hno := hok.2.1 hhandling (by rw [heq] at hc; exact hc)
    simpa [BacktestStep.sends] using hno

theorem step {x : BacktestStep} (h : s.Booked) (hok : s.ClosesAlone x) : s.Outcome (s.step x) := by
  unfold BacktestSystem.step
  split
  case isFalse => exact h.unfinished rfl
  case isTrue hlive =>
    cases x with
    | runAsync =>
      have hs : ({ s with started := true } : BacktestSystem).Booked :=
        h.of_flags (h.fed.congr rfl rfl rfl h.fed.sound) rfl rfl rfl rfl rfl rfl h.few h.flat
      exact (hs.push rfl rfl).unfinished rfl
    | stopAsync doPanic =>
      exact ((h.setPanic doPanic).push rfl rfl).unfinished (by cases doPanic <;> rfl)
    | answer guid reader =>
      have hs : ({ s with mdRequests := s.mdRequests.erase guid } : BacktestSystem).Booked :=
        h.of_flags (h.fed.congr rfl rfl rfl h.fed.sound) rfl rfl rfl rfl rfl rfl h.few h.flat
      exact (hs.push rfl rfl).unfinished rfl
    | delayed => exact (h.push rfl rfl).unfinished rfl
    | flush =>
      simp only [advance]
      split
      case h_1 e outbox hout =>
        exact (h.flush hout).unfinished rfl
      case h_2 => exact h.unfinished rfl
    | run r =>
      simp only [advance]
      cases hnext : s.next? with
      | none => exact h.unfinished rfl
      | some p => exact h.run hlive hnext hok

end Booked

theorem Booked.settles (h : s.Booked) (htransit : s.inTransit = []) (hopened : s.opened = none) :
    s.Settled := by
  have hhandled : s.handled = s.traded := by rw [h.traded, htransit, List.append_nil]
  constructor
  · exact hhandled
  · exact hopened
  · have hvolume := h.volume
    rw [PositionManager.volume_of_flat hopened, hhandled] at hvolume
    rw [h.ledger, ← hvolume]

/--
When the finish promise is set, the instance has handled all trades and no position is open,
if stop requests find no price of the feed and no trade on its way, nothing is sent while the
position is being closed, and no trade leaves dust.
-/
theorem settled_of_closesAlone (symbol : Symbol) (xs : List BacktestStep) (x : BacktestStep)
    (h : Meets step ClosesAlone (init symbol) (xs ++ [x]))
    (hrunning : (after step (init symbol) xs).stopped = false)
    (hstopped : (after step (init symbol) (xs ++ [x])).stopped = true) :
    (after step (init symbol) (xs ++ [x])).Settled := by
  obtain ⟨hxs, hx⟩ := meets_concat.mp h
  have hbooked : (after step (init symbol) xs).Booked :=
    hxs.invariant (fun _ _ hs hok => (hs.step hok).booked) (Booked.init symbol)
  rw [after_concat] at hstopped ⊢
  have hout := hbooked.step hx
  obtain ⟨htransit, hopened⟩ := hout.settled hrunning hstopped
  exact hout.booked.settles htransit hopened

/-- A position bought by a callback is closed when the feed ends. -/
theorem settled_of_closesAlone_bought :
    let symbol : Symbol := ⟨"BTCUSDT", ⟨1, 100, 1⟩⟩
    let reader : SequentialMarketDataReader := .new [[⟨1, 100, ⟨1⟩⟩, ⟨2, 101, ⟨1⟩⟩]]
    let xs : List BacktestStep :=
      [.runAsync, .run {}, .answer Guid.first reader, .run {}, .flush, .run { first := 1 }, .flush,
        .flush, .run { actions := [.call (.sendMarketOrder 100 ⟨1⟩ 1)] }, .flush, .flush, .flush,
        .run {}, .run {}, .run {}, .run {}, .flush, .run {}, .flush, .flush, .flush, .run {},
        .run {}]
    let s := after step (init symbol) (xs ++ [.run {}])
    Meets step ClosesAlone (init symbol) (xs ++ [.run {}]) ∧
      (after step (init symbol) xs).stopped = false ∧ s.stopped = true ∧ s.traded.length = 2 ∧
      s.Settled := by
  intro symbol reader xs s
  have h : Meets step ClosesAlone (init symbol) (xs ++ [.run {}]) := by decide +kernel
  have hrunning : (after step (init symbol) xs).stopped = false := by decide +kernel
  have hstopped : s.stopped = true := by decide +kernel
  exact ⟨h, hrunning, hstopped, by decide +kernel,
    settled_of_closesAlone symbol xs (.run {}) h hrunning hstopped⟩

/-- The callback for the last price buys while the stop request is queued. -/
theorem finished_with_open_position :
    let symbol : Symbol := ⟨"BTCUSDT", ⟨1, 100, 1⟩⟩
    let reader : SequentialMarketDataReader := .new [[⟨1, 100, ⟨1⟩⟩]]
    let xs : List BacktestStep :=
      [.runAsync, .run {}, .answer Guid.first reader, .run {}, .flush, .run { first := 1 }, .flush,
        .flush, .run { actions := [.call (.sendMarketOrder 100 ⟨1⟩ 1)] }, .flush, .flush, .flush]
    let s := after step (init symbol) (xs ++ [.run {}])
    (after step (init symbol) xs).stopped = false ∧ s.stopped = true ∧ s.handled = [] ∧
      s.traded.length = 1 ∧ s.gateway.posVolume.value = 1 := by
  decide +kernel

end BacktestSystem

end CryptoTrading

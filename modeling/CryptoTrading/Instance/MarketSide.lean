import CryptoTrading.Instance.Feed

/-! # The market data side of an instance

Requests, their answers and the prices of the feed concern few fields of the instance.
What the strategy, the order manager and the gateway do leaves these as they are.
-/

namespace CryptoTrading

open Runs

namespace BacktestEvent

def isMarketData : BacktestEvent → Bool
  | start => true
  | feed .. => true
  | price _ => true
  | _ => false

def isStart : BacktestEvent → Bool
  | start => true
  | _ => false

def price? : BacktestEvent → Option PublicTrade
  | price t => some t
  | _ => none

variable {e : BacktestEvent}

theorem isMarketData_of_isStrategic (h : e.isStrategic) : e.isMarketData = false := by
  cases e <;> first | rfl | cases h

end BacktestEvent

/-- The fields that market data goes through, and its events on their way. -/
@[ext]
structure MarketSide where
  pendingRequests : List Guid
  mdRequests : List Guid
  nextRequest : Guid
  generator : Option SequentialMarketDataReader
  started : Bool
  events : List BacktestEvent

namespace MarketSide

def before (m : MarketSide) (e : BacktestEvent) : MarketSide :=
  { m with events := [e].filter BacktestEvent.isMarketData ++ m.events }

def load (m : MarketSide) (generator : Option SequentialMarketDataReader)
    (nextRequest : Guid) : MarketSide :=
  { m with generator, nextRequest }

def prices (m : MarketSide) : List PublicTrade := m.events.filterMap BacktestEvent.price?

def Answered (m : MarketSide) (guid : Guid) : Prop := ∃ reader, .feed guid reader ∈ m.events

section Fields

variable (m : MarketSide) (e : BacktestEvent) (generator : Option SequentialMarketDataReader)
  (nextRequest : Guid)

@[simp] theorem started_before : (m.before e).started = m.started := rfl

@[simp] theorem started_load : (m.load generator nextRequest).started = m.started := rfl

@[simp] theorem events_load : (m.load generator nextRequest).events = m.events := rfl

end Fields

theorem prices_concat (m : MarketSide) (t : PublicTrade) :
    (m.events ++ [BacktestEvent.price t]).filterMap BacktestEvent.price? = m.prices ++ [t] := by
  rw [List.filterMap_append]
  rfl

inductive Handles (m : MarketSide) : BacktestEvent → MarketSide → Prop
  | start : Handles m .start { m with
      pendingRequests := m.nextRequest :: m.pendingRequests
      mdRequests := m.mdRequests ++ [m.nextRequest]
      nextRequest := m.nextRequest + 1 }
  | ignored {guid : Guid} {reader : SequentialMarketDataReader}
    (h : ¬ (m.generator = none ∧ guid ∈ m.pendingRequests)) : Handles m (.feed guid reader) m
  | emptyFeed {guid : Guid} {reader reader' : SequentialMarketDataReader}
    (hgenerator : m.generator = none) (hpending : guid ∈ m.pendingRequests)
    (hreader : reader.remaining = []) :
    Handles m (.feed guid reader) { m with
      pendingRequests := m.pendingRequests.erase guid
      generator := some reader' }
  | feed {guid : Guid} {reader reader' : SequentialMarketDataReader} (t : PublicTrade)
    (hgenerator : m.generator = none) (hpending : guid ∈ m.pendingRequests)
    (hreader : reader.remaining = t :: reader'.remaining) :
    Handles m (.feed guid reader) { m with
      pendingRequests := m.pendingRequests.erase guid
      generator := some reader'
      events := m.events ++ [.price t] }
  | noGenerator {t : PublicTrade} (hgenerator : m.generator = none) : Handles m (.price t) m
  | lastPrice {t : PublicTrade} {reader : SequentialMarketDataReader}
    (hgenerator : m.generator = some reader) (hreader : reader.remaining = []) :
    Handles m (.price t) { m with generator := none }
  | price {t : PublicTrade} {reader reader' : SequentialMarketDataReader} (t' : PublicTrade)
    (hgenerator : m.generator = some reader)
    (hreader : reader.remaining = t' :: reader'.remaining) :
    Handles m (.price t) { m with
      generator := some reader'
      events := m.events ++ [.price t'] }
  | stop : Handles m .stop { m with generator := none }
  | other {e : BacktestEvent} (h : e.isMarketData = false) : Handles m e m

variable {m m' : MarketSide} {e : BacktestEvent} {guid : Guid}

theorem Handles.events_cases (h : m.Handles e m') :
    m'.events = m.events ∨ ∃ t, m'.events = m.events ++ [.price t] := by
  cases h with
  | feed t => exact .inr ⟨t, rfl⟩
  | price t => exact .inr ⟨t, rfl⟩
  | _ => exact .inl rfl

theorem Handles.answered (h : m.Handles e m') (hanswered : m'.Answered guid) :
    m.Answered guid := by
  obtain ⟨reader, hmem⟩ := hanswered
  rcases h.events_cases with heq | ⟨t, heq⟩
  · exact ⟨reader, heq ▸ hmem⟩
  · rw [heq, List.mem_append, List.mem_singleton] at hmem
    exact ⟨reader, hmem.resolve_right BacktestEvent.noConfusion⟩

theorem Handles.starts (h : m.Handles e m') :
    m'.events.countP BacktestEvent.isStart = m.events.countP BacktestEvent.isStart := by
  rcases h.events_cases with heq | ⟨t, heq⟩
  · rw [heq]
  · rw [heq, List.countP_append]
    rfl

theorem Handles.started (h : m.Handles e m') : m'.started = m.started := by
  cases h <;> rfl

theorem Handles.nextRequest (h : m.Handles e m') :
    m'.nextRequest = if e = .start then m.nextRequest + 1 else m.nextRequest := by
  cases h with
  | start => rfl
  | other h =>
    rw [if_neg]
    rintro rfl
    cases h
  | _ => rfl

theorem prices_eq_of_perm (h : m'.events.Perm m.events) (hone : m.prices.length ≤ 1) :
    m'.prices = m.prices := by
  have hperm : m'.prices.Perm m.prices := h.filterMap _
  match hm : m.prices with
  | [] =>
    rw [hm] at hperm
    exact hperm.eq_nil
  | [t] =>
    rw [hm] at hperm
    exact List.perm_singleton.mp hperm
  | t :: t' :: ts => simp [hm] at hone

theorem answered_before :
    (m.before e).Answered guid ↔ (∃ reader, e = .feed guid reader) ∨ m.Answered guid := by
  have hmem (reader : SequentialMarketDataReader) :
      .feed guid reader ∈ (m.before e).events ↔
        e = .feed guid reader ∨ .feed guid reader ∈ m.events := by
    simp only [before, List.mem_append, List.mem_filter, List.mem_singleton, eq_comm (b := e)]
    exact or_congr_left (and_iff_left_of_imp fun _ => rfl)
  simp only [Answered, hmem, exists_or]

theorem prices_eq_of_push (h : m'.events.Perm (m.before e).events) (he : e.price? = none)
    (hone : m.prices.length ≤ 1) : m'.prices = m.prices := by
  have hsame : (m.before e).prices = m.prices := by
    rw [prices, before, List.filterMap_append]
    cases e <;> first | rfl | cases he
  rw [← hsame] at hone ⊢
  exact prices_eq_of_perm h hone

theorem answered_iff_of_perm (h : m'.events.Perm m.events) :
    m'.Answered guid ↔ m.Answered guid := by
  simp only [Answered, h.mem_iff]

end MarketSide

namespace BacktestSystem

def marketEvents (s : BacktestSystem) : List BacktestEvent :=
  s.inFlight.filter BacktestEvent.isMarketData

def marketSide (s : BacktestSystem) : MarketSide where
  pendingRequests := s.pendingRequests
  mdRequests := s.mdRequests
  nextRequest := s.nextRequest
  generator := s.historicalMdGenerator
  started := s.started
  events := s.marketEvents

variable {s s' : BacktestSystem} {e : BacktestEvent} {es outbox : List BacktestEvent}
  {r : Reaction}

theorem marketEvents_emit :
    (s.emit es).marketEvents = s.marketEvents ++ es.filter BacktestEvent.isMarketData := by
  rw [marketEvents, inFlight_emit, List.filter_append]
  rfl

theorem marketSide_emit (h : es.filter BacktestEvent.isMarketData = []) :
    (s.emit es).marketSide = s.marketSide := by
  have hevents : (s.emit es).marketEvents = s.marketEvents := by
    rw [marketEvents_emit, h, List.append_nil]
  rw [marketSide, hevents]
  rfl

theorem marketEvents_push_of_not (h : e.isMarketData = false) :
    (s.push e).marketEvents.Perm s.marketEvents := by
  have hperm := (inFlight_push (s := s) (e := e)).filter BacktestEvent.isMarketData
  rwa [List.filter_cons_of_neg (by simp [h])] at hperm

theorem marketEvents_push (h : e.isMarketData) :
    (s.push e).marketEvents.Perm (e :: s.marketEvents) := by
  have hperm := (inFlight_push (s := s) (e := e)).filter BacktestEvent.isMarketData
  rwa [List.filter_cons_of_pos h] at hperm

theorem marketEvents_flush (h : s.outbox = e :: outbox) :
    ({ s with outbox }.push e).marketEvents.Perm s.marketEvents :=
  (inFlight_flush h).filter _

theorem Emits.marketSide (h : s.Emits s' es) : s'.marketSide = s.marketSide := by
  have hevents : s'.marketEvents = s.marketEvents :=
    h.filter_inFlight fun _ => BacktestEvent.isMarketData_of_isStrategic
  rw [BacktestSystem.marketSide, hevents, h.eq]
  rfl

theorem marketSide_next (h : s.next? = some (e, s')) :
    s.marketSide = s'.marketSide.before e := by
  obtain ⟨-, -, heq⟩ := next?_spec h
  have hevents : s.marketEvents =
      [e].filter BacktestEvent.isMarketData ++ s'.marketEvents := by
    rw [marketEvents, inFlight_next h, marketEvents, ← List.filter_append, List.singleton_append]
  rw [marketSide, hevents, heq]
  rfl

theorem Finishes.marketSide (h : s.Finishes s') : s'.marketSide = s.marketSide := by
  have hevents : s'.marketEvents = s.marketEvents := by
    rw [marketEvents, h.inFlight]
    rfl
  rw [BacktestSystem.marketSide, hevents, h.eq]
  rfl

theorem marketSide_afterEveryEvent (s : BacktestSystem) :
    s.afterEveryEvent.marketSide = s.marketSide :=
  (finishes_afterEveryEvent s).marketSide

theorem handles_handleFeed (s : BacktestSystem) (guid : Guid)
    (reader : SequentialMarketDataReader) :
    s.marketSide.Handles (.feed guid reader) (s.handleFeed guid reader).marketSide := by
  rcases s.handleFeed_cases guid reader with
    ⟨hnot, h⟩ | ⟨hgenerator, hpending, ⟨reader', hreader, h⟩ | ⟨t, reader', hreader, h⟩⟩
  · rw [h]
    apply MarketSide.Handles.ignored
    rintro ⟨hnone, hmem⟩
    have hnone : s.historicalMdGenerator = none := hnone
    rcases hnot with hsome | hnot
    · simp [hnone] at hsome
    · exact hnot hmem
  · rw [h]
    exact .emptyFeed hgenerator hpending hreader
  · have hfeed := MarketSide.Handles.feed (m := s.marketSide) t hgenerator hpending hreader
    convert hfeed using 1
    rw [h, marketSide, marketEvents_emit]
    rfl

theorem handles_pushNextPrice (s : BacktestSystem) (t : PublicTrade) :
    s.marketSide.Handles (.price t) s.pushNextPrice.marketSide := by
  rcases s.pushNextPrice_cases with
    ⟨hnone, h⟩ | ⟨reader, hgenerator, hreader, h⟩ | ⟨reader, t', reader', hgenerator, hreader, h⟩
  · rw [h]
    exact .noGenerator hnone
  · rw [h, marketSide_emit rfl]
    exact .lastPrice hgenerator hreader
  · have hprice := MarketSide.Handles.price (m := s.marketSide) (t := t) t' hgenerator hreader
    convert hprice using 1
    rw [h, marketSide, marketEvents_emit]
    rfl

theorem handles_handleStop (s : BacktestSystem) :
    s.marketSide.Handles .stop s.handleStop.marketSide := by
  obtain ⟨es, hes⟩ := s.emits_closePosition s.lastTsAndPrice.2 s.lastTsAndPrice.1
  rw [← hes.marketSide]
  simp only [handleStop]
  split
  · exact .stop
  · exact .other rfl

theorem marketSide_setPanic (s : BacktestSystem) (doPanic : Bool) :
    (s.setPanic doPanic).marketSide = s.marketSide := by
  unfold setPanic
  split <;> rfl

theorem handles_handleEvent (s : BacktestSystem) (r : Reaction) (e : BacktestEvent) :
    s.marketSide.Handles e (s.handleEvent r e).marketSide := by
  cases e with
  | start =>
    rw [handleEvent, marketSide_afterEveryEvent]
    exact .start
  | stop =>
    rw [handleEvent, marketSide_afterEveryEvent]
    exact s.handles_handleStop
  | feed guid reader =>
    rw [handleEvent, marketSide_afterEveryEvent]
    exact s.handles_handleFeed guid reader
  | price t =>
    obtain ⟨es, hes⟩ := s.emits_handleMdPrice r t
    rw [handleEvent, marketSide_afterEveryEvent, handlePrice, ← hes.marketSide]
    exact handles_pushNextPrice _ t
  | error doPanic =>
    rw [handleEvent, marketSide_emit rfl, marketSide_setPanic]
    exact .other rfl
  | gateway x =>
    rw [handleEvent, (emits_emitCallbacks _ r.first).marketSide]
    exact .other rfl
  | trade t =>
    rw [handleEvent, marketSide_afterEveryEvent, handleTrade,
      (emits_emitCallbacks _ r.first).marketSide]
    exact .other rfl
  | callback =>
    obtain ⟨es, hes, -⟩ := s.emits_actions r.actions
    rw [handleEvent, hes.marketSide]
    exact .other rfl

end BacktestSystem

end CryptoTrading

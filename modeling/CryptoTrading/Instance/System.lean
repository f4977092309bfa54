import CryptoTrading.Instance.Results
import CryptoTrading.Loop.Queue
import CryptoTrading.Strategy.Base

/-! # The strategy instance and its event loop

All handlers run on one thread, which takes events from a priority queue. What a
handler pushes arrives in the queue one event after the other, and the gateway's
and the market data's threads push in between.
-/

namespace CryptoTrading

open Runs

inductive WorkStatus | stopped | backtesting | live | panic
  deriving DecidableEq, Repr

structure Attempt where
  side : Side
  price : Price
  ts : Milliseconds
  deriving DecidableEq

inductive InstanceEvent
  /-- A price, with what the strategy's callbacks will attempt that it causes, be it directly
  or through the candles it completes. -/
  | price (ts : Milliseconds) (price : ℚ) (callbacks : List (List Attempt))
  | callback (attempts : List Attempt)
  | orderResponse (r : OrderResponseEvent)
  | orderTrade (t : Trade)
  /-- The trade of an `orderTrade`, for the strategy instance. -/
  | instanceTrade (t : Trade)
  | openedPos (v : Bool)
  | error (doPanic : Bool)
  | stopRequest
  | mdStatus (status : WorkStatus)
  deriving DecidableEq

@[reducible] def InstanceEvent.priority : InstanceEvent → Priority
  | error _ => .high
  | price .. => .low
  | _ => .normal

def InstanceEvent.instanceTrade? : InstanceEvent → Option Trade
  | instanceTrade t => some t
  | _ => none

def InstanceEvent.stops : InstanceEvent → Bool
  | stopRequest => true
  | mdStatus status => status = .stopped || status = .panic
  | _ => false

theorem InstanceEvent.of_stops {e : InstanceEvent} (h : e.stops) :
    e.priority = .normal ∧ e.instanceTrade? = none := by
  cases e <;> first | exact ⟨rfl, rfl⟩ | cases h

/-- The instance, the queue of its loop, and a log of what was sent and traded. -/
structure InstanceSystem where
  om : OrderManager
  strategy : StrategyBase
  results : InstanceResults
  lastTsAndPrice : Milliseconds × ℚ
  /-- With a request for historical data the market data's status is not watched. -/
  historical : Bool
  queue : ThreadSafePriorityQueue InstanceEvent
  /-- What the running handler is still going to push. -/
  outbox : List InstanceEvent
  /-- The trade that the gateway has pushed to the order manager only. -/
  pushing : Option Trade
  entries : List MarketOrder
  closings : List MarketOrder
  /-- The orders whose response was pushed. -/
  acked : List Guid
  /-- All trades, in the order in which they were pushed. -/
  traded : List Trade
  /-- The trades that the instance has handled. -/
  handled : List Trade

inductive InstanceStep
  | price (ts : Milliseconds) (price : ℚ) (callbacks : List (List Attempt))
  | respond (r : OrderResponseEvent)
  | beginTrade (t : Trade)
  | endTrade
  | stopAsync
  | error (doPanic : Bool)
  | mdStatus (status : WorkStatus)
  | flush
  | run
  deriving DecidableEq

namespace InstanceSystem

def start (om : OrderManager) (strategy : StrategyBase) (results : InstanceResults)
    (lastTsAndPrice : Milliseconds × ℚ) (historical : Bool) : InstanceSystem where
  om := om
  strategy := strategy
  results := results
  lastTsAndPrice := lastTsAndPrice
  historical := historical
  queue := .empty
  outbox := []
  pushing := none
  entries := []
  closings := []
  acked := []
  traded := []
  handled := []

def init (symbol : Symbol) (historical : Bool) : InstanceSystem :=
  start (.init symbol) {} .init (0, 0) historical

variable (s : InstanceSystem)

def opened : Option OpenedPosition := s.results.positionManager.openedPosition

def push (e : InstanceEvent) : InstanceSystem := { s with queue := s.queue.push e.priority e }

def trySendOrder (a : Attempt) : InstanceSystem :=
  let (om, out, _) := s.strategy.trySendOrder s.om a.side a.price a.ts
  { s with om, entries := s.entries ++ out.filterMap OrderManagerOutput.order? }

def closingVolume (pos : OpenedPosition) : SignedVolume :=
  .ofUnsigned pos.absoluteVolume.unsigned pos.absoluteVolume.side.opposite

def closePosition (price : ℚ) (ts : Milliseconds) : InstanceSystem :=
  match s.opened with
  | none => s
  | some pos =>
    let (om, out, _) := s.om.sendMarketOrder price (closingVolume pos) ts
    { s with om, closings := s.closings ++ out.filterMap OrderManagerOutput.order? }

/-- `stop_async`, as far as the loop sees it. -/
def stopAsync : InstanceSystem := s.push .stopRequest

def handleTrade (t : Trade) : InstanceSystem :=
  let results := s.results.handleTrade t
  { s with
    results
    handled := s.handled ++ [t]
    outbox := [.openedPos results.positionManager.openedPosition.isSome] }

def handleEvent : InstanceEvent → InstanceSystem
  | .price ts price callbacks =>
    { s with lastTsAndPrice := (ts, price), outbox := callbacks.map .callback }
  | .callback attempts => attempts.foldl trySendOrder s
  | .orderResponse r => { s with om := s.om.step (.orderResponse r) }
  | .orderTrade t => { s with om := s.om.step (.trade t) }
  | .instanceTrade t => s.handleTrade t
  | .openedPos v => { s with strategy := s.strategy.onOpenedPos v }
  | .error _ => { s with outbox := [.stopRequest] }
  | .stopRequest => s.closePosition s.lastTsAndPrice.2 s.lastTsAndPrice.1
  | .mdStatus status =>
    if status = .stopped ∨ status = .panic then
      s.closePosition s.lastTsAndPrice.2 s.lastTsAndPrice.1
    else s

def next? : Option (InstanceEvent × InstanceSystem) :=
  if s.outbox = [] then s.queue.waitAndPop.map fun (e, queue) => (e, { s with queue }) else none

def step : InstanceStep → InstanceSystem
  | .price ts price callbacks => s.push (.price ts price callbacks)
  | .respond r => { s.push (.orderResponse r) with acked := r.requestGuid :: s.acked }
  | .beginTrade t =>
    -- The channel is locked until a trade is pushed to both its subscribers.
    match s.pushing with
    | some _ => s
    | none => { s.push (.orderTrade t) with pushing := some t, traded := s.traded ++ [t] }
  | .endTrade =>
    match s.pushing with
    | some t => { s.push (.instanceTrade t) with pushing := none }
    | none => s
  | .stopAsync => s.stopAsync
  | .error doPanic => s.push (.error doPanic)
  | .mdStatus status => if s.historical then s else s.push (.mdStatus status)
  | .flush =>
    match s.outbox with
    | e :: outbox => { s with outbox }.push e
    | [] => s
  | .run =>
    match s.next? with
    | some (e, s') => s'.handleEvent e
    | none => s

def inTransit : List Trade :=
  s.queue.normal.filterMap InstanceEvent.instanceTrade? ++ s.pushing.toList

def AddsEntry (s s' : InstanceSystem) : Prop :=
  ∃ om o, s.om.Adds om o ∧ s' = { s with om, entries := s.entries ++ [o] }

variable {s} {s' : InstanceSystem} {a : Attempt} {attempts : List Attempt} {price : ℚ}
  {ts : Milliseconds} {e : InstanceEvent} {c : InstanceStep} {pm₀ : PositionManager}

theorem trySendOrder_cases :
    s.trySendOrder a = s ∨ s.om.pendingOrders = [] ∧ s.strategy.hasOpenedPos = false ∧
      s.AddsEntry (s.trySendOrder a) := by
  rcases s.strategy.trySendOrder_cases s.om a.side a.price a.ts with
    h | ⟨hpending, hopened, vol, hom, hout⟩
  · left
    simp [trySendOrder, h]
  · rcases s.om.sendMarketOrder_cases a.price.value vol a.ts with
      ⟨hsame, hnone⟩ | ⟨o, hadds, hone, _⟩
    · left
      simp [trySendOrder, hom, hout, hsame, hnone]
    · refine .inr ⟨hpending, hopened, _, o, hadds, ?_⟩
      simp [trySendOrder, hom, hout, hone]

theorem AddsEntry.pending (h : s.AddsEntry s') :
    s'.om.pendingOrders ≠ [] := by
  obtain ⟨om, o, hadds, rfl⟩ := h
  refine List.ne_nil_of_mem (a := s.om.nextGuid) (AList.mem_keys.mp ?_)
  rw [hadds.orders]
  exact AList.mem_insert _ |>.mpr (.inl rfl)

theorem callback_cases (attempts : List Attempt) :
    attempts.foldl trySendOrder s = s ∨ s.om.pendingOrders = [] ∧
      s.strategy.hasOpenedPos = false ∧ s.AddsEntry (attempts.foldl trySendOrder s) := by
  induction attempts generalizing s with
  | nil => exact .inl rfl
  | cons a attempts ih =>
    rw [List.foldl_cons]
    rcases trySendOrder_cases (s := s) (a := a) with h | ⟨hpending, hopened, hadds⟩
    · rw [h]
      exact ih
    · rcases ih (s := s.trySendOrder a) with hrest | ⟨hnone, _⟩
      · rw [hrest]
        exact .inr ⟨hpending, hopened, hadds⟩
      · exact absurd hnone hadds.pending

theorem closePosition_cases (s : InstanceSystem) (price : ℚ) (ts : Milliseconds) :
    s.closePosition price ts = s ∨ ∃ pos om o, s.opened = some pos ∧ s.om.Adds om o ∧
      s.om.adjustedVolume (closingVolume pos) = .ok o.signedVolume ∧
      s.closePosition price ts = { s with om, closings := s.closings ++ [o] } := by
  unfold closePosition
  cases h : s.opened with
  | none => exact .inl rfl
  | some pos =>
    rcases s.om.sendMarketOrder_cases price (closingVolume pos) ts with
      ⟨hsame, hnone⟩ | ⟨o, hadds, hone, hvol⟩
    · left
      simp [hsame, hnone]
    · refine .inr ⟨pos, _, o, rfl, hadds, hvol, ?_⟩
      simp [hone]

inductive Handles (s : InstanceSystem) : InstanceEvent → InstanceSystem → Prop
  | price (ts : Milliseconds) (price : ℚ) (callbacks : List (List Attempt)) :
    Handles s (.price ts price callbacks)
      { s with lastTsAndPrice := (ts, price), outbox := callbacks.map .callback }
  | noEntry (attempts : List Attempt) : Handles s (.callback attempts) s
  | entry {attempts : List Attempt} {om : OrderManager} {o : MarketOrder}
    (hnonempty : attempts ≠ []) (hpending : s.om.pendingOrders = [])
    (hopened : s.strategy.hasOpenedPos = false) (hadds : s.om.Adds om o) :
    Handles s (.callback attempts) { s with om, entries := s.entries ++ [o] }
  | orderResponse (r : OrderResponseEvent) :
    Handles s (.orderResponse r) { s with om := s.om.step (.orderResponse r) }
  | orderTrade (t : Trade) : Handles s (.orderTrade t) { s with om := s.om.step (.trade t) }
  | instanceTrade (t : Trade) : Handles s (.instanceTrade t) (s.handleTrade t)
  | openedPos (v : Bool) :
    Handles s (.openedPos v) { s with strategy := s.strategy.onOpenedPos v }
  | error (doPanic : Bool) : Handles s (.error doPanic) { s with outbox := [.stopRequest] }
  | ignored (status : WorkStatus) : Handles s (.mdStatus status) s
  | noClosing {e : InstanceEvent} (hstops : e.stops) : Handles s e s
  | closing {e : InstanceEvent} {pos : OpenedPosition} {om : OrderManager} {o : MarketOrder}
    (hstops : e.stops) (hopened : s.opened = some pos) (hadds : s.om.Adds om o)
    (hvol : s.om.adjustedVolume (closingVolume pos) = .ok o.signedVolume) :
    Handles s e { s with om, closings := s.closings ++ [o] }

theorem handles_closePosition (price : ℚ) (ts : Milliseconds) (h : e.stops) :
    s.Handles e (s.closePosition price ts) := by
  rcases s.closePosition_cases price ts with hsame | ⟨pos, om, o, hopened, hadds, hvol, hsent⟩
  · rw [hsame]
    exact .noClosing h
  · rw [hsent]
    exact .closing h hopened hadds hvol

theorem handles_handleEvent (s : InstanceSystem) (e : InstanceEvent) :
    s.Handles e (s.handleEvent e) := by
  cases e with
  | price ts price callbacks => exact .price ts price callbacks
  | callback attempts =>
    rcases callback_cases (s := s) attempts with hsame | ⟨hpending, hopened, hentry⟩
    · rw [handleEvent, hsame]
      exact .noEntry attempts
    · have hnonempty : attempts ≠ [] := by
        rintro rfl
        exact hentry.pending hpending
      obtain ⟨om, o, hadds, hsent⟩ := hentry
      rw [handleEvent, hsent]
      exact .entry hnonempty hpending hopened hadds
  | orderResponse r => exact .orderResponse r
  | orderTrade t => exact .orderTrade t
  | instanceTrade t => exact .instanceTrade t
  | openedPos v => exact .openedPos v
  | error doPanic => exact .error doPanic
  | stopRequest => exact handles_closePosition _ _ rfl
  | mdStatus status =>
    rw [handleEvent]
    split
    case isTrue h => exact handles_closePosition _ _ (by simpa [InstanceEvent.stops] using h)
    case isFalse h => exact .ignored status

theorem run_cases :
    s.step .run = s ∨ ∃ e queue, s.outbox = [] ∧ s.queue.waitAndPop = some (e, queue) ∧
      Handles { s with queue } e (s.step .run) := by
  unfold step next?
  by_cases h : s.outbox = []
  · rw [if_pos h]
    cases hpop : s.queue.waitAndPop with
    | none => exact .inl rfl
    | some x => exact .inr ⟨x.1, x.2, h, rfl, handles_handleEvent _ x.1⟩
  · rw [if_neg h]
    exact .inl rfl

inductive HandlerPushes : List InstanceEvent → Prop
  | callbacks (callbacks : List (List Attempt)) : HandlerPushes (callbacks.map .callback)
  | openedPos (v : Bool) : HandlerPushes [.openedPos v]
  | stopRequest : HandlerPushes [.stopRequest]

theorem HandlerPushes.nil : HandlerPushes [] := .callbacks []

theorem HandlerPushes.of_cons {outbox : List InstanceEvent} (h : HandlerPushes (e :: outbox)) :
    HandlerPushes outbox ∧ e.priority = .normal ∧ e.instanceTrade? = none := by
  generalize hl : e :: outbox = l at h
  cases h with
  | callbacks callbacks =>
    cases callbacks with
    | nil => cases hl
    | cons attempts callbacks =>
      obtain ⟨rfl, rfl⟩ := List.cons.inj hl
      exact ⟨.callbacks callbacks, rfl, rfl⟩
  | openedPos v =>
    obtain ⟨rfl, rfl⟩ := List.cons.inj hl
    exact ⟨.nil, rfl, rfl⟩
  | stopRequest =>
    obtain ⟨rfl, rfl⟩ := List.cons.inj hl
    exact ⟨.nil, rfl, rfl⟩

theorem HandlerPushes.callbacks_of_cons {outbox : List InstanceEvent} {attempts : List Attempt}
    (h : HandlerPushes (.callback attempts :: outbox)) :
    ∃ callbacks : List (List Attempt), outbox = callbacks.map .callback := by
  generalize hl : InstanceEvent.callback attempts :: outbox = l at h
  cases h with
  | callbacks callbacks =>
    cases callbacks with
    | nil => cases hl
    | cons attempts callbacks => exact ⟨callbacks, (List.cons.inj hl).2⟩
  | openedPos v => cases hl
  | stopRequest => cases hl

/-- The queue is sorted, and the position is that of the trades which have arrived, in the
order in which all trades were pushed. -/
structure Coherent (s : InstanceSystem) (pm₀ : PositionManager) : Prop where
  sorted : s.queue.Sorted InstanceEvent.priority
  outbox : HandlerPushes s.outbox
  ledger : s.traded = s.handled ++ s.inTransit
  books : s.results.positionManager = after PositionManager.step pm₀ s.handled

theorem start_coherent (om : OrderManager) (strategy : StrategyBase) (results : InstanceResults)
    (last : Milliseconds × ℚ) (historical : Bool) :
    (start om strategy results last historical).Coherent results.positionManager :=
  ⟨ThreadSafePriorityQueue.sorted_empty, .nil, rfl, rfl⟩

theorem Coherent.handled_eq_nil (hs : s.Coherent pm₀) (h : s.traded = []) : s.handled = [] :=
  (List.append_eq_nil_iff.mp (hs.ledger.symm.trans h)).1

structure SameLedger (s s' : InstanceSystem) : Prop where
  queue : s'.queue = s.queue
  pushing : s'.pushing = s.pushing
  acked : s'.acked = s.acked
  traded : s'.traded = s.traded
  handled : s'.handled = s.handled
  results : s'.results = s.results

theorem Handles.log_cases (h : s.Handles e s') :
    (∃ t, e = .instanceTrade t ∧ s' = s.handleTrade t) ∨
      e.instanceTrade? = none ∧ s.SameLedger s' := by
  cases h with
  | instanceTrade t => exact .inl ⟨t, rfl, rfl⟩
  | noClosing hstops => exact .inr ⟨(InstanceEvent.of_stops hstops).2, rfl, rfl, rfl, rfl, rfl, rfl⟩
  | closing hstops => exact .inr ⟨(InstanceEvent.of_stops hstops).2, rfl, rfl, rfl, rfl, rfl, rfl⟩
  | _ => exact .inr ⟨rfl, rfl, rfl, rfl, rfl, rfl, rfl⟩

theorem Handles.pushes (h : s.Handles e s') (hidle : s.outbox = []) :
    HandlerPushes s'.outbox := by
  cases h with
  | price ts price callbacks => exact .callbacks callbacks
  | instanceTrade t => exact .openedPos _
  | error doPanic => exact .stopRequest
  | _ => exact hidle ▸ .nil

theorem SameLedger.coherent (h : s.SameLedger s') (hs : s.Coherent pm₀)
    (houtbox : HandlerPushes s'.outbox) : s'.Coherent pm₀ := by
  refine ⟨by rw [h.queue]; exact hs.sorted, houtbox, ?_,
    by rw [h.results, h.handled]; exact hs.books⟩
  rw [h.traded, h.handled, hs.ledger, inTransit, inTransit, h.queue, h.pushing]

theorem normal_push (s : InstanceSystem) (h : e.priority = .normal) :
    (s.push e).queue.normal = s.queue.normal ++ [e] := by
  rw [push, h]
  rfl

theorem normal_push_of_ne (s : InstanceSystem) (h : e.priority ≠ .normal) :
    (s.push e).queue.normal = s.queue.normal :=
  ThreadSafePriorityQueue.normal_push_of_ne h

theorem inTransit_push (s : InstanceSystem) (h : e.instanceTrade? = none) :
    (s.push e).inTransit = s.inTransit := by
  have hfilter : (s.push e).queue.normal.filterMap InstanceEvent.instanceTrade? =
      s.queue.normal.filterMap InstanceEvent.instanceTrade? := by
    by_cases hp : e.priority = .normal
    · rw [normal_push s hp, List.filterMap_append, List.filterMap_cons_none h, List.filterMap_nil,
        List.append_nil]
    · rw [normal_push_of_ne s hp]
  rw [inTransit, hfilter]
  rfl

theorem Coherent.push (hs : s.Coherent pm₀) (h : e.instanceTrade? = none) :
    (s.push e).Coherent pm₀ :=
  ⟨hs.sorted.push e, hs.outbox, hs.ledger.trans (by rw [inTransit_push s h]; rfl), hs.books⟩

theorem Coherent.beginTrade {t : Trade} (hs : s.Coherent pm₀) (hpushing : s.pushing = none) :
    ({ s.push (.orderTrade t) with
      pushing := some t, traded := s.traded ++ [t] } : InstanceSystem).Coherent pm₀ := by
  refine ⟨hs.sorted.push (InstanceEvent.orderTrade t), hs.outbox, ?_, hs.books⟩
  have hfilter := inTransit_push (e := .orderTrade t) s rfl
  simp only [inTransit, InstanceSystem.push, hpushing, Option.toList_none, List.append_nil]
    at hfilter
  simp [hs.ledger, inTransit, hpushing, hfilter, InstanceSystem.push]

theorem Coherent.endTrade {t : Trade} (hs : s.Coherent pm₀) (hpushing : s.pushing = some t) :
    ({ s.push (.instanceTrade t) with pushing := none } : InstanceSystem).Coherent pm₀ := by
  refine ⟨hs.sorted.push (InstanceEvent.instanceTrade t), hs.outbox, ?_, hs.books⟩
  have hnormal := normal_push (e := .instanceTrade t) s rfl
  have hledger := hs.ledger
  simp only [inTransit, hnormal, List.filterMap_append, hpushing] at hledger ⊢
  exact hledger.trans (by simp [InstanceSystem.push, InstanceEvent.instanceTrade?])

theorem Coherent.take {queue : ThreadSafePriorityQueue InstanceEvent} (hs : s.Coherent pm₀)
    (h : s.queue.waitAndPop = some (e, queue)) :
    queue.Sorted InstanceEvent.priority ∧
      s.inTransit = e.instanceTrade?.toList ++ { s with queue }.inTransit := by
  obtain ⟨hsorted, hnormal | ⟨hp, hnormal⟩⟩ := hs.sorted.waitAndPop h
  · refine ⟨hsorted, ?_⟩
    rw [inTransit, hnormal.2, inTransit]
    cases he : e.instanceTrade? with
    | none => rw [List.filterMap_cons_none he]; rfl
    | some t => rw [List.filterMap_cons_some he]; rfl
  · refine ⟨hsorted, ?_⟩
    have he : e.instanceTrade? = none := by
      cases e <;> first | rfl | exact absurd rfl hp
    rw [he, inTransit, inTransit, hnormal]
    rfl

theorem Coherent.run (hs : s.Coherent pm₀) : (s.step .run).Coherent pm₀ := by
  rcases run_cases (s := s) with h | ⟨e, queue, hidle, hpop, h⟩
  · rwa [h]
  obtain ⟨hsorted, htransit⟩ := hs.take hpop
  have hledger := hs.ledger
  rw [htransit] at hledger
  rcases h.log_cases with ⟨t, rfl, hsame⟩ | ⟨he, hsame⟩
  · rw [hsame]
    refine ⟨hsorted, .openedPos _, ?_, ?_⟩
    · simpa [handleTrade, inTransit, InstanceEvent.instanceTrade?] using hledger
    · simp only [handleTrade, InstanceResults.handleTrade_positionManager, after_concat, hs.books]
  · rw [he] at hledger
    exact hsame.coherent ⟨hsorted, hs.outbox, hledger, hs.books⟩ (h.pushes hidle)

theorem Coherent.step (hs : s.Coherent pm₀) : (s.step c).Coherent pm₀ := by
  cases c with
  | price ts price callbacks => exact hs.push rfl
  | respond r =>
    have hpush := hs.push (e := .orderResponse r) rfl
    exact ⟨hpush.sorted, hpush.outbox, hpush.ledger, hpush.books⟩
  | beginTrade t =>
    simp only [InstanceSystem.step]
    cases h : s.pushing with
    | some t' => exact hs
    | none => exact hs.beginTrade h
  | endTrade =>
    simp only [InstanceSystem.step]
    cases h : s.pushing with
    | some t => exact hs.endTrade h
    | none => exact hs
  | stopAsync => exact hs.push rfl
  | error doPanic => exact hs.push rfl
  | mdStatus status =>
    simp only [InstanceSystem.step]
    split
    · exact hs
    · exact hs.push rfl
  | flush =>
    simp only [InstanceSystem.step]
    cases h : s.outbox with
    | nil => exact hs
    | cons e outbox =>
      obtain ⟨houtbox, _, he⟩ := (h ▸ hs.outbox).of_cons
      have hrest : ({ s with outbox } : InstanceSystem).Coherent pm₀ :=
        ⟨hs.sorted, houtbox, hs.ledger, hs.books⟩
      exact hrest.push he
  | run => exact hs.run

end InstanceSystem

end CryptoTrading

import CryptoTrading.Engine.QtySteps
import CryptoTrading.Instance.System
import CryptoTrading.MarketData.Reader

/-! # An instance in a backtest

The prices of the historical feed go through the queue of the instance one at a time:
the handler of one pushes the next. The gateway answers each request before it returns,
so that its trades are queued by the handler that caused them. The strategy is anything
that reacts to what is queued for it.
-/

namespace CryptoTrading

open Runs AddSubgroup

/-- The events of the loop, each with the handler it is for. -/
inductive BacktestEvent
  | start
  | stop
  | feed (guid : Guid) (reader : SequentialMarketDataReader)
  | price (t : PublicTrade)
  | error (doPanic : Bool)
  | gateway (e : GatewayEvent)
  | trade (t : Trade)
  | callback
  deriving DecidableEq

namespace BacktestEvent

@[reducible] def priority : BacktestEvent → Priority
  | error _ => .high
  | feed .. => .low
  | price _ => .low
  | _ => .normal

def trade? : BacktestEvent → Option Trade
  | trade t => some t
  | _ => none

def isPrice : BacktestEvent → Bool
  | price _ => true
  | _ => false

def isStrategic : BacktestEvent → Bool
  | start => false
  | stop => false
  | feed .. => false
  | price _ => false
  | _ => true

def ofGateway : GatewayEvent → List BacktestEvent
  | .trade t => [gateway (.trade t), trade t]
  | e => [gateway e]

end BacktestEvent

inductive StrategyAction
  | call (c : OrderManagerCall)
  | error (doPanic : Bool)
  /-- The strategy pushes to a channel that it listens to itself. -/
  | notify
  deriving DecidableEq

def StrategyAction.sends : StrategyAction → Bool
  | call c => c.sentVolume?.isSome
  | _ => false

/-- The strategy's part in the handling of an event: the callbacks that are queued for it
before and after the events of the gateway, and the actions of a callback. -/
structure Reaction where
  first : ℕ := 0
  last : ℕ := 0
  actions : List StrategyAction := []
  deriving DecidableEq

inductive ProcessFailure
  /-- An empty `std::optional` was dereferenced. -/
  | badDereference
  /-- A handler threw. -/
  | exception
  deriving DecidableEq

structure BacktestSystem where
  om : OrderManager
  gateway : BacktestTradingGateway
  results : InstanceResults
  lastTsAndPrice : Milliseconds × ℚ
  status : WorkStatus
  statusOnStop : WorkStatus
  pendingRequests : List Guid
  historicalMdGenerator : Option SequentialMarketDataReader
  backtestInProgress : Bool
  stopRequestHandled : Bool
  /-- The finish promise is set. -/
  stopped : Bool
  /-- The guid of the next historical request. -/
  nextRequest : Guid
  queue : ThreadSafePriorityQueue BacktestEvent
  /-- What the running handler is still going to push. -/
  outbox : List BacktestEvent
  /-- The requests that the market data gateway has still to answer. -/
  mdRequests : List Guid
  /-- `run_async` was called. -/
  started : Bool
  /-- All trades of the gateway. -/
  traded : List Trade
  /-- The trades that the instance has handled. -/
  handled : List Trade
  failure : Option ProcessFailure

inductive BacktestStep
  | runAsync
  | stopAsync (doPanic : Bool)
  /-- The market data gateway answers a request, of this instance or of another one. -/
  | answer (guid : Guid) (reader : SequentialMarketDataReader)
  /-- A callback of the strategy is due. -/
  | delayed
  | flush
  /-- The loop handles the next event. -/
  | run (r : Reaction)
  deriving DecidableEq

namespace BacktestSystem

def init (symbol : Symbol) : BacktestSystem where
  om := .init symbol
  gateway := .init
  results := .init
  lastTsAndPrice := (0, 0)
  status := .stopped
  statusOnStop := .stopped
  pendingRequests := []
  historicalMdGenerator := none
  backtestInProgress := false
  stopRequestHandled := false
  stopped := false
  nextRequest := Guid.first
  queue := .empty
  outbox := []
  mdRequests := []
  started := false
  traded := []
  handled := []
  failure := none

variable (s : BacktestSystem)

def opened : Option OpenedPosition := s.results.positionManager.openedPosition

def push (e : BacktestEvent) : BacktestSystem := { s with queue := s.queue.push e.priority e }

def emit (es : List BacktestEvent) : BacktestSystem := { s with outbox := s.outbox ++ es }

def emitCallbacks (n : ℕ) : BacktestSystem := s.emit (List.replicate n .callback)

def callGateway (c : GatewayCall) : BacktestSystem :=
  { s with
    gateway := s.gateway.step c
    outbox := s.outbox ++ (s.gateway.handle c).2.flatMap BacktestEvent.ofGateway
    traded := s.traded ++ s.gateway.trades c }

/-- A call of the order manager, which throws where it has no volume to send. -/
def call (c : OrderManagerCall) : BacktestSystem :=
  if s.om.throws c then { s with failure := some .exception }
  else
    let (om, out) := s.om.call c
    (out.filterMap OrderManagerOutput.request?).foldl (fun s r => s.callGateway (.request r))
      { s with om }

/-- Nothing is done after the callback has thrown. -/
def act (a : StrategyAction) : BacktestSystem :=
  if s.failure = none then
    match a with
    | .call c => s.call c
    | .error doPanic => s.emit [.error doPanic]
    | .notify => s.emitCallbacks 1
  else s

/-- `stop_async` without its push. -/
def setPanic (doPanic : Bool) : BacktestSystem :=
  if doPanic then { s with status := .panic, statusOnStop := .panic } else s

def closePosition (price : ℚ) (ts : Milliseconds) : BacktestSystem :=
  match s.opened with
  | none => s
  | some pos => s.call (.sendMarketOrder price (InstanceSystem.closingVolume pos) ts)

def ReadyToFinish : Prop :=
  s.opened = none ∧ s.pendingRequests = [] ∧ s.backtestInProgress = false ∧
    s.historicalMdGenerator = none

instance : Decidable s.ReadyToFinish := inferInstanceAs (Decidable (_ ∧ _ ∧ _ ∧ _))

def finishIfNeededAndReady : BacktestSystem :=
  if s.stopRequestHandled ∧ ¬ s.stopped ∧ s.ReadyToFinish then { s with stopped := true } else s

/-- The push to the status and the profit channel of an instance that is ready to finish. -/
def reportFinish : BacktestSystem :=
  if s.ReadyToFinish then
    { s with
      status := s.statusOnStop
      results.depoChannel :=
        s.results.depoChannel ++ [(s.lastTsAndPrice.1, s.results.strategyResult.finalProfit)] }
  else s

/-- Not reached by a handler that has thrown. -/
def afterEveryEvent : BacktestSystem :=
  if s.failure = none then s.reportFinish.finishIfNeededAndReady else s

def handleFeed (guid : Guid) (reader : SequentialMarketDataReader) : BacktestSystem :=
  if s.historicalMdGenerator.isSome then s
  else if guid ∉ s.pendingRequests then s
  else
    let s := { s with pendingRequests := s.pendingRequests.erase guid }
    match reader.getNext with
    | (none, reader) => { s with historicalMdGenerator := some reader }
    | (some t, reader) =>
      { s with
        historicalMdGenerator := some reader
        backtestInProgress := true }.emit [.price t]

def recordFirstPrice (ts : Milliseconds) : BacktestSystem :=
  if s.results.strategyResult.strategyStartTs.isNone then
    { s with
      results.depoChannel := s.results.depoChannel ++ [(ts, 0)]
      results.strategyResult.strategyStartTs := some ts }
  else s

/-- The callbacks for the price come before the events of the gateway, and those for the
candles after them. -/
def handleMdPrice (r : Reaction) (t : PublicTrade) : BacktestSystem :=
  let s := { s with lastTsAndPrice := (t.ts, t.price) }.emitCallbacks r.first
  ((s.callGateway (.newPrice t.ts t.price)).recordFirstPrice t.ts).emitCallbacks r.last

def pushNextPrice : BacktestSystem :=
  match s.historicalMdGenerator with
  | none => { s with failure := some .badDereference }
  | some reader =>
    match reader.getNext with
    | (none, _) => { s with historicalMdGenerator := none }.emit [.stop]
    | (some t, reader) => { s with historicalMdGenerator := some reader }.emit [.price t]

def handlePrice (r : Reaction) (t : PublicTrade) : BacktestSystem :=
  (s.handleMdPrice r t).pushNextPrice

def handleStart : BacktestSystem :=
  { s with
    status := .backtesting
    pendingRequests := s.nextRequest :: s.pendingRequests
    mdRequests := s.mdRequests ++ [s.nextRequest]
    nextRequest := s.nextRequest + 1 }

def handleStop : BacktestSystem :=
  let s := s.closePosition s.lastTsAndPrice.2 s.lastTsAndPrice.1
  if s.failure = none then
    { s with
      backtestInProgress := false
      historicalMdGenerator := none
      stopRequestHandled := true }
  else s

def handleTrade (r : Reaction) (t : Trade) : BacktestSystem :=
  { s with
    results := s.results.handleTrade t
    handled := s.handled ++ [t] }.emitCallbacks r.first

def handleEvent (r : Reaction) : BacktestEvent → BacktestSystem
  | .start => s.handleStart.afterEveryEvent
  | .stop => s.handleStop.afterEveryEvent
  | .feed guid reader => (s.handleFeed guid reader).afterEveryEvent
  | .price t => (s.handlePrice r t).afterEveryEvent
  | .trade t => (s.handleTrade r t).afterEveryEvent
  | .error doPanic => (s.setPanic doPanic).emit [.stop]
  | .gateway e => { s with om := s.om.step e }.emitCallbacks r.first
  | .callback => r.actions.foldl act s

def next? : Option (BacktestEvent × BacktestSystem) :=
  if s.outbox = [] then s.queue.waitAndPop.map fun (e, queue) => (e, { s with queue }) else none

def advance : BacktestStep → BacktestSystem
  | .runAsync => { s with started := true }.push .start
  | .stopAsync doPanic => (s.setPanic doPanic).push .stop
  | .answer guid reader =>
    { s with mdRequests := s.mdRequests.erase guid }.push (.feed guid reader)
  | .delayed => s.push .callback
  | .flush =>
    match s.outbox with
    | e :: outbox => { s with outbox }.push e
    | [] => s
  | .run r =>
    match s.next? with
    | some (e, s') => s'.handleEvent r e
    | none => s

/-- A process that has failed does nothing. -/
def step (e : BacktestStep) : BacktestSystem := if s.failure = none then s.advance e else s

def inFlight : List BacktestEvent := s.queue.toList ++ s.outbox

def handling? : BacktestStep → Option BacktestEvent
  | .run _ => if s.failure = none then s.next?.map Prod.fst else none
  | _ => none

structure Emits (s s' : BacktestSystem) (es : List BacktestEvent) : Prop where
  eq : s' = { s with
    om := s'.om
    gateway := s'.gateway
    results := s'.results
    lastTsAndPrice := s'.lastTsAndPrice
    outbox := s.outbox ++ es
    traded := s.traded ++ es.filterMap BacktestEvent.trade?
    failure := s'.failure }
  strategic : ∀ e ∈ es, e.isStrategic
  failure : s'.failure = some .badDereference → s.failure = some .badDereference
  positionManager : s'.results.positionManager = s.results.positionManager
  ledger : s'.gateway.posVolume.value =
    s.gateway.posVolume.value + netVolume (es.filterMap BacktestEvent.trade?)
  symbol : s'.om.symbol = s.om.symbol
  inSteps : s.gateway.InSteps s.om.qtyStep → s'.gateway.InSteps s.om.qtyStep ∧
    ∀ t ∈ es.filterMap BacktestEvent.trade?, t.signedVolume.value ∈ zmultiples s.om.qtyStep

variable {s} {s' s'' : BacktestSystem} {es es' : List BacktestEvent} {c : GatewayCall}

theorem Emits.of_eq
    (h : s' = { s with
      om := s'.om
      results := s'.results
      lastTsAndPrice := s'.lastTsAndPrice
      failure := s'.failure })
    (hf : s'.failure = some .badDereference → s.failure = some .badDereference)
    (hpm : s'.results.positionManager = s.results.positionManager)
    (hom : s'.om.symbol = s.om.symbol) : s.Emits s' [] := by
  have hgateway : s'.gateway = s.gateway := by rw [h]
  constructor
  · rw [hgateway]
    simpa using h
  · simp
  · exact hf
  · exact hpm
  · simp [hgateway]
  · exact hom
  · intro hs
    rw [hgateway]
    exact ⟨hs, by simp⟩

theorem Emits.refl (s : BacktestSystem) : s.Emits s [] := .of_eq rfl id rfl rfl

theorem emits_emit (h : ∀ e ∈ es, e.isStrategic) (ht : es.filterMap BacktestEvent.trade? = []) :
    s.Emits (s.emit es) es where
  eq := by simp [emit, ht]
  strategic := h
  failure := id
  positionManager := rfl
  ledger := by simp [emit, ht]
  symbol := rfl
  inSteps := fun hs => ⟨hs, by simp [ht]⟩

theorem Emits.trans (h : s.Emits s' es) (h' : s'.Emits s'' es') : s.Emits s'' (es ++ es') where
  eq := by
    have heq := h'.eq
    rw [h.eq] at heq
    simpa [List.filterMap_append] using heq
  strategic := by
    intro e he
    rcases List.mem_append.mp he with he | he
    · exact h.strategic e he
    · exact h'.strategic e he
  failure := fun hf => h.failure (h'.failure hf)
  positionManager := h'.positionManager.trans h.positionManager
  ledger := by rw [h'.ledger, h.ledger, List.filterMap_append, netVolume_append, add_assoc]
  symbol := h'.symbol.trans h.symbol
  inSteps := by
    intro hs
    have hsame : s'.om.qtyStep = s.om.qtyStep := by simp only [OrderManager.qtyStep, h.symbol]
    obtain ⟨hg, ht⟩ := h.inSteps hs
    obtain ⟨hg', ht'⟩ := h'.inSteps (hsame ▸ hg)
    rw [hsame] at hg' ht'
    refine ⟨hg', fun t hmem => ?_⟩
    rw [List.filterMap_append, List.mem_append] at hmem
    exact hmem.elim (ht t) (ht' t)

theorem emits_emitCallbacks (s : BacktestSystem) (n : ℕ) :
    s.Emits (s.emitCallbacks n) (List.replicate n .callback) := by
  apply emits_emit
  · intro e he
    rw [List.eq_of_mem_replicate he]
    rfl
  · rw [List.filterMap_replicate_of_none rfl]

theorem trades_flatMap_ofGateway (events : List GatewayEvent) :
    (events.flatMap BacktestEvent.ofGateway).filterMap BacktestEvent.trade? =
      events.filterMap GatewayEvent.trade? := by
  induction events with
  | nil => rfl
  | cons e events ih =>
    rw [List.flatMap_cons, List.filterMap_append, ih]
    cases e <;> rfl

theorem isStrategic_of_mem_flatMap {events : List GatewayEvent} {e : BacktestEvent}
    (h : e ∈ events.flatMap BacktestEvent.ofGateway) : e.isStrategic := by
  obtain ⟨x, -, hx⟩ := List.mem_flatMap.mp h
  cases x with
  | trade t =>
    simp only [BacktestEvent.ofGateway, List.mem_cons, List.not_mem_nil, or_false] at hx
    rcases hx with rfl | rfl <;> rfl
  | _ =>
    obtain rfl := List.mem_singleton.mp hx
    rfl

theorem emits_callGateway (hc : c.InSteps s.om.qtyStep) :
    s.Emits (s.callGateway c) ((s.gateway.handle c).2.flatMap BacktestEvent.ofGateway) where
  eq := by rw [trades_flatMap_ofGateway]; rfl
  strategic := fun e he => isStrategic_of_mem_flatMap he
  failure := id
  positionManager := rfl
  ledger := by
    rw [trades_flatMap_ofGateway]
    exact BacktestTradingGateway.step_ledger ..
  symbol := rfl
  inSteps := by
    intro hs
    rw [trades_flatMap_ofGateway]
    exact hs.step hc

theorem emits_requests (rs : List GatewayRequest) (hrs : ∀ r ∈ rs, r.InSteps s.om.qtyStep) :
    ∃ es, s.Emits (rs.foldl (fun s r => s.callGateway (.request r)) s) es ∧
      ((∀ r ∈ rs, r.volume? = none) → es.filterMap BacktestEvent.trade? = []) := by
  induction rs generalizing s with
  | nil => exact ⟨[], .refl s, fun _ => rfl⟩
  | cons r rs ih =>
    have hr : s.Emits (s.callGateway (.request r)) _ := emits_callGateway (hrs r (by simp))
    obtain ⟨es, hes, hquiet⟩ := ih (s := s.callGateway (.request r))
      fun r' hr' => hrs r' (by simp [hr'])
    refine ⟨_, hr.trans hes, fun hnone => ?_⟩
    rw [List.filterMap_append, hquiet fun r' hr' => hnone r' (by simp [hr']),
      trades_flatMap_ofGateway, List.append_nil]
    exact BacktestTradingGateway.trades_of_volume_none (hnone r (by simp))

theorem emits_call (s : BacktestSystem) (c : OrderManagerCall) :
    ∃ es, s.Emits (s.call c) es ∧
      (c.sentVolume? = none → es.filterMap BacktestEvent.trade? = []) := by
  unfold call
  split
  · exact ⟨[], .of_eq rfl (fun h => by cases h) rfl rfl, fun _ => rfl⟩
  · have hsymbol := OrderManager.symbol_call s.om c
    have hrs : ∀ r ∈ (s.om.call c).2.filterMap OrderManagerOutput.request?,
        r.InSteps (s.om.call c).1.qtyStep := by
      intro r hr
      rw [OrderManager.qtyStep, hsymbol]
      exact OrderManager.call_inSteps (OrderManager.mem_requests.mp hr)
    obtain ⟨es, hes, hquiet⟩ := emits_requests (s := { s with om := (s.om.call c).1 }) _ hrs
    have hom : s.Emits { s with om := (s.om.call c).1 } [] := .of_eq rfl id rfl hsymbol
    refine ⟨es, hom.trans hes, fun hc => hquiet fun r hr => ?_⟩
    exact OrderManager.call_volume_of_not_sends hc (OrderManager.mem_requests.mp hr)

theorem emits_act (s : BacktestSystem) (a : StrategyAction) :
    ∃ es, s.Emits (s.act a) es ∧ (a.sends = false → es.filterMap BacktestEvent.trade? = []) := by
  unfold act
  split
  · cases a with
    | call c =>
      obtain ⟨es, hes, hquiet⟩ := s.emits_call c
      exact ⟨es, hes, fun h => hquiet (by simpa [StrategyAction.sends] using h)⟩
    | error doPanic => exact ⟨_, emits_emit (by simp [BacktestEvent.isStrategic]) rfl, fun _ => rfl⟩
    | notify => exact ⟨_, s.emits_emitCallbacks 1, fun _ => rfl⟩
  · exact ⟨[], .refl s, fun _ => rfl⟩

theorem emits_actions (s : BacktestSystem) (actions : List StrategyAction) :
    ∃ es, s.Emits (actions.foldl act s) es ∧
      ((∀ a ∈ actions, a.sends = false) → es.filterMap BacktestEvent.trade? = []) := by
  induction actions generalizing s with
  | nil => exact ⟨[], .refl s, fun _ => rfl⟩
  | cons a actions ih =>
    obtain ⟨es, hes, hquiet⟩ := s.emits_act a
    obtain ⟨es', hes', hquiet'⟩ := ih (s.act a)
    refine ⟨_, hes.trans hes', fun h => ?_⟩
    rw [List.filterMap_append, hquiet (h a (by simp)), hquiet' fun b hb => h b (by simp [hb]),
      List.append_nil]

theorem call_sendMarketOrder_cases (s : BacktestSystem) (price : ℚ) (vol : SignedVolume)
    (ts : Milliseconds) :
    s.call (.sendMarketOrder price vol ts) = { s with failure := some .exception } ∨
      ∃ es t, s.Emits (s.call (.sendMarketOrder price vol ts)) es ∧
        (s.call (.sendMarketOrder price vol ts)).failure = s.failure ∧
        es.filterMap BacktestEvent.trade? = [t] ∧ s.om.adjustedVolume vol = .ok t.signedVolume := by
  unfold call
  cases hadj : s.om.adjustedVolume vol with
  | error e =>
    left
    apply if_pos
    simp [OrderManager.throws, OrderManagerCall.sentVolume?, hadj, Except.isOk, Except.toBool]
  | ok adjusted =>
    right
    have hok : s.om.throws (.sendMarketOrder price vol ts) = false := by
      simp [OrderManager.throws, OrderManagerCall.sentVolume?, hadj, Except.isOk, Except.toBool]
    rw [if_neg (by simp [hok])]
    simp only [OrderManager.call, OrderManager.sendMarketOrder_ok hadj, List.filterMap_cons,
      List.filterMap_nil, OrderManagerOutput.request?, List.foldl_cons, List.foldl_nil]
    set o := MarketOrder.ofSigned s.om.nextGuid s.om.symbol.symbolName price adjusted ts
    set s' : BacktestSystem := { s with om := _ }
    have hsteps : (GatewayRequest.order o).InSteps s.om.qtyStep := by
      rintro v ⟨⟩
      have hvol : o.targetVolume = adjusted.unsigned := rfl
      rw [hvol, SignedVolume.value_unsigned]
      exact abs_mem_zmultiples (OrderManager.adjustedVolume_mem hadj)
    obtain ⟨t, htrades, hvol⟩ := BacktestTradingGateway.pushOrderRequest_trades (g := s.gateway) o
    have hom : s.Emits s' [] := .of_eq rfl id rfl rfl
    have hcall : s'.Emits (s'.callGateway (.request (.order o))) _ := emits_callGateway hsteps
    refine ⟨_, t, hom.trans hcall, rfl, ?_, ?_⟩
    · rw [List.nil_append, trades_flatMap_ofGateway]
      exact htrades
    · rw [hvol, MarketOrder.signedVolume_ofSigned]

theorem closePosition_cases (s : BacktestSystem) (price : ℚ) (ts : Milliseconds) :
    (s.opened = none ∧ s.closePosition price ts = s) ∨
      ∃ pos, s.opened = some pos ∧
        (s.closePosition price ts = { s with failure := some .exception } ∨
          ∃ es t, s.Emits (s.closePosition price ts) es ∧
            (s.closePosition price ts).failure = s.failure ∧
            es.filterMap BacktestEvent.trade? = [t] ∧
            s.om.adjustedVolume (InstanceSystem.closingVolume pos) = .ok t.signedVolume) := by
  unfold closePosition
  cases hopened : s.opened with
  | none => exact .inl ⟨rfl, rfl⟩
  | some pos => exact .inr ⟨pos, rfl, s.call_sendMarketOrder_cases ..⟩

theorem emits_closePosition (s : BacktestSystem) (price : ℚ) (ts : Milliseconds) :
    ∃ es, s.Emits (s.closePosition price ts) es := by
  rcases s.closePosition_cases price ts with ⟨-, h⟩ | ⟨pos, -, h | ⟨es, t, h, -⟩⟩
  · rw [h]
    exact ⟨[], .refl s⟩
  · rw [h]
    exact ⟨[], .of_eq rfl (fun hf => by cases hf) rfl rfl⟩
  · exact ⟨es, h⟩

theorem emits_recordFirstPrice (s : BacktestSystem) (ts : Milliseconds) :
    s.Emits (s.recordFirstPrice ts) [] := by
  unfold recordFirstPrice
  split
  · exact .of_eq rfl id rfl rfl
  · exact .refl s

theorem emits_handleMdPrice (s : BacktestSystem) (r : Reaction) (t : PublicTrade) :
    ∃ es, s.Emits (s.handleMdPrice r t) es := by
  have hlast : s.Emits { s with lastTsAndPrice := (t.ts, t.price) } [] := .of_eq rfl id rfl rfl
  have hfirst := hlast.trans (emits_emitCallbacks _ r.first)
  have hgateway := hfirst.trans (emits_callGateway (c := .newPrice t.ts t.price) trivial)
  have hrecord := hgateway.trans (emits_recordFirstPrice _ t.ts)
  exact ⟨_, hrecord.trans (emits_emitCallbacks _ r.last)⟩

theorem pushNextPrice_cases (s : BacktestSystem) :
    (s.historicalMdGenerator = none ∧
        s.pushNextPrice = { s with failure := some .badDereference }) ∨
      (∃ reader, s.historicalMdGenerator = some reader ∧ reader.remaining = [] ∧
        s.pushNextPrice = { s with historicalMdGenerator := none }.emit [.stop]) ∨
      ∃ reader t reader', s.historicalMdGenerator = some reader ∧
        reader.remaining = t :: reader'.remaining ∧
        s.pushNextPrice = { s with historicalMdGenerator := some reader' }.emit [.price t] := by
  unfold pushNextPrice
  cases hgenerator : s.historicalMdGenerator with
  | none => exact .inl ⟨rfl, rfl⟩
  | some reader =>
    obtain ⟨hhead, htail⟩ := reader.getNext_spec
    simp only
    split
    case h_1 r h =>
      rw [h] at hhead
      exact .inr (.inl ⟨reader, rfl, List.head?_eq_none_iff.mp hhead.symm, rfl⟩)
    case h_2 t reader' h =>
      rw [h] at hhead htail
      refine .inr (.inr ⟨reader, t, reader', rfl, ?_, rfl⟩)
      rw [htail]
      exact (List.cons_head?_tail (Option.mem_def.mpr hhead.symm)).symm

theorem handleFeed_cases (s : BacktestSystem) (guid : Guid) (reader : SequentialMarketDataReader) :
    ((s.historicalMdGenerator.isSome ∨ guid ∉ s.pendingRequests) ∧ s.handleFeed guid reader = s) ∨
      s.historicalMdGenerator = none ∧ guid ∈ s.pendingRequests ∧
        ((∃ reader', reader.remaining = [] ∧
          s.handleFeed guid reader = { s with
            pendingRequests := s.pendingRequests.erase guid
            historicalMdGenerator := some reader' }) ∨
        ∃ t reader', reader.remaining = t :: reader'.remaining ∧
          s.handleFeed guid reader = { s with
            pendingRequests := s.pendingRequests.erase guid
            historicalMdGenerator := some reader'
            backtestInProgress := true }.emit [.price t]) := by
  unfold handleFeed
  split
  case isTrue h => exact .inl ⟨.inl h, rfl⟩
  case isFalse hnone =>
    split
    case isTrue h => exact .inl ⟨.inr h, rfl⟩
    case isFalse hmem =>
      obtain ⟨hhead, htail⟩ := reader.getNext_spec
      refine .inr ⟨by simpa using hnone, not_not.mp hmem, ?_⟩
      simp only
      split
      case h_1 reader' h =>
        rw [h] at hhead
        exact .inl ⟨reader', List.head?_eq_none_iff.mp hhead.symm, rfl⟩
      case h_2 t reader' h =>
        rw [h] at hhead htail
        refine .inr ⟨t, reader', ?_, rfl⟩
        rw [htail]
        exact (List.cons_head?_tail (Option.mem_def.mpr hhead.symm)).symm

@[simp] theorem stopped_handleStop : s.handleStop.stopped = s.stopped := by
  obtain ⟨es, hes⟩ := s.emits_closePosition s.lastTsAndPrice.2 s.lastTsAndPrice.1
  unfold handleStop
  dsimp only
  split <;> rw [hes.eq]

@[simp] theorem stopped_handleFeed {guid : Guid} {reader : SequentialMarketDataReader} :
    (s.handleFeed guid reader).stopped = s.stopped := by
  rcases s.handleFeed_cases guid reader with
    ⟨-, h⟩ | ⟨-, -, ⟨reader', -, h⟩ | ⟨t, reader', -, h⟩⟩
  · rw [h]
  · rw [h]
  · rw [h]
    rfl

@[simp] theorem stopped_handlePrice {r : Reaction} {t : PublicTrade} :
    (s.handlePrice r t).stopped = s.stopped := by
  obtain ⟨es, hes⟩ := s.emits_handleMdPrice r t
  have hsame : (s.handleMdPrice r t).stopped = s.stopped := by rw [hes.eq]
  rw [handlePrice, ← hsame]
  rcases (s.handleMdPrice r t).pushNextPrice_cases with
    ⟨-, h⟩ | ⟨reader, -, -, h⟩ | ⟨reader, t', reader', -, -, h⟩
  · rw [h]
  · rw [h]
    rfl
  · rw [h]
    rfl

structure Finishes (s s' : BacktestSystem) : Prop where
  eq : s' = { s with status := s'.status, results := s'.results, stopped := s'.stopped }
  positionManager : s'.results.positionManager = s.results.positionManager
  stopped : s'.stopped ↔
    s.stopped ∨ s.failure = none ∧ s.stopRequestHandled ∧ s.ReadyToFinish

theorem readyToFinish_reportFinish : s.reportFinish.ReadyToFinish ↔ s.ReadyToFinish := by
  unfold reportFinish
  split <;> rfl

theorem finishes_reportFinish (s : BacktestSystem) :
    s.reportFinish = { s with status := s.reportFinish.status, results := s.reportFinish.results } ∧
      s.reportFinish.results.positionManager = s.results.positionManager := by
  unfold reportFinish
  split <;> exact ⟨rfl, rfl⟩

theorem finishes_afterEveryEvent (s : BacktestSystem) : s.Finishes s.afterEveryEvent := by
  unfold afterEveryEvent
  split
  case isFalse hf => exact ⟨rfl, rfl, by simp [hf]⟩
  case isTrue hf =>
    obtain ⟨heq, hpm⟩ := s.finishes_reportFinish
    have hready := s.readyToFinish_reportFinish
    have hhandled : s.reportFinish.stopRequestHandled = s.stopRequestHandled := by rw [heq]
    have hstopped : s.reportFinish.stopped = s.stopped := by rw [heq]
    unfold finishIfNeededAndReady
    split
    case isTrue h =>
      rw [hhandled, hstopped, hready] at h
      refine ⟨?_, hpm, by simp [hf, h.1, h.2.2]⟩
      conv_lhs => rw [heq]
    case isFalse h =>
      rw [hhandled, hstopped, hready] at h
      refine ⟨?_, hpm, ?_⟩
      · conv_lhs => rw [heq]
        simp [hstopped]
      · rw [hstopped]
        constructor
        · exact .inl
        · rintro (hs | ⟨-, hh, hr⟩)
          · exact hs
          · by_contra hs
            exact h ⟨hh, hs, hr⟩

section InFlight

variable {e : BacktestEvent} {outbox : List BacktestEvent}

theorem inFlight_push : (s.push e).inFlight.Perm (e :: s.inFlight) :=
  ThreadSafePriorityQueue.toList_push_perm.append_right _

@[simp] theorem inFlight_emit : (s.emit es).inFlight = s.inFlight ++ es :=
  (List.append_assoc ..).symm

theorem inFlight_flush (h : s.outbox = e :: outbox) :
    ({ s with outbox }.push e).inFlight.Perm s.inFlight := by
  apply inFlight_push.trans
  simp only [inFlight, h]
  exact List.perm_middle.symm

theorem Emits.inFlight (h : s.Emits s' es) : s'.inFlight = s.inFlight ++ es := by
  rw [h.eq]
  exact (List.append_assoc ..).symm

theorem Emits.filter_inFlight {p : BacktestEvent → Bool} (h : s.Emits s' es)
    (hp : ∀ e, e.isStrategic → p e = false) : s'.inFlight.filter p = s.inFlight.filter p := by
  have hnone : es.filter p = [] := by
    rw [List.filter_eq_nil_iff]
    intro e he
    rw [hp e (h.strategic e he)]
    exact Bool.false_ne_true
  rw [h.inFlight, List.filter_append, hnone, List.append_nil]

theorem Finishes.inFlight (h : s.Finishes s') : s'.inFlight = s.inFlight := by
  rw [h.eq]
  rfl

theorem next?_spec (h : s.next? = some (e, s')) :
    s.outbox = [] ∧ s.queue.waitAndPop = some (e, s'.queue) ∧
      s' = { s with queue := s'.queue } := by
  unfold next? at h
  split at h
  case isTrue hout =>
    obtain ⟨⟨x, queue⟩, hpop, heq⟩ := Option.map_eq_some_iff.mp h
    obtain ⟨rfl, rfl⟩ := Prod.mk.inj heq
    exact ⟨hout, hpop, rfl⟩
  case isFalse => cases h

theorem inFlight_next (h : s.next? = some (e, s')) : s.inFlight = e :: s'.inFlight := by
  obtain ⟨-, hpop, heq⟩ := next?_spec h
  have houtbox : s'.outbox = s.outbox := by rw [heq]
  rw [inFlight, inFlight, ThreadSafePriorityQueue.toList_of_waitAndPop hpop, houtbox]
  rfl

end InFlight

end BacktestSystem

end CryptoTrading

import CryptoTrading.Loop.Queue
import CryptoTrading.Strategy.TrendCatcher

/-! # The drawn states of the market

The instance draws the candles that a price completes before the strategy learns of them. So they
are drawn with the state that was found before that price, in whatever order the events come.
-/

namespace CryptoTrading

open Changes Runs

/-- The limits are two deviations above and below the mean. -/
structure MarketStateRenderObject where
  ts : Milliseconds
  mean : ℚ
  stdDev : SquareRoot
  state : MarketState
  deriving DecidableEq

inductive MarketEvent
  /-- A price, with the candles that it completes. -/
  | price (candles : List RangedCandle)
  | candle (c : RangedCandle)
  | marketState (state : MarketState)
  | other (priority : Priority)
  deriving DecidableEq

namespace MarketEvent

def priority : MarketEvent → Priority
  | price _ => .low
  | candle _ => .normal
  | marketState _ => .normal
  | other priority => priority

def candles? : MarketEvent → Option (List RangedCandle)
  | price candles => some candles
  | _ => none

def isOther : MarketEvent → Bool
  | other _ => true
  | _ => false

end MarketEvent

inductive MarketStep
  | price (candles : List RangedCandle)
  | other (priority : Priority)
  | run
  deriving DecidableEq

structure MarketStateSystem where
  queue : ThreadSafePriorityQueue MarketEvent := .empty
  strategy : TrendCatcherStrategy
  currentMarketState : MarketState := .none
  marketStateStdDev : StandardDeviation := .new 600000
  /-- What is pushed to be drawn. -/
  marketStateChannel : List MarketStateRenderObject := []
  deriving DecidableEq

namespace MarketStateSystem

def init (config : TrendCatcherStrategyConfig) : MarketStateSystem where
  strategy := .new config

variable (s : MarketStateSystem)

def push (e : MarketEvent) : MarketStateSystem :=
  { s with queue := s.queue.push e.priority e }

def maybeSendMarketStateUpdate (c : RangedCandle) : MarketStateSystem :=
  let (marketStateStdDev, stdDev?) := s.marketStateStdDev.pushValue c.1.closeTs c.1.close
  let s := { s with marketStateStdDev }
  match stdDev? with
  | none => s
  | some stdDev =>
    { s with
      marketStateChannel := s.marketStateChannel ++
        [⟨c.1.timestamp, marketStateStdDev.mean, stdDev, s.currentMarketState⟩] }

def handleEvent : MarketEvent → MarketStateSystem
  | .price candles =>
    candles.foldl (fun s c => (s.push (.candle c)).maybeSendMarketStateUpdate c) s
  | .candle c =>
    let (strategy, _, states) := s.strategy.pushCandle c
    (states.map MarketEvent.marketState).foldl push { s with strategy }
  | .marketState state => { s with currentMarketState := state }
  | .other _ => s

def step : MarketStep → MarketStateSystem
  | .price candles => s.push (.price candles)
  | .other priority => s.push (.other priority)
  | .run =>
    match s.queue.waitAndPop with
    | some (e, queue) => { s with queue }.handleEvent e
    | none => s

def candles? : MarketStep → Option (List RangedCandle)
  | .run => s.queue.waitAndPop.bind fun r => r.1.candles?
  | _ => none

def handled (config : TrendCatcherStrategyConfig) (xs : List MarketStep) :
    List (List RangedCandle) :=
  outputs step (fun s x => (s.candles? x).toList) (init config) xs

def waiting : List (List RangedCandle) := s.queue.low.filterMap MarketEvent.candles?

/-- The strategy has the candles that wait for it before it, and the instance the states. -/
structure Follows (config : TrendCatcherStrategyConfig) (prices : List (List RangedCandle))
    (candles : List RangedCandle) (states : List MarketState) : Prop where
  sorted : s.queue.Sorted MarketEvent.priority
  normal : s.queue.normal.filter (! MarketEvent.isOther ·) =
    candles.map MarketEvent.candle ++ states.map MarketEvent.marketState
  strategy : after TrendCatcherStrategy.step s.strategy candles =
    after TrendCatcherStrategy.step (.new config) prices.flatten
  current : (s.currentMarketState :: states).getLast? = some s.strategy.marketState
  stdDev : s.marketStateStdDev =
    after StandardDeviation.step (.new 600000) (prices.flatten.map RangedCandle.closePoint)

end MarketStateSystem

def MarketStep.prices (xs : List MarketStep) : List (List RangedCandle) :=
  xs.filterMap fun
    | price candles => some candles
    | _ => none

namespace TrendCatcherStrategy

def lastFound (config : TrendCatcherStrategyConfig) (pre : List RangedCandle) : MarketState :=
  ((outputs step (fun s c => (s.found c).toList) (new config) pre).getLast?).getD .none

end TrendCatcherStrategy

namespace MarketStateRenderObject

def ofCandle (state : MarketState) (m : StandardDeviation) (c : RangedCandle) :
    Option MarketStateRenderObject :=
  (m.pushValue c.1.closeTs c.1.close).2.map fun stdDev =>
    ⟨c.1.timestamp, (m.step c.closePoint).mean, stdDev, state⟩

/-- The candles of a price, with the last state that was found in those of the prices before. -/
def ofPrice (config : TrendCatcherStrategyConfig) (before : List (List RangedCandle))
    (candles : List RangedCandle) : List MarketStateRenderObject :=
  outputs (fun m c => m.step c.closePoint)
    (fun m c => (ofCandle (TrendCatcherStrategy.lastFound config before.flatten) m c).toList)
    (after StandardDeviation.step (.new 600000) (before.flatten.map RangedCandle.closePoint))
    candles

def ofPrices (config : TrendCatcherStrategyConfig) (prices : List (List RangedCandle)) :
    List MarketStateRenderObject :=
  outputs (fun before candles => before ++ [candles]) (ofPrice config) [] prices

theorem ofPrices_concat {config : TrendCatcherStrategyConfig}
    {prices : List (List RangedCandle)} {candles : List RangedCandle} :
    ofPrices config (prices ++ [candles]) =
      ofPrices config prices ++ ofPrice config prices candles := by
  have hbefore (before : List (List RangedCandle)) :
      after (fun before candles => before ++ [candles]) before prices = before ++ prices := by
    induction prices generalizing before with
    | nil => exact (List.append_nil _).symm
    | cons candles prices ih => rw [after_cons, ih, List.append_assoc, List.singleton_append]
  rw [ofPrices, outputs_concat, hbefore, List.nil_append]
  rfl

end MarketStateRenderObject

namespace TrendCatcherStrategy

variable {s : TrendCatcherStrategy} {config : TrendCatcherStrategyConfig}
  {pre : List RangedCandle} {c : RangedCandle}

theorem step_marketState : (s.step c).marketState = (s.found c).getD s.marketState := by
  rw [step, pushCandle_eq]

theorem marketState_after : (after step (new config) pre).marketState = lastFound config pre := by
  induction pre using List.reverseRecOn with
  | nil => rfl
  | append_singleton pre c ih =>
    rw [after_concat, step_marketState, ih, lastFound, lastFound, outputs_concat]
    cases found (after step (new config) pre) c with
    | none => simp
    | some state => simp

theorem getLast_pushCandle (states : List MarketState) (state : MarketState)
    (h : (state :: states).getLast? = some s.marketState) :
    (state :: (states ++ (s.pushCandle c).2.2)).getLast? = some (s.step c).marketState := by
  rw [step_marketState, pushCandle_eq]
  cases hfound : s.found c with
  | none => simpa using h
  | some found =>
    by_cases hsame : s.marketState = found
    · simpa [report, hsame] using h
    · simp only [report, id_eq, Option.bind_some, if_neg hsame, Option.toList_some,
        Option.getD_some, ← List.cons_append, List.getLast?_concat]

end TrendCatcherStrategy

theorem ThreadSafePriorityQueue.Sorted.priority_eq {α : Type*} {q : ThreadSafePriorityQueue α}
    {prio : α → Priority} {x : α} {p : Priority} (h : q.Sorted prio) (hx : x ∈ q.ofPriority p) :
    prio x = p := by
  cases p with
  | high => exact h.high x hx
  | normal => exact h.normal x hx
  | low => exact h.low x hx
  | barrier => exact h.barrier x hx

namespace MarketStateSystem

variable {s : MarketStateSystem} {config : TrendCatcherStrategyConfig} {e : MarketEvent}
  {candles : List RangedCandle} {es : List MarketEvent}

theorem foldl_push (h : ∀ e ∈ es, e.priority = .normal) : es.foldl push s =
    { s with queue := { s.queue with normal := s.queue.normal ++ es } } := by
  induction es generalizing s with
  | nil => simp
  | cons e es ih =>
    have hpush : s.push e =
        { s with queue := { s.queue with normal := s.queue.normal ++ [e] } } := by
      rw [push, h e List.mem_cons_self]
      rfl
    rw [List.foldl_cons, ih fun e he => h e (List.mem_cons_of_mem _ he), hpush]
    simp

theorem maybeSendMarketStateUpdate_eq (c : RangedCandle) : s.maybeSendMarketStateUpdate c =
    { s with
      marketStateStdDev := s.marketStateStdDev.step c.closePoint
      marketStateChannel := s.marketStateChannel ++
        (MarketStateRenderObject.ofCandle s.currentMarketState s.marketStateStdDev c).toList } := by
  simp only [maybeSendMarketStateUpdate, MarketStateRenderObject.ofCandle, StandardDeviation.step,
    RangedCandle.closePoint]
  rcases s.marketStateStdDev.pushValue c.1.closeTs c.1.close with ⟨m, _ | stdDev⟩
  · simp
  · rfl

theorem handleEvent_price (candles : List RangedCandle) : s.handleEvent (.price candles) =
    { s with
      queue := { s.queue with normal := s.queue.normal ++ candles.map MarketEvent.candle }
      marketStateStdDev :=
        after StandardDeviation.step s.marketStateStdDev (candles.map RangedCandle.closePoint)
      marketStateChannel := s.marketStateChannel ++
        outputs (fun m c => m.step c.closePoint)
          (fun m c => (MarketStateRenderObject.ofCandle s.currentMarketState m c).toList)
          s.marketStateStdDev candles } := by
  simp only [handleEvent]
  induction candles generalizing s with
  | nil => simp
  | cons c candles ih =>
    have hpush : s.push (.candle c) =
        { s with queue := { s.queue with normal := s.queue.normal ++ [.candle c] } } := rfl
    rw [List.foldl_cons, ih, maybeSendMarketStateUpdate_eq, hpush]
    simp [outputs]

theorem handleEvent_candle (c : RangedCandle) : s.handleEvent (.candle c) =
    { s with
      queue := { s.queue with
        normal := s.queue.normal ++ (s.strategy.pushCandle c).2.2.map MarketEvent.marketState }
      strategy := s.strategy.step c } := by
  simp only [handleEvent]
  rw [foldl_push (by simp [MarketEvent.priority])]
  rfl

variable {prices : List (List RangedCandle)} {states : List MarketState} {c : RangedCandle}
  {queue : ThreadSafePriorityQueue MarketEvent} {state : MarketState} {priority : Priority}

theorem sorted_append (h : queue.Sorted MarketEvent.priority)
    (hes : ∀ e ∈ es, e.priority = .normal) :
    { queue with normal := queue.normal ++ es }.Sorted MarketEvent.priority where
  high := h.high
  normal := List.forall_mem_append.mpr ⟨h.normal, hes⟩
  low := h.low
  barrier := h.barrier

theorem Follows.price (h : s.Follows config prices [] []) (candles : List RangedCandle)
    (hqueue : queue.Sorted MarketEvent.priority) (hnormal : queue.normal = s.queue.normal)
    (hempty : s.queue.normal = []) :
    ({ s with queue }.handleEvent (.price candles)).Follows config (prices ++ [candles])
        candles [] ∧
      ({ s with queue }.handleEvent (.price candles)).marketStateChannel =
        s.marketStateChannel ++ MarketStateRenderObject.ofPrice config prices candles := by
  have hstrategy : s.strategy = after TrendCatcherStrategy.step (.new config) prices.flatten :=
    h.strategy
  have hstate : s.currentMarketState = TrendCatcherStrategy.lastFound config prices.flatten := by
    rw [← TrendCatcherStrategy.marketState_after, ← hstrategy]
    exact Option.some.inj h.current
  have hcandles : (candles.map MarketEvent.candle).filter (! MarketEvent.isOther ·) =
      candles.map MarketEvent.candle :=
    List.filter_eq_self.mpr (List.forall_mem_map.mpr fun _ _ => rfl)
  rw [handleEvent_price]
  refine ⟨⟨?_, ?_, ?_, h.current, ?_⟩, ?_⟩
  · exact sorted_append hqueue (List.forall_mem_map.mpr fun _ _ => rfl)
  · rw [hnormal, hempty, List.nil_append, hcandles, List.map_nil, List.append_nil]
  · rw [hstrategy, List.flatten_concat, after_append]
  · rw [h.stdDev, List.flatten_concat, List.map_append, after_append]
  · rw [MarketStateRenderObject.ofPrice, ← hstate, ← h.stdDev]

theorem Follows.candle (h : s.Follows config prices (c :: candles) states)
    (hqueue : queue.Sorted MarketEvent.priority)
    (hnormal : s.queue.normal = .candle c :: queue.normal) :
    ({ s with queue }.handleEvent (.candle c)).Follows config prices candles
      (states ++ (s.strategy.pushCandle c).2.2) := by
  have hrest := h.normal
  rw [hnormal, List.filter_cons_of_pos rfl, List.map_cons, List.cons_append,
    List.cons_inj_right] at hrest
  have hstates : ((s.strategy.pushCandle c).2.2.map MarketEvent.marketState).filter
      (! MarketEvent.isOther ·) = (s.strategy.pushCandle c).2.2.map MarketEvent.marketState :=
    List.filter_eq_self.mpr (List.forall_mem_map.mpr fun _ _ => rfl)
  rw [handleEvent_candle]
  refine ⟨?_, ?_, h.strategy, ?_, h.stdDev⟩
  · exact sorted_append hqueue (List.forall_mem_map.mpr fun _ _ => rfl)
  · rw [List.filter_append, hrest, hstates, List.append_assoc, ← List.map_append]
  · exact TrendCatcherStrategy.getLast_pushCandle _ _ h.current

theorem Follows.marketState (h : s.Follows config prices [] (state :: states))
    (hqueue : queue.Sorted MarketEvent.priority)
    (hnormal : s.queue.normal = .marketState state :: queue.normal) :
    ({ s with queue }.handleEvent (.marketState state)).Follows config prices [] states := by
  have hrest := h.normal
  rw [hnormal, List.filter_cons_of_pos rfl, List.map_nil, List.nil_append, List.map_cons,
    List.cons_inj_right] at hrest
  exact ⟨hqueue, hrest, h.strategy, h.current, h.stdDev⟩

theorem Follows.other (h : s.Follows config prices candles states)
    (hqueue : queue.Sorted MarketEvent.priority)
    (hnormal : queue.normal.filter (! MarketEvent.isOther ·) =
      s.queue.normal.filter (! MarketEvent.isOther ·)) :
    { s with queue }.Follows config prices candles states :=
  ⟨hqueue, hnormal.trans h.normal, h.strategy, h.current, h.stdDev⟩

def FollowsAfter (s' : MarketStateSystem) (config : TrendCatcherStrategyConfig)
    (prices : List (List RangedCandle)) (s : MarketStateSystem)
    (handled : Option (List RangedCandle)) : Prop :=
  ∃ candles states, s'.Follows config (prices ++ handled.toList) candles states ∧
    s'.marketStateChannel = s.marketStateChannel ++
      handled.toList.flatMap (MarketStateRenderObject.ofPrice config prices)

theorem Follows.after_none {s' : MarketStateSystem} (h : s'.Follows config prices candles states)
    (hchannel : s'.marketStateChannel = s.marketStateChannel) :
    s'.FollowsAfter config prices s none := by
  refine ⟨candles, states, ?_, ?_⟩
  · rw [Option.toList_none, List.append_nil]
    exact h
  · rw [Option.toList_none, List.flatMap_nil, List.append_nil, hchannel]

theorem normal_eq_nil (hqueue : s.queue.Sorted MarketEvent.priority)
    (hpop : s.queue.waitAndPop = some (.price candles, queue)) : s.queue.normal = [] := by
  obtain ⟨p, hp, -, hless⟩ := ThreadSafePriorityQueue.ofPriority_of_waitAndPop hpop
  obtain rfl : MarketEvent.priority (.price candles) = p :=
    hqueue.priority_eq (hp ▸ List.mem_cons_self)
  exact hless .normal Nat.one_lt_two

theorem Follows.handleEvent (h : s.Follows config prices candles states)
    (hpop : s.queue.waitAndPop = some (e, queue)) :
    ({ s with queue }.handleEvent e).FollowsAfter config prices s e.candles? := by
  obtain ⟨hqueue, hnormal⟩ := h.sorted.waitAndPop hpop
  have hevents := h.normal
  cases e with
  | price completed =>
    obtain ⟨-, hnormal⟩ := hnormal.resolve_left fun h => by cases h.1
    have hempty := normal_eq_nil h.sorted hpop
    rw [hempty, List.filter_nil, eq_comm, List.append_eq_nil_iff, List.map_eq_nil_iff,
      List.map_eq_nil_iff] at hevents
    obtain ⟨rfl, rfl⟩ := hevents
    obtain ⟨hfollows, hchannel⟩ := h.price completed hqueue hnormal hempty
    refine ⟨completed, [], hfollows, hchannel.trans ?_⟩
    exact congrArg _ (List.append_nil _).symm
  | candle c =>
    obtain ⟨-, hnormal⟩ := hnormal.resolve_right fun h => h.1 rfl
    rw [hnormal, List.filter_cons_of_pos rfl] at hevents
    cases candles with
    | nil => cases states <;> cases hevents
    | cons c' candles =>
      obtain ⟨hc, -⟩ := List.cons.inj hevents
      cases hc
      refine (h.candle hqueue hnormal).after_none ?_
      rw [handleEvent_candle]
  | marketState state =>
    obtain ⟨-, hnormal⟩ := hnormal.resolve_right fun h => h.1 rfl
    rw [hnormal, List.filter_cons_of_pos rfl] at hevents
    cases candles with
    | cons c candles => cases hevents
    | nil =>
      cases states with
      | nil => cases hevents
      | cons state' states =>
        obtain ⟨hstate, -⟩ := List.cons.inj hevents
        cases hstate
        exact (h.marketState hqueue hnormal).after_none rfl
  | other priority =>
    refine (h.other hqueue ?_).after_none rfl
    rcases hnormal with ⟨-, hnormal⟩ | ⟨-, hnormal⟩
    · rw [hnormal]
      exact (List.filter_cons_of_neg (by simp [MarketEvent.isOther])).symm
    · rw [hnormal]

theorem Follows.push (h : s.Follows config prices candles states)
    (he : e.priority = .normal → e.isOther) :
    (s.push e).FollowsAfter config prices s none := by
  refine (h.other (h.sorted.push e) ?_).after_none rfl
  by_cases hp : e.priority = .normal
  · have hpush : (s.queue.push e.priority e).normal = s.queue.normal ++ [e] := by rw [hp]; rfl
    rw [hpush, List.filter_append, List.filter_cons_of_neg (by simp [he hp]), List.filter_nil,
      List.append_nil]
  · rw [ThreadSafePriorityQueue.normal_push_of_ne hp]

theorem Follows.step (h : s.Follows config prices candles states) (x : MarketStep) :
    (s.step x).FollowsAfter config prices s (s.candles? x) := by
  cases x with
  | price completed => exact h.push nofun
  | other priority => exact h.push fun _ => rfl
  | run =>
    simp only [MarketStateSystem.step, MarketStateSystem.candles?]
    cases hpop : s.queue.waitAndPop with
    | none => exact h.after_none rfl
    | some r => exact h.handleEvent hpop

theorem handled_concat (xs : List MarketStep) (x : MarketStep) : handled config (xs ++ [x]) =
    handled config xs ++ ((after step (init config) xs).candles? x).toList :=
  outputs_concat

theorem follows_after (config : TrendCatcherStrategyConfig) (xs : List MarketStep) :
    ∃ candles states,
      (after step (init config) xs).Follows config (handled config xs) candles states ∧
      (after step (init config) xs).marketStateChannel =
        MarketStateRenderObject.ofPrices config (handled config xs) := by
  induction xs using List.reverseRecOn with
  | nil =>
    refine ⟨[], [], ⟨ThreadSafePriorityQueue.sorted_empty, rfl, rfl, rfl, rfl⟩, rfl⟩
  | append_singleton xs x ih =>
    obtain ⟨candles, states, hfollows, hchannel⟩ := ih
    obtain ⟨candles', states', hfollows', hchannel'⟩ := hfollows.step x
    rw [after_concat, handled_concat]
    refine ⟨candles', states', hfollows', hchannel'.trans ?_⟩
    rw [hchannel]
    cases (after step (init config) xs).candles? x with
    | none =>
      rw [Option.toList_none, List.flatMap_nil, List.append_nil, List.append_nil]
    | some completed =>
      rw [Option.toList_some, List.flatMap_singleton, MarketStateRenderObject.ofPrices_concat]

theorem handleEvent_low (e : MarketEvent) : (s.handleEvent e).queue.low = s.queue.low := by
  cases e with
  | price candles => rw [handleEvent_price]
  | candle c => rw [handleEvent_candle]
  | marketState state => rfl
  | other priority => rfl

theorem waiting_of_pop (hqueue : s.queue.Sorted MarketEvent.priority)
    (hpop : s.queue.waitAndPop = some (e, queue)) :
    s.waiting = e.candles?.toList ++ queue.low.filterMap MarketEvent.candles? := by
  obtain ⟨p, hp, hothers, -⟩ := ThreadSafePriorityQueue.ofPriority_of_waitAndPop hpop
  obtain rfl : e.priority = p := hqueue.priority_eq (hp ▸ List.mem_cons_self)
  by_cases hlow : e.priority = .low
  · rw [hlow] at hp
    have hlist : s.queue.low = e :: queue.low := hp
    rw [waiting, hlist, List.filterMap_cons]
    cases e.candles? <;> rfl
  · have hsame : queue.low = s.queue.low := hothers .low (Ne.symm hlow)
    have hnone : e.candles? = none := by
      cases e with
      | price candles => exact absurd rfl hlow
      | candle c => rfl
      | marketState state => rfl
      | other priority => rfl
    rw [hnone, hsame]
    rfl

theorem waiting_step (hqueue : s.queue.Sorted MarketEvent.priority) (x : MarketStep) :
    (s.candles? x).toList ++ (s.step x).waiting = s.waiting ++ MarketStep.prices [x] := by
  cases x with
  | price candles =>
    have hlow : (s.push (.price candles)).queue.low = s.queue.low ++ [.price candles] := rfl
    simp only [step, candles?, waiting, hlow, List.filterMap_append]
    rfl
  | other priority =>
    have hwaiting : (s.push (.other priority)).waiting = s.waiting := by
      cases priority
      case low =>
        have hlow : (s.push (.other .low)).queue.low = s.queue.low ++ [.other .low] := rfl
        simp [waiting, hlow, MarketEvent.candles?]
      all_goals rfl
    simp [step, candles?, hwaiting, MarketStep.prices]
  | run =>
    simp only [step, candles?]
    cases hpop : s.queue.waitAndPop with
    | none => simp [MarketStep.prices]
    | some r =>
      rw [waiting_of_pop hqueue hpop, waiting, handleEvent_low]
      simp [MarketStep.prices]

theorem handled_append_waiting (config : TrendCatcherStrategyConfig) (xs : List MarketStep) :
    handled config xs ++ (after step (init config) xs).waiting = MarketStep.prices xs := by
  induction xs using List.reverseRecOn with
  | nil => rfl
  | append_singleton xs x ih =>
    obtain ⟨_, _, hfollows, -⟩ := follows_after config xs
    rw [after_concat, handled_concat, List.append_assoc, waiting_step hfollows.sorted,
      ← List.append_assoc, ih, MarketStep.prices, MarketStep.prices, MarketStep.prices,
      List.filterMap_append]

/--
In whatever order prices come, events are handled and others are in between: the prices are
handled in their order, and what is drawn are the candles of the handled ones, those of each price
with the last state that was found in the candles of the prices before it.
-/
theorem drawn_run (config : TrendCatcherStrategyConfig) (xs : List MarketStep) :
    handled config xs ++ (after step (init config) xs).waiting = MarketStep.prices xs ∧
      (after step (init config) xs).marketStateChannel =
        MarketStateRenderObject.ofPrices config (handled config xs) := by
  obtain ⟨_, _, -, hchannel⟩ := follows_after config xs
  exact ⟨handled_append_waiting config xs, hchannel⟩

end MarketStateSystem

end CryptoTrading

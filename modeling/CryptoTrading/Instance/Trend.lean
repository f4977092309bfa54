import CryptoTrading.Instance.Backtest
import CryptoTrading.Optimizer.OrdinaryLeastSquares

/-! # The trend of the profit

The instance keeps the profit after every position result, behind a zero at its first price, and
fits a line to these points. A report of the finish repeats the profit, and its point does not
count until the next result.
-/

namespace CryptoTrading

open Runs OLS

/-- The fields that `set_trend_info` sets, `none` where they are not numbers or not set yet. -/
structure TrendInfo where
  depoTrend : Option PriceRegressionFunction := some ⟨0, 0⟩
  depoStandardDeviation : Option SquareRoot := some (.ofClamped 0)
  firstPositionClosedTs : Option Milliseconds := none
  lastPositionClosedTs : Option Milliseconds := none
  deriving DecidableEq

def TrendInfo.setTrendInfo (trend : TrendInfo) (prices : List (Milliseconds × ℚ)) : TrendInfo :=
  if prices = [] then trend
  else
    { depoTrend := (solvePrices prices).map Prod.fst
      depoStandardDeviation := (solvePrices prices).bind Prod.snd
      firstPositionClosedTs := prices.head?.map Prod.fst
      lastPositionClosedTs := prices.getLast?.map Prod.fst }

theorem TrendInfo.setTrendInfo_eq {prices : List (Milliseconds × ℚ)} (hne : prices ≠ [])
    (trend trend' : TrendInfo) : trend.setTrendInfo prices = trend'.setTrendInfo prices := by
  rw [setTrendInfo, setTrendInfo, if_neg hne, if_neg hne]

def year : Milliseconds := 31556952000

theorem daysFromBegin_year (start : Milliseconds) :
    daysFromBegin start (start + year) = 365.2425 := by
  rw [daysFromBegin, add_sub_cancel_left, year, millisecondsInDay]
  norm_num

def StrategyResult.apr (res : StrategyResult) (trend : TrendInfo) : Option ℚ := do
  let strategyStartTs ← res.strategyStartTs
  let depoTrend ← trend.depoTrend
  let nextYearProfit := depoTrend.apply (strategyStartTs + year)
  some (100 * (nextYearProfit / res.positionCurrencyAmount))

namespace StrategyResult

theorem addResult_fixed (res : StrategyResult) (old : ℚ) (r : PositionResult) :
    (res.addResult old r).positionCurrencyAmount = res.positionCurrencyAmount ∧
      (res.addResult old r).strategyStartTs = res.strategyStartTs := by
  unfold addResult
  cases r.openedTime with
  | none => exact ⟨rfl, rfl⟩
  | some openedTime =>
    simp only [Option.map_some, Option.getD_some, addOpenedTime]
    split_ifs <;> exact ⟨rfl, rfl⟩

end StrategyResult

namespace InstanceResults

def report (s : InstanceResults) (ts : Milliseconds) : InstanceResults :=
  { s with depoChannel := s.depoChannel ++ [(ts, s.strategyResult.finalProfit)] }

def recordStart (s : InstanceResults) (ts : Milliseconds) : InstanceResults :=
  if s.strategyResult.strategyStartTs.isNone then
    { s with
      depoChannel := s.depoChannel ++ [(ts, 0)]
      strategyResult.strategyStartTs := some ts }
  else s

end InstanceResults

namespace BacktestSystem

variable (s : BacktestSystem)

/-- The results with what the step's event has entered, before any report. -/
def entered (x : BacktestStep) : InstanceResults :=
  match s.handling? x with
  | some (.price t) => s.results.recordStart t.ts
  | some (.trade t) => s.results.handleTrade t
  | _ => s.results

/-- The events of a start: no trade, no stop and no answer to another instance. -/
def Prepares : BacktestEvent → Prop
  | .stop => False
  | .trade _ => False
  | .feed guid _ => guid ∈ s.pendingRequests
  | _ => True

instance : (e : BacktestEvent) → Decidable (s.Prepares e)
  | .stop => inferInstanceAs (Decidable False)
  | .trade _ => inferInstanceAs (Decidable False)
  | .feed guid _ => inferInstanceAs (Decidable (guid ∈ s.pendingRequests))
  | .start => inferInstanceAs (Decidable True)
  | .price _ => inferInstanceAs (Decidable True)
  | .error _ => inferInstanceAs (Decidable True)
  | .gateway _ => inferInstanceAs (Decidable True)
  | .callback => inferInstanceAs (Decidable True)

/-- Before the first price the instance handles the events of its start only. -/
def StartsPlainly (x : BacktestStep) : Prop :=
  s.results.strategyResult.strategyStartTs = none → ∀ e ∈ s.handling? x, s.Prepares e

instance (x : BacktestStep) : Decidable (s.StartsPlainly x) :=
  inferInstanceAs (Decidable (_ → ∀ e ∈ _, _))

variable {s} {r : Reaction}

section Results

theorem results_requests (rs : List GatewayRequest) :
    (rs.foldl (fun s r => s.callGateway (.request r)) s).results = s.results := by
  induction rs generalizing s with
  | nil => rfl
  | cons r rs ih => exact ih

theorem results_call (c : OrderManagerCall) : (s.call c).results = s.results := by
  unfold call
  split
  · rfl
  · exact results_requests _

theorem results_actions (actions : List StrategyAction) :
    (actions.foldl act s).results = s.results := by
  induction actions generalizing s with
  | nil => rfl
  | cons a actions ih =>
    have hact : (s.act a).results = s.results := by
      unfold act
      split
      · cases a with
        | call c => exact results_call c
        | error doPanic => rfl
        | notify => rfl
      · rfl
    exact (ih (s := s.act a)).trans hact

theorem results_handleStop : s.handleStop.results = s.results := by
  have hclose : (s.closePosition s.lastTsAndPrice.2 s.lastTsAndPrice.1).results = s.results := by
    unfold closePosition
    split
    · rfl
    · exact results_call _
  unfold handleStop
  dsimp only
  split <;> exact hclose

theorem results_handleFeed (guid : Guid) (reader : SequentialMarketDataReader) :
    (s.handleFeed guid reader).results = s.results := by
  rcases s.handleFeed_cases guid reader with
    ⟨-, h⟩ | ⟨-, -, ⟨reader', -, h⟩ | ⟨t, reader', -, h⟩⟩ <;> rw [h]
  rfl

theorem results_recordFirstPrice (ts : Milliseconds) :
    (s.recordFirstPrice ts).results = s.results.recordStart ts := by
  unfold recordFirstPrice InstanceResults.recordStart
  split <;> rfl

theorem results_handlePrice (t : PublicTrade) :
    (s.handlePrice r t).results = s.results.recordStart t.ts := by
  have hprice : (s.handleMdPrice r t).results = s.results.recordStart t.ts :=
    results_recordFirstPrice t.ts
  rw [handlePrice, ← hprice]
  rcases (s.handleMdPrice r t).pushNextPrice_cases with
    ⟨-, h⟩ | ⟨reader, -, -, h⟩ | ⟨reader, t', reader', -, -, h⟩ <;> rw [h]
  all_goals rfl

theorem results_afterEveryEvent (s : BacktestSystem) :
    s.afterEveryEvent.results = s.results ∨
      s.ReadyToFinish ∧ s.afterEveryEvent.results = s.results.report s.lastTsAndPrice.1 := by
  have hfinish : ∀ s : BacktestSystem, s.finishIfNeededAndReady.results = s.results := by
    intro s
    unfold finishIfNeededAndReady
    split <;> rfl
  unfold afterEveryEvent
  split
  · rw [hfinish]
    unfold reportFinish
    split
    case isTrue hready => exact .inr ⟨hready, rfl⟩
    case isFalse => exact .inl rfl
  · exact .inl rfl

theorem not_ready_handleFeed {guid : Guid} (hguid : guid ∈ s.pendingRequests)
    (reader : SequentialMarketDataReader) : ¬ (s.handleFeed guid reader).ReadyToFinish := by
  rintro ⟨-, -, -, hnone⟩
  rcases s.handleFeed_cases guid reader with
    ⟨hignored | hnot, h⟩ | ⟨-, -, ⟨reader', -, h⟩ | ⟨t, reader', -, h⟩⟩
  · rw [h] at hnone
    rw [hnone] at hignored
    cases hignored
  · exact hnot hguid
  · rw [h] at hnone
    cases hnone
  · rw [h] at hnone
    cases hnone

/-- The step lemma: the event is entered, and then the finish may be reported, but not if the
event belongs to the start. -/
theorem results_step (s : BacktestSystem) (x : BacktestStep) :
    (s.step x).results = s.entered x ∨
      ∃ e ts, s.handling? x = some e ∧ (s.Prepares e → e.isPrice) ∧
        (s.step x).results = (s.entered x).report ts := by
  unfold step entered handling?
  split
  case isFalse hf =>
    left
    cases x <;> rfl
  case isTrue hlive =>
    cases x with
    | run r =>
      simp only [advance]
      cases hnext : s.next? with
      | none => exact .inl rfl
      | some p =>
        obtain ⟨e, s'⟩ := p
        have hsame : s'.results = s.results := by rw [(next?_spec hnext).2.2]
        have hpending : s'.pendingRequests = s.pendingRequests := by rw [(next?_spec hnext).2.2]
        simp only [Option.map_some, ← hsame, Option.some.injEq, exists_and_left, exists_eq_left']
        cases e with
        | start =>
          rcases results_afterEveryEvent s'.handleStart with h | ⟨⟨-, hready, -⟩, -⟩
          · exact .inl h
          · cases hready
        | stop =>
          rcases results_afterEveryEvent s'.handleStop with h | ⟨-, h⟩
          · exact .inl (h.trans results_handleStop)
          · rw [results_handleStop] at h
            exact .inr ⟨False.elim, _, h⟩
        | feed guid reader =>
          rcases results_afterEveryEvent (s'.handleFeed guid reader) with h | ⟨hready, h⟩
          · exact .inl (h.trans (results_handleFeed guid reader))
          · rw [results_handleFeed] at h
            refine .inr ⟨fun hguid => ?_, _, h⟩
            exact absurd hready (not_ready_handleFeed (hpending ▸ hguid) reader)
        | price t =>
          rcases results_afterEveryEvent (s'.handlePrice r t) with h | ⟨-, h⟩
          · exact .inl (h.trans (results_handlePrice t))
          · rw [results_handlePrice] at h
            exact .inr ⟨fun _ => rfl, _, h⟩
        | error doPanic =>
          left
          simp only [handleEvent, setPanic]
          split <;> rfl
        | gateway e => exact .inl rfl
        | trade t =>
          rcases results_afterEveryEvent (s'.handleTrade r t) with h | ⟨-, h⟩
          · exact .inl h
          · exact .inr ⟨False.elim, _, h⟩
        | callback => exact .inl (results_actions r.actions)
    | stopAsync doPanic =>
      left
      simp only [advance, setPanic]
      split <;> rfl
    | flush =>
      left
      simp only [advance]
      split <;> rfl
    | _ => exact .inl rfl

end Results

end BacktestSystem

structure TrendedBacktest where
  system : BacktestSystem
  trend : TrendInfo := {}

namespace TrendedBacktest

def init (symbol : Symbol) : TrendedBacktest := { system := .init symbol }

variable (s : TrendedBacktest)

abbrev results : InstanceResults := s.system.results

def step (x : BacktestStep) : TrendedBacktest where
  system := s.system.step x
  trend :=
    match s.system.handling? x with
    | some (.trade t) =>
      if (s.results.positionManager.onTradeReceived t).2.isSome then
        s.trend.setTrendInfo (s.results.handleTrade t).depoChannel
      else s.trend
    | _ => s.trend

def apr : Option ℚ := s.results.strategyResult.apr s.trend

end TrendedBacktest

namespace InstanceResults

variable {s : InstanceResults} {trend : TrendInfo} {t : Trade} {ts : Milliseconds}

structure HasTrend (s : InstanceResults) (trend : TrendInfo) : Prop where
  amount : s.strategyResult.positionCurrencyAmount = posCurrencyAmount
  start : ∀ start ∈ s.strategyResult.strategyStartTs, (start, 0) ∈ s.depoChannel
  last : ∀ last ∈ s.positionsChannel.getLast?, ∃ earlier later,
    s.depoChannel = earlier ++ (last.1, s.strategyResult.finalProfit) :: later ∧
      (∀ p ∈ later, p.2 = s.strategyResult.finalProfit ∨
        s.strategyResult.strategyStartTs = some p.1 ∧ p.2 = 0) ∧
      trend = ({} : TrendInfo).setTrendInfo (earlier ++ [(last.1, s.strategyResult.finalProfit)])

theorem hasTrend_init : init.HasTrend {} := ⟨rfl, by simp [init], by simp [init]⟩

theorem HasTrend.report (h : s.HasTrend trend) : (s.report ts).HasTrend trend := by
  refine ⟨h.amount, fun start hstart => List.mem_append_left _ (h.start start hstart),
    fun last hlast => ?_⟩
  obtain ⟨earlier, later, hdepo, hlater, htrend⟩ := h.last last hlast
  refine ⟨earlier, later ++ [(ts, s.strategyResult.finalProfit)], ?_, ?_, htrend⟩
  · rw [InstanceResults.report, hdepo, List.append_assoc, List.cons_append]
  · rw [List.forall_mem_append, List.forall_mem_singleton]
    exact ⟨hlater, .inl rfl⟩

theorem HasTrend.recordStart (h : s.HasTrend trend) : (s.recordStart ts).HasTrend trend := by
  unfold InstanceResults.recordStart
  split
  case isFalse => exact h
  case isTrue hnone =>
    refine ⟨h.amount, ?_, fun last hlast => ?_⟩
    · rintro _ ⟨⟩
      exact List.mem_append_right _ List.mem_cons_self
    obtain ⟨earlier, later, hdepo, hlater, htrend⟩ := h.last last hlast
    refine ⟨earlier, later ++ [(ts, 0)], ?_, ?_, htrend⟩
    · simp only [hdepo, List.append_assoc, List.cons_append]
    · rw [List.forall_mem_append, List.forall_mem_singleton]
      refine ⟨fun p hp => .inl ?_, .inr ⟨rfl, rfl⟩⟩
      rcases hlater p hp with hsame | ⟨hstart, -⟩
      · exact hsame
      · rw [hstart] at hnone
        cases hnone

theorem handleTrade_fixed (s : InstanceResults) (t : Trade) :
    (s.handleTrade t).strategyResult.positionCurrencyAmount =
        s.strategyResult.positionCurrencyAmount ∧
      (s.handleTrade t).strategyResult.strategyStartTs = s.strategyResult.strategyStartTs := by
  unfold InstanceResults.handleTrade
  cases (s.positionManager.onTradeReceived t).2 with
  | none => exact ⟨rfl, rfl⟩
  | some r => exact StrategyResult.addResult_fixed ..

theorem depoChannel_handleTrade (s : InstanceResults) (t : Trade) :
    (s.handleTrade t).depoChannel =
      if (s.positionManager.onTradeReceived t).2.isSome then
        s.depoChannel ++ [(t.ts, (s.handleTrade t).strategyResult.finalProfit)]
      else s.depoChannel := by
  unfold InstanceResults.handleTrade
  cases (s.positionManager.onTradeReceived t).2 <;> rfl

theorem HasTrend.handleTrade (h : s.HasTrend trend) :
    (s.handleTrade t).HasTrend
      (if (s.positionManager.onTradeReceived t).2.isSome then
        trend.setTrendInfo (s.handleTrade t).depoChannel
      else trend) := by
  have hdepo := s.depoChannel_handleTrade t
  obtain ⟨hamount, hstart⟩ := s.handleTrade_fixed t
  refine ⟨hamount.trans h.amount, fun start hstart' => ?_, fun last hlast => ?_⟩
  · rw [hstart] at hstart'
    rw [hdepo]
    split_ifs
    · exact List.mem_append_left _ (h.start start hstart')
    · exact h.start start hstart'
  cases hres : (s.positionManager.onTradeReceived t).2 with
  | none =>
    obtain ⟨hprofit, -, hpositions⟩ := handleTrade_of_none hres
    rw [hpositions] at hlast
    simp only [hres, Option.isSome_none, Bool.false_eq_true, if_false] at hdepo ⊢
    rw [hprofit, hdepo, hstart]
    exact h.last last hlast
  | some r =>
    obtain ⟨-, -, hpositions⟩ := handleTrade_of_some hres
    rw [hpositions, List.getLast?_concat, Option.mem_some_iff] at hlast
    subst hlast
    simp only [hres, Option.isSome_some, if_true] at hdepo ⊢
    refine ⟨s.depoChannel, [], hdepo, by simp, ?_⟩
    rw [hdepo]
    exact TrendInfo.setTrendInfo_eq (by simp) _ _

structure Begun (s : InstanceResults) : Prop where
  none : s.strategyResult.strategyStartTs = none → s.depoChannel = []
  some : ∀ start ∈ s.strategyResult.strategyStartTs, s.depoChannel.head? = some (start, 0)

theorem begun_init : init.Begun := ⟨fun _ => rfl, by simp [init]⟩

theorem Begun.grow {s' : InstanceResults} (h : s.Begun)
    (hsome : s.strategyResult.strategyStartTs.isSome)
    (hstart : s'.strategyResult.strategyStartTs = s.strategyResult.strategyStartTs)
    (hdepo : s.depoChannel <+: s'.depoChannel) : s'.Begun := by
  constructor
  · intro hnone
    rw [← hstart, hnone] at hsome
    cases hsome
  · intro start hs
    have hhead := h.some start (hstart ▸ hs)
    obtain ⟨added, hadded⟩ := hdepo
    rw [← hadded, List.head?_append, hhead, Option.some_or]

theorem Begun.recordStart (h : s.Begun) : (s.recordStart ts).Begun := by
  unfold InstanceResults.recordStart
  split
  case isFalse => exact h
  case isTrue hnone =>
    rw [Option.isNone_iff_eq_none] at hnone
    refine ⟨fun hsome => (by cases hsome), ?_⟩
    rintro start ⟨⟩
    simp [h.none hnone]

theorem Begun.handleTrade (h : s.Begun) (hsome : s.strategyResult.strategyStartTs.isSome) :
    (s.handleTrade t).Begun := by
  refine h.grow hsome (s.handleTrade_fixed t).2 ?_
  rw [depoChannel_handleTrade]
  split
  · exact List.prefix_append ..
  · exact List.prefix_rfl

theorem start_recordStart (s : InstanceResults) (ts : Milliseconds) :
    (s.recordStart ts).strategyResult.strategyStartTs.isSome := by
  unfold InstanceResults.recordStart
  split
  · rfl
  case isFalse hnone => simpa [Option.isSome_iff_ne_none] using hnone

end InstanceResults

namespace TrendedBacktest

variable {s : TrendedBacktest} {x : BacktestStep}

theorem hasTrend_step (h : s.results.HasTrend s.trend) :
    (s.step x).results.HasTrend (s.step x).trend := by
  have hentered : (s.system.entered x).HasTrend (s.step x).trend := by
    simp only [BacktestSystem.entered, step]
    cases s.system.handling? x with
    | none => exact h
    | some e =>
      cases e with
      | price t => exact h.recordStart
      | trade t => exact h.handleTrade
      | _ => exact h
  rcases s.system.results_step x with hsame | ⟨e, ts, -, -, hreport⟩
  · exact (congrArg (InstanceResults.HasTrend · _) hsame).mpr hentered
  · exact (congrArg (InstanceResults.HasTrend · _) hreport).mpr hentered.report

theorem run_hasTrend (symbol : Symbol) (xs : List BacktestStep) :
    (after step (init symbol) xs).results.HasTrend (after step (init symbol) xs).trend := by
  induction xs using List.reverseRecOn with
  | nil => exact InstanceResults.hasTrend_init
  | append_singleton xs x ih =>
    rw [after_concat]
    exact hasTrend_step ih

/-- The trend shown is that of these profits: their only least squares line, with the deviation
of the profits from it. -/
structure Shows (s : TrendedBacktest) (profits : List (Milliseconds × ℚ)) : Prop where
  first : s.trend.firstPositionClosedTs = profits.head?.map Prod.fst
  last : s.trend.lastPositionClosedTs = profits.getLast?.map Prod.fst
  line : profits.length < 2 ^ 32 → (∃ p ∈ profits, ∃ q ∈ profits, p.1 ≠ q.1) →
    ∃ first ∈ profits.head?, ∃ f reg dev, IsFit f (fromPrices profits) ∧
      s.trend.depoTrend = some reg ∧
      (∀ ts, reg.apply ts = f.apply (daysFromBegin first.1 ts)) ∧
      s.trend.depoStandardDeviation = some dev ∧
      dev.toReal ^ 2 = (squaredErrors f (fromPrices profits) / profits.length : ℚ)

theorem shows_of_setTrendInfo {trend : TrendInfo} {profits : List (Milliseconds × ℚ)}
    (h : s.trend = trend.setTrendInfo profits) (hne : profits ≠ []) : s.Shows profits := by
  rw [TrendInfo.setTrendInfo, if_neg hne] at h
  refine ⟨by rw [h], by rw [h], fun hlength htimes => ?_⟩
  cases profits with
  | nil => exact absurd rfl hne
  | cons first rest =>
    have hpoints : (fromPrices (first :: rest)).length = (first :: rest).length :=
      List.length_map ..
    obtain ⟨f, hsolve, hfit, dev, hdev, hsq⟩ :=
      fits_of_lt (hpoints ▸ hlength) (twoAbscissas_fromPrices htimes)
    have hsolved : solvePrices (first :: rest) = some (.ofLine f first.1, some dev) := by
      simp only [solvePrices, hsolve, hdev]
    rw [hsolved] at h
    refine ⟨first, rfl, f, .ofLine f first.1, dev, hfit, ?_, ?_, ?_, ?_⟩
    · rw [h]
      rfl
    · exact ofLine_apply f first.1
    · rw [h]
      rfl
    · rw [hsq, hpoints]

/--
In every run the zero of the first price is among the profits, and the trend is that of all
profits up to the last position result. Whatever has been pushed after these is the unchanged
profit of a finish, or the zero of a first price that comes late.
-/
theorem trend_run (symbol : Symbol) (xs : List BacktestStep) :
    let s := after step (init symbol) xs
    let profit := s.results.strategyResult.finalProfit
    (∀ start ∈ s.results.strategyResult.strategyStartTs, (start, 0) ∈ s.results.depoChannel) ∧
      ∀ last ∈ s.results.positionsChannel.getLast?, ∃ earlier later,
        s.results.depoChannel = earlier ++ (last.1, profit) :: later ∧
          (∀ p ∈ later, p.2 = profit ∨
            s.results.strategyResult.strategyStartTs = some p.1 ∧ p.2 = 0) ∧
          s.Shows (earlier ++ [(last.1, profit)]) := by
  intro s profit
  refine ⟨(run_hasTrend symbol xs).start, fun last hlast => ?_⟩
  obtain ⟨earlier, later, hdepo, hlater, htrend⟩ := (run_hasTrend symbol xs).last last hlast
  exact ⟨earlier, later, hdepo, hlater, shows_of_setTrendInfo htrend (by simp)⟩

/-- A feed of two prices a day apart, the first of which is bought. -/
def heldForADay : List BacktestStep :=
  let reader : SequentialMarketDataReader := .new [[⟨1000, 100, ⟨1⟩⟩, ⟨86401000, 110, ⟨1⟩⟩]]
  [.runAsync, .run {}, .answer Guid.first reader, .run {}, .flush, .run { first := 1 }, .flush,
    .flush, .run { actions := [.call (.sendMarketOrder 100 ⟨1⟩ 1000)] }, .flush, .flush, .flush,
    .run {}, .run {}, .run {}, .run {}, .flush, .run {}, .flush, .flush, .flush, .run {}, .run {},
    .run {}]

/-- The profit of a day and its report. -/
theorem trend_run_held :
    let s := after step (init ⟨"BTCUSDT", ⟨1, 100, 1⟩⟩) heldForADay
    let profit := s.results.strategyResult.finalProfit
    s.results.depoChannel = [(1000, 0), (86401000, 979 / 100), (86401000, 979 / 100)] ∧
      ∃ last ∈ s.results.positionsChannel.getLast?, ∃ earlier later,
        s.results.depoChannel = earlier ++ (last.1, profit) :: later ∧
          (∀ p ∈ later, p.2 = profit ∨
            s.results.strategyResult.strategyStartTs = some p.1 ∧ p.2 = 0) ∧
          s.Shows (earlier ++ [(last.1, profit)]) := by
  intro s profit
  have hsome : s.results.positionsChannel.getLast?.isSome := by decide +kernel
  obtain ⟨last, hlast⟩ := Option.isSome_iff_exists.mp hsome
  exact ⟨by decide +kernel, last, hlast, (trend_run _ _).2 last hlast⟩

theorem begun_entered (h : s.results.Begun) (hok : s.system.StartsPlainly x) :
    (s.system.entered x).Begun ∧
      ∀ e ∈ s.system.handling? x, (s.system.Prepares e → e.isPrice) →
        (s.system.entered x).strategyResult.strategyStartTs.isSome := by
  unfold BacktestSystem.StartsPlainly at hok
  simp only [BacktestSystem.entered]
  cases he : s.system.handling? x with
  | none => exact ⟨h, by simp⟩
  | some e =>
    have hstarted : (s.system.Prepares e → e.isPrice) → e.isPrice = false →
        s.results.strategyResult.strategyStartTs.isSome := by
      intro hready hprice
      rw [Option.isSome_iff_ne_none]
      intro hnone
      have hyes := hready (hok hnone e he)
      rw [hprice] at hyes
      cases hyes
    cases e with
    | price t => exact ⟨h.recordStart, fun _ _ _ => InstanceResults.start_recordStart ..⟩
    | trade t =>
      have hsome := hstarted False.elim rfl
      refine ⟨h.handleTrade hsome, fun _ _ _ => ?_⟩
      rw [(s.results.handleTrade_fixed t).2]
      exact hsome
    | _ =>
      refine ⟨h, ?_⟩
      rintro _ ⟨⟩ hready
      exact hstarted hready rfl

theorem begun_step (h : s.results.Begun) (hok : s.system.StartsPlainly x) :
    (s.step x).results.Begun := by
  obtain ⟨hbegun, hstarted⟩ := begun_entered h hok
  rcases s.system.results_step x with hsame | ⟨e, ts, he, hready, hreport⟩
  · exact (congrArg InstanceResults.Begun hsame).mpr hbegun
  · refine (congrArg InstanceResults.Begun hreport).mpr ?_
    exact hbegun.grow (hstarted e he hready) rfl (List.prefix_append ..)

/-- The annual rate is the value of the line a year after the start, of an amount of 100. -/
theorem apr_eq {start : Milliseconds} {reg : PriceRegressionFunction}
    (h : s.results.HasTrend s.trend)
    (hstart : s.results.strategyResult.strategyStartTs = some start)
    (hreg : s.trend.depoTrend = some reg) : s.apr = some (reg.apply (start + year)) := by
  have hamount := h.amount
  simp only [apr, StrategyResult.apr, hstart, hreg, hamount, InstanceResults.posCurrencyAmount]
  exact congrArg some (mul_div_cancel₀ _ (by norm_num))

/--
After a plain start `apr` extrapolates the profits up to the last position result: it is the
value that their least squares line, which begins with the zero of the first price, has a year
later.
-/
theorem apr_run (symbol : Symbol) (xs : List BacktestStep)
    (h : Meets step (fun s x => s.system.StartsPlainly x) (init symbol) xs) :
    let s := after step (init symbol) xs
    s.results.depoChannel.length < 2 ^ 32 →
    ∀ last ∈ s.results.positionsChannel.getLast?,
      ∀ start ∈ s.results.strategyResult.strategyStartTs, start ≠ last.1 → ∃ profits f,
        profits <+: s.results.depoChannel ∧ profits.head? = some (start, 0) ∧
        profits.getLast? = some (last.1, s.results.strategyResult.finalProfit) ∧
        IsFit f (fromPrices profits) ∧ s.apr = some (f.apply 365.2425) := by
  intro s hlength last hlast start hstart hne
  have htrend := run_hasTrend symbol xs
  have hbegun : s.results.Begun := h.invariant (I := fun s => s.results.Begun)
    (fun _ _ hs hok => begun_step hs hok) InstanceResults.begun_init
  obtain ⟨earlier, later, hdepo, -, hset⟩ := htrend.last last hlast
  generalize hprofits : earlier ++ [(last.1, s.results.strategyResult.finalProfit)] = profits
  have hsplit : profits ++ later = s.results.depoChannel := by
    rw [hdepo, ← hprofits, List.append_assoc, List.singleton_append]
  have hlastProfit : profits.getLast? = some (last.1, s.results.strategyResult.finalProfit) := by
    rw [← hprofits, List.getLast?_concat]
  have hnonempty : profits ≠ [] := by
    rw [← hprofits]
    simp
  have hhead : profits.head? = some (start, 0) := by
    have hfirst := hbegun.some start hstart
    rwa [← hsplit, List.head?_append_of_ne_nil _ hnonempty] at hfirst
  obtain ⟨first, hfirst, f, reg, -, hfit, hreg, happly, -⟩ :=
    (shows_of_setTrendInfo (hprofits ▸ hset) hnonempty).line
      ((List.prefix_append profits later).length_le.trans_lt (hsplit ▸ hlength))
      ⟨_, List.mem_of_head? hhead, _, List.mem_of_getLast? hlastProfit, hne⟩
  obtain rfl : (start, 0) = first := Option.some.inj (hhead.symm.trans hfirst)
  refine ⟨profits, f, ⟨later, hsplit⟩, hhead, hlastProfit, hfit, ?_⟩
  rw [apr_eq htrend hstart hreg, happly, daysFromBegin_year]

/-- The profit of a day, 365.2425 times. -/
theorem apr_run_held :
    let s := after step (init ⟨"BTCUSDT", ⟨1, 100, 1⟩⟩) heldForADay
    s.apr = some (365.2425 * (979 / 100)) ∧ ∃ profits f,
      profits <+: s.results.depoChannel ∧ profits.head? = some (1000, 0) ∧
      profits.getLast? = some (86401000, s.results.strategyResult.finalProfit) ∧
      IsFit f (fromPrices profits) ∧ s.apr = some (f.apply 365.2425) := by
  intro s
  have h : Meets step (fun s x => s.system.StartsPlainly x) (init ⟨"BTCUSDT", ⟨1, 100, 1⟩⟩)
      heldForADay := by decide +kernel
  have hlength : s.results.depoChannel.length < 2 ^ 32 := by decide +kernel
  have hts : s.results.positionsChannel.getLast?.map Prod.fst = some 86401000 := by decide +kernel
  have hstart : (1000 : ℤ) ∈ s.results.strategyResult.strategyStartTs := by decide +kernel
  obtain ⟨last, hlast, hlastTs⟩ := Option.map_eq_some_iff.mp hts
  have happly := apr_run _ _ h hlength last hlast 1000 hstart (by rw [hlastTs]; decide)
  rw [hlastTs] at happly
  exact ⟨by decide +kernel, happly⟩

/-- The answer to another instance, if it is handled before the start, is reported as a finish. -/
example : (after step (init ⟨"BTCUSDT", ⟨1, 100, 1⟩⟩)
    ([.answer 7 (.new []), .run {}] ++ heldForADay)).results.depoChannel.head? = some (0, 0) := by
  decide +kernel

end TrendedBacktest

end CryptoTrading

import CryptoTrading.Lib.Changes
import CryptoTrading.Lib.Pipeline
import CryptoTrading.Strategy.Base
import CryptoTrading.Ta.AverageDirectionalIndex
import CryptoTrading.Ta.StandardDeviation

/-! # The trend catcher

It trades in the direction in which both averages of the price changes point, while the prices
deviate little over both intervals. The last candle counts for the deviations only. Each change
of the state of the market is pushed once.
-/

namespace CryptoTrading

open Changes Moments Runs Window

open TimeWeightedMovingAverage (stepsIn stepsIn_pos pushValue_of_isChain)

inductive MarketState | none | noTrend | upTrend | downTrend | highVolatility
  deriving DecidableEq

/-- The prices of a candle are positive. -/
abbrev RangedCandle := { c : Candle // c.HasRange }

namespace RangedCandle

variable (c : RangedCandle)

def priceDiffCoef : ℚ := (c.1.close - c.1.openPrice) / c.1.openPrice

def diffPoint : Milliseconds × ℚ := (c.1.closeTs, c.priceDiffCoef)

def closePoint : Milliseconds × ℚ := (c.1.closeTs, c.1.close)

end RangedCandle

structure TrendCatcherStrategyConfig where
  timeframe : Milliseconds := 0
  slowInterval : Milliseconds := 0
  fastInterval : Milliseconds := 0
  minPriceDiffPerc : ℚ := 0
  maxStdDevPerc : ℚ := 0
  deriving DecidableEq

structure TrendIndicators where
  diffMa : TimeWeightedMovingAverage
  stdDev : StandardDeviation
  deriving DecidableEq

namespace TrendIndicators

def new (interval : Milliseconds) : TrendIndicators where
  diffMa := .new interval
  stdDev := .new interval

def step (m : TrendIndicators) (c : RangedCandle) : TrendIndicators where
  diffMa := m.diffMa.step c.diffPoint
  stdDev := m.stdDev.step c.closePoint

end TrendIndicators

structure TrendCatcherStrategy where
  config : TrendCatcherStrategyConfig
  slow : TrendIndicators
  fast : TrendIndicators
  /-- The object of the channel. -/
  marketState : MarketState := .none
  deriving DecidableEq

namespace TrendCatcherStrategy

def new (config : TrendCatcherStrategyConfig) : TrendCatcherStrategy where
  config := config
  slow := .new config.slowInterval
  fast := .new config.fastInterval

def sign (v : ℚ) : ℤ := if v < 0 then -1 else if 0 < v then 1 else 0

/-- `100 * std_dev / mean > limit`. The quotient by zero is infinite or not a number. -/
def Volatile (stdDev : SquareRoot) (mean limit : ℚ) : Prop :=
  mean = 0 ∧ stdDev.radicand ≠ 0 ∨ mean ≠ 0 ∧ stdDev.ScaledLt (-(100 / mean)) (-limit)

instance (stdDev : SquareRoot) (mean limit : ℚ) : Decidable (Volatile stdDev mean limit) :=
  inferInstanceAs (Decidable (_ ∨ _))

variable (s : TrendCatcherStrategy)

/-- The second part is what it pushes to the channel. -/
def updateMarketState (state : MarketState) : TrendCatcherStrategy × List MarketState :=
  if s.marketState ≠ state then ({ s with marketState := state }, [state]) else (s, [])

/-- The arguments of `try_send_order`, where it is called, and what is pushed to the channel. -/
def pushCandle (c : RangedCandle) :
    TrendCatcherStrategy × Option EntrySignal × List MarketState :=
  let ts := c.1.closeTs
  let (slowDiff?, slowDiffMa) := s.slow.diffMa.pushValue ts c.priceDiffCoef
  let (fastDiff?, fastDiffMa) := s.fast.diffMa.pushValue ts c.priceDiffCoef
  let (slowStdDev, slowStdDev?) := s.slow.stdDev.pushValue ts c.1.close
  let (fastStdDev, fastStdDev?) := s.fast.stdDev.pushValue ts c.1.close
  let s := { s with slow := ⟨slowDiffMa, slowStdDev⟩, fast := ⟨fastDiffMa, fastStdDev⟩ }
  match slowDiff?, fastDiff?, slowStdDev?, fastStdDev? with
  | some slowDiff, some fastDiff, some slowDev, some fastDev =>
    let slowDiffP := slowDiff * 100
    let fastDiffP := fastDiff * 100
    if Volatile slowDev slowStdDev.mean s.config.maxStdDevPerc ∨
        Volatile fastDev fastStdDev.mean s.config.maxStdDevPerc then
      let (s, pushed) := s.updateMarketState .highVolatility
      (s, none, pushed)
    else if sign slowDiffP ≠ sign fastDiffP then
      let (s, pushed) := s.updateMarketState .noTrend
      (s, none, pushed)
    else if sign slowDiffP = 0 ∨ sign fastDiffP = 0 then
      let (s, pushed) := s.updateMarketState .noTrend
      (s, none, pushed)
    else if |slowDiffP| < s.config.minPriceDiffPerc ∨ |fastDiffP| < s.config.minPriceDiffPerc then
      let (s, pushed) := s.updateMarketState .noTrend
      (s, none, pushed)
    else
      let orderSide := if 0 < sign fastDiffP then Side.buy else .sell
      let marketState := if orderSide = .buy then MarketState.upTrend else .downTrend
      let (s, pushed) := s.updateMarketState marketState
      (s, some ⟨orderSide, c.1.close, ts⟩, pushed)
  | _, _, _, _ => (s, none, [])

def step (c : RangedCandle) : TrendCatcherStrategy := (s.pushCandle c).1

end TrendCatcherStrategy

structure TrendValue where
  diff : ℚ
  stdDev : SquareRoot
  mean : ℚ
  deriving DecidableEq

def TrendIndicators.value (m : TrendIndicators) (c : RangedCandle) : Option TrendValue :=
  (m.diffMa.pushValue c.1.closeTs c.priceDiffCoef).1.bind fun diff =>
    (m.stdDev.pushValue c.1.closeTs c.1.close).2.map fun stdDev =>
      ⟨diff, stdDev, (m.stdDev.step c.closePoint).mean⟩

def MarketState.side? : MarketState → Option Side
  | upTrend => some .buy
  | downTrend => some .sell
  | _ => Option.none

namespace TrendCatcherStrategy

def marketStateOf (config : TrendCatcherStrategyConfig) (slow fast : TrendValue) : MarketState :=
  if Volatile slow.stdDev slow.mean config.maxStdDevPerc ∨
      Volatile fast.stdDev fast.mean config.maxStdDevPerc then .highVolatility
  else if sign (slow.diff * 100) ≠ sign (fast.diff * 100) then .noTrend
  else if sign (slow.diff * 100) = 0 ∨ sign (fast.diff * 100) = 0 then .noTrend
  else if |slow.diff * 100| < config.minPriceDiffPerc ∨
      |fast.diff * 100| < config.minPriceDiffPerc then .noTrend
  else if 0 < sign (fast.diff * 100) then .upTrend
  else .downTrend

def found (s : TrendCatcherStrategy) (c : RangedCandle) : Option MarketState :=
  (s.slow.value c).bind fun slow => (s.fast.value c).map (marketStateOf s.config slow)

variable {s : TrendCatcherStrategy} {c : RangedCandle}

theorem updateMarketState_eq (state : MarketState) : s.updateMarketState state =
    ({ s with marketState := state }, (report id (some s.marketState) state).toList) := by
  obtain ⟨config, slow, fast, current⟩ := s
  by_cases h : current = state
  · subst h
    simp [updateMarketState, report]
  · simp [updateMarketState, report, h]

theorem pushCandle_eq : s.pushCandle c =
    ({ s with
        slow := s.slow.step c
        fast := s.fast.step c
        marketState := (s.found c).getD s.marketState },
      ((s.found c).bind MarketState.side?).map fun side => ⟨side, c.1.close, c.1.closeTs⟩,
      ((s.found c).bind (report id (some s.marketState))).toList) := by
  simp only [pushCandle, found, TrendIndicators.value, TrendIndicators.step,
    TimeWeightedMovingAverage.step, StandardDeviation.step, RangedCandle.diffPoint,
    RangedCandle.closePoint]
  rcases s.slow.diffMa.pushValue c.1.closeTs c.priceDiffCoef with ⟨_ | slowDiff, slowDiffMa⟩
  · rfl
  rcases s.fast.diffMa.pushValue c.1.closeTs c.priceDiffCoef with ⟨_ | fastDiff, fastDiffMa⟩
  · rcases s.slow.stdDev.pushValue c.1.closeTs c.1.close with ⟨slowStdDev, _ | slowDev⟩ <;> rfl
  rcases s.slow.stdDev.pushValue c.1.closeTs c.1.close with ⟨slowStdDev, _ | slowDev⟩
  · rfl
  rcases s.fast.stdDev.pushValue c.1.closeTs c.1.close with ⟨fastStdDev, _ | fastDev⟩
  · rfl
  simp only [updateMarketState_eq, marketStateOf, Option.bind_some, Option.map_some,
    Option.getD_some]
  split_ifs <;> first | rfl | contradiction

/-- The average of the changes points to the side, and it is large enough. -/
def Trending (config : TrendCatcherStrategyConfig) (side : Side) (diff : ℚ) : Prop :=
  0 < side.sign * (diff * 100) ∧ config.minPriceDiffPerc ≤ side.sign * (diff * 100)

theorem sign_eq_one_iff {v : ℚ} : sign v = 1 ↔ 0 < v := by
  unfold sign
  split_ifs with hneg hpos
  · exact iff_of_false (by decide) hneg.not_gt
  · exact iff_of_true rfl hpos
  · exact iff_of_false (by decide) hpos

theorem sign_eq_neg_one_iff {v : ℚ} : sign v = -1 ↔ v < 0 := by
  unfold sign
  split_ifs with hneg hpos
  · exact iff_of_true rfl hneg
  · exact iff_of_false (by decide) hneg
  · exact iff_of_false (by decide) hneg

theorem sign_eq_zero_iff {v : ℚ} : sign v = 0 ↔ v = 0 := by
  rcases lt_trichotomy v 0 with h | rfl | h
  · rw [sign_eq_neg_one_iff.mpr h]
    exact iff_of_false (by decide) h.ne
  · exact iff_of_true rfl rfl
  · rw [sign_eq_one_iff.mpr h]
    exact iff_of_false (by decide) h.ne'

theorem exists_side_iff {x y : ℚ} : ¬ sign x ≠ sign y ∧ ¬ (sign x = 0 ∨ sign y = 0) ↔
    ∃ side : Side, 0 < side.sign * x ∧ 0 < side.sign * y := by
  constructor
  · rintro ⟨hsame, hzero⟩
    rw [not_not] at hsame
    rw [← hsame, or_self, sign_eq_zero_iff] at hzero
    rcases lt_or_gt_of_ne hzero with hx | hx
    · have hy : y < 0 := sign_eq_neg_one_iff.mp (hsame ▸ sign_eq_neg_one_iff.mpr hx)
      exact ⟨.sell, by simpa using ⟨hx, hy⟩⟩
    · have hy : 0 < y := sign_eq_one_iff.mp (hsame ▸ sign_eq_one_iff.mpr hx)
      exact ⟨.buy, by simpa using ⟨hx, hy⟩⟩
  · rintro ⟨_ | _, hx, hy⟩
    · rw [Side.sign_buy, Int.cast_one, one_mul] at hx hy
      simp [sign_eq_one_iff.mpr hx, sign_eq_one_iff.mpr hy]
    · rw [Side.sign_sell, Int.cast_neg, Int.cast_one, neg_one_mul, neg_pos] at hx hy
      simp [sign_eq_neg_one_iff.mpr hx, sign_eq_neg_one_iff.mpr hy]

theorem sign_mul_pos_iff {x : ℚ} {trend side : Side} (hx : 0 < trend.sign * x) :
    0 < side.sign * x ↔ trend = side := by
  constructor
  · intro hside
    cases trend <;> cases side <;> first | rfl | (simp at hx hside; exact absurd hx hside.not_gt)
  · rintro rfl
    exact hx

theorem sign_pos_iff {x : ℚ} {trend : Side} (hx : 0 < trend.sign * x) :
    0 < sign x ↔ trend = .buy := by
  rw [← sign_mul_pos_iff hx, Side.sign_buy, Int.cast_one, one_mul]
  unfold sign
  split_ifs with hneg hpos
  · exact iff_of_false (by decide) hneg.not_gt
  · exact iff_of_true (by decide) hpos
  · exact iff_of_false (by decide) hpos

theorem abs_eq_sign_mul {x : ℚ} {trend : Side} (hx : 0 < trend.sign * x) :
    |x| = trend.sign * x := by
  cases trend
  · simp only [Side.sign_buy, Int.cast_one, one_mul] at hx ⊢
    exact abs_of_pos hx
  · simp only [Side.sign_sell, Int.cast_neg, Int.cast_one, neg_one_mul] at hx ⊢
    exact abs_of_neg (neg_pos.mp hx)

theorem side?_marketStateOf {config : TrendCatcherStrategyConfig} {slow fast : TrendValue}
    {side : Side} : (marketStateOf config slow fast).side? = some side ↔
      ¬ Volatile slow.stdDev slow.mean config.maxStdDevPerc ∧
        ¬ Volatile fast.stdDev fast.mean config.maxStdDevPerc ∧
        Trending config side slow.diff ∧ Trending config side fast.diff := by
  rw [← and_assoc, ← not_or]
  unfold marketStateOf
  split_ifs with hvolatile hdiffer hzero hsmall hup
  · exact iff_of_false nofun fun h => h.1 hvolatile
  · exact iff_of_false nofun fun ⟨_, hslow, hfast⟩ =>
      (exists_side_iff.mpr ⟨side, hslow.1, hfast.1⟩).1 hdiffer
  · exact iff_of_false nofun fun ⟨_, hslow, hfast⟩ =>
      (exists_side_iff.mpr ⟨side, hslow.1, hfast.1⟩).2 hzero
  · refine iff_of_false nofun ?_
    rintro ⟨-, hslow, hfast⟩
    rw [abs_eq_sign_mul hslow.1, abs_eq_sign_mul hfast.1] at hsmall
    exact hsmall.elim hslow.2.not_gt hfast.2.not_gt
  all_goals
    obtain ⟨trend, hslow, hfast⟩ := exists_side_iff.mp ⟨hdiffer, hzero⟩
    rw [abs_eq_sign_mul hslow, abs_eq_sign_mul hfast, not_or, not_lt, not_lt] at hsmall
    rw [sign_pos_iff hfast] at hup
    unfold Trending
    rw [sign_mul_pos_iff hslow, sign_mul_pos_iff hfast]
  · subst hup
    refine Option.some_inj.trans ⟨?_, fun h => h.2.1.1⟩
    rintro rfl
    exact ⟨hvolatile, ⟨rfl, hsmall.1⟩, rfl, hsmall.2⟩
  · obtain rfl : trend = .sell := by cases trend <;> [exact absurd rfl hup; rfl]
    refine Option.some_inj.trans ⟨?_, fun h => h.2.1.1⟩
    rintro rfl
    exact ⟨hvolatile, ⟨rfl, hsmall.1⟩, rfl, hsmall.2⟩

end TrendCatcherStrategy

namespace TrendIndicators

variable {m : TrendIndicators} {interval timeframe : Milliseconds} {pre : List RangedCandle}
  {c : RangedCandle} {limit : ℚ}

def closes (interval : Milliseconds) (pre : List RangedCandle) (c : RangedCandle) : List ℚ :=
  (StandardDeviation.window interval c.1.closeTs
    ((pre ++ [c]).map RangedCandle.closePoint)).map Prod.snd

def changes (interval timeframe : Milliseconds) (pre : List RangedCandle) : List ℚ :=
  (pre.rtake (stepsIn interval timeframe)).map RangedCandle.priceDiffCoef

theorem step_after : (after step m pre).diffMa =
      after TimeWeightedMovingAverage.step m.diffMa (pre.map RangedCandle.diffPoint) ∧
    (after step m pre).stdDev =
      after StandardDeviation.step m.stdDev (pre.map RangedCandle.closePoint) := by
  induction pre generalizing m with
  | nil => exact ⟨rfl, rfl⟩
  | cons c pre ih => exact ih

theorem isChain_points (value : RangedCandle → Milliseconds × ℚ)
    (hvalue : ∀ c, (value c).1 = c.1.closeTs)
    (h : Candle.Consecutive timeframe (pre.map Subtype.val)) :
    (pre.map value).IsChain fun p q => q.1 = p.1 + timeframe := by
  have hclose : (pre.map Subtype.val).IsChain fun c c' => c'.closeTs = c.closeTs + timeframe :=
    h.isChain.imp_of_mem_imp fun c c' _ hc' hnext => by
      rw [Candle.closeTs, hnext, h.timeframe_eq c' hc']
  rw [List.isChain_map] at hclose ⊢
  simpa only [hvalue] using hclose

theorem closes_pos : ∀ price ∈ closes interval pre c, 0 < price := by
  intro price hprice
  obtain ⟨p, hp, rfl⟩ := List.mem_map.mp hprice
  obtain ⟨c', -, rfl⟩ := List.mem_map.mp (List.mem_of_mem_filter hp)
  exact c'.2.1.trans_le (c'.2.2.1.trans (min_le_right ..))

theorem mean_closes_pos (hinterval : 0 ≤ interval) : 0 < mean (closes interval pre c) := by
  have hmem : c.1.close ∈ closes interval pre c := by
    refine List.mem_map.mpr ⟨c.closePoint, List.mem_filter.mpr ⟨by simp, ?_⟩, rfl⟩
    simpa [RangedCandle.closePoint] using hinterval
  have hne := List.ne_nil_of_mem hmem
  exact div_pos (List.sum_pos _ closes_pos hne) (Nat.cast_pos.mpr (List.length_pos_iff.mpr hne))

theorem two_le_length_closes (hframe : 0 < timeframe) (hinterval : timeframe ≤ interval)
    (h : Candle.Consecutive timeframe ((pre ++ [c]).map Subtype.val)) (hne : pre ≠ []) :
    2 ≤ (closes interval pre c).length := by
  obtain ⟨pre, last, rfl⟩ := (List.eq_nil_or_concat pre).resolve_left hne
  rw [List.map_append] at h
  have htime : c.1.closeTs = last.1.closeTs + timeframe := h.closeTs_eq (by simp)
  have hlast : c.1.closeTs ≤ last.1.closeTs + interval := htime.trans_le (by gcongr)
  have hlast' : last.1.closeTs ≤ c.1.closeTs := by
    rw [htime]
    exact le_add_of_nonneg_right hframe.le
  have hinterval' : 0 ≤ interval := hframe.le.trans hinterval
  simp [closes, StandardDeviation.window, RangedCandle.closePoint, hlast, hlast', hinterval']

theorem value_after (hframe : 0 < timeframe) (hinterval : timeframe ≤ interval)
    (h : Candle.Consecutive timeframe ((pre ++ [c]).map Subtype.val)) :
    (after step (new interval) pre).value c =
      if pre.length < stepsIn interval timeframe then none
      else some ⟨mean (changes interval timeframe pre),
        ⟨variance (closes interval pre c), variance_nonneg _⟩, mean (closes interval pre c)⟩ := by
  have hpos : 0 < interval := hframe.trans_le hinterval
  have hdiffs := isChain_points RangedCandle.diffPoint (fun _ => rfl) h
  have hcloses := isChain_points RangedCandle.closePoint (fun _ => rfl) h
  rw [List.map_append] at hdiffs hcloses
  obtain ⟨hma, hdev⟩ := @step_after (new interval) pre
  have hdiff := pushValue_of_isChain hpos hframe hdiffs
  have hpushed := StandardDeviation.pushed_window hpos.le _ _
    (TimeWeightedMovingAverage.pairwise_of_isChain hframe hcloses)
  rw [List.length_map, ← map_rtake, List.map_map] at hdiff
  rw [value, hma, hdev, new, hdiff]
  split_ifs with hfew
  · rfl
  have hne : pre ≠ [] := by
    rintro rfl
    exact hfew (stepsIn_pos hpos hframe)
  have htwo := two_le_length_closes hframe hinterval h hne
  rw [closes, List.map_append, List.length_map] at htwo
  obtain ⟨stdDev, hstdDev⟩ := Option.isSome_iff_exists.mp (hpushed.isSome_iff.mpr htwo)
  have hsq := hpushed.result_sq stdDev hstdDev
  have hmean := hpushed.mean_eq.trans (if_pos htwo)
  have hwindow : (StandardDeviation.window interval c.closePoint.1
      (pre.map RangedCandle.closePoint ++ [c.closePoint])).map Prod.snd =
        closes interval pre c := by
    rw [closes, List.map_append]
    rfl
  rw [hwindow] at hsq hmean
  rw [SquareRoot.toReal_sq] at hsq
  have hroot : stdDev = ⟨variance (closes interval pre c), variance_nonneg _⟩ :=
    SquareRoot.ext (Rat.cast_injective hsq)
  refine (congrArg (Option.map _) hstdDev).trans ?_
  rw [Option.map_some, hroot]
  exact congrArg (fun mean => some (TrendValue.mk _ _ mean)) hmean

end TrendIndicators

namespace TrendCatcherStrategy

variable {config : TrendCatcherStrategyConfig} {interval timeframe : Milliseconds}
  {pre : List RangedCandle} {c : RangedCandle} {side : Side} {order : EntrySignal}
  {mean limit : ℚ} {stdDev : SquareRoot}

open TrendIndicators

theorem volatile_iff (hmean : 0 < mean) :
    Volatile stdDev mean limit ↔ (limit : ℝ) * mean < 100 * stdDev.toReal := by
  have hmean' : (0 : ℝ) < mean := Rat.cast_pos.mpr hmean
  rw [Volatile, or_iff_right fun h => hmean.ne' h.1, and_iff_right hmean.ne',
    SquareRoot.scaledLt_iff, Rat.cast_neg, Rat.cast_neg, mul_neg, neg_lt_neg_iff, Rat.cast_div,
    mul_div_assoc', lt_div_iff₀ hmean', mul_comm stdDev.toReal]
  rfl

def signal (config : TrendCatcherStrategyConfig) (pre : List RangedCandle) (c : RangedCandle) :
    Option EntrySignal :=
  ((after step (new config) pre).pushCandle c).2.1

/-- What an interval has to show for an order of the side. -/
structure Favors (config : TrendCatcherStrategyConfig) (timeframe interval : Milliseconds)
    (pre : List RangedCandle) (c : RangedCandle) (side : Side) : Prop where
  enough : stepsIn interval timeframe ≤ pre.length
  calm : 100 * √(Moments.variance (closes interval pre c) : ℚ) ≤
    config.maxStdDevPerc * (Moments.mean (closes interval pre c) : ℚ)
  trending : Trending config side (Moments.mean (changes interval timeframe pre))

theorem after_parts {s : TrendCatcherStrategy} : (after step s pre).config = s.config ∧
    (after step s pre).slow = after TrendIndicators.step s.slow pre ∧
    (after step s pre).fast = after TrendIndicators.step s.fast pre := by
  induction pre generalizing s with
  | nil => exact ⟨rfl, rfl, rfl⟩
  | cons c pre ih =>
    have hstep : (s.step c).config = s.config ∧ (s.step c).slow = s.slow.step c ∧
        (s.step c).fast = s.fast.step c := by
      rw [step, pushCandle_eq]
      exact ⟨rfl, rfl, rfl⟩
    rw [after_cons, after_cons, after_cons, ← hstep.1, ← hstep.2.1, ← hstep.2.2]
    exact ih

theorem signal_eq_some_iff : signal config pre c = some order ↔
    order.price = c.1.close ∧ order.ts = c.1.closeTs ∧
      ∃ slow ∈ (after TrendIndicators.step (.new config.slowInterval) pre).value c,
        ∃ fast ∈ (after TrendIndicators.step (.new config.fastInterval) pre).value c,
          (marketStateOf config slow fast).side? = some order.side := by
  obtain ⟨hconfig, hslow, hfast⟩ := @after_parts pre (new config)
  rw [signal, pushCandle_eq, found, hconfig, hslow, hfast]
  obtain ⟨side, price, ts⟩ := order
  simp only [Option.map_eq_some_iff, Option.bind_eq_some_iff, Option.mem_def]
  constructor
  · rintro ⟨side, ⟨state, ⟨slow, hslow, fast, hfast, rfl⟩, hside⟩, heq⟩
    cases heq
    exact ⟨rfl, rfl, slow, hslow, fast, hfast, hside⟩
  · rintro ⟨rfl, rfl, slow, hslow, fast, hfast, hside⟩
    exact ⟨side, ⟨_, ⟨slow, hslow, fast, hfast, rfl⟩, hside⟩, rfl⟩

theorem favors_iff (hinterval : 0 ≤ interval) : Favors config timeframe interval pre c side ↔
    ∃ v ∈ if pre.length < stepsIn interval timeframe then none
        else some (⟨Moments.mean (changes interval timeframe pre),
          ⟨variance (closes interval pre c), variance_nonneg _⟩,
          Moments.mean (closes interval pre c)⟩ : TrendValue),
      ¬ Volatile v.stdDev v.mean config.maxStdDevPerc ∧ Trending config side v.diff := by
  split_ifs with hfew
  · exact iff_of_false (fun h => h.enough.not_gt hfew) (by simp)
  · simp only [Option.mem_some_iff, exists_eq_left', volatile_iff (mean_closes_pos hinterval),
      not_lt]
    exact ⟨fun h => ⟨h.calm, h.trending⟩, fun h => ⟨not_lt.mp hfew, h.1, h.2⟩⟩

/--
With candles in a row an order is tried just if over both intervals the prices deviate little
from their mean, and the changes before the last candle have an average on the side of the order
that is large enough.
-/
theorem signal_iff_favored (hframe : 0 < timeframe) (hslow : timeframe ≤ config.slowInterval)
    (hfast : timeframe ≤ config.fastInterval)
    (h : Candle.Consecutive timeframe ((pre ++ [c]).map Subtype.val)) :
    signal config pre c = some order ↔
      order.price = c.1.close ∧ order.ts = c.1.closeTs ∧
        Favors config timeframe config.slowInterval pre c order.side ∧
        Favors config timeframe config.fastInterval pre c order.side := by
  rw [signal_eq_some_iff, value_after hframe hslow h, value_after hframe hfast h,
    favors_iff (hframe.le.trans hslow), favors_iff (hframe.le.trans hfast)]
  simp only [side?_marketStateOf]
  refine and_congr_right fun _ => and_congr_right fun _ => ?_
  constructor
  · rintro ⟨slow, hslow, fast, hfast, hcalm, hcalm', htrend, htrend'⟩
    exact ⟨⟨slow, hslow, hcalm, htrend⟩, fast, hfast, hcalm', htrend'⟩
  · rintro ⟨⟨slow, hslow, hcalm, htrend⟩, fast, hfast, hcalm', htrend'⟩
    exact ⟨slow, hslow, fast, hfast, hcalm, hcalm', htrend, htrend'⟩

/-- A purchase after a rise, on a candle that falls. -/
theorem signal_iff_favored_fall :
    let config : TrendCatcherStrategyConfig := ⟨1000, 3000, 1000, 1, 50⟩
    let candle (i : ℤ) (openPrice close : ℚ) : Candle :=
      ⟨1000, i * 1000, openPrice, max openPrice close, min openPrice close, close, 1, 1, 1⟩
    let pre : List RangedCandle := [⟨candle 0 100 102, by decide +kernel⟩,
      ⟨candle 1 102 104, by decide +kernel⟩, ⟨candle 2 104 106, by decide +kernel⟩]
    let c : RangedCandle := ⟨candle 3 106 105, by decide +kernel⟩
    signal config pre c = some ⟨.buy, 105, 4000⟩ ∧ Favors config 1000 3000 pre c .buy := by
  intro config candle pre c
  have hcandles : Candle.Consecutive 1000 ((pre ++ [c]).map Subtype.val) :=
    ⟨by decide +kernel, fun c hc => (List.mem_map.mp hc).elim fun c h => h.2 ▸ c.2,
      by decide +kernel⟩
  have hsignal : signal config pre c = some ⟨.buy, 105, 4000⟩ := by decide +kernel
  exact ⟨hsignal, ((signal_iff_favored (by decide) (by decide) (by decide) hcandles).mp
    hsignal).2.2.1⟩

end TrendCatcherStrategy

end CryptoTrading

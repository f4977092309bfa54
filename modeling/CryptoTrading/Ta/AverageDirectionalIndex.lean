import CryptoTrading.MarketData.CandleBuilder
import CryptoTrading.Primitives.Position
import CryptoTrading.Ta.TimeWeightedMovingAverage

/-! # The average directional index

The averages of the directional movements are divided by that of the true ranges, and their
difference by their sum. The first candle is compared with a candle of zeros for its movement,
but with none for its range.
-/

namespace CryptoTrading

open Moments Runs Window

open TimeWeightedMovingAverage (stepsIn stepsIn_pos pushValue_of_isChain)

def Candle.HasRange (c : Candle) : Prop :=
  0 < c.low ∧ c.low ≤ min c.openPrice c.close ∧ max c.openPrice c.close ≤ c.high

instance (c : Candle) : Decidable c.HasRange := inferInstanceAs (Decidable (_ ∧ _))

theorem Candle.HasRange.low_le_high {c : Candle} (h : c.HasRange) : c.low ≤ c.high :=
  (h.2.1.trans (min_le_left ..)).trans ((le_max_left ..).trans h.2.2)

/-- Candles of a timeframe, each of which starts where the one before it ends. -/
structure Candle.Consecutive (timeframe : Milliseconds) (candles : List Candle) : Prop where
  timeframe_eq : ∀ c ∈ candles, c.timeframe = timeframe
  hasRange : ∀ c ∈ candles, c.HasRange
  isChain : candles.IsChain fun c c' => c'.timestamp = c.closeTs

namespace Candle.Consecutive

variable {timeframe : Milliseconds} {pre candles : List Candle} {p c : Candle}

theorem of_prefix (h : Consecutive timeframe candles) (hinit : pre <+: candles) :
    Consecutive timeframe pre where
  timeframe_eq c hc := h.timeframe_eq c (hinit.subset hc)
  hasRange c hc := h.hasRange c (hinit.subset hc)
  isChain := by
    obtain ⟨post, rfl⟩ := hinit
    exact h.isChain.left_of_append

theorem closeTs_eq (h : Consecutive timeframe (pre ++ [c])) (hp : p ∈ pre.getLast?) :
    c.closeTs = p.closeTs + timeframe := by
  have hc : c.timeframe = timeframe :=
    h.timeframe_eq c (List.mem_append_right pre List.mem_cons_self)
  have hstart : c.timestamp = p.closeTs := (List.isChain_append.mp h.isChain).2.2 _ hp _ rfl
  rw [closeTs, hstart, hc]

end Candle.Consecutive

/-- A point of the average of quotients. Its value is `none` where it is not a number. -/
structure AdxAverage.Data where
  timestamp : Milliseconds
  value : Option ℚ
  weight : ℚ
  deriving DecidableEq

/-- The time-weighted moving average of quotients. -/
structure AdxAverage where
  data : List AdxAverage.Data
  interval : Milliseconds
  sum : Option ℚ
  totalWeight : ℚ
  deriving DecidableEq

namespace AdxAverage

def new (interval : Milliseconds) : AdxAverage where
  data := []
  interval := interval
  sum := some 0
  totalWeight := 0

variable (m : AdxAverage)

def calcWeight (current : Milliseconds) : ℚ :=
  match m.data.getLast? with
  | none => 0
  | some prev => (current - prev.timestamp : ℤ) / (m.interval : ℚ)

def pushPoint (timestamp : Milliseconds) (value : Option ℚ) : AdxAverage :=
  { m with data := m.data ++ [⟨timestamp, value, 0⟩] }

def Data.weighted (d : Data) : Option ℚ := d.value.map (· * d.weight)

/-- A sum that a value went into that is not a number stays so. -/
def pushValue (timestamp : Milliseconds) (value : Option ℚ) : Option (Option ℚ) × AdxAverage :=
  match m.data.getLast? with
  | none => (none, m.pushPoint timestamp value)
  | some prevPoint =>
    if timestamp < prevPoint.timestamp then (none, m.pushPoint timestamp value)
    else
      let weight := m.calcWeight timestamp
      let prevPoint := { prevPoint with weight }
      let m := { m with
        data := m.data.dropLast ++ [prevPoint]
        sum := Option.map₂ (· + ·) m.sum prevPoint.weighted
        totalWeight := m.totalWeight + weight }
      match m.data with
      | [] => (none, m.pushPoint timestamp value)
      | front :: data =>
        if timestamp < front.timestamp + m.interval then (none, m.pushPoint timestamp value)
        else
          let res := m.sum.map (· / m.totalWeight)
          (some res, { m with
            data
            sum := Option.map₂ (· - ·) m.sum front.weighted
            totalWeight := m.totalWeight - front.weight }.pushPoint timestamp value)

def Data.ofNumber (d : TimeWeightedMovingAverage.Data) : Data :=
  ⟨d.timestamp, some d.value, d.weight⟩

def ofNumbers (m : TimeWeightedMovingAverage) : AdxAverage where
  data := m.data.map Data.ofNumber
  interval := m.interval
  sum := some m.sum
  totalWeight := m.totalWeight

theorem calcWeight_ofNumbers (m : TimeWeightedMovingAverage) (t : Milliseconds) :
    (ofNumbers m).calcWeight t = m.calcWeight t := by
  rw [calcWeight, TimeWeightedMovingAverage.calcWeight, ofNumbers, List.getLast?_map]
  cases m.data.getLast? <;> rfl

theorem pushPoint_ofNumbers (m : TimeWeightedMovingAverage) (t : Milliseconds) (v : ℚ) :
    (ofNumbers m).pushPoint t (some v) = ofNumbers (m.pushPoint t v) := by
  simp [ofNumbers, pushPoint, TimeWeightedMovingAverage.pushPoint, Data.ofNumber]

/-- While all values are numbers, it is the average of numbers. -/
theorem pushValue_ofNumbers (m : TimeWeightedMovingAverage) (t : Milliseconds) (v : ℚ) :
    (ofNumbers m).pushValue t (some v) =
      ((m.pushValue t v).1.map some, ofNumbers (m.pushValue t v).2) := by
  have hgetLast : (ofNumbers m).data.getLast? = m.data.getLast?.map .ofNumber :=
    List.getLast?_map
  cases hlast : m.data.getLast? with
  | none =>
    rw [hlast, Option.map_none] at hgetLast
    simp only [pushValue, TimeWeightedMovingAverage.pushValue, hlast, hgetLast,
      pushPoint_ofNumbers, Option.map_none]
  | some prev =>
    rw [hlast, Option.map_some] at hgetLast
    have hdata : (ofNumbers m).data.dropLast ++
          [{ Data.ofNumber prev with weight := m.calcWeight t }] =
        (m.data.dropLast ++ [{ prev with weight := m.calcWeight t }]).map .ofNumber := by
      simp [ofNumbers, Data.ofNumber, List.map_dropLast]
    simp only [pushValue, TimeWeightedMovingAverage.pushValue, hlast, hgetLast,
      calcWeight_ofNumbers, hdata]
    by_cases hold : t < prev.timestamp
    · have hold' : t < (Data.ofNumber prev).timestamp := hold
      simp only [if_pos hold, if_pos hold', pushPoint_ofNumbers, Option.map_none]
    · have hold' : ¬ t < (Data.ofNumber prev).timestamp := hold
      simp only [if_neg hold, if_neg hold']
      cases m.data.dropLast ++ [{ prev with weight := m.calcWeight t }] with
      | nil =>
        simp [ofNumbers, pushPoint, TimeWeightedMovingAverage.pushPoint, Data.ofNumber,
          Data.weighted]
      | cons front data =>
        by_cases hyoung : t < front.timestamp + m.interval
        · have hyoung' : t < (Data.ofNumber front).timestamp + (ofNumbers m).interval := hyoung
          simp only [List.map_cons, if_pos hyoung, if_pos hyoung']
          simp [ofNumbers, pushPoint, TimeWeightedMovingAverage.pushPoint, Data.ofNumber,
            Data.weighted]
        · have hyoung' : ¬ t < (Data.ofNumber front).timestamp + (ofNumbers m).interval := hyoung
          simp only [List.map_cons, if_neg hyoung, if_neg hyoung']
          simp [ofNumbers, pushPoint, TimeWeightedMovingAverage.pushPoint, Data.ofNumber,
            Data.weighted]

end AdxAverage

structure DirectionalMovement where
  positive : ℚ
  negative : ℚ
  deriving DecidableEq

inductive Direction
  | upTrend
  | downTrend
  deriving DecidableEq

/-- Its value is `none` where it is not a number. -/
structure AdxResult where
  adx : Option ℚ
  trend : Direction
  deriving DecidableEq

structure AverageDirectionalIndex where
  previousCandle : Option Candle := none
  averageTrueRange : TimeWeightedMovingAverage
  smoothedPdm : TimeWeightedMovingAverage
  smoothedNdm : TimeWeightedMovingAverage
  averageDirectionalIndex : AdxAverage
  deriving DecidableEq

namespace AverageDirectionalIndex

def new (interval : Milliseconds) : AverageDirectionalIndex where
  averageTrueRange := .new interval
  smoothedPdm := .new interval
  smoothedNdm := .new interval
  averageDirectionalIndex := .new interval

def directionalMovement (previousCandle : Option Candle) (currentCandle : Candle) :
    DirectionalMovement :=
  let ph := previousCandle.elim 0 Candle.high
  let pl := previousCandle.elim 0 Candle.low
  let pos := max (currentCandle.high - ph) 0
  let neg := max (pl - currentCandle.low) 0
  if neg < pos then ⟨pos, 0⟩ else ⟨0, neg⟩

def trueRange (previousCandle : Option Candle) (currentCandle : Candle) : ℚ :=
  let curHighCurLow := currentCandle.high - currentCandle.low
  match previousCandle with
  | none => curHighCurLow
  | some prevCandle =>
    let curHighPrevClose := |currentCandle.high - prevCandle.close|
    let curLowPrevClose := |currentCandle.low - prevCandle.close|
    max (max curHighCurLow curHighPrevClose) curLowPrevClose

/-- The three averages that the quotients are made of. -/
structure Smoothed where
  atr : ℚ
  spdm : ℚ
  sndm : ℚ
  deriving DecidableEq

namespace Smoothed

variable (s : Smoothed)

/-- `none` where it is infinite or not a number. -/
def pdi : Option ℚ := divide (100 * s.spdm) s.atr

/-- `none` where it is infinite or not a number. -/
def ndi : Option ℚ := divide (100 * s.sndm) s.atr

/-- `none` where it is not a number. -/
def dx : Option ℚ := do
  let pdi ← s.pdi
  let ndi ← s.ndi
  let quotient ← divide (pdi - ndi) (pdi + ndi)
  some (100 * |quotient|)

def trend : Direction :=
  match s.pdi, s.ndi with
  | some pdi, some ndi => if ndi < pdi then .upTrend else .downTrend
  | _, _ => .downTrend

/-- The denominators are positive, and the directional indices are percentages. -/
def Proper : Prop :=
  0 < s.atr ∧ ∃ pdi ∈ s.pdi, ∃ ndi ∈ s.ndi,
    0 < pdi + ndi ∧ pdi ∈ Set.Icc 0 100 ∧ ndi ∈ Set.Icc 0 100

variable {s}

theorem pdi_eq (h : s.atr ≠ 0) : s.pdi = some (100 * s.spdm / s.atr) := if_neg h

theorem ndi_eq (h : s.atr ≠ 0) : s.ndi = some (100 * s.sndm / s.atr) := if_neg h

theorem proper_iff (hspdm : 0 ≤ s.spdm) (hsndm : 0 ≤ s.sndm) :
    s.Proper ↔ 0 < s.spdm + s.sndm ∧ s.spdm ≤ s.atr ∧ s.sndm ≤ s.atr := by
  constructor
  · rintro ⟨hatr, pdi, hpdi, ndi, hndi, hsum, ⟨-, hpdi100⟩, -, hndi100⟩
    rw [pdi_eq hatr.ne', Option.mem_some_iff] at hpdi
    rw [ndi_eq hatr.ne', Option.mem_some_iff] at hndi
    subst hpdi hndi
    rw [← add_div, ← mul_add, div_pos_iff_of_pos_right hatr] at hsum
    rw [div_le_iff₀ hatr] at hpdi100 hndi100
    exact ⟨by linarith, by linarith, by linarith⟩
  · rintro ⟨hsum, hpdm, hndm⟩
    have hatr : 0 < s.atr := by linarith
    refine ⟨hatr, _, pdi_eq hatr.ne', _, ndi_eq hatr.ne', ?_, ⟨by positivity, ?_⟩,
      ⟨by positivity, ?_⟩⟩
    · rw [← add_div, ← mul_add]
      positivity
    · rw [div_le_iff₀ hatr]
      linarith
    · rw [div_le_iff₀ hatr]
      linarith

theorem Proper.dx (h : s.Proper) : ∃ dx ∈ s.dx, dx ∈ Set.Icc 0 100 := by
  obtain ⟨-, pdi, hpdi, ndi, hndi, hsum, ⟨hpdi0, -⟩, hndi0, -⟩ := h
  have hdx : s.dx = some (100 * |(pdi - ndi) / (pdi + ndi)|) := by
    simp [Smoothed.dx, Option.mem_def.mp hpdi, Option.mem_def.mp hndi, divide, hsum.ne']
  have hle : |(pdi - ndi) / (pdi + ndi)| ≤ 1 := by
    rw [abs_div, abs_of_pos hsum, div_le_one hsum, abs_le]
    constructor <;> linarith
  refine ⟨_, hdx, by positivity, ?_⟩
  linarith

end Smoothed

variable (m : AverageDirectionalIndex)

def smooth (currentCandle : Candle) : Option Smoothed × AverageDirectionalIndex :=
  let ts := currentCandle.closeTs
  let atr := m.averageTrueRange.pushValue ts (trueRange m.previousCandle currentCandle)
  let dm := directionalMovement m.previousCandle currentCandle
  let spdm := m.smoothedPdm.pushValue ts dm.positive
  let sndm := m.smoothedNdm.pushValue ts dm.negative
  let smoothed :=
    match atr.1, spdm.1, sndm.1 with
    | some atr, some spdm, some sndm => some ⟨atr, spdm, sndm⟩
    | _, _, _ => none
  (smoothed, { m with
    previousCandle := some currentCandle
    averageTrueRange := atr.2
    smoothedPdm := spdm.2
    smoothedNdm := sndm.2 })

def pushCandle (currentCandle : Candle) : AverageDirectionalIndex × Option AdxResult :=
  let m' := (m.smooth currentCandle).2
  match (m.smooth currentCandle).1 with
  | none => (m', none)
  | some s =>
    let adx := m'.averageDirectionalIndex.pushValue currentCandle.closeTs s.dx
    ({ m' with averageDirectionalIndex := adx.2 }, adx.1.map fun adx => ⟨adx, s.trend⟩)

def step (c : Candle) : AverageDirectionalIndex := (m.pushCandle c).1

/-- The quotients of a candle are proper, and a result is a percentage. -/
structure Bounded (m : AverageDirectionalIndex) (c : Candle) : Prop where
  quotients : ∀ s ∈ (m.smooth c).1, s.Proper
  adx : ∀ result ∈ (m.pushCandle c).2, ∃ adx ∈ result.adx, adx ∈ Set.Icc 0 100

def barsFrom : Option Candle → List Candle → List (Option Candle × Candle)
  | _, [] => []
  | prev, c :: candles => (prev, c) :: barsFrom (some c) candles

def bars (candles : List Candle) : List (Option Candle × Candle) := barsFrom none candles

def barRange (bar : Option Candle × Candle) : ℚ := trueRange bar.1 bar.2

def barMovement (bar : Option Candle × Candle) : DirectionalMovement :=
  directionalMovement bar.1 bar.2

def points (value : Option Candle × Candle → ℚ) (candles : List Candle) :
    List (Milliseconds × ℚ) :=
  (bars candles).map fun bar => (bar.2.closeTs, value bar)

def smoothedOf (window : List (Option Candle × Candle)) : Smoothed where
  atr := mean (window.map barRange)
  spdm := mean (window.map (barMovement · |>.positive))
  sndm := mean (window.map (barMovement · |>.negative))

structure Kept (m : AverageDirectionalIndex) (interval : Milliseconds) (pre : List Candle) :
    Prop where
  previousCandle : m.previousCandle = pre.getLast?
  averageTrueRange : m.averageTrueRange =
    after TimeWeightedMovingAverage.step (.new interval) (points barRange pre)
  smoothedPdm : m.smoothedPdm =
    after TimeWeightedMovingAverage.step (.new interval) (points (barMovement · |>.positive) pre)
  smoothedNdm : m.smoothedNdm =
    after TimeWeightedMovingAverage.step (.new interval) (points (barMovement · |>.negative) pre)

variable {m} {interval timeframe : Milliseconds} {c : Candle} {pre candles : List Candle}
  {prev : Option Candle} {value : Option Candle × Candle → ℚ}

theorem barsFrom_concat (prev : Option Candle) (pre : List Candle) (c : Candle) :
    barsFrom prev (pre ++ [c]) = barsFrom prev pre ++ [(pre.getLast?.or prev, c)] := by
  induction pre generalizing prev with
  | nil => rfl
  | cons p pre ih =>
    rw [List.cons_append, barsFrom, ih, barsFrom, List.getLast?_cons]
    cases pre.getLast? <;> rfl

theorem bars_concat (pre : List Candle) (c : Candle) :
    bars (pre ++ [c]) = bars pre ++ [(pre.getLast?, c)] := by
  rw [bars, barsFrom_concat, Option.or_none, bars]

theorem map_bars (pre : List Candle) : (bars pre).map Prod.snd = pre := by
  induction pre using List.reverseRecOn with
  | nil => rfl
  | append_singleton pre c ih => rw [bars_concat, List.map_append, ih, List.map_singleton]

theorem length_barsFrom (prev : Option Candle) (candles : List Candle) :
    (barsFrom prev candles).length = candles.length := by
  induction candles generalizing prev with
  | nil => rfl
  | cons c candles ih => rw [barsFrom, List.length_cons, List.length_cons, ih]

theorem barsFrom_append (prev : Option Candle) (pre : List Candle) (p : Candle)
    (candles : List Candle) :
    barsFrom prev (pre ++ p :: candles) =
      barsFrom prev (pre ++ [p]) ++ barsFrom (some p) candles := by
  induction pre generalizing prev with
  | nil => rfl
  | cons q pre ih => rw [List.cons_append, barsFrom, ih, List.cons_append, barsFrom]; rfl

theorem rtake_bars {n : ℕ} (h : n < pre.length) :
    ∃ first candles, pre.rtake (n + 1) = first :: candles ∧ candles.length = n ∧
      (bars pre).rtake n = barsFrom (some first) candles := by
  obtain ⟨past, hpast⟩ : pre.rtake (n + 1) <:+ pre := rtake_suffix
  have hlength : (pre.rtake (n + 1)).length = min (n + 1) pre.length := length_rtake
  rw [min_eq_left h] at hlength
  cases hlast : pre.rtake (n + 1) with
  | nil => simp [hlast] at hlength
  | cons first candles =>
    rw [hlast, List.length_cons, Nat.add_right_cancel_iff] at hlength
    refine ⟨first, candles, rfl, hlength, ?_⟩
    rw [← hpast, hlast, bars, barsFrom_append,
      rtake_append_of_length ((length_barsFrom _ _).trans hlength)]

theorem points_concat (value : Option Candle × Candle → ℚ) (pre : List Candle) (c : Candle) :
    points value (pre ++ [c]) = points value pre ++ [(c.closeTs, value (pre.getLast?, c))] := by
  rw [points, bars_concat, List.map_append, List.map_singleton, ← points]

theorem Kept.smooth_snd (h : m.Kept interval pre) :
    (m.smooth c).2.Kept interval (pre ++ [c]) := by
  constructor
  · rw [List.getLast?_concat]
    rfl
  · rw [points_concat, after_concat, ← h.averageTrueRange, ← h.previousCandle]
    rfl
  · rw [points_concat, after_concat, ← h.smoothedPdm, ← h.previousCandle]
    rfl
  · rw [points_concat, after_concat, ← h.smoothedNdm, ← h.previousCandle]
    rfl

theorem Kept.step (h : m.Kept interval pre) : (m.step c).Kept interval (pre ++ [c]) := by
  have hsmooth := h.smooth_snd (c := c)
  rw [AverageDirectionalIndex.step, pushCandle]
  split
  · exact hsmooth
  · exact ⟨hsmooth.previousCandle, hsmooth.averageTrueRange, hsmooth.smoothedPdm,
      hsmooth.smoothedNdm⟩

theorem kept_after : (after AverageDirectionalIndex.step (new interval) pre).Kept interval pre := by
  induction pre using List.reverseRecOn with
  | nil => exact ⟨rfl, rfl, rfl, rfl⟩
  | append_singleton pre c ih =>
    rw [after_concat]
    exact ih.step

theorem points_isChain (h : Candle.Consecutive timeframe pre)
    (value : Option Candle × Candle → ℚ) :
    (points value pre).IsChain fun p q => q.1 = p.1 + timeframe := by
  have hclose : pre.IsChain fun c c' => c'.closeTs = c.closeTs + timeframe :=
    h.isChain.imp_of_mem_imp fun c c' _ hc' hnext => by
      rw [Candle.closeTs, hnext, h.timeframe_eq c' hc']
  rw [← map_bars pre, List.isChain_map] at hclose
  exact (List.isChain_map _).mpr hclose

theorem map_rtake_points (value : Option Candle × Candle → ℚ) (n : ℕ) (pre : List Candle) :
    ((points value pre).rtake n).map Prod.snd = ((bars pre).rtake n).map value := by
  rw [map_rtake, map_rtake, points, List.map_map]
  rfl

/-- An average of values of candles is the mean over those of an interval. -/
theorem pushValue_points (hinterval : 0 < interval) (htimeframe : 0 < timeframe)
    (h : Candle.Consecutive timeframe (pre ++ [c])) (value : Option Candle × Candle → ℚ) :
    ((after TimeWeightedMovingAverage.step (.new interval) (points value pre)).pushValue
      c.closeTs (value (pre.getLast?, c))).1 =
      if pre.length < stepsIn interval timeframe then none
      else some (mean (((bars pre).rtake (stepsIn interval timeframe)).map value)) := by
  have hchain := points_isChain h value
  rw [points_concat] at hchain
  rw [pushValue_of_isChain hinterval htimeframe hchain, map_rtake_points, points, List.length_map,
    bars, length_barsFrom]

theorem Kept.smooth_fst (hm : m.Kept interval pre) (hinterval : 0 < interval)
    (htimeframe : 0 < timeframe) (h : Candle.Consecutive timeframe (pre ++ [c])) :
    (m.smooth c).1 =
      if pre.length < stepsIn interval timeframe then none
      else some (smoothedOf ((bars pre).rtake (stepsIn interval timeframe))) := by
  have hvalues := pushValue_points hinterval htimeframe h
  have hatr := hvalues barRange
  have hspdm := hvalues (barMovement · |>.positive)
  have hsndm := hvalues (barMovement · |>.negative)
  rw [← hm.averageTrueRange, ← hm.previousCandle] at hatr
  rw [← hm.smoothedPdm, ← hm.previousCandle] at hspdm
  rw [← hm.smoothedNdm, ← hm.previousCandle] at hsndm
  simp only [barRange, barMovement] at hatr hspdm hsndm
  simp only [smooth, hatr, hspdm, hsndm]
  split_ifs <;> rfl

theorem directionalMovement_nonneg :
    0 ≤ (directionalMovement prev c).positive ∧ 0 ≤ (directionalMovement prev c).negative := by
  rw [directionalMovement]
  split_ifs
  · exact ⟨le_max_right .., le_rfl⟩
  · exact ⟨le_rfl, le_max_right ..⟩

theorem directionalMovement_le {p : Candle} (hp : p.HasRange) (hc : c.HasRange) :
    (directionalMovement (some p) c).positive ≤ trueRange (some p) c ∧
      (directionalMovement (some p) c).negative ≤ trueRange (some p) c := by
  obtain ⟨-, hplow, hphigh⟩ := hp
  obtain ⟨-, hlow, hhigh⟩ := hc
  have hrange : c.high - c.low ≤ trueRange (some p) c :=
    (le_max_left ..).trans (le_max_left ..)
  have hup : |c.high - p.close| ≤ trueRange (some p) c :=
    (le_max_right ..).trans (le_max_left ..)
  have hdown : |c.low - p.close| ≤ trueRange (some p) c := le_max_right ..
  have hnonneg : 0 ≤ trueRange (some p) c := (abs_nonneg _).trans hup
  have hpos : max (c.high - p.high) 0 ≤ trueRange (some p) c := by
    refine max_le (le_trans ?_ ((le_abs_self _).trans hup)) hnonneg
    linarith [le_max_right p.openPrice p.close]
  have hneg : max (p.low - c.low) 0 ≤ trueRange (some p) c := by
    refine max_le (le_trans ?_ ((neg_le_abs _).trans hdown)) hnonneg
    linarith [min_le_right p.openPrice p.close]
  rw [directionalMovement]
  split_ifs
  · exact ⟨hpos, hnonneg⟩
  · exact ⟨hnonneg, hneg⟩

theorem directionalMovement_none (hc : c.HasRange) :
    directionalMovement none c = ⟨c.high, 0⟩ := by
  have hhigh : 0 < c.high := hc.1.trans_le hc.low_le_high
  simp [directionalMovement, hhigh, hhigh.le, hc.1.le]

/-- The high and the low are those of the candle before, or between them. -/
def Inside (p c : Candle) : Prop := c.high ≤ p.high ∧ p.low ≤ c.low

instance (p c : Candle) : Decidable (Inside p c) := inferInstanceAs (Decidable (_ ∧ _))

theorem directionalMovement_eq_zero_iff {p : Candle} :
    (directionalMovement (some p) c).positive = 0 ∧
      (directionalMovement (some p) c).negative = 0 ↔ Inside p c := by
  have hpos : max (c.high - p.high) 0 = 0 ↔ c.high ≤ p.high := by
    rw [max_eq_right_iff, sub_nonpos]
  have hneg : max (p.low - c.low) 0 = 0 ↔ p.low ≤ c.low := by
    rw [max_eq_right_iff, sub_nonpos]
  have hpos' : 0 ≤ max (c.high - p.high) 0 := le_max_right ..
  have hneg' : 0 ≤ max (p.low - c.low) 0 := le_max_right ..
  have hmovement : directionalMovement (some p) c =
      if max (p.low - c.low) 0 < max (c.high - p.high) 0 then ⟨max (c.high - p.high) 0, 0⟩
      else ⟨0, max (p.low - c.low) 0⟩ := rfl
  rw [Inside, ← hpos, ← hneg, hmovement]
  by_cases hup : max (p.low - c.low) 0 < max (c.high - p.high) 0
  · have hne := (hneg'.trans_lt hup).ne'
    rw [if_pos hup]
    exact iff_of_false (fun h => hne h.1) fun h => hne h.1
  · rw [if_neg hup]
    refine ⟨fun h => ⟨?_, h.2⟩, fun h => ⟨rfl, h.2⟩⟩
    have hzero : max (p.low - c.low) 0 = 0 := h.2
    exact le_antisymm ((not_lt.mp hup).trans hzero.le) hpos'

variable {window : List (Option Candle × Candle)} {first : Candle}

theorem positive_nonneg : ∀ x ∈ window.map (barMovement · |>.positive), 0 ≤ x :=
  List.forall_mem_map.mpr fun _ _ => directionalMovement_nonneg.1

theorem negative_nonneg : ∀ x ∈ window.map (barMovement · |>.negative), 0 ≤ x :=
  List.forall_mem_map.mpr fun _ _ => directionalMovement_nonneg.2

/-- The quotients are proper where there is a movement, and the upward ones are not longer
than the true ranges. -/
theorem smoothedOf_proper_iff (hne : window ≠ [])
    (hndm : ∀ bar ∈ window, (barMovement bar).negative ≤ barRange bar) :
    (smoothedOf window).Proper ↔
      (∃ bar ∈ window, ¬ ((barMovement bar).positive = 0 ∧ (barMovement bar).negative = 0)) ∧
        (window.map (barMovement · |>.positive)).sum ≤ (window.map barRange).sum := by
  have hspdm : 0 ≤ (smoothedOf window).spdm := mean_nonneg positive_nonneg
  have hsndm : 0 ≤ (smoothedOf window).sndm := mean_nonneg negative_nonneg
  have hle : (smoothedOf window).sndm ≤ (smoothedOf window).atr :=
    (mean_map_le_mean_map_iff hne).mpr (List.sum_le_sum hndm)
  have hzero : (smoothedOf window).spdm + (smoothedOf window).sndm = 0 ↔
      ∀ bar ∈ window, (barMovement bar).positive = 0 ∧ (barMovement bar).negative = 0 := by
    have hpos : (smoothedOf window).spdm = 0 ↔ ∀ bar ∈ window, (barMovement bar).positive = 0 :=
      (mean_eq_zero_iff positive_nonneg).trans List.forall_mem_map
    have hneg : (smoothedOf window).sndm = 0 ↔ ∀ bar ∈ window, (barMovement bar).negative = 0 :=
      (mean_eq_zero_iff negative_nonneg).trans List.forall_mem_map
    rw [add_eq_zero_iff_of_nonneg hspdm hsndm, hpos, hneg, ← forall₂_and]
  have hmoves : 0 < (smoothedOf window).spdm + (smoothedOf window).sndm ↔
      ∃ bar ∈ window, ¬ ((barMovement bar).positive = 0 ∧ (barMovement bar).negative = 0) := by
    rw [(add_nonneg hspdm hsndm).lt_iff_ne', Ne, hzero]
    push Not
    rfl
  rw [Smoothed.proper_iff hspdm hsndm, hmoves, and_iff_left hle]
  exact and_congr_right fun _ => mean_map_le_mean_map_iff hne

theorem of_mem_barsFrom {bar : Option Candle × Candle} (h : bar ∈ barsFrom prev candles) :
    bar.2 ∈ candles ∧ (bar.1 = prev ∨ ∃ p ∈ candles, bar.1 = some p) := by
  induction candles generalizing prev with
  | nil => cases h
  | cons c candles ih =>
    rcases List.mem_cons.mp h with rfl | h
    · exact ⟨List.mem_cons_self, .inl rfl⟩
    · obtain ⟨hmem, hprev | ⟨p, hp, hprev⟩⟩ := ih h
      · exact ⟨List.mem_cons_of_mem _ hmem, .inr ⟨c, List.mem_cons_self, hprev⟩⟩
      · exact ⟨List.mem_cons_of_mem _ hmem, .inr ⟨p, List.mem_cons_of_mem _ hp, hprev⟩⟩

theorem barMovement_le {bar : Option Candle × Candle}
    (hcandles : ∀ c ∈ first :: candles, c.HasRange) (hbar : bar ∈ barsFrom (some first) candles) :
    (barMovement bar).positive ≤ barRange bar ∧ (barMovement bar).negative ≤ barRange bar := by
  obtain ⟨hmem, hprev⟩ := of_mem_barsFrom hbar
  have hc : bar.2.HasRange := hcandles _ (List.mem_cons_of_mem _ hmem)
  obtain ⟨p, hp, hprev⟩ : ∃ p ∈ first :: candles, bar.1 = some p := by
    rcases hprev with hprev | ⟨p, hp, hprev⟩
    · exact ⟨first, List.mem_cons_self, hprev⟩
    · exact ⟨p, List.mem_cons_of_mem _ hp, hprev⟩
  rw [barMovement, barRange, hprev]
  exact directionalMovement_le (hcandles p hp) hc

theorem proper_first_iff (hcandles : ∀ c ∈ first :: candles, c.HasRange) :
    (smoothedOf (bars (first :: candles))).Proper ↔
      ((bars (first :: candles)).map (barMovement · |>.positive)).sum ≤
        ((bars (first :: candles)).map barRange).sum := by
  have hfirst := hcandles first List.mem_cons_self
  have hmovement : barMovement (none, first) = ⟨first.high, 0⟩ := directionalMovement_none hfirst
  have hbars : bars (first :: candles) = (none, first) :: barsFrom (some first) candles := rfl
  rw [smoothedOf_proper_iff (by simp [hbars]), and_iff_right]
  · refine ⟨(none, first), by simp [hbars], fun h => ?_⟩
    rw [hmovement] at h
    exact (hfirst.1.trans_le hfirst.low_le_high).ne' h.1
  · rw [hbars, List.forall_mem_cons, hmovement]
    exact ⟨sub_nonneg.mpr hfirst.low_le_high, fun bar hbar => (barMovement_le hcandles hbar).2⟩

theorem forall_barsFrom_iff :
    (∀ bar ∈ barsFrom (some first) candles,
      (barMovement bar).positive = 0 ∧ (barMovement bar).negative = 0) ↔
      (first :: candles).IsChain Inside := by
  induction candles generalizing first with
  | nil => simp [barsFrom]
  | cons c candles ih =>
    rw [barsFrom, List.forall_mem_cons, ih, List.isChain_cons_cons]
    exact and_congr_left fun _ => directionalMovement_eq_zero_iff

theorem proper_later_iff (hcandles : ∀ c ∈ first :: candles, c.HasRange) (hne : candles ≠ []) :
    (smoothedOf (barsFrom (some first) candles)).Proper ↔ ¬ (first :: candles).IsChain Inside := by
  have hbars : barsFrom (some first) candles ≠ [] := by
    cases candles with
    | nil => exact absurd rfl hne
    | cons c candles => exact List.cons_ne_nil _ _
  have hle : ((barsFrom (some first) candles).map (barMovement · |>.positive)).sum ≤
      ((barsFrom (some first) candles).map barRange).sum :=
    List.sum_le_sum fun bar hbar => (barMovement_le hcandles hbar).1
  rw [smoothedOf_proper_iff hbars fun bar hbar => (barMovement_le hcandles hbar).2,
    and_iff_left hle, ← forall_barsFrom_iff]
  push Not
  rfl

theorem proper_iff_of_length_eq {n : ℕ} (hn : 0 < n) (hcandles : ∀ c ∈ pre, c.HasRange)
    (hlength : pre.length = n) :
    (smoothedOf ((bars pre).rtake n)).Proper ↔
      ((bars pre).map (barMovement · |>.positive)).sum ≤ ((bars pre).map barRange).sum := by
  have hbars : (bars pre).length ≤ n := ((length_barsFrom _ _).trans hlength).le
  rw [rtake_eq_self hbars]
  cases pre with
  | nil => exact absurd hlength hn.ne
  | cons first rest => exact proper_first_iff hcandles

theorem proper_iff_of_lt_length {n : ℕ} (hn : 0 < n) (hcandles : ∀ c ∈ pre, c.HasRange)
    (hlong : n < pre.length) :
    (smoothedOf ((bars pre).rtake n)).Proper ↔ ¬ (pre.rtake (n + 1)).IsChain Inside := by
  obtain ⟨first, rest, hrtake, hlength, hbars⟩ := rtake_bars hlong
  rw [hbars, hrtake, proper_later_iff]
  · intro c hc
    exact hcandles c (rtake_suffix.subset (hrtake ▸ hc))
  · exact List.length_pos_iff.mp (hlength ▸ hn)

def Percentages (m : AverageDirectionalIndex) (interval timeframe : Milliseconds)
    (pre : List Candle) : Prop :=
  ∃ pts : List (Milliseconds × ℚ),
    m.averageDirectionalIndex =
      .ofNumbers (after TimeWeightedMovingAverage.step (.new interval) pts) ∧
    (pts.IsChain fun p q => q.1 = p.1 + timeframe) ∧ (∀ p ∈ pts, p.2 ∈ Set.Icc 0 100) ∧
    ∀ p ∈ pts.getLast?, stepsIn interval timeframe < pre.length ∧
      ∀ c ∈ pre.getLast?, p.1 = c.closeTs

theorem pushCandle_of_dx {s : Smoothed} {d : ℚ} {average : TimeWeightedMovingAverage}
    (hs : (m.smooth c).1 = some s) (hd : s.dx = some d)
    (hindex : m.averageDirectionalIndex = .ofNumbers average) :
    m.pushCandle c =
      ({ (m.smooth c).2 with
          averageDirectionalIndex := .ofNumbers (average.step (c.closeTs, d)) },
        (average.pushValue c.closeTs d).1.map fun adx => ⟨some adx, s.trend⟩) := by
  have hindex' : (m.smooth c).2.averageDirectionalIndex = .ofNumbers average := hindex
  simp only [pushCandle, hs, hindex', hd, AdxAverage.pushValue_ofNumbers, Option.map_map]
  rfl

theorem pushValue_mem_Icc {pts : List (Milliseconds × ℚ)} {lo hi value : ℚ} {ts : Milliseconds}
    (hinterval : 0 < interval) (htimeframe : 0 < timeframe)
    (hchain : (pts ++ [(ts, value)]).IsChain fun p q => q.1 = p.1 + timeframe)
    (hpts : ∀ p ∈ pts, p.2 ∈ Set.Icc lo hi) :
    ∀ average ∈
      ((after TimeWeightedMovingAverage.step (.new interval) pts).pushValue ts value).1,
      average ∈ Set.Icc lo hi := by
  rw [pushValue_of_isChain hinterval htimeframe hchain]
  split_ifs with hshort
  · nofun
  · rintro _ ⟨⟩
    have hne : (pts.rtake (stepsIn interval timeframe)).map Prod.snd ≠ [] := by
      rw [← List.length_pos_iff, List.length_map, length_rtake, min_eq_left (not_lt.mp hshort)]
      exact stepsIn_pos hinterval htimeframe
    exact mean_mem_Icc hne (List.forall_mem_map.mpr fun p hp => hpts p (rtake_suffix.subset hp))

theorem Percentages.step (h : m.Percentages interval timeframe pre) (hm : m.Kept interval pre)
    (hinterval : 0 < interval) (htimeframe : 0 < timeframe)
    (hcandles : Candle.Consecutive timeframe (pre ++ [c]))
    (hproper : ∀ s ∈ (m.smooth c).1, s.Proper) :
    (m.step c).Percentages interval timeframe (pre ++ [c]) ∧
      ∀ result ∈ (m.pushCandle c).2, ∃ adx ∈ result.adx, adx ∈ Set.Icc 0 100 := by
  obtain ⟨pts, hadx, hchain, hpts, hlast⟩ := h
  have hsmooth := hm.smooth_fst hinterval htimeframe hcandles
  by_cases hfew : pre.length < stepsIn interval timeframe
  · rw [if_pos hfew] at hsmooth
    have hnil : pts = [] := by
      rw [← List.getLast?_eq_none_iff, Option.eq_none_iff_forall_not_mem]
      intro p hp
      exact absurd hfew (hlast p hp).1.not_gt
    subst hnil
    have hpush : m.pushCandle c = ((m.smooth c).2, none) := by rw [pushCandle, hsmooth]
    rw [AverageDirectionalIndex.step, hpush]
    exact ⟨⟨[], hadx, hchain, hpts, nofun⟩, nofun⟩
  · rw [if_neg hfew] at hsmooth
    obtain ⟨d, hd, hpercent⟩ := (hproper _ hsmooth).dx
    have hnew : (pts ++ [(c.closeTs, d)]).IsChain fun p q => q.1 = p.1 + timeframe := by
      refine List.isChain_append.mpr ⟨hchain, List.isChain_singleton _, ?_⟩
      rintro p hp _ ⟨⟩
      have hpos : 0 < pre.length := (Nat.zero_le _).trans_lt (hlast p hp).1
      have hmem := List.getLast_mem_getLast? (List.length_pos_iff.mp hpos)
      rw [(hlast p hp).2 _ hmem]
      exact hcandles.closeTs_eq hmem
    have hpush := pushCandle_of_dx hsmooth (Option.mem_def.mp hd) hadx
    rw [AverageDirectionalIndex.step, hpush]
    refine ⟨⟨pts ++ [(c.closeTs, d)], ?_, hnew, ?_, ?_⟩, ?_⟩
    · rw [after_concat]
    · rw [List.forall_mem_append, List.forall_mem_singleton]
      exact ⟨hpts, hpercent⟩
    · rw [List.getLast?_concat, List.getLast?_concat]
      rintro p ⟨⟩
      refine ⟨?_, fun c' hc' => ?_⟩
      · rw [List.length_append, List.length_singleton]
        exact Nat.lt_succ_of_le (not_lt.mp hfew)
      · obtain rfl := Option.some.inj hc'
        rfl
    · intro result hresult
      obtain ⟨adx, hmem, rfl⟩ := Option.map_eq_some_iff.mp hresult
      exact ⟨adx, rfl, pushValue_mem_Icc hinterval htimeframe hnew hpts adx hmem⟩

/-- The quotients that are evaluated are proper if they are at each candle. -/
theorem bounded_iff_proper (hinterval : 0 < interval) (htimeframe : 0 < timeframe)
    (hcandles : Candle.Consecutive timeframe candles) :
    (∀ pre c, pre ++ [c] <+: candles → Bounded (after step (new interval) pre) c) ↔
      ∀ pre c, pre ++ [c] <+: candles → stepsIn interval timeframe ≤ pre.length →
        (smoothedOf ((bars pre).rtake (stepsIn interval timeframe))).Proper := by
  have hquotients (pre : List Candle) (c : Candle) (hinit : pre ++ [c] <+: candles) :
      (∀ s ∈ ((after step (new interval) pre).smooth c).1, s.Proper) ↔
        (stepsIn interval timeframe ≤ pre.length →
          (smoothedOf ((bars pre).rtake (stepsIn interval timeframe))).Proper) := by
    rw [kept_after.smooth_fst hinterval htimeframe (hcandles.of_prefix hinit)]
    split_ifs with hfew
    · exact iff_of_true nofun fun hmany => absurd hmany hfew.not_ge
    · simp only [Option.mem_some_iff, forall_eq', not_lt.mp hfew, forall_const]
  constructor
  · intro h pre c hinit
    exact (hquotients pre c hinit).mp (h pre c hinit).quotients
  · intro h
    have hstep (pre : List Candle) (c : Candle) (hinit : pre ++ [c] <+: candles)
        (hpercent : (after step (new interval) pre).Percentages interval timeframe pre) :=
      hpercent.step kept_after hinterval htimeframe (hcandles.of_prefix hinit)
        ((hquotients pre c hinit).mpr (h pre c hinit))
    have hpercent : ∀ pre, pre <+: candles →
        (after step (new interval) pre).Percentages interval timeframe pre := by
      intro pre
      induction pre using List.reverseRecOn with
      | nil => exact fun _ => ⟨[], rfl, .nil, nofun, nofun⟩
      | append_singleton pre c ih =>
        intro hinit
        rw [after_concat]
        exact (hstep pre c hinit (ih ((List.prefix_append ..).trans hinit))).1
    intro pre c hinit
    exact ⟨(hquotients pre c hinit).mpr (h pre c hinit),
      (hstep pre c hinit (hpercent pre ((List.prefix_append ..).trans hinit))).2⟩

/-- The first candles rise no more than they range, and of the candles that another one follows,
not so many in a row stay inside the ones before them. -/
structure Moving (n : ℕ) (candles : List Candle) : Prop where
  first : n < candles.length →
    ((bars (candles.take n)).map (barMovement · |>.positive)).sum ≤
      ((bars (candles.take n)).map barRange).sum
  later : ∀ window, window <:+: candles.dropLast → window.length = n + 1 →
    ¬ window.IsChain Inside

theorem proper_iff_moving {n : ℕ} (hn : 0 < n) (hcandles : ∀ c ∈ candles, c.HasRange) :
    (∀ pre c, pre ++ [c] <+: candles → n ≤ pre.length →
      (smoothedOf ((bars pre).rtake n)).Proper) ↔ Moving n candles := by
  have hrange (pre : List Candle) (hpre : pre <+: candles) : ∀ c ∈ pre, c.HasRange :=
    fun c hc => hcandles c (hpre.subset hc)
  constructor
  · intro h
    constructor
    · intro hlong
      have hinit : candles.take n ++ [candles[n]] <+: candles := by
        rw [List.take_concat_get']
        exact List.take_prefix _ _
      have hlength : (candles.take n).length = n := List.length_take_of_le hlong.le
      exact (proper_iff_of_length_eq hn (hrange _ (List.take_prefix ..)) hlength).mp
        (h _ _ hinit hlength.ge)
    · rw [← forall_rtake_iff_infix n.succ_pos]
      intro pre x hinit hlong
      have hne : candles ≠ [] := by
        rintro rfl
        exact absurd hinit (by simp)
      obtain ⟨c, hc⟩ := exists_concat_prefix hinit hne
      have hpre := hrange _ ((List.prefix_append ..).trans hc)
      exact (proper_iff_of_lt_length hn hpre hlong).mp (h _ c hc (Nat.le_of_succ_le hlong))
  · rintro ⟨hshort, hwindows⟩ pre c hinit hmany
    have hpre : pre <+: candles := (List.prefix_append ..).trans hinit
    rcases hmany.eq_or_lt with hlength | hmany
    · have htake : candles.take n = pre := by rw [hlength, ← List.prefix_iff_eq_take.mp hpre]
      have hlong : n < candles.length := by
        have hle := hinit.length_le
        rw [List.length_append, List.length_singleton] at hle
        exact hlength.trans_lt hle
      exact (proper_iff_of_length_eq hn (hrange pre hpre) hlength.symm).mpr
        (htake ▸ hshort hlong)
    · rw [proper_iff_of_lt_length hn (hrange pre hpre) hmany]
      refine hwindows _ (rtake_suffix.isInfix.trans (prefix_dropLast hinit).isInfix) ?_
      rw [length_rtake, min_eq_left hmany]

/--
In a run of consecutive candles the quotients are proper and the results are percentages, if and
only if the first candles of an interval rise no more than they range, and of the later ones that
another candle follows, not all of an interval stay inside the candles before them.
-/
theorem bounded_iff_moving (hinterval : 0 < interval) (htimeframe : 0 < timeframe)
    (candles : List Candle) (hcandles : Candle.Consecutive timeframe candles) :
    (∀ pre c, pre ++ [c] <+: candles → Bounded (after step (new interval) pre) c) ↔
      Moving (stepsIn interval timeframe) candles :=
  (bounded_iff_proper hinterval htimeframe hcandles).trans
    (proper_iff_moving (stepsIn_pos hinterval htimeframe) hcandles.hasRange)

/-- Four candles in intervals of two, of which the second one has a lower low. -/
theorem bounded_iff_moving_four :
    let candles : List Candle :=
      [⟨1000, 0, 9, 10, 4, 8, 1, 0, 1⟩, ⟨1000, 1000, 8, 9, 2, 3, 0, 1, 1⟩,
        ⟨1000, 2000, 3, 8, 3, 7, 1, 0, 1⟩, ⟨1000, 3000, 7, 7, 6, 6, 0, 1, 1⟩]
    ∀ pre c, pre ++ [c] <+: candles → Bounded (after step (new 2000) pre) c := by
  intro candles
  have hcandles : Candle.Consecutive 1000 candles :=
    ⟨by decide +kernel, by decide +kernel, by decide +kernel⟩
  refine (@bounded_iff_moving 2000 1000 (by decide) (by decide) candles hcandles).mpr ?_
  have hsteps : stepsIn 2000 1000 = 2 := by decide +kernel
  rw [hsteps]
  refine ⟨fun _ => by decide +kernel, fun window hwindow hlength => ?_⟩
  obtain rfl : window = candles.dropLast := hwindow.eq_of_length hlength
  decide +kernel

/-- With empty candles the index is not a number, and with the first candle one is above 100. -/
theorem not_bounded_flat :
    let candles : List Candle := [.flat 1000 0 10, .flat 1000 1000 10, .flat 1000 2000 10]
    let m := after step (new 1000) candles.dropLast
    Candle.Consecutive 1000 candles ∧ ¬ Bounded m (.flat 1000 2000 10) ∧
      (m.smooth (.flat 1000 2000 10)).1 = some ⟨0, 0, 0⟩ ∧
      (m.pushCandle (.flat 1000 2000 10)).2 = some ⟨none, .downTrend⟩ ∧
      let m := after step (new 1000) [⟨1000, 0, 10, 12, 8, 10, 1, 0, 1⟩]
      (m.smooth (.flat 1000 1000 10)).1 = some ⟨4, 12, 0⟩ ∧ Smoothed.pdi ⟨4, 12, 0⟩ = some 300 := by
  intro candles m
  have hcandles : Candle.Consecutive 1000 candles :=
    ⟨by decide +kernel, by decide +kernel, by decide +kernel⟩
  have hzero : (m.smooth (.flat 1000 2000 10)).1 = some ⟨0, 0, 0⟩ := by decide +kernel
  exact ⟨hcandles, fun h => (h.quotients _ hzero).1.false, hzero, by decide +kernel⟩

end AverageDirectionalIndex

end CryptoTrading

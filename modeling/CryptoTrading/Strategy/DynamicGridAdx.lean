import CryptoTrading.Lib.Pipeline
import CryptoTrading.Strategy.DynamicGrid
import CryptoTrading.Ta.AverageDirectionalIndex

/-! # The ban of the directional index

The grid is banned while it has no index, and for an interval after an index beyond the
threshold. An index that is not a number is never beyond it, and stays not a number.
-/

namespace CryptoTrading

open Runs

namespace AdxAverage

variable {m : AdxAverage} {ts : Milliseconds} {value : Option ℚ}

theorem pushValue_of_sum_eq_none (h : m.sum = none) :
    (m.pushValue ts value).2.sum = none ∧ ∀ res ∈ (m.pushValue ts value).1, res = none := by
  unfold pushValue
  cases m.data.getLast? with
  | none => exact ⟨h, by simp⟩
  | some prev =>
    dsimp only
    rw [h]
    split_ifs
    · exact ⟨h, nofun⟩
    · split
      · exact ⟨rfl, nofun⟩
      · split_ifs
        · exact ⟨rfl, nofun⟩
        · exact ⟨rfl, by simp⟩

theorem sum_eq_none_of_pushValue (h : (m.pushValue ts value).1 = some none) :
    (m.pushValue ts value).2.sum = none := by
  unfold pushValue at h ⊢
  cases hlast : m.data.getLast? with
  | none =>
    rw [hlast] at h
    cases h
  | some prev =>
    rw [hlast] at h
    dsimp only at h ⊢
    split_ifs at h ⊢
    split at h
    · cases h
    · split_ifs at h ⊢
      have hsum := Option.map_eq_none_iff.mp (Option.some.inj h)
      simp only [pushPoint]
      rw [hsum]
      rfl

end AdxAverage

namespace AverageDirectionalIndex

variable {m : AverageDirectionalIndex} {c : Candle} {candles : List Candle}

/-- The sum of the index is not a number. -/
def IsNan (m : AverageDirectionalIndex) : Prop := m.averageDirectionalIndex.sum = none

theorem IsNan.step (h : m.IsNan) :
    (m.step c).IsNan ∧ ∀ result ∈ (m.pushCandle c).2, result.adx = none := by
  simp only [AverageDirectionalIndex.step, pushCandle]
  cases (m.smooth c).1 with
  | none => exact ⟨h, by simp⟩
  | some s =>
    have hsmooth : (m.smooth c).2.averageDirectionalIndex.sum = none := h
    refine ⟨(AdxAverage.pushValue_of_sum_eq_none hsmooth).1, fun result hresult => ?_⟩
    obtain ⟨adx, hadx, rfl⟩ := Option.map_eq_some_iff.mp hresult
    exact (AdxAverage.pushValue_of_sum_eq_none hsmooth).2 adx hadx

theorem isNan_of_result {result : AdxResult} (h : (m.pushCandle c).2 = some result)
    (hadx : result.adx = none) : (m.step c).IsNan := by
  simp only [AverageDirectionalIndex.step, pushCandle] at h ⊢
  cases hs : (m.smooth c).1 with
  | none =>
    rw [hs] at h
    cases h
  | some s =>
    rw [hs] at h
    obtain ⟨adx, hpush, rfl⟩ := Option.map_eq_some_iff.mp h
    obtain rfl : adx = none := hadx
    exact AdxAverage.sum_eq_none_of_pushValue hpush

end AverageDirectionalIndex

structure DynamicGridAdxStrategyConfig where
  timeframe : Milliseconds := 0
  interval : ℕ := 0
  levelsPerSide : UInt32 := 0
  /-- To the end of the last level. -/
  priceRadiusPerc : ℚ := 0
  adxInterval : ℕ := 0
  adxThreshold : ℚ := 0
  deriving DecidableEq

namespace DynamicGridAdxStrategyConfig

variable (config : DynamicGridAdxStrategyConfig)

def grid : DynamicGridStrategyConfig :=
  ⟨config.timeframe, config.interval, config.levelsPerSide, config.priceRadiusPerc⟩

/-- The interval of the trend, for which a ban lasts. -/
def trendInterval : Milliseconds := config.timeframe * config.interval

/-- `adx > threshold`, of an index that may not be a number. -/
def Exceeds (adx : Option ℚ) : Prop := ∃ value ∈ adx, config.adxThreshold < value

instance (adx : Option ℚ) : Decidable (config.Exceeds adx) :=
  match adx with
  | none => isFalse (by simp [Exceeds])
  | some value => decidable_of_iff (config.adxThreshold < value) (by simp [Exceeds])

end DynamicGridAdxStrategyConfig

/-- What the strategy has beyond its base class. -/
structure DynamicGridAdxStrategy where
  config : DynamicGridAdxStrategyConfig
  adx : AverageDirectionalIndex
  banUntil : Milliseconds := 0
  deriving DecidableEq

namespace DynamicGridAdxStrategy

def new (config : DynamicGridAdxStrategyConfig) : DynamicGridAdxStrategy where
  config := config
  adx := .new (config.adxInterval * config.timeframe)

variable (s : DynamicGridAdxStrategy)

def isBanned (ts : Milliseconds) (c : Candle) : DynamicGridAdxStrategy × Bool :=
  let (adx, adx?) := s.adx.pushCandle c
  let s := { s with adx }
  match adx? with
  | none => (s, true)
  | some adx =>
    let s :=
      if s.config.Exceeds adx.adx then { s with banUntil := ts + s.config.trendInterval } else s
    (s, ts < s.banUntil)

def step (c : Milliseconds × Candle) : DynamicGridAdxStrategy := (s.isBanned c.1 c.2).1

def adxAt (config : DynamicGridAdxStrategyConfig) (pre : List (Milliseconds × Candle))
    (c : Milliseconds × Candle) : Option AdxResult :=
  ((after step (new config) pre).adx.pushCandle c.2).2

variable {s} {config : DynamicGridAdxStrategyConfig} {pre mid : List (Milliseconds × Candle)}
  {c c' : Milliseconds × Candle}

theorem isBanned_eq : s.isBanned c.1 c.2 =
    let adx := s.adx.pushCandle c.2
    let banUntil :=
      if ∃ result ∈ adx.2, s.config.Exceeds result.adx then c.1 + s.config.trendInterval
      else s.banUntil
    ({ s with adx := adx.1, banUntil }, adx.2.isNone || decide (c.1 < banUntil)) := by
  unfold isBanned
  rcases s.adx.pushCandle c.2 with ⟨adx, _ | result⟩
  · simp
  · dsimp only
    split_ifs <;> simp_all

theorem step_config : (s.step c).config = s.config := by rw [step, isBanned_eq]

theorem config_after : (after step (new config) pre).config = config := by
  induction pre using List.reverseRecOn with
  | nil => rfl
  | append_singleton pre c ih => rw [after_concat, step_config, ih]

theorem banUntil_concat : (after step (new config) (pre ++ [c])).banUntil =
    if ∃ result ∈ adxAt config pre c, config.Exceeds result.adx then
      c.1 + config.trendInterval
    else (after step (new config) pre).banUntil := by
  rw [after_concat, step, isBanned_eq, config_after]
  rfl

/-- The sum of the index stays what it is when it is not a number, and no ban starts. -/
theorem banUntil_of_isNan (h : (after step (new config) pre).adx.IsNan)
    (post : List (Milliseconds × Candle)) :
    (after step (new config) (pre ++ post)).adx.IsNan ∧
      (after step (new config) (pre ++ post)).banUntil =
        (after step (new config) pre).banUntil := by
  induction post using List.reverseRecOn with
  | nil =>
    rw [List.append_nil]
    exact ⟨h, rfl⟩
  | append_singleton post c ih =>
    obtain ⟨hnan, hban⟩ := ih
    obtain ⟨hstep, hresult⟩ := hnan.step (c := c.2)
    rw [← List.append_assoc, banUntil_concat, if_neg]
    · refine ⟨?_, hban⟩
      rw [after_concat, step, isBanned_eq]
      exact hstep
    · rintro ⟨result, hmem, value, hvalue, -⟩
      rw [hresult result hmem] at hvalue
      cases hvalue

/--
After an index that is not a number no ban starts any more: a later candle that has an index is
only banned by a ban from before.
-/
theorem isBanned_after_nan (config : DynamicGridAdxStrategyConfig)
    (pre post : List (Milliseconds × Candle)) (c c' : Milliseconds × Candle) (result : AdxResult)
    (hresult : adxAt config pre c = some result) (hnan : result.adx = none)
    (hindex : (adxAt config (pre ++ c :: post) c').isSome) :
    ((after step (new config) (pre ++ c :: post)).isBanned c'.1 c'.2).2 = true ↔
      c'.1 < (after step (new config) pre).banUntil := by
  have hstart : (after step (new config) (pre ++ [c])).adx.IsNan := by
    rw [after_concat, step, isBanned_eq]
    exact AverageDirectionalIndex.isNan_of_result hresult hnan
  have hsame : (after step (new config) (pre ++ [c])).banUntil =
      (after step (new config) pre).banUntil := by
    rw [banUntil_concat, if_neg]
    rintro ⟨result', hmem, value, hvalue, -⟩
    obtain rfl := Option.mem_unique hresult hmem
    rw [hnan] at hvalue
    cases hvalue
  obtain ⟨hnan', hban⟩ := banUntil_of_isNan hstart post
  rw [List.append_assoc, List.singleton_append] at hnan' hban
  have hnone := (hnan'.step (c := c'.2)).2
  have hnot : ¬ ∃ result ∈ adxAt config (pre ++ c :: post) c', config.Exceeds result.adx := by
    rintro ⟨result', hmem, value, hvalue, -⟩
    rw [hnone result' hmem] at hvalue
    cases hvalue
  rw [← hsame, ← hban, isBanned_eq, config_after, Bool.or_eq_true, decide_eq_true_eq,
    Option.isNone_iff_eq_none, or_iff_right fun h => by rw [adxAt, h] at hindex; cases hindex]
  exact iff_of_eq (congrArg _ (if_neg hnot))

/-- A trend is banned, and after a while without movement the ban is over for good. -/
theorem isBanned_after_nan_flat :
    let config : DynamicGridAdxStrategyConfig := ⟨1000, 2, 4, 20, 2, 50⟩
    let candle (i : ℤ) (low : ℚ) : Milliseconds × Candle :=
      (i * 1000, ⟨1000, i * 1000, low, low + 1, low, low + 1, 1, 1, 1⟩)
    let pre := [candle 0 10, candle 1 11, candle 2 12, candle 3 12, candle 4 12, candle 5 12]
    let post := [candle 7 14]
    ((after step (new config) (pre ++ candle 6 13 :: post)).isBanned 8000 (candle 8 15).2).2 =
      false := by
  intro config candle pre post
  have hresult : adxAt config pre (candle 6 13) = some ⟨none, .downTrend⟩ := by decide +kernel
  have hindex : (adxAt config (pre ++ candle 6 13 :: post) (candle 8 15)).isSome := by
    decide +kernel
  have hiff := isBanned_after_nan config pre post (candle 6 13) (candle 8 15) _ hresult rfl hindex
  rw [← Bool.not_eq_true]
  exact mt hiff.mp (by decide +kernel)

end DynamicGridAdxStrategy

end CryptoTrading

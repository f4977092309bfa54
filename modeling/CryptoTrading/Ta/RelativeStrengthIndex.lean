import CryptoTrading.Lib.Moments
import CryptoTrading.Lib.Runs
import CryptoTrading.Lib.Window
import CryptoTrading.MarketData.CandleBuilder
import CryptoTrading.Positions.PriceLevels
import CryptoTrading.Strategy.Base

/-! # The relative strength index

The averages of the last moves up and down are divided by each other. They are both zero when
the last candles are flat, and the index is not a number then.
-/

namespace CryptoTrading

open Moments Runs Window

def Candle.priceDiff (c : Candle) : ℚ := c.close - c.openPrice

structure RsiAverage where
  interval : ℕ
  sum : ℚ := 0
  data : List ℚ := []
  deriving DecidableEq

namespace RsiAverage

variable (m : RsiAverage)

/-- The loop that pops while there are more than the interval. -/
def dropOld : List ℚ → RsiAverage → RsiAverage
  | [], m => { m with data := [] }
  | value :: data, m =>
    if m.interval < (value :: data).length then dropOld data { m with sum := m.sum - value }
    else { m with data := value :: data }

/-- The returned average is `some none` where it is not a number. -/
def push (value : ℚ) : RsiAverage × Option (Option ℚ) :=
  let m := { m with data := m.data ++ [value], sum := m.sum + value }
  if m.data.length < m.interval then (m, none)
  else
    let m := dropOld m.data m
    (m, some (divide m.sum m.data.length))

structure Kept (m : RsiAverage) (n : ℕ) (values : List ℚ) : Prop where
  interval_eq : m.interval = n
  data : m.data = values.rtake n
  sum : m.sum = m.data.sum

variable {m} {n : ℕ} {value : ℚ} {values data : List ℚ}

theorem dropOld_data : (dropOld data m).data = data.rtake m.interval := by
  fun_induction dropOld with
  | case1 => simp
  | case2 value data m hmany ih =>
    have hlength : m.interval ≤ data.length := Nat.lt_succ_iff.mp hmany
    rw [ih, List.rtake, List.rtake, List.length_cons, Nat.sub_add_comm hlength, List.drop_succ_cons]
  | case3 value data m hfew => rw [rtake_eq_self (not_lt.mp hfew)]

theorem dropOld_interval : (dropOld data m).interval = m.interval := by
  fun_induction dropOld with
  | case1 => rfl
  | case2 value data m hmany ih => exact ih
  | case3 => rfl

theorem dropOld_sum (h : m.sum = data.sum) :
    (dropOld data m).sum = (dropOld data m).data.sum := by
  fun_induction dropOld with
  | case1 => exact h
  | case2 value data m hmany ih => exact ih (by simp [h])
  | case3 => exact h

theorem Kept.new : Kept { interval := n } n [] := ⟨rfl, by simp, rfl⟩

theorem Kept.push (h : m.Kept n values) : (m.push value).1.Kept n (values ++ [value]) := by
  have hsum : m.sum + value = (m.data ++ [value]).sum := by simp [h.sum]
  have hdata : (m.data ++ [value]).rtake n = (values ++ [value]).rtake n := by
    rw [h.data, rtake_rtake_concat]
  obtain rfl := h.interval_eq
  rw [RsiAverage.push]
  split_ifs with hfew
  · exact ⟨rfl, by rw [← hdata, rtake_eq_self hfew.le], hsum⟩
  · exact ⟨dropOld_interval, dropOld_data.trans hdata, dropOld_sum hsum⟩

theorem Kept.push_snd (h : m.Kept n values) (hn : 0 < n) :
    (m.push value).2 = if (values ++ [value]).length < n then none
      else some (some (mean ((values ++ [value]).rtake n))) := by
  have hlength : (m.data ++ [value]).length < n ↔ (values ++ [value]).length < n := by
    rw [h.data, List.length_append, List.length_append, length_rtake, List.length_singleton]
    omega
  obtain ⟨-, hdata, hsum⟩ : (m.push value).1.Kept n (values ++ [value]) := h.push
  rw [RsiAverage.push, h.interval_eq] at hdata hsum ⊢
  simp only [hlength] at hdata hsum ⊢
  split_ifs at hdata hsum ⊢ with hfew
  · rfl
  · have hne : (values ++ [value]).rtake n ≠ [] := by
      rw [← List.length_pos_iff, length_rtake]
      omega
    rw [hsum, hdata, divide, if_neg (cast_length_ne_zero hne), mean]

end RsiAverage

structure RelativeStrengthIndex where
  candlesInterval : ℕ
  positive : RsiAverage
  negative : RsiAverage
  deriving DecidableEq

namespace RelativeStrengthIndex

def new (candlesInterval : ℕ) : RelativeStrengthIndex where
  candlesInterval := candlesInterval
  positive := { interval := candlesInterval }
  negative := { interval := candlesInterval }

def rsi : Option ℚ → Option ℚ → PriceLevel
  | some posAvg, some negAvg =>
    (((PriceLevel.ofDivision posAvg negAvg).add 1).divFrom 100).subFrom 100
  | _, _ => .nan

variable (m : RelativeStrengthIndex)

def pushCandle (c : Candle) : RelativeStrengthIndex × Option PriceLevel :=
  let diff := c.priceDiff
  let (posAvg, negAvg) :=
    if 0 < diff then (m.positive.push diff, m.negative.push 0)
    else (m.positive.push 0, m.negative.push (-diff))
  let m := { m with positive := posAvg.1, negative := negAvg.1 }
  match posAvg.2, negAvg.2 with
  | some posAvg, some negAvg => (m, some (rsi posAvg negAvg))
  | _, _ => (m, none)

def step (c : Candle) : RelativeStrengthIndex := (m.pushCandle c).1

def upMove (c : Candle) : ℚ := max c.priceDiff 0

def downMove (c : Candle) : ℚ := max (-c.priceDiff) 0

/-- The averages of the upward and of the downward moves of the last candles. -/
def averages (n : ℕ) (candles : List Candle) : ℚ × ℚ :=
  let window := candles.rtake n
  (mean (window.map upMove), mean (window.map downMove))

/-- No quotient of zeros is evaluated, and the value is the index of the last candles. -/
def IsIndex (value : PriceLevel) (pos neg : ℚ) : Prop :=
  ¬ (pos = 0 ∧ neg = 0) ∧ value = .number (100 * pos / (pos + neg)) ∧
    100 * pos / (pos + neg) ∈ Set.Icc 0 100

structure Kept (m : RelativeStrengthIndex) (n : ℕ) (candles : List Candle) : Prop where
  positive : m.positive.Kept n (candles.map upMove)
  negative : m.negative.Kept n (candles.map downMove)

variable {m} {n : ℕ} {c : Candle} {pre candles : List Candle} {pos neg : ℚ}

theorem upMove_nonneg : 0 ≤ upMove c := le_max_right ..

theorem downMove_nonneg : 0 ≤ downMove c := le_max_right ..

theorem averages_nonneg : 0 ≤ (averages n candles).1 ∧ 0 ≤ (averages n candles).2 := by
  constructor
  · refine mean_nonneg (List.forall_mem_map.mpr fun c _ => upMove_nonneg)
  · refine mean_nonneg (List.forall_mem_map.mpr fun c _ => downMove_nonneg)

/-- Both averages are zero when the last candles are flat. -/
theorem averages_eq_zero_iff :
    (averages n candles).1 = 0 ∧ (averages n candles).2 = 0 ↔
      ∀ c ∈ candles.rtake n, c.openPrice = c.close := by
  have hflat : ∀ c : Candle, upMove c = 0 ∧ downMove c = 0 ↔ c.openPrice = c.close := by
    intro c
    rw [upMove, downMove, max_eq_right_iff, max_eq_right_iff, Candle.priceDiff]
    constructor
    · rintro ⟨hup, hdown⟩
      linarith
    · intro heq
      simp [heq]
  rw [averages, mean_eq_zero_iff (List.forall_mem_map.mpr fun c _ => upMove_nonneg),
    mean_eq_zero_iff (List.forall_mem_map.mpr fun c _ => downMove_nonneg),
    List.forall_mem_map, List.forall_mem_map, ← forall₂_and]
  exact forall₂_congr fun c _ => hflat c

theorem rsi_zero : rsi (some 0) (some 0) = .nan := by decide

theorem rsi_eq (hpos : 0 ≤ pos) (hneg : 0 ≤ neg) (hmoves : ¬ (pos = 0 ∧ neg = 0)) :
    rsi (some pos) (some neg) = .number (100 * pos / (pos + neg)) := by
  rcases hneg.eq_or_lt with rfl | hneg
  · have hpos' : 0 < pos := hpos.lt_of_ne fun h => hmoves ⟨h.symm, rfl⟩
    simp [rsi, PriceLevel.ofDivision, PriceLevel.add, PriceLevel.divFrom, PriceLevel.subFrom,
      hpos', hpos'.ne']
  · have hsum : pos / neg + 1 ≠ 0 := by positivity
    have hvalue : 100 - 100 / (pos / neg + 1) = 100 * pos / (pos + neg) := by
      field_simp
      ring
    simp only [rsi, PriceLevel.ofDivision, PriceLevel.add, PriceLevel.divFrom, hneg.ne', hsum,
      ne_eq, not_false_eq_true, if_true, PriceLevel.subFrom, hvalue]

theorem isIndex_rsi_iff (hpos : 0 ≤ pos) (hneg : 0 ≤ neg) :
    IsIndex (rsi (some pos) (some neg)) pos neg ↔ ¬ (pos = 0 ∧ neg = 0) := by
  refine ⟨And.left, fun hmoves => ⟨hmoves, rsi_eq hpos hneg hmoves, ?_⟩⟩
  have hsum : 0 ≤ pos + neg := add_nonneg hpos hneg
  refine ⟨by positivity, div_le_of_le_mul₀ hsum (by norm_num) ?_⟩
  linarith

theorem pushCandle_eq : m.pushCandle c =
    ({ m with
        positive := (m.positive.push (upMove c)).1
        negative := (m.negative.push (downMove c)).1 },
      (m.positive.push (upMove c)).2.bind fun pos =>
        (m.negative.push (downMove c)).2.map fun neg => rsi pos neg) := by
  have hpushed : (if 0 < c.priceDiff then
        (m.positive.push c.priceDiff, m.negative.push 0)
      else (m.positive.push 0, m.negative.push (-c.priceDiff))) =
      (m.positive.push (upMove c), m.negative.push (downMove c)) := by
    unfold upMove downMove
    split_ifs with hup
    · rw [max_eq_left hup.le, max_eq_right (neg_nonpos.mpr hup.le)]
    · rw [max_eq_right (not_lt.mp hup), max_eq_left (neg_nonneg.mpr (not_lt.mp hup))]
  simp only [pushCandle, hpushed]
  cases (m.positive.push (upMove c)).2 <;> cases (m.negative.push (downMove c)).2 <;> rfl

theorem Kept.step (h : m.Kept n candles) : (m.step c).Kept n (candles ++ [c]) := by
  rw [RelativeStrengthIndex.step, pushCandle_eq]
  constructor
  · rw [List.map_append]
    exact h.positive.push
  · rw [List.map_append]
    exact h.negative.push

theorem kept_after : (after RelativeStrengthIndex.step (new n) pre).Kept n pre := by
  induction pre using List.reverseRecOn with
  | nil => exact ⟨.new, .new⟩
  | append_singleton pre c ih =>
    rw [after_concat]
    exact ih.step

theorem Kept.pushCandle_snd (h : m.Kept n pre) (hn : 0 < n) :
    (m.pushCandle c).2 = if (pre ++ [c]).length < n then none
      else some (rsi (some (averages n (pre ++ [c])).1) (some (averages n (pre ++ [c])).2)) := by
  have hup : (m.positive.push (upMove c)).2 = _ := h.positive.push_snd hn
  have hdown : (m.negative.push (downMove c)).2 = _ := h.negative.push_snd hn
  rw [← List.map_singleton, ← List.map_append, List.length_map, ← map_rtake] at hup hdown
  rw [pushCandle_eq, hup, hdown, averages]
  split_ifs <;> rfl

/--
In a run, each value is the index of the last candles, if and only if never as many candles in a
row as the interval has are all flat.
-/
theorem isIndex_iff (hn : 0 < n) (candles : List Candle) :
    (∀ pre c, pre ++ [c] <+: candles →
      ∀ value ∈ ((after step (new n) pre).pushCandle c).2,
        IsIndex value (averages n (pre ++ [c])).1 (averages n (pre ++ [c])).2) ↔
      ∀ window, window <:+: candles → window.length = n → ∃ c ∈ window, c.openPrice ≠ c.close := by
  rw [← forall_rtake_iff_infix hn]
  refine forall₃_congr fun pre c hinit => ?_
  rw [kept_after.pushCandle_snd hn]
  split_ifs with hfew
  · refine iff_of_true nofun fun hmany => absurd hmany (not_le.mpr hfew)
  · obtain ⟨hpos, hneg⟩ :
        0 ≤ (averages n (pre ++ [c])).1 ∧ 0 ≤ (averages n (pre ++ [c])).2 := averages_nonneg
    simp only [Option.mem_some_iff, forall_eq', not_lt.mp hfew, forall_const]
    rw [isIndex_rsi_iff hpos hneg, averages_eq_zero_iff]
    push Not
    rfl

/-- Two candles that rise and fall. -/
theorem isIndex_iff_two :
    let candles : List Candle := [⟨1000, 0, 10, 12, 10, 12, 1, 0, 1⟩,
      ⟨1000, 1000, 12, 12, 11, 11, 0, 1, 1⟩]
    ∀ pre c, pre ++ [c] <+: candles →
      ∀ value ∈ ((after step (new 2) pre).pushCandle c).2,
        IsIndex value (averages 2 (pre ++ [c])).1 (averages 2 (pre ++ [c])).2 := by
  intro candles
  refine (@isIndex_iff 2 (by decide) candles).mpr fun window hwindow hlength => ?_
  have hmoves : ∀ c ∈ candles, c.openPrice ≠ c.close := by decide +kernel
  obtain ⟨c, hc⟩ := List.exists_mem_of_length_pos (hlength ▸ two_pos)
  exact ⟨c, hc, hmoves c (hwindow.subset hc)⟩

end RelativeStrengthIndex

/-- The strategy keeps out while the index is between its margins. -/
structure RelativeStrengthIndexStrategy where
  margin : ℚ
  rsi : RelativeStrengthIndex
  deriving DecidableEq

namespace RelativeStrengthIndexStrategy

open RelativeStrengthIndex

variable (s : RelativeStrengthIndexStrategy)

/-- The arguments of `try_send_order`, where it is called. -/
def pushCandle (c : Candle) : RelativeStrengthIndexStrategy × Option EntrySignal :=
  let (rsi, value) := s.rsi.pushCandle c
  let s := { s with rsi }
  match value with
  | none => (s, none)
  | some rsi =>
    let upperTrigger := 100 - s.margin
    let lowerTrigger := s.margin
    if rsi.Exceeds upperTrigger .sell ∧ rsi.Exceeds lowerTrigger .buy then (s, none)
    else
      let side := if rsi.Exceeds upperTrigger .buy then Side.buy else Side.sell
      (s, some ⟨side, c.close, c.closeTs⟩)

variable {s} {n : ℕ} {c : Candle} {pre : List Candle}

/-- After as many flat candles as the interval has, the strategy sells. -/
theorem pushCandle_of_flat (h : s.rsi.Kept n pre) (hn : 0 < n) (hlong : n ≤ (pre ++ [c]).length)
    (hflat : ∀ c' ∈ (pre ++ [c]).rtake n, c'.openPrice = c'.close) :
    (s.pushCandle c).2 = some ⟨.sell, c.close, c.closeTs⟩ := by
  obtain ⟨hpos, hneg⟩ := averages_eq_zero_iff.mpr hflat
  have hvalue : (s.rsi.pushCandle c).2 = some .nan := by
    rw [h.pushCandle_snd hn, if_neg (not_lt.mpr hlong), hpos, hneg, rsi_zero]
  simp [pushCandle, hvalue, PriceLevel.Exceeds]

end RelativeStrengthIndexStrategy

/-- Two empty candles in a row, at which the strategy sells. -/
theorem RelativeStrengthIndex.not_isIndex_flat :
    let pre : List Candle := [.flat 1000 0 10]
    let c : Candle := .flat 1000 1000 10
    let m := after step (new 2) pre
    (m.pushCandle c).2 = some .nan ∧
      ¬ IsIndex .nan (averages 2 (pre ++ [c])).1 (averages 2 (pre ++ [c])).2 ∧
      (RelativeStrengthIndexStrategy.pushCandle ⟨30, m⟩ c).2 = some ⟨.sell, 10, 2000⟩ := by
  refine ⟨by decide +kernel, fun h => ?_, by decide +kernel⟩
  exact h.1 (by decide +kernel)

end CryptoTrading

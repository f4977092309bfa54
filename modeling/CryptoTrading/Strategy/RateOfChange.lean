import CryptoTrading.Engine.LotSize
import CryptoTrading.Lib.Runs
import CryptoTrading.MarketData.CandleBuilder
import CryptoTrading.Positions.PriceLevels
import CryptoTrading.Strategy.Base
import Mathlib.Data.List.DropRight

/-! # The rate of change strategy

It counts the candles in a row, of one side, at which the close has changed by at least a
threshold. The counter has the sign of the side, but it is compared with the trigger interval as
it is, so only rising candles enter. A candle that resets the counter is not counted itself.
-/

namespace CryptoTrading

open Runs

theorem StrategyBase.side_of_sent {s : StrategyBase} {om : OrderManager} {side : Side}
    {price : Price} {ts : Milliseconds} {o : MarketOrder}
    (h : .request (.order o) ∈ (s.trySendOrder om side price ts).2.1) : o.side = side := by
  unfold trySendOrder at h
  split_ifs at h
  · cases h
  · cases h
  · cases hsize : UnsignedVolume.from? (s.posCurrencyAmount / price.value) with
    | none =>
      rw [hsize] at h
      cases h
    | some size =>
      rw [hsize] at h
      exact (OrderManager.price_side_of_sent h).2

structure RateOfChangeStrategyConfig where
  triggerInterval : ℤ
  signalThreshold : ℚ
  deriving DecidableEq

namespace RateOfChangeStrategyConfig

variable (config : RateOfChangeStrategyConfig)

def IsValid : Prop := 0 < config.signalThreshold ∧ 1 < config.triggerInterval

instance : Decidable config.IsValid := inferInstanceAs (Decidable (_ ∧ _))

def InTriggerZone (roc : PriceLevel) : Prop :=
  roc.Reaches config.signalThreshold .buy ∨ roc.Reaches (-config.signalThreshold) .sell

instance (roc : PriceLevel) : Decidable (config.InTriggerZone roc) :=
  inferInstanceAs (Decidable (_ ∨ _))

end RateOfChangeStrategyConfig

def rateOfChange (prev close : ℚ) : PriceLevel := .ofDivision (close - prev) prev

structure RateOfChangeStrategy where
  config : RateOfChangeStrategyConfig
  /-- The latest first. -/
  prevClosingPrices : List ℚ := []
  triggerIter : ℤ := 0
  deriving DecidableEq

namespace RateOfChangeStrategy

def rocInterval : ℕ := 2

def new (config : RateOfChangeStrategyConfig) : RateOfChangeStrategy := { config }

variable (s : RateOfChangeStrategy)

/-- The arguments of `try_send_order`, where it is called. -/
def pushCandle (c : Candle) : RateOfChangeStrategy × Option EntrySignal :=
  let prevClosingPrices := (c.close :: s.prevClosingPrices).take rocInterval
  let roc := rateOfChange (prevClosingPrices.getLastD c.close) c.close
  let inTriggerZone := s.config.InTriggerZone roc
  let signsMatch := s.triggerIter = 0 ∨ s.triggerIter.sign = c.side.sign
  let triggered := inTriggerZone ∧ signsMatch
  let triggerIter := if triggered then s.triggerIter + c.side.sign else 0
  let s := { s with prevClosingPrices, triggerIter }
  if triggerIter < s.config.triggerInterval then (s, none)
  else if roc.Exceeds s.config.signalThreshold .buy then (s, some ⟨.buy, c.close, c.closeTs⟩)
  else (s, some ⟨.sell, c.close, c.closeTs⟩)

def step (c : Candle) : RateOfChangeStrategy := (s.pushCandle c).1

def history (pre : List Candle) (c : Candle) : List Candle := pre ++ [c]

/-- The rate of change at a candle. The first candle has no other before it than itself. -/
def rate (pre : List Candle) (c : Candle) : PriceLevel :=
  rateOfChange (pre.getLast?.getD c).close c.close

def ratesFrom (prev : Candle) : List Candle → List (Candle × PriceLevel)
  | [] => []
  | c :: candles => (c, rateOfChange prev.close c.close) :: ratesFrom c candles

def rates : List Candle → List (Candle × PriceLevel)
  | [] => []
  | c :: candles => ratesFrom c (c :: candles)

/-- The last consecutive triggering candles of a side. -/
def streak (config : RateOfChangeStrategyConfig) (side : Side) (candles : List Candle) :
    List (Candle × PriceLevel) :=
  (rates candles).rtakeWhile fun x => config.InTriggerZone x.2 ∧ x.1.side = side

/-- The candle is in the trigger zone, and the counter is not on the other side. -/
def nextTriggerIter (c : Candle) (roc : PriceLevel) : ℤ :=
  if s.config.InTriggerZone roc ∧ 0 ≤ s.triggerIter * c.side.sign then s.triggerIter + c.side.sign
  else 0

variable {s} {config : RateOfChangeStrategyConfig} {pre candles : List Candle} {c : Candle}
  {side : Side}

theorem ratesFrom_concat (prev : Candle) (pre : List Candle) (c : Candle) :
    ratesFrom prev (pre ++ [c]) =
      ratesFrom prev pre ++ [(c, rateOfChange (pre.getLast?.getD prev).close c.close)] := by
  induction pre generalizing prev with
  | nil => rfl
  | cons p pre ih =>
    rw [List.cons_append, ratesFrom, ih, List.getLast?_cons]
    rfl

theorem rates_concat (pre : List Candle) (c : Candle) :
    rates (pre ++ [c]) = rates pre ++ [(c, rate pre c)] := by
  cases pre with
  | nil => rfl
  | cons p pre =>
    rw [List.cons_append, rates, ← List.cons_append, ratesFrom_concat, rates, rate,
      List.getLast?_cons]
    rfl

theorem streak_concat (pre : List Candle) (c : Candle) :
    streak config side (pre ++ [c]) =
      if config.InTriggerZone (rate pre c) ∧ c.side = side then
        streak config side pre ++ [(c, rate pre c)]
      else [] := by
  rw [streak, rates_concat, List.rtakeWhile_concat]
  simp only [decide_eq_true_eq]
  rfl

theorem length_streak_concat (pre : List Candle) (c : Candle) :
    (streak config side (pre ++ [c])).length =
      if config.InTriggerZone (rate pre c) ∧ c.side = side then (streak config side pre).length + 1
      else 0 := by
  rw [streak_concat]
  split_ifs
  · rw [List.length_append, List.length_singleton]
  · rfl

theorem signsMatch_iff : s.triggerIter = 0 ∨ s.triggerIter.sign = side.sign ↔
    0 ≤ s.triggerIter * side.sign := by
  cases side with
  | buy =>
    rw [Side.sign_buy, Int.sign_eq_one_iff_pos]
    omega
  | sell =>
    rw [Side.sign_sell, Int.sign_eq_neg_one_iff_neg]
    omega

structure Counts (config : RateOfChangeStrategyConfig) (s : RateOfChangeStrategy)
    (pre : List Candle) : Prop where
  config_eq : s.config = config
  price : s.prevClosingPrices.head? = pre.getLast?.map Candle.close
  le : s.triggerIter ≤ (streak config .buy pre).length

theorem Counts.new (config : RateOfChangeStrategyConfig) : Counts config (new config) [] :=
  ⟨rfl, rfl, le_rfl⟩

theorem Counts.rate_eq (h : Counts config s pre) (c : Candle) :
    rateOfChange (((c.close :: s.prevClosingPrices).take rocInterval).getLastD c.close) c.close =
      rate pre c := by
  have hback : ((c.close :: s.prevClosingPrices).take rocInterval).getLastD c.close =
      s.prevClosingPrices.head?.getD c.close := by
    cases s.prevClosingPrices <;> rfl
  rw [hback, h.price, rate]
  cases pre.getLast? <;> rfl

theorem Counts.pushCandle_eq (h : Counts config s pre) (c : Candle) :
    let triggerIter := s.nextTriggerIter c (rate pre c)
    s.pushCandle c =
      ({ s with
          prevClosingPrices := (c.close :: s.prevClosingPrices).take rocInterval
          triggerIter },
        if triggerIter < config.triggerInterval then none
        else if (rate pre c).Exceeds config.signalThreshold .buy then
          some ⟨.buy, c.close, c.closeTs⟩
        else some ⟨.sell, c.close, c.closeTs⟩) := by
  intro triggerIter
  obtain rfl := h.config_eq
  have hiter : (if s.config.InTriggerZone (rate pre c) ∧
      (s.triggerIter = 0 ∨ s.triggerIter.sign = c.side.sign) then
        s.triggerIter + c.side.sign else 0) = triggerIter := by
    simp only [signsMatch_iff]
    rfl
  unfold pushCandle
  simp only [h.rate_eq, hiter]
  split_ifs <;> rfl

theorem nextTriggerIter_of_out {roc : PriceLevel} (h : ¬ s.config.InTriggerZone roc) :
    s.nextTriggerIter c roc = 0 := if_neg fun hboth => h hboth.1

theorem nextTriggerIter_of_sell {roc : PriceLevel} (h : c.side = .sell) :
    s.nextTriggerIter c roc ≤ 0 := by
  rw [nextTriggerIter, h, Side.sign_sell]
  split_ifs <;> omega

theorem nextTriggerIter_of_buy {roc : PriceLevel} (hzone : s.config.InTriggerZone roc)
    (h : c.side = .buy) :
    s.nextTriggerIter c roc = if 0 ≤ s.triggerIter then s.triggerIter + 1 else 0 := by
  rw [nextTriggerIter, h, Side.sign_buy, mul_one]
  simp only [hzone, true_and]

theorem Counts.step_triggerIter (h : Counts config s pre) (c : Candle) :
    (s.step c).triggerIter = s.nextTriggerIter c (rate pre c) := by
  rw [RateOfChangeStrategy.step, h.pushCandle_eq]

theorem Counts.step (h : Counts config s pre) (c : Candle) :
    Counts config (s.step c) (pre ++ [c]) := by
  obtain rfl := h.config_eq
  constructor
  · rw [RateOfChangeStrategy.step, h.pushCandle_eq]
  · rw [RateOfChangeStrategy.step, h.pushCandle_eq, List.getLast?_concat]
    rfl
  · have hle := h.le
    rw [h.step_triggerIter, length_streak_concat]
    split_ifs with hcounted
    · rw [nextTriggerIter_of_buy hcounted.1 hcounted.2]
      split_ifs <;> omega
    · by_cases hzone : s.config.InTriggerZone (rate pre c)
      · cases hside : c.side with
        | buy => exact absurd ⟨hzone, hside⟩ hcounted
        | sell => exact nextTriggerIter_of_sell hside
      · exact (nextTriggerIter_of_out hzone).le

theorem counts_after (config : RateOfChangeStrategyConfig) (pre : List Candle) :
    Counts config (after RateOfChangeStrategy.step (new config) pre) pre := by
  induction pre using List.reverseRecOn with
  | nil => exact .new config
  | append_singleton pre c ih =>
    rw [after_concat]
    exact ih.step c

/-- The state that the first candle of the rising streak finds. -/
def streakStart (config : RateOfChangeStrategyConfig) (candles : List Candle) :
    RateOfChangeStrategy :=
  after step (new config) (candles.rdrop (streak config .buy candles).length)

/-- All candles of a rising streak are counted, but for the first one where it finds the counter
negative. -/
theorem triggerIter_of_rising (h : 0 < (streak config .buy candles).length) :
    (after RateOfChangeStrategy.step (new config) candles).triggerIter =
      (streak config .buy candles).length -
        if 0 ≤ (streakStart config candles).triggerIter then 0 else 1 := by
  induction candles using List.reverseRecOn with
  | nil => exact absurd h (lt_irrefl 0)
  | append_singleton pre c ih =>
    have hcounts := counts_after config pre
    have hle := hcounts.le
    have hlength := @length_streak_concat config .buy pre c
    split_ifs at hlength with hcounted
    · rw [← hcounts.config_eq] at hcounted
      rw [streakStart, hlength, List.rdrop_concat_succ, ← streakStart, after_concat,
        hcounts.step_triggerIter, nextTriggerIter_of_buy hcounted.1 hcounted.2]
      rcases (streak config .buy pre).length.eq_zero_or_pos with hzero | hpos
      · rw [streakStart, hzero, List.rdrop_zero]
        rw [hzero] at hle
        split_ifs <;> omega
      · rw [ih hpos]
        split_ifs <;> omega
    · omega

/-- A candle that completes a long enough streak of a side, with a rate of change of that sign,
attempts an order of the side, and an attempt is on the side of such a streak. -/
def Follows (config : RateOfChangeStrategyConfig) (pre : List Candle) (c : Candle) : Prop :=
  let attempt := ((after step (new config) pre).pushCandle c).2
  let completes (side : Side) := config.triggerInterval ≤ (streak config side (pre ++ [c])).length
  (∀ side, completes side → (rate pre c).Exceeds 0 side →
    attempt = some ⟨side, c.close, c.closeTs⟩) ∧
  ∀ a ∈ attempt, completes a.side

/-- A falling candle with a negative rate of change does not complete a streak. The first
candle of a streak that a rising one completes does not find the counter negative. With enough
candles counted the rate of change is above the threshold. -/
def RisesCounted (config : RateOfChangeStrategyConfig) (pre : List Candle) (c : Candle) : Prop :=
  (c.side = .sell → config.triggerInterval ≤ (streak config .sell (pre ++ [c])).length →
      ¬ (rate pre c).Exceeds 0 .sell) ∧
    (c.side = .buy → (streak config .buy (pre ++ [c])).length = config.triggerInterval →
      (rate pre c).Exceeds 0 .buy → 0 ≤ (streakStart config (pre ++ [c])).triggerIter) ∧
    (c.side = .buy → config.InTriggerZone (rate pre c) →
      config.triggerInterval ≤ (after step (new config) pre).triggerIter + 1 →
      (rate pre c).Exceeds config.signalThreshold .buy)

instance (config : RateOfChangeStrategyConfig) (pre : List Candle) (c : Candle) :
    Decidable (RisesCounted config pre c) := inferInstanceAs (Decidable (_ ∧ _ ∧ _))

theorem length_streak_of_ne (h : c.side ≠ side) : (streak config side (pre ++ [c])).length = 0 := by
  rw [length_streak_concat, if_neg fun hboth => h hboth.2]

theorem follows_iff_of_sell (hvalid : config.IsValid) (pre : List Candle) (hside : c.side = .sell) :
    Follows config pre c ↔ RisesCounted config pre c := by
  have h := counts_after config pre
  have hbuy : (streak config .buy (pre ++ [c])).length = 0 :=
    length_streak_of_ne (by rw [hside]; nofun)
  have hle := @nextTriggerIter_of_sell (after step (new config) pre) c (rate pre c) hside
  have hn := hvalid.2
  rw [Follows, RisesCounted, hside, h.pushCandle_eq, if_pos (by omega)]
  constructor
  · rintro ⟨hattempt, -⟩
    refine ⟨fun _ hcompletes hexceeds => ?_, nofun, nofun⟩
    exact absurd (hattempt .sell hcompletes hexceeds) nofun
  · rintro ⟨hnone, -, -⟩
    refine ⟨?_, nofun⟩
    rintro (_ | _) hcompletes hexceeds
    · omega
    · exact absurd hexceeds (hnone rfl hcompletes)

theorem follows_iff_counted (hvalid : config.IsValid) (pre : List Candle) (hside : c.side = .buy) :
    Follows config pre c ↔
      (config.triggerInterval ≤ (streak config .buy (pre ++ [c])).length →
        (rate pre c).Exceeds 0 .buy →
        config.triggerInterval ≤ (after step (new config) (pre ++ [c])).triggerIter) ∧
      (config.triggerInterval ≤ (after step (new config) (pre ++ [c])).triggerIter →
        (rate pre c).Exceeds config.signalThreshold .buy) := by
  have h := counts_after config pre
  have hsell : (streak config .sell (pre ++ [c])).length = 0 :=
    length_streak_of_ne (by rw [hside]; nofun)
  have hle := (h.step c).le
  have hn := hvalid.2
  rw [after_concat, h.step_triggerIter]
  rw [h.step_triggerIter] at hle
  rw [Follows, h.pushCandle_eq]
  split_ifs with hlate hexceeds
  · constructor
    · rintro ⟨hattempt, -⟩
      refine ⟨fun hcompletes hrate => ?_, fun hreached => absurd hlate (not_lt.mpr hreached)⟩
      exact absurd (hattempt .buy hcompletes hrate) nofun
    · rintro ⟨hreaches, -⟩
      refine ⟨?_, nofun⟩
      rintro (_ | _) hcompletes hrate
      · exact absurd hlate (not_lt.mpr (hreaches hcompletes hrate))
      · omega
  · refine iff_of_true ⟨?_, ?_⟩ ⟨fun _ _ => not_lt.mp hlate, fun _ => hexceeds⟩
    · rintro (_ | _) hcompletes -
      · rfl
      · omega
    · rintro _ ⟨⟩
      exact (not_lt.mp hlate).trans hle
  · refine iff_of_false (fun hfollows => ?_) fun hboth => hexceeds (hboth.2 (not_lt.mp hlate))
    have hcompletes : config.triggerInterval ≤ (streak config .sell (pre ++ [c])).length :=
      hfollows.2 _ rfl
    omega

/-- Enough candles are counted at the end of a long enough streak, but for one that has just
become long enough and whose first candle was not counted. -/
theorem counted_iff (hvalid : config.IsValid) {P : Prop} :
    (config.triggerInterval ≤ (streak config .buy candles).length → P →
        config.triggerInterval ≤ (after step (new config) candles).triggerIter) ↔
      ((streak config .buy candles).length = config.triggerInterval → P →
        0 ≤ (streakStart config candles).triggerIter) := by
  have hn := hvalid.2
  have hexact := @triggerIter_of_rising config candles
  constructor
  · intro hreaches hlength hrate
    have hreached := hreaches hlength.ge hrate
    by_contra hnegative
    rw [if_neg hnegative] at hexact
    omega
  · intro hnonneg hcompletes hrate
    rcases hcompletes.eq_or_lt with hlength | hlong
    · rw [hexact (by omega), if_pos (hnonneg hlength.symm hrate), sub_zero]
      exact hcompletes
    · rw [hexact (by omega)]
      split_ifs <;> omega

theorem follows_iff_of_buy (hvalid : config.IsValid) (pre : List Candle) (hside : c.side = .buy) :
    Follows config pre c ↔ RisesCounted config pre c := by
  have h := counts_after config pre
  have hnext : config.triggerInterval ≤ (after step (.new config) (pre ++ [c])).triggerIter ↔
      config.InTriggerZone (rate pre c) ∧
        config.triggerInterval ≤ (after step (.new config) pre).triggerIter + 1 := by
    have hn := hvalid.2
    rw [after_concat, h.step_triggerIter]
    by_cases hzone : config.InTriggerZone (rate pre c)
    · rw [nextTriggerIter_of_buy (by rwa [h.config_eq]) hside, and_iff_right hzone]
      split_ifs <;> omega
    · rw [nextTriggerIter_of_out (by rwa [h.config_eq])]
      exact iff_of_false (by omega) fun hboth => hzone hboth.1
  rw [follows_iff_counted hvalid pre hside, counted_iff hvalid, hnext, and_imp, RisesCounted]
  constructor
  · rintro ⟨hstart, habove⟩
    exact ⟨fun hfalls => absurd (hside.symm.trans hfalls) nofun, fun _ => hstart, fun _ => habove⟩
  · rintro ⟨-, hstart, habove⟩
    exact ⟨hstart hside, habove hside⟩

theorem follows_iff (hvalid : config.IsValid) (pre : List Candle) (c : Candle) :
    Follows config pre c ↔ RisesCounted config pre c := by
  cases hside : c.side with
  | buy => exact follows_iff_of_buy hvalid pre hside
  | sell => exact follows_iff_of_sell hvalid pre hside

/--
In a run, a candle that completes a long enough streak with a rate of change of its sign attempts
an order of its side, and there are no other attempts than on the side of such a streak, just
when no such streak falls and all of them are counted, up to a rate of change above the
threshold. The order that an attempt sends is of its side.
-/
theorem follows_streaks_iff (hvalid : config.IsValid) (candles : List Candle) :
    (Meets history (Follows config) [] candles ↔ Meets history (RisesCounted config) [] candles) ∧
      ∀ (attempt : EntrySignal) (base : StrategyBase) (om : OrderManager) (price : Price)
        (o : MarketOrder),
        .request (.order o) ∈ (base.trySendOrder om attempt.side price attempt.ts).2.1 →
        o.side = attempt.side :=
  ⟨meets_congr (follows_iff hvalid), fun _ _ _ _ _ => StrategyBase.side_of_sent⟩

/-- Two rising candles in a row. -/
theorem follows_streaks_iff_two :
    let config : RateOfChangeStrategyConfig := ⟨2, 1 / 10⟩
    let candle (openPrice close : ℚ) : Candle := ⟨60000, 0, openPrice, 150, 50, close, 1, 1, 2⟩
    Meets history (Follows config) [] [candle 100 100, candle 100 120, candle 120 150] := by
  intro config candle
  have h := follows_streaks_iff (show config.IsValid by decide +kernel)
    [candle 100 100, candle 100 120, candle 120 150]
  exact h.1.mpr (by decide +kernel)

/-- Two falling candles in a row. -/
theorem falling_streak_attempts_nothing :
    let config : RateOfChangeStrategyConfig := ⟨2, 1 / 10⟩
    let candle (openPrice close : ℚ) : Candle := ⟨60000, 0, openPrice, 150, 50, close, 1, 1, 2⟩
    let pre := [candle 100 100, candle 100 80]
    let c := candle 80 60
    config.IsValid ∧ config.triggerInterval ≤ (streak config .sell (pre ++ [c])).length ∧
      (rate pre c).Exceeds 0 .sell ∧ ((after step (new config) pre).pushCandle c).2 = none ∧
      ¬ Follows config pre c := by
  intro config candle pre c
  have hcompletes : config.triggerInterval ≤ (streak config .sell (pre ++ [c])).length := by
    decide +kernel
  have hexceeds : (rate pre c).Exceeds 0 .sell := by decide +kernel
  have hnone : ((after step (new config) pre).pushCandle c).2 = none := by decide +kernel
  refine ⟨by decide +kernel, hcompletes, hexceeds, hnone, fun hfollows => ?_⟩
  exact absurd (hnone.symm.trans (hfollows.1 .sell hcompletes hexceeds)) nofun

end RateOfChangeStrategy

end CryptoTrading

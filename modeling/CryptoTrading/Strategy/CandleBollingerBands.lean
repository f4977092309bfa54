import CryptoTrading.MarketData.CandleBuilder
import CryptoTrading.Strategy.BollingerBands
import Mathlib.Data.List.DropRight

/-! # The candle Bollinger bands strategy

It counts the candles in a row that close outside of a band in their own direction, and trades
against them on the candle that ends the row, unless there were too many of them. Like the
strategy on prices it then waits for a close on the other side of the trend.
-/

namespace CryptoTrading

open Runs BollingerBands BollingerBandsValue

def Candle.closePoint (c : Candle) : Milliseconds × ℚ := (c.closeTs, c.close)

def BollingerBands.stepCandle (m : BollingerBands) (c : Candle) : BollingerBands :=
  m.step c.closePoint

def BollingerBands.valueOf (m : BollingerBands) (c : Candle) : Option BollingerBandsValue :=
  m.value c.closePoint

theorem BollingerBands.after_stepCandle {m : BollingerBands} {pre : List Candle} :
    after stepCandle m pre = after BollingerBands.step m (pre.map Candle.closePoint) := by
  rw [after, after, List.foldl_map]
  rfl

def BollingerBandsValue.IsTrigger (b : BollingerBandsValue) (c : Candle) : Side → Prop
  | .buy => b.AboveUpper c.close ∧ c.side = .buy
  | .sell => b.BelowLower c.close ∧ c.side = .sell

instance (b : BollingerBandsValue) (c : Candle) : (side : Side) → Decidable (b.IsTrigger c side)
  | .buy => inferInstanceAs (Decidable (_ ∧ _))
  | .sell => inferInstanceAs (Decidable (_ ∧ _))

theorem BollingerBandsValue.isTrigger_iff {b : BollingerBandsValue} {c : Candle} {side : Side} :
    b.IsTrigger c side ↔ b.Outside c.close side.opposite ∧ c.side = side := by
  cases side with
  | buy => exact and_congr_left' aboveUpper_iff
  | sell => exact and_congr_left' belowLower_iff

structure CandleBollingerBandsStrategyConfig where
  timeframe : Milliseconds := 0
  interval : Milliseconds := 0
  candlesThreshold : ℤ := 0
  stdDeviationCoefficient : ℚ := 0
  deriving DecidableEq

structure CandleBollingerBandsStrategy where
  config : CandleBollingerBandsStrategyConfig
  bollingerBands : BollingerBands
  lastSignalSide : Option Side := none
  /-- It is negative for candles under the lower band. -/
  candlesAbovePriceTrigger : ℤ := 0
  deriving DecidableEq

namespace CandleBollingerBandsStrategy

def new (config : CandleBollingerBandsStrategyConfig) : CandleBollingerBandsStrategy where
  config := config
  bollingerBands := .new config.interval config.stdDeviationCoefficient

variable (s : CandleBollingerBandsStrategy)

/-- The side that trades on a candle that is no trigger itself. -/
def reverseSide (candlesThreshold n : ℤ) (c : Candle) : Option Side :=
  let tooManyCandlesAbove := candlesThreshold < |n|
  if ¬ tooManyCandlesAbove ∧ 0 < n ∧ c.side = .sell then some .sell
  else if ¬ tooManyCandlesAbove ∧ n < 0 ∧ c.side = .buy then some .buy
  else none

/-- The arguments of `try_send_order`, where it is called. -/
def pushCandle (c : Candle) : CandleBollingerBandsStrategy × Option EntrySignal :=
  let (bollingerBands, bbRes) := s.bollingerBands.pushValue c.closeTs c.close
  let s := { s with bollingerBands }
  match bbRes with
  | none => (s, none)
  | some bbRes =>
    match s.lastSignalSide with
    | some lastSignalSide =>
      ({ s with lastSignalSide := bbRes.afterSignal c.close lastSignalSide }, none)
    | none =>
      if bbRes.IsTrigger c .buy then
        ({ s with candlesAbovePriceTrigger := max s.candlesAbovePriceTrigger 0 + 1 }, none)
      else if bbRes.IsTrigger c .sell then
        ({ s with candlesAbovePriceTrigger := min s.candlesAbovePriceTrigger 0 - 1 }, none)
      -- it's not a trend reverse
      else if s.candlesAbovePriceTrigger = 0 then (s, none)
      else
        let side := reverseSide s.config.candlesThreshold s.candlesAbovePriceTrigger c
        ({ s with lastSignalSide := side, candlesAbovePriceTrigger := 0 },
          side.map fun side => ⟨side, c.close, c.closeTs⟩)

def step (c : Candle) : CandleBollingerBandsStrategy := (s.pushCandle c).1

def signal (config : CandleBollingerBandsStrategyConfig) (pre : List Candle) (c : Candle) :
    Option EntrySignal :=
  ((after step (new config) pre).pushCandle c).2

def bandsAt (config : CandleBollingerBandsStrategyConfig) (pre : List Candle) (c : Candle) :
    Option BollingerBandsValue :=
  valueAt config.interval config.stdDeviationCoefficient (pre.map Candle.closePoint) c.closePoint

/-- The bands of a candle, and the side whose return is awaited. -/
structure Watched where
  candle : Candle
  bands : BollingerBandsValue
  awaited : Option Side
  deriving DecidableEq

def watch (c : Candle) : List Watched :=
  (s.bollingerBands.valueOf c).toList.map fun b => ⟨c, b, s.lastSignalSide⟩

def watched (config : CandleBollingerBandsStrategyConfig) (pre : List Candle) : List Watched :=
  outputs step watch (new config) pre

/-- The last triggers of a side in a row, while no return is awaited. -/
def streak (config : CandleBollingerBandsStrategyConfig) (side : Side) (pre : List Candle) :
    List Watched :=
  (watched config pre).rtakeWhile fun w => w.awaited = none ∧ w.bands.IsTrigger w.candle side

/-- What the bands of a candle do to the counter, and the side that trades then. -/
def latch (candlesThreshold : ℤ) : Latch ℤ (Candle × Option BollingerBandsValue) Side where
  fire n x :=
    match x.2 with
    | none => (n, none)
    | some b =>
      if b.IsTrigger x.1 .buy then (max n 0 + 1, none)
      else if b.IsTrigger x.1 .sell then (min n 0 - 1, none)
      else if n = 0 then (0, none)
      else (0, reverseSide candlesThreshold n x.1)
  clears side x := x.2.any fun b => b.Returned x.1.close side

variable {s} {config : CandleBollingerBandsStrategyConfig} {pre : List Candle} {c : Candle}
  {b : BollingerBandsValue} {side : Side} {n : ℤ}

theorem pushCandle_eq : s.pushCandle c =
    let x := (c, s.bollingerBands.valueOf c)
    let state := (s.lastSignalSide, s.candlesAbovePriceTrigger)
    let next := (latch s.config.candlesThreshold).step state x
    ({ s with
        bollingerBands := s.bollingerBands.stepCandle c
        lastSignalSide := next.1
        candlesAbovePriceTrigger := next.2 },
      ((latch s.config.candlesThreshold).fired state x).map
        fun side => ⟨side, c.close, c.closeTs⟩) := by
  simp only [pushCandle, valueOf, stepCandle, BollingerBands.value, BollingerBands.step,
    Candle.closePoint]
  rcases s.bollingerBands.pushValue c.closeTs c.close with ⟨m, _ | b⟩
  · cases s.lastSignalSide <;> simp [Latch.step, Latch.fired, latch]
  · cases s.lastSignalSide with
    | some side => simp [Latch.step, Latch.fired, latch, afterSignal]
    | none =>
      simp only [Latch.step, Latch.fired, latch]
      split_ifs with hbuy hsell hzero
      · rfl
      · rfl
      · simp [hzero]
      · rfl

theorem watched_concat : watched config (pre ++ [c]) =
    watched config pre ++ (after step (new config) pre).watch c := outputs_concat

theorem streak_concat_of_none (h : (after step (new config) pre).bollingerBands.valueOf c = none) :
    streak config side (pre ++ [c]) = streak config side pre := by
  rw [streak, watched_concat, watch, h, Option.toList_none, List.map_nil, List.append_nil, streak]

theorem streak_concat_of_some
    (h : (after step (new config) pre).bollingerBands.valueOf c = some b) :
    streak config side (pre ++ [c]) =
      if (after step (new config) pre).lastSignalSide = none ∧ b.IsTrigger c side then
        streak config side pre ++ [⟨c, b, none⟩]
      else [] := by
  rw [streak, watched_concat, watch, h, Option.toList_some, List.map_singleton,
    List.rtakeWhile_concat]
  simp only [decide_eq_true_eq]
  split_ifs with htrigger
  · rw [htrigger.1, streak]
  · rfl

/-- The counter is the length of the streak, negative for that of sales. -/
structure Counts (config : CandleBollingerBandsStrategyConfig) (pre : List Candle)
    (n : ℤ) : Prop where
  counter : n = (streak config .buy pre).length - (streak config .sell pre).length
  one_side : streak config .buy pre = [] ∨ streak config .sell pre = []

theorem Counts.of_nil (hbuy : streak config .buy pre = []) (hsell : streak config .sell pre = []) :
    Counts config pre 0 := ⟨by rw [hbuy, hsell]; rfl, .inl hbuy⟩

theorem Counts.max_eq (h : Counts config pre n) : max n 0 = (streak config .buy pre).length := by
  obtain ⟨rfl, hbuy | hsell⟩ := h
  · simp [hbuy]
  · simp [hsell]

theorem Counts.min_eq (h : Counts config pre n) :
    min n 0 = -((streak config .sell pre).length : ℤ) := by
  obtain ⟨rfl, hbuy | hsell⟩ := h
  · simp [hbuy]
  · simp [hsell]

structure Kept (config : CandleBollingerBandsStrategyConfig) (pre : List Candle)
    (s : CandleBollingerBandsStrategy) : Prop where
  config_eq : s.config = config
  counts : Counts config pre s.candlesAbovePriceTrigger
  awaited : s.lastSignalSide ≠ none → s.candlesAbovePriceTrigger = 0

theorem Counts.fire (h : Counts config pre n) {candlesThreshold : ℤ}
    (hstreak : ∀ side, streak config side (pre ++ [c]) =
      if b.IsTrigger c side then streak config side pre ++ [⟨c, b, none⟩] else []) :
    let result := (latch candlesThreshold).fire n (c, some b)
    Counts config (pre ++ [c]) result.1 ∧ (result.2 ≠ none → result.1 = 0) := by
  simp only [latch]
  split_ifs with hbuy hsell hzero
  · have hsell : ¬ b.IsTrigger c .sell := fun h => by simpa [hbuy.2] using h.2
    refine ⟨⟨?_, .inr ?_⟩, fun h => absurd rfl h⟩
    · rw [hstreak, hstreak, if_pos hbuy, if_neg hsell, h.max_eq]
      simp
    · rw [hstreak, if_neg hsell]
  · refine ⟨⟨?_, .inl ?_⟩, fun h => absurd rfl h⟩
    · rw [hstreak, hstreak, if_neg hbuy, if_pos hsell, h.min_eq]
      simp
      ring
    · rw [hstreak, if_neg hbuy]
  · exact ⟨.of_nil (by rw [hstreak, if_neg hbuy]) (by rw [hstreak, if_neg hsell]),
      fun h => absurd rfl h⟩
  · exact ⟨.of_nil (by rw [hstreak, if_neg hbuy]) (by rw [hstreak, if_neg hsell]), fun _ => rfl⟩

theorem kept_after (config : CandleBollingerBandsStrategyConfig) (pre : List Candle) :
    Kept config pre (after step (new config) pre) := by
  induction pre using List.reverseRecOn with
  | nil => exact ⟨rfl, .of_nil rfl rfl, fun _ => rfl⟩
  | append_singleton pre c ih =>
    rw [after_concat]
    have hnone := @streak_concat_of_none config pre c
    have hsome := @streak_concat_of_some config pre c
    generalize after step (new config) pre = s at ih hnone hsome
    suffices h : Counts config (pre ++ [c]) (s.step c).candlesAbovePriceTrigger ∧
        ((s.step c).lastSignalSide ≠ none → (s.step c).candlesAbovePriceTrigger = 0) from
      ⟨by rw [step, pushCandle_eq, ih.config_eq], h.1, h.2⟩
    rw [step, pushCandle_eq]
    dsimp only
    cases hside : s.lastSignalSide with
    | none =>
      rw [Latch.step_none rfl]
      cases hvalue : s.bollingerBands.valueOf c with
      | none =>
        refine ⟨⟨?_, ?_⟩, fun h => absurd rfl h⟩
        · rw [hnone hvalue, hnone hvalue]
          exact ih.counts.counter
        · rw [hnone hvalue, hnone hvalue]
          exact ih.counts.one_side
      | some b =>
        refine ih.counts.fire fun side => ?_
        rw [hsome hvalue, hside]
        simp
    | some side =>
      rw [Latch.step_some rfl]
      have hzero : s.candlesAbovePriceTrigger = 0 := ih.awaited (by simp [hside])
      refine ⟨?_, fun _ => hzero⟩
      cases hvalue : s.bollingerBands.valueOf c with
      | none =>
        constructor
        · rw [hnone hvalue, hnone hvalue]
          exact ih.counts.counter
        · rw [hnone hvalue, hnone hvalue]
          exact ih.counts.one_side
      | some b =>
        rw [hzero]
        refine .of_nil ?_ ?_ <;> rw [hsome hvalue, hside] <;> rfl

theorem reverseSide_eq_some_iff {candlesThreshold : ℤ} :
    reverseSide candlesThreshold n c = some side ↔
      c.side = side ∧ 0 < n * side.opposite.sign ∧ |n| ≤ candlesThreshold := by
  simp only [reverseSide, not_lt]
  cases side with
  | buy => rw [Side.opposite, Side.sign_sell]; grind
  | sell => rw [Side.opposite, Side.sign_buy]; grind

theorem fire_eq_some_iff {candlesThreshold : ℤ} {value : Option BollingerBandsValue} :
    ((latch candlesThreshold).fire n (c, value)).2 = some side ↔
      c.side = side ∧ (∃ b ∈ value, ¬ b.IsTrigger c side) ∧
        0 < n * side.opposite.sign ∧ |n| ≤ candlesThreshold := by
  cases value with
  | none => simp [latch]
  | some b =>
    simp only [latch, Option.mem_some_iff, exists_eq_left']
    split_ifs with hbuy hsell hzero
    · refine iff_of_false (by simp) ?_
      rintro ⟨rfl, htrigger, -⟩
      rw [hbuy.2] at htrigger
      exact htrigger hbuy
    · refine iff_of_false (by simp) ?_
      rintro ⟨rfl, htrigger, -⟩
      rw [hsell.2] at htrigger
      exact htrigger hsell
    · refine iff_of_false (by simp) ?_
      rintro ⟨-, -, hpos, -⟩
      simp [hzero] at hpos
    · rw [reverseSide_eq_some_iff]
      refine and_congr_right fun _ => (and_iff_right ?_).symm
      cases side with
      | buy => exact hbuy
      | sell => exact hsell

theorem Counts.length_iff (h : Counts config pre n) {candlesThreshold : ℤ} :
    0 < n * side.sign ∧ |n| ≤ candlesThreshold ↔
      0 < (streak config side pre).length ∧
        ((streak config side pre).length : ℤ) ≤ candlesThreshold := by
  obtain ⟨rfl, hbuy | hsell⟩ := h
  · cases side <;> simp [hbuy]
  · cases side <;> simp [hsell]

def sideAt (config : CandleBollingerBandsStrategyConfig) (pre : List Candle) (c : Candle) :
    Option Side :=
  (latch config.candlesThreshold).firedAt stepCandle valueOf 0
    (.new config.interval config.stdDeviationCoefficient) pre c

theorem after_eq (config : CandleBollingerBandsStrategyConfig) (pre : List Candle) :
    let s := after step (new config) pre
    let m := BollingerBands.new config.interval config.stdDeviationCoefficient
    s.bollingerBands = after stepCandle m pre ∧
      (s.lastSignalSide, s.candlesAbovePriceTrigger) =
        after (latch config.candlesThreshold).step (none, 0) (observed stepCandle valueOf m pre) :=
  after_pipeline (I := fun s => s.config = config) bollingerBands
    (fun s => (s.lastSignalSide, s.candlesAbovePriceTrigger))
    (fun s c h => by rw [step, pushCandle_eq]; exact h)
    (fun s c _ => by rw [step, pushCandle_eq])
    (fun s c h => by rw [step, pushCandle_eq, ← h]) rfl

theorem signal_eq (config : CandleBollingerBandsStrategyConfig) (pre : List Candle) (c : Candle) :
    signal config pre c = (sideAt config pre c).map fun side => ⟨side, c.close, c.closeTs⟩ := by
  obtain ⟨hbands, hlatch⟩ := after_eq config pre
  rw [signal, pushCandle_eq, (kept_after config pre).config_eq, hlatch, hbands]
  rfl

theorem signal_eq_some_iff_sideAt {order : EntrySignal} : signal config pre c = some order ↔
    order.price = c.close ∧ order.ts = c.closeTs ∧ sideAt config pre c = some order.side := by
  obtain ⟨side, price, ts⟩ := order
  rw [signal_eq, Option.map_eq_some_iff]
  constructor
  · rintro ⟨side, hside, heq⟩
    cases heq
    exact ⟨rfl, rfl, hside⟩
  · rintro ⟨rfl, rfl, hside⟩
    exact ⟨side, hside, rfl⟩

theorem bandsAt_eq : bandsAt config pre c =
    (after stepCandle (.new config.interval config.stdDeviationCoefficient) pre).valueOf c := by
  rw [bandsAt, valueAt, valueOf, after_stepCandle]

theorem clears_iff : (latch n).clears side (c, bandsAt config pre c) ↔
    ∃ b ∈ bandsAt config pre c, b.Returned c.close side := by
  cases bandsAt config pre c <;> simp [latch]

/--
An order is tried at a candle of its side just if the candle is not outside of the band on that
side, some candles before it in a row, but no more than the threshold, are triggers of the
other side, and each order that was tried before was followed by a close on the other side of the
trend.
-/
theorem signal_iff_after_triggers (config : CandleBollingerBandsStrategyConfig) (pre : List Candle)
    (c : Candle) (order : EntrySignal) :
    let triggers := (streak config order.side.opposite pre).length
    signal config pre c = some order ↔
      order.price = c.close ∧ order.ts = c.closeTs ∧ c.side = order.side ∧
        (∃ b ∈ bandsAt config pre c, ¬ b.Outside c.close order.side.opposite) ∧
        (0 < triggers ∧ triggers ≤ config.candlesThreshold) ∧
        ∀ before c' mid earlier, pre = before ++ c' :: mid →
          signal config before c' = some earlier →
          ∃ mid₁ c'' mid₂, mid = mid₁ ++ c'' :: mid₂ ∧
            ∃ b ∈ bandsAt config (before ++ c' :: mid₁) c'',
              b.Returned c''.close earlier.side := by
  intro triggers
  have hcounts := (kept_after config pre).counts
  have hn : (after step (new config) pre).candlesAbovePriceTrigger = _ :=
    congrArg Prod.snd (after_eq config pre).2
  rw [signal_eq_some_iff_sideAt, sideAt, Latch.firedAt_eq_some_iff, ← hn, fire_eq_some_iff,
    hcounts.length_iff, ← bandsAt_eq, and_assoc, and_assoc]
  refine and_congr_right fun _ => and_congr_right fun _ => and_congr_right fun hside =>
    and_congr ?_ (and_congr_right fun _ => ?_)
  · refine exists_congr fun b => and_congr_right fun _ => not_congr ?_
    rw [isTrigger_iff, and_iff_left hside]
  · constructor
    · intro h before c' mid earlier hpre hearlier
      obtain ⟨mid₁, c'', mid₂, hmid, hclears⟩ :=
        h before c' mid earlier.side hpre (signal_eq_some_iff_sideAt.mp hearlier).2.2
      rw [← bandsAt_eq] at hclears
      exact ⟨mid₁, c'', mid₂, hmid, clears_iff.mp hclears⟩
    · intro h before c' mid side hpre hside
      obtain ⟨mid₁, c'', mid₂, hmid, hreturned⟩ := h before c' mid ⟨side, c'.close, c'.closeTs⟩ hpre
        (signal_eq_some_iff_sideAt.mpr ⟨rfl, rfl, hside⟩)
      refine ⟨mid₁, c'', mid₂, hmid, ?_⟩
      rw [← bandsAt_eq]
      exact clears_iff.mpr hreturned

end CandleBollingerBandsStrategy

end CryptoTrading

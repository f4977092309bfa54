import CryptoTrading.Lib.Latch
import CryptoTrading.Strategy.Base
import CryptoTrading.Ta.BollingerBands

/-! # The Bollinger bands strategy

It trades against a price outside of the bands. After a signal it waits until the price is on the
other side of the trend, whether or not an order was sent.
-/

namespace CryptoTrading

open Runs

namespace BollingerBandsValue

variable (b : BollingerBandsValue) (price : ℚ)

/-- What ends the wait after a signal. -/
def Returned : Side → Prop
  | .buy => b.trend < price
  | .sell => price < b.trend

instance : (side : Side) → Decidable (b.Returned price side)
  | .buy => inferInstanceAs (Decidable (_ < _))
  | .sell => inferInstanceAs (Decidable (_ < _))

def afterSignal (lastSignalSide : Side) : Option Side :=
  if b.Returned price lastSignalSide then none else some lastSignalSide

/-- The price is outside of the bands, where a side trades against it. -/
def Outside : Side → Prop
  | .buy => (price : ℝ) < b.lowerBand
  | .sell => b.upperBand < price

/-- The side that trades, the last one where both do. -/
def outside : Option Side :=
  if b.BelowLower price then some .buy else if b.AboveUpper price then some .sell else none

variable {b price} {side : Side}

theorem not_both_outside (hcoef : 0 ≤ b.stdDeviationCoefficient) :
    ¬ (b.AboveUpper price ∧ b.BelowLower price) := fun h =>
  (h.1.trend_lt hcoef).not_gt (h.2.lt_trend hcoef)

theorem outside_eq_some_iff (hcoef : 0 ≤ b.stdDeviationCoefficient) :
    b.outside price = some side ↔ b.Outside price side := by
  have hboth : ¬ (b.AboveUpper price ∧ b.BelowLower price) := not_both_outside hcoef
  unfold outside
  cases side with
  | buy =>
    rw [Outside, ← belowLower_iff]
    split_ifs <;> simp_all
  | sell =>
    rw [Outside, ← aboveUpper_iff]
    split_ifs <;> simp_all

end BollingerBandsValue

structure BollingerBandsStrategyConfig where
  interval : Milliseconds := 0
  stdDeviationCoefficient : ℚ := 0
  deriving DecidableEq

namespace BollingerBandsStrategyConfig

variable (config : BollingerBandsStrategyConfig)

def IsValid : Prop := 0 < config.interval ∧ 0 < config.stdDeviationCoefficient

instance : Decidable config.IsValid := inferInstanceAs (Decidable (_ ∧ _))

end BollingerBandsStrategyConfig

namespace BollingerBands

variable {m : BollingerBands} {pre : List (Milliseconds × ℚ)} {p : Milliseconds × ℚ}
  {b : BollingerBandsValue} {interval : Milliseconds} {coef : ℚ}

def step (m : BollingerBands) (p : Milliseconds × ℚ) : BollingerBands := (m.pushValue p.1 p.2).1

def value (m : BollingerBands) (p : Milliseconds × ℚ) : Option BollingerBandsValue :=
  (m.pushValue p.1 p.2).2

def valueAt (interval : Milliseconds) (coef : ℚ) (pre : List (Milliseconds × ℚ))
    (p : Milliseconds × ℚ) : Option BollingerBandsValue :=
  (after step (new interval coef) pre).value p

theorem coefficient_after :
    (after step m pre).stdDeviationCoefficient = m.stdDeviationCoefficient := by
  induction pre using List.reverseRecOn with
  | nil => rfl
  | append_singleton pre p ih => rw [after_concat, step, pushValue_fst, ih]

theorem coefficient_of_valueAt (h : valueAt interval coef pre p = some b) :
    b.stdDeviationCoefficient = coef := by
  rw [← (pushValue_snd_eq_some_iff.mp h).2.2, coefficient_after, new]

end BollingerBands

open BollingerBands BollingerBandsValue

/-- The bands of a point, if there are any, say when it fires and what it clears. -/
def bollingerLatch : Latch Unit ((Milliseconds × ℚ) × Option BollingerBandsValue) Side where
  fire _ x := ((), x.2.bind fun b => b.outside x.1.2)
  clears side x := x.2.any fun b => b.Returned x.1.2 side

theorem bollingerLatch_clears_iff {side : Side} {p : Milliseconds × ℚ}
    {value : Option BollingerBandsValue} :
    bollingerLatch.clears side (p, value) ↔ ∃ b ∈ value, b.Returned p.2 side := by
  cases value <;> simp [bollingerLatch]

structure BollingerBandsStrategy where
  bollingerBands : BollingerBands
  lastSignalSide : Option Side := none
  deriving DecidableEq

namespace BollingerBandsStrategy

def new (config : BollingerBandsStrategyConfig) : BollingerBandsStrategy where
  bollingerBands := .new config.interval config.stdDeviationCoefficient

variable (s : BollingerBandsStrategy)

/-- The arguments of `try_send_order`, where it is called. -/
def pushPrice (ts : Milliseconds) (price : ℚ) : BollingerBandsStrategy × List EntrySignal :=
  let (bollingerBands, bbRes) := s.bollingerBands.pushValue ts price
  let s := { s with bollingerBands }
  match bbRes with
  | none => (s, [])
  | some bbRes =>
    match s.lastSignalSide with
    | some lastSignalSide =>
      ({ s with lastSignalSide := bbRes.afterSignal price lastSignalSide }, [])
    | none =>
      let (s, sells) :=
        if bbRes.AboveUpper price then
          ({ s with lastSignalSide := some .sell }, [⟨.sell, price, ts⟩])
        else (s, [])
      let (s, buys) :=
        if bbRes.BelowLower price then
          ({ s with lastSignalSide := some .buy }, [⟨.buy, price, ts⟩])
        else (s, [])
      (s, sells ++ buys)

def step (p : Milliseconds × ℚ) : BollingerBandsStrategy := (s.pushPrice p.1 p.2).1

def signals (config : BollingerBandsStrategyConfig) (pre : List (Milliseconds × ℚ))
    (p : Milliseconds × ℚ) : List EntrySignal :=
  ((after step (new config) pre).pushPrice p.1 p.2).2

variable {s} {config : BollingerBandsStrategyConfig} {pre : List (Milliseconds × ℚ)}
  {p : Milliseconds × ℚ} {signal : EntrySignal}

theorem step_bollingerBands : (s.step p).bollingerBands = s.bollingerBands.step p := by
  simp only [step, pushPrice, BollingerBands.step]
  rcases s.bollingerBands.pushValue p.1 p.2 with ⟨m, _ | b⟩
  · rfl
  · cases s.lastSignalSide with
    | some side => rfl
    | none => dsimp only; split_ifs <;> rfl

theorem step_lastSignalSide : ((s.step p).lastSignalSide, ()) =
    bollingerLatch.step (s.lastSignalSide, ()) (p, s.bollingerBands.value p) := by
  simp only [step, pushPrice, BollingerBands.value]
  rcases s.bollingerBands.pushValue p.1 p.2 with ⟨m, _ | b⟩
  · cases hside : s.lastSignalSide <;> simp [Latch.step, bollingerLatch]
  · cases hside : s.lastSignalSide with
    | some side => simp [Latch.step, bollingerLatch, afterSignal]
    | none =>
      simp only [Latch.step, bollingerLatch, outside, Option.bind_some]
      split_ifs <;> rfl

theorem pushPrice_snd (hcoef : ∀ b ∈ s.bollingerBands.value p, 0 ≤ b.stdDeviationCoefficient) :
    (s.pushPrice p.1 p.2).2 =
      ((bollingerLatch.fired (s.lastSignalSide, ()) (p, s.bollingerBands.value p)).map
        fun side => ⟨side, p.2, p.1⟩).toList := by
  rw [BollingerBands.value] at hcoef ⊢
  simp only [pushPrice]
  rcases hvalue : s.bollingerBands.pushValue p.1 p.2 with ⟨m, _ | b⟩
  · cases s.lastSignalSide <;> rfl
  · have hboth : ¬ (b.AboveUpper p.2 ∧ b.BelowLower p.2) :=
      not_both_outside (hcoef b (by rw [hvalue]; rfl))
    cases s.lastSignalSide with
    | some side => rfl
    | none =>
      simp only [Latch.fired, bollingerLatch, outside, Option.bind_some]
      split_ifs with habove hbelow
      · exact absurd ⟨habove, hbelow⟩ hboth
      · rfl
      · rfl
      · rfl

def sideAt (config : BollingerBandsStrategyConfig) (pre : List (Milliseconds × ℚ))
    (p : Milliseconds × ℚ) : Option Side :=
  bollingerLatch.firedAt BollingerBands.step BollingerBands.value ()
    (.new config.interval config.stdDeviationCoefficient) pre p

theorem parts_after :
    (after step (new config) pre).bollingerBands =
        after BollingerBands.step (.new config.interval config.stdDeviationCoefficient) pre ∧
      ((after step (new config) pre).lastSignalSide, ()) = after bollingerLatch.step (none, ())
        (observed BollingerBands.step BollingerBands.value
          (.new config.interval config.stdDeviationCoefficient) pre) :=
  after_pipeline (I := fun _ => True) bollingerBands (fun s => (s.lastSignalSide, ()))
    (fun _ _ h => h) (fun _ _ _ => step_bollingerBands) (fun _ _ _ => step_lastSignalSide) trivial

theorem mem_signals_iff_sideAt (hvalid : config.IsValid) : signal ∈ signals config pre p ↔
    signal.price = p.2 ∧ signal.ts = p.1 ∧ sideAt config pre p = some signal.side := by
  obtain ⟨hbands, hside⟩ := @parts_after config pre
  have hsignals : signals config pre p =
      ((sideAt config pre p).map fun side => ⟨side, p.2, p.1⟩).toList := by
    rw [signals, pushPrice_snd, hside, hbands]
    · rfl
    · intro b hb
      rw [hbands] at hb
      rw [coefficient_of_valueAt hb]
      exact hvalid.2.le
  obtain ⟨side, price, ts⟩ := signal
  rw [hsignals, Option.mem_toList, Option.map_eq_some_iff]
  constructor
  · rintro ⟨side, hside, heq⟩
    cases heq
    exact ⟨rfl, rfl, hside⟩
  · rintro ⟨rfl, rfl, hside⟩
    exact ⟨side, hside, rfl⟩

theorem fire_eq_some_iff (hvalid : config.IsValid) {side : Side} :
    (bollingerLatch.fire () (p,
        valueAt config.interval config.stdDeviationCoefficient pre p)).2 = some side ↔
      ∃ b ∈ valueAt config.interval config.stdDeviationCoefficient pre p, b.Outside p.2 side := by
  simp only [bollingerLatch, Option.bind_eq_some_iff, Option.mem_def]
  refine exists_congr fun b => and_congr_right fun hb => outside_eq_some_iff ?_
  rw [coefficient_of_valueAt hb]
  exact hvalid.2.le

/--
An order is tried at a point just if the price is outside of the band of its side there, and each
order that was tried before was followed by a price on the other side of the trend.
-/
theorem mem_signals_iff (hvalid : config.IsValid) (pre : List (Milliseconds × ℚ))
    (p : Milliseconds × ℚ) (signal : EntrySignal) :
    let valueAt := valueAt config.interval config.stdDeviationCoefficient
    signal ∈ signals config pre p ↔
      signal.price = p.2 ∧ signal.ts = p.1 ∧
        (∃ b ∈ valueAt pre p, b.Outside p.2 signal.side) ∧
        ∀ before q mid earlier, pre = before ++ q :: mid → earlier ∈ signals config before q →
          ∃ mid₁ r mid₂, mid = mid₁ ++ r :: mid₂ ∧
            ∃ b ∈ valueAt (before ++ q :: mid₁) r, b.Returned r.2 earlier.side := by
  intro valueAt
  rw [mem_signals_iff_sideAt hvalid, sideAt, Latch.firedAt_eq_some_iff]
  refine and_congr_right fun _ => and_congr_right fun _ =>
    and_congr (fire_eq_some_iff hvalid) ?_
  constructor
  · intro h before q mid earlier hpre hearlier
    obtain ⟨mid₁, r, mid₂, hmid, hclears⟩ :=
      h before q mid earlier.side hpre ((mem_signals_iff_sideAt hvalid).mp hearlier).2.2
    exact ⟨mid₁, r, mid₂, hmid, bollingerLatch_clears_iff.mp hclears⟩
  · intro h before q mid side hpre hside
    obtain ⟨mid₁, r, mid₂, hmid, hreturned⟩ := h before q mid ⟨side, q.2, q.1⟩ hpre
      ((mem_signals_iff_sideAt hvalid).mpr ⟨rfl, rfl, hside⟩)
    exact ⟨mid₁, r, mid₂, hmid, bollingerLatch_clears_iff.mpr hreturned⟩

/-- A second sale, after the price has fallen under the trend. -/
theorem mem_signals_iff_second :
    let config : BollingerBandsStrategyConfig := ⟨2000, 1⟩
    let pre : List (Milliseconds × ℚ) :=
      [(0, 10), (1000, 10), (2000, 10), (3000, 13), (4000, 13), (5000, 10)]
    (signals config (pre.take 3) (3000, 13)).length = 1 ∧
      signals config (pre.take 4) (4000, 13) = [] ∧
      ∃ b ∈ valueAt 2000 1 pre (6000, 14), b.Outside 14 .sell := by
  intro config pre
  refine ⟨by decide +kernel, by decide +kernel, ?_⟩
  have hmem : ⟨.sell, 14, 6000⟩ ∈ signals config pre (6000, 14) := by decide +kernel
  exact ((mem_signals_iff (by decide) pre (6000, 14) _).mp hmem).2.2.1

end BollingerBandsStrategy

end CryptoTrading

import CryptoTrading.Strategy.CandleBollingerBands
import CryptoTrading.Ta.RelativeStrengthIndex

/-! # The strategy of Bollinger bands and relative strength

A candle that closes outside of a band in its own direction arms it for the next candle only.
That one trades against the move, if it has turned and the index is beyond its threshold.
-/

namespace CryptoTrading

open Runs BollingerBands BollingerBandsValue

structure BBRSIStrategyConfig where
  timeframe : Milliseconds := 0
  stdDeviationCoefficient : ℚ := 0
  bbInterval : UInt32 := 0
  rsiInterval : UInt32 := 0
  margin : UInt32 := 0
  deriving DecidableEq

namespace BBRSIStrategyConfig

variable (config : BBRSIStrategyConfig)

def IsValid : Prop :=
  0 < config.timeframe ∧ 0 < config.bbInterval ∧ 0 < config.rsiInterval ∧
    0 < config.stdDeviationCoefficient ∧ 0 < config.margin

instance : Decidable config.IsValid := inferInstanceAs (Decidable (_ ∧ _))

def interval : Milliseconds := config.timeframe * config.bbInterval.toNat

/-- It wraps around for a margin over 100. -/
def rsiTopThreshold : UInt32 := 100 - config.margin

def rsiBotThreshold : UInt32 := config.margin

def RsiBeyond (rsi : PriceLevel) : Side → Prop
  | .buy => rsi.Exceeds config.rsiBotThreshold.toNat .sell
  | .sell => rsi.Exceeds config.rsiTopThreshold.toNat .buy

instance (rsi : PriceLevel) : (side : Side) → Decidable (config.RsiBeyond rsi side)
  | .buy => inferInstanceAs (Decidable (PriceLevel.Exceeds ..))
  | .sell => inferInstanceAs (Decidable (PriceLevel.Exceeds ..))

end BBRSIStrategyConfig

structure BBRSIIndicators where
  bollingerBands : BollingerBands
  rsi : RelativeStrengthIndex
  deriving DecidableEq

namespace BBRSIIndicators

def new (config : BBRSIStrategyConfig) : BBRSIIndicators where
  bollingerBands := .new config.interval config.stdDeviationCoefficient
  rsi := .new config.rsiInterval.toNat

def step (m : BBRSIIndicators) (c : Candle) : BBRSIIndicators where
  bollingerBands := m.bollingerBands.stepCandle c
  rsi := m.rsi.step c

def value (m : BBRSIIndicators) (c : Candle) : Option (BollingerBandsValue × PriceLevel) :=
  (m.bollingerBands.valueOf c).bind fun b => (m.rsi.pushCandle c).2.map fun rsi => (b, rsi)

end BBRSIIndicators

structure BBRSIStrategy where
  config : BBRSIStrategyConfig
  indicators : BBRSIIndicators
  lastSignalSide : Option Side := none
  priceInTriggerZoneBb : Bool := false
  deriving DecidableEq

namespace BBRSIStrategy

def new (config : BBRSIStrategyConfig) : BBRSIStrategy where
  config := config
  indicators := .new config

variable (s : BBRSIStrategy)

/-- The side that trades on a candle after a trigger. -/
def reverseSide (config : BBRSIStrategyConfig) (c : Candle) (b : BollingerBandsValue)
    (rsi : PriceLevel) : Option Side :=
  if b.trend < c.close ∧ config.RsiBeyond rsi .sell ∧ c.side = .sell then some .sell
  else if c.close < b.trend ∧ config.RsiBeyond rsi .buy ∧ c.side = .buy then some .buy
  else none

/-- The arguments of `try_send_order`, where it is called. -/
def pushCandle (c : Candle) : BBRSIStrategy × Option EntrySignal :=
  let (rsi, rsiValue) := s.indicators.rsi.pushCandle c
  let (bollingerBands, bbRes) := s.indicators.bollingerBands.pushValue c.closeTs c.close
  let s := { s with indicators := ⟨bollingerBands, rsi⟩ }
  match bbRes with
  | none => (s, none)
  | some bbRes =>
    match rsiValue with
    | none => (s, none)
    | some rsi =>
      match s.lastSignalSide with
      | some lastSignalSide =>
        ({ s with lastSignalSide := bbRes.afterSignal c.close lastSignalSide }, none)
      | none =>
        if bbRes.IsTrigger c .buy then ({ s with priceInTriggerZoneBb := true }, none)
        else if bbRes.IsTrigger c .sell then ({ s with priceInTriggerZoneBb := true }, none)
        -- it's not a trend reverse
        else if ¬ s.priceInTriggerZoneBb then (s, none)
        else
          let side := reverseSide s.config c bbRes rsi
          ({ s with lastSignalSide := side, priceInTriggerZoneBb := false },
            side.map fun side => ⟨side, c.close, c.closeTs⟩)

def step (c : Candle) : BBRSIStrategy := (s.pushCandle c).1

/-- The order that it tries to send at a candle of a run. -/
def signal (config : BBRSIStrategyConfig) (pre : List Candle) (c : Candle) : Option EntrySignal :=
  ((after step (new config) pre).pushCandle c).2

def valueAt (config : BBRSIStrategyConfig) (pre : List Candle) (c : Candle) :
    Option (BollingerBandsValue × PriceLevel) :=
  (after BBRSIIndicators.step (.new config) pre).value c

def watch (c : Candle) : List CandleBollingerBandsStrategy.Watched :=
  (s.indicators.value c).toList.map fun v => ⟨c, v.1, s.lastSignalSide⟩

def watched (config : BBRSIStrategyConfig) (pre : List Candle) :
    List CandleBollingerBandsStrategy.Watched :=
  outputs step watch (new config) pre

/-- The last of these candles is a trigger, and came while no return was awaited. -/
def FollowsTrigger (config : BBRSIStrategyConfig) (pre : List Candle) : Prop :=
  ∃ w ∈ (watched config pre).getLast?, w.awaited = none ∧ ∃ side, w.bands.IsTrigger w.candle side

/-- What the values of a candle do to the flag, and the side that trades then. -/
def latch (config : BBRSIStrategyConfig) :
    Latch Bool (Candle × Option (BollingerBandsValue × PriceLevel)) Side where
  fire zone x :=
    match x.2 with
    | none => (zone, none)
    | some (b, rsi) =>
      if b.IsTrigger x.1 .buy then (true, none)
      else if b.IsTrigger x.1 .sell then (true, none)
      else if ¬ zone then (zone, none)
      else (false, reverseSide config x.1 b rsi)
  clears side x := x.2.any fun v => v.1.Returned x.1.close side

variable {s} {config : BBRSIStrategyConfig} {pre : List Candle} {c : Candle}
  {b : BollingerBandsValue} {rsi : PriceLevel} {side : Side} {zone : Bool}
  {value : Option (BollingerBandsValue × PriceLevel)}

theorem pushCandle_eq : s.pushCandle c =
    let x := (c, s.indicators.value c)
    let next := (latch s.config).step (s.lastSignalSide, s.priceInTriggerZoneBb) x
    ({ s with
        indicators := s.indicators.step c
        lastSignalSide := next.1
        priceInTriggerZoneBb := next.2 },
      ((latch s.config).fired (s.lastSignalSide, s.priceInTriggerZoneBb) x).map
        fun side => ⟨side, c.close, c.closeTs⟩) := by
  simp only [pushCandle, BBRSIIndicators.value, BBRSIIndicators.step, valueOf, stepCandle,
    BollingerBands.value, BollingerBands.step, RelativeStrengthIndex.step, Candle.closePoint]
  rcases s.indicators.rsi.pushCandle c with ⟨rsi, rsiValue⟩
  rcases s.indicators.bollingerBands.pushValue c.closeTs c.close with ⟨bands, _ | b⟩
  · cases s.lastSignalSide <;> simp [Latch.step, Latch.fired, latch]
  · cases rsiValue with
    | none => cases s.lastSignalSide <;> simp [Latch.step, Latch.fired, latch]
    | some rsi =>
      cases s.lastSignalSide with
      | some side => simp [Latch.step, Latch.fired, latch, afterSignal]
      | none =>
        simp only [Latch.step, Latch.fired, latch, Option.bind_some, Option.map_some]
        split_ifs <;> rfl

theorem watched_concat : watched config (pre ++ [c]) =
    watched config pre ++ (after step (new config) pre).watch c := outputs_concat

theorem followsTrigger_concat : FollowsTrigger config (pre ++ [c]) ↔
    match (after step (new config) pre).indicators.value c with
    | none => FollowsTrigger config pre
    | some v =>
      (after step (new config) pre).lastSignalSide = none ∧ ∃ side, v.1.IsTrigger c side := by
  unfold FollowsTrigger
  rw [watched_concat, watch]
  cases (after step (new config) pre).indicators.value c with
  | none => rw [Option.toList_none, List.map_nil, List.append_nil]
  | some v => simp

theorem exists_isTrigger_iff :
    (∃ side, b.IsTrigger c side) ↔ b.IsTrigger c .buy ∨ b.IsTrigger c .sell := by
  constructor
  · rintro ⟨_ | _, h⟩
    · exact .inl h
    · exact .inr h
  · rintro (h | h)
    · exact ⟨_, h⟩
    · exact ⟨_, h⟩

/-- The flag is set just after a trigger, and not while a return is awaited. -/
structure Kept (config : BBRSIStrategyConfig) (pre : List Candle) (s : BBRSIStrategy) : Prop where
  config_eq : s.config = config
  zone_iff : s.priceInTriggerZoneBb ↔ FollowsTrigger config pre
  awaited : s.lastSignalSide ≠ none → s.priceInTriggerZoneBb = false

theorem fire_zone : let result := (latch config).fire zone (c, some (b, rsi))
    (result.1 ↔ ∃ side, b.IsTrigger c side) ∧ (result.2 ≠ none → result.1 = false) := by
  rw [exists_isTrigger_iff]
  simp only [latch]
  split_ifs with hbuy hsell hzone
  · simp [hbuy]
  · simp [hsell]
  · simp [hbuy, hsell]
  · simpa [hbuy, hsell] using hzone

theorem kept_after (config : BBRSIStrategyConfig) (pre : List Candle) :
    Kept config pre (after step (new config) pre) := by
  induction pre using List.reverseRecOn with
  | nil =>
    refine ⟨rfl, iff_of_false Bool.false_ne_true ?_, fun _ => rfl⟩
    rintro ⟨w, hw, -⟩
    cases hw
  | append_singleton pre c ih =>
    obtain ⟨hconfig, hzone, hawaited⟩ := ih
    have hfollows : FollowsTrigger config (pre ++ [c]) ↔ _ := followsTrigger_concat
    rw [after_concat]
    generalize after step (new config) pre = s at hconfig hzone hawaited hfollows
    rw [step, pushCandle_eq]
    have hkeep (next : Option Side × Bool) (hnext : next = (latch s.config).step
          (s.lastSignalSide, s.priceInTriggerZoneBb) (c, s.indicators.value c)) :
        (next.2 ↔ FollowsTrigger config (pre ++ [c])) ∧ (next.1 ≠ none → next.2 = false) := by
      rw [hfollows, hnext]
      cases hside : s.lastSignalSide with
      | none =>
        rw [Latch.step_none rfl]
        cases s.indicators.value c with
        | none => exact ⟨hzone, fun h => absurd rfl h⟩
        | some v =>
          obtain ⟨hset, hunset⟩ := @fire_zone s.config c v.1 v.2 s.priceInTriggerZoneBb
          exact ⟨hset.trans (and_iff_right rfl).symm, hunset⟩
      | some side =>
        have hfalse : s.priceInTriggerZoneBb = false := hawaited (by simp [hside])
        rw [Latch.step_some rfl]
        cases s.indicators.value c with
        | none => exact ⟨hzone, fun _ => hfalse⟩
        | some v => exact ⟨by simp [hfalse], fun _ => hfalse⟩
    obtain ⟨hzone', hawaited'⟩ := hkeep _ rfl
    exact ⟨hconfig, hzone', hawaited'⟩

theorem reverseSide_eq_some_iff : reverseSide config c b rsi = some side ↔
    c.side = side ∧ b.Returned c.close side.opposite ∧ config.RsiBeyond rsi side := by
  unfold reverseSide
  cases side with
  | buy => rw [Side.opposite, Returned]; grind
  | sell => rw [Side.opposite, Returned]; grind

theorem fire_eq_some_iff : ((latch config).fire zone (c, value)).2 = some side ↔
    c.side = side ∧ zone ∧ ∃ v ∈ value, ¬ v.1.IsTrigger c side ∧
      v.1.Returned c.close side.opposite ∧ config.RsiBeyond v.2 side := by
  cases value with
  | none => simp [latch]
  | some v =>
    simp only [latch, Option.mem_some_iff, exists_eq_left']
    split_ifs with hbuy hsell hzone
    · refine iff_of_false (by simp) ?_
      rintro ⟨rfl, -, htrigger, -⟩
      rw [hbuy.2] at htrigger
      exact htrigger hbuy
    · refine iff_of_false (by simp) ?_
      rintro ⟨rfl, -, htrigger, -⟩
      rw [hsell.2] at htrigger
      exact htrigger hsell
    · have htrigger : ¬ v.1.IsTrigger c side := by
        cases side with
        | buy => exact hbuy
        | sell => exact hsell
      rw [reverseSide_eq_some_iff, and_iff_right hzone, and_iff_right htrigger]
    · exact iff_of_false (by simp) fun h => hzone h.2.1

def sideAt (config : BBRSIStrategyConfig) (pre : List Candle) (c : Candle) : Option Side :=
  (latch config).firedAt BBRSIIndicators.step BBRSIIndicators.value false (.new config) pre c

theorem after_eq (config : BBRSIStrategyConfig) (pre : List Candle) :
    let s := after step (new config) pre
    s.indicators = after BBRSIIndicators.step (.new config) pre ∧
      (s.lastSignalSide, s.priceInTriggerZoneBb) = after (latch config).step (none, false)
        (observed BBRSIIndicators.step BBRSIIndicators.value (.new config) pre) :=
  after_pipeline (I := fun s => s.config = config) indicators
    (fun s => (s.lastSignalSide, s.priceInTriggerZoneBb))
    (fun s c h => by rw [step, pushCandle_eq]; exact h)
    (fun s c _ => by rw [step, pushCandle_eq])
    (fun s c h => by rw [step, pushCandle_eq, ← h]) rfl

theorem signal_eq_some_iff_sideAt {order : EntrySignal} : signal config pre c = some order ↔
    order.price = c.close ∧ order.ts = c.closeTs ∧ sideAt config pre c = some order.side := by
  obtain ⟨hindicators, hlatch⟩ := after_eq config pre
  have hsignal : signal config pre c =
      (sideAt config pre c).map fun side => ⟨side, c.close, c.closeTs⟩ := by
    rw [signal, pushCandle_eq, (kept_after config pre).config_eq, hlatch, hindicators]
    rfl
  obtain ⟨side, price, ts⟩ := order
  rw [hsignal, Option.map_eq_some_iff]
  constructor
  · rintro ⟨side, hside, heq⟩
    cases heq
    exact ⟨rfl, rfl, hside⟩
  · rintro ⟨rfl, rfl, hside⟩
    exact ⟨side, hside, rfl⟩

theorem clears_iff : (latch config).clears side (c, value) ↔
    ∃ v ∈ value, v.1.Returned c.close side := by
  cases value <;> simp [latch]

/--
An order is tried at a candle of its side just if the candle follows a trigger, has closed beyond
the trend but not outside of the band on its side, the index is beyond the threshold of its
side, and each order that was tried before was followed by a close on the other side of the trend.
-/
theorem signal_iff_after_trigger (config : BBRSIStrategyConfig) (pre : List Candle) (c : Candle)
    (order : EntrySignal) :
    signal config pre c = some order ↔
      order.price = c.close ∧ order.ts = c.closeTs ∧ c.side = order.side ∧
        FollowsTrigger config pre ∧
        (∃ v ∈ valueAt config pre c, ¬ v.1.Outside c.close order.side.opposite ∧
          v.1.Returned c.close order.side.opposite ∧ config.RsiBeyond v.2 order.side) ∧
        ∀ before c' mid earlier, pre = before ++ c' :: mid →
          signal config before c' = some earlier →
          ∃ mid₁ c'' mid₂, mid = mid₁ ++ c'' :: mid₂ ∧
            ∃ v ∈ valueAt config (before ++ c' :: mid₁) c'',
              v.1.Returned c''.close earlier.side := by
  have hzone := (kept_after config pre).zone_iff
  rw [show (after step (new config) pre).priceInTriggerZoneBb = _ from
    congrArg Prod.snd (after_eq config pre).2] at hzone
  rw [signal_eq_some_iff_sideAt, sideAt, Latch.firedAt_eq_some_iff, fire_eq_some_iff, hzone,
    and_assoc, and_assoc]
  refine and_congr_right fun _ => and_congr_right fun _ => and_congr_right fun hside =>
    and_congr_right fun _ => and_congr ?_ ?_
  · refine exists_congr fun v => and_congr_right fun _ => and_congr_left fun _ => not_congr ?_
    rw [isTrigger_iff, and_iff_left hside]
  · constructor
    · intro h before c' mid earlier hpre hearlier
      obtain ⟨mid₁, c'', mid₂, hmid, hclears⟩ :=
        h before c' mid earlier.side hpre (signal_eq_some_iff_sideAt.mp hearlier).2.2
      exact ⟨mid₁, c'', mid₂, hmid, clears_iff.mp hclears⟩
    · intro h before c' mid side hpre hside
      obtain ⟨mid₁, c'', mid₂, hmid, hreturned⟩ := h before c' mid ⟨side, c'.close, c'.closeTs⟩ hpre
        (signal_eq_some_iff_sideAt.mpr ⟨rfl, rfl, hside⟩)
      exact ⟨mid₁, c'', mid₂, hmid, clears_iff.mpr hreturned⟩

theorem indicators_rsi :
    (after BBRSIIndicators.step (.new config) pre).rsi =
      after RelativeStrengthIndex.step (.new config.rsiInterval.toNat) pre := by
  induction pre using List.reverseRecOn with
  | nil => rfl
  | append_singleton pre c ih => rw [after_concat, after_concat, ← ih, BBRSIIndicators.step]

/-- The index of a run is at most 100, or not a number. -/
theorem not_exceeds_of_valueAt (hinterval : 0 < config.rsiInterval) {q : ℚ} (hq : 100 ≤ q)
    {v : BollingerBandsValue × PriceLevel} (hv : v ∈ valueAt config pre c) :
    ¬ v.2.Exceeds q .buy := by
  have hn : 0 < config.rsiInterval.toNat := UInt32.lt_iff_toNat_lt.mp hinterval
  obtain ⟨b, -, hmap⟩ := Option.bind_eq_some_iff.mp hv
  obtain ⟨rsi, hrsi, rfl⟩ := Option.map_eq_some_iff.mp hmap
  rw [indicators_rsi, RelativeStrengthIndex.kept_after.pushCandle_snd hn] at hrsi
  split_ifs at hrsi
  obtain rfl := Option.some.inj hrsi
  obtain ⟨hpos, hneg⟩ :=
    @RelativeStrengthIndex.averages_nonneg config.rsiInterval.toNat (pre ++ [c])
  generalize RelativeStrengthIndex.averages config.rsiInterval.toNat (pre ++ [c]) = avg at *
  by_cases hmoves : avg.1 = 0 ∧ avg.2 = 0
  · rw [hmoves.1, hmoves.2, RelativeStrengthIndex.rsi_zero]
    exact id
  · obtain ⟨-, hvalue, hrange⟩ :=
      (RelativeStrengthIndex.isIndex_rsi_iff hpos hneg).mpr hmoves
    rw [hvalue]
    exact (hrange.2.trans hq).not_gt

/-- A margin over 100 wraps around, and the strategy never sells then. -/
theorem buys_of_margin (hinterval : 0 < config.rsiInterval) (hmargin : 100 < config.margin)
    (pre : List Candle) (c : Candle) (order : EntrySignal)
    (horder : signal config pre c = some order) : order.side = .buy := by
  cases hside : order.side with
  | buy => rfl
  | sell =>
    obtain ⟨-, -, horder⟩ := signal_eq_some_iff_sideAt.mp horder
    rw [hside, sideAt, Latch.firedAt_eq_some_iff, fire_eq_some_iff] at horder
    obtain ⟨⟨-, -, v, hv, -, -, hbeyond⟩, -⟩ := horder
    have htop : (100 : ℚ) ≤ config.rsiTopThreshold.toNat := by
      have h : 100 ≤ config.rsiTopThreshold.toNat := by
        have hlt : 100 < config.margin.toNat := UInt32.lt_iff_toNat_lt.mp hmargin
        have hmax : config.margin.toNat < 2 ^ 32 := config.margin.toNat_lt
        have htop : (100 : UInt32).toNat = 100 := rfl
        rw [BBRSIStrategyConfig.rsiTopThreshold, UInt32.toNat_sub, htop]
        omega
      exact_mod_cast h
    exact absurd hbeyond (not_exceeds_of_valueAt hinterval htop hv)

/-- A purchase after a fall. -/
theorem buys_of_margin_fall :
    let config : BBRSIStrategyConfig := ⟨1000, 1, 3, 2, 150⟩
    let flat (i : ℤ) : Candle := ⟨1000, i * 1000, 10, 10, 10, 10, 1, 1, 1⟩
    let pre : List Candle := [flat 0, flat 1, flat 2, flat 3, ⟨1000, 4000, 10, 10, 7, 7, 1, 1, 1⟩]
    ∃ order ∈ signal config pre ⟨1000, 5000, 7, 8, 7, 8, 1, 1, 1⟩, order.side = .buy := by
  intro config flat pre
  have horder : signal config pre ⟨1000, 5000, 7, 8, 7, 8, 1, 1, 1⟩ = some ⟨.buy, 8, 6000⟩ := by
    decide +kernel
  exact ⟨_, horder, buys_of_margin (by decide) (by decide) pre _ _ horder⟩

end BBRSIStrategy

end CryptoTrading

import CryptoTrading.MarketData.LiveGateway
import CryptoTrading.Positions.PriceLevels
import CryptoTrading.Strategy.Base
import CryptoTrading.Ta.StandardDeviation
import CryptoTrading.Ta.TimeWeightedMovingAverage

/-! # The volume imbalance strategy

It follows a candle whose volume is mostly on the side of its price change. The change has to
exceed a limit that is not negative, so only rising candles are followed. A candle without volume
has no imbalance, and the gateway gives live trades no volume.
-/

namespace CryptoTrading

open Runs

def PriceLevel.percent : PriceLevel → PriceLevel
  | number value => number (value * 100)
  | infinity side => infinity side
  | nan => nan

namespace Candle

variable (c : Candle)

def volume : ℚ := c.buyTakerVolume + c.sellTakerVolume

def volumeImbalance : SignedVolume := ⟨c.buyTakerVolume - c.sellTakerVolume⟩

structure DisbalanceCoef where
  unsignedCoef : PriceLevel
  side : Side
  deriving DecidableEq

def volumeImbalanceCoef : DisbalanceCoef where
  unsignedCoef := .ofDivision c.volumeImbalance.unsigned.value c.volume
  side := c.volumeImbalance.side

def priceDiffCoef : PriceLevel := .ofDivision (c.close - c.openPrice) c.openPrice

end Candle

structure VolumeImbalanceTrendStrategyConfig where
  timeframe : Milliseconds := 0
  minVolumeImbalancePerc : UInt32
  minPriceChangePerc : UInt32
  minTradeRateThresholdPerc : UInt32 := 0
  maxRelativeVolatilityPerc : ℚ
  lookbackPeriod : Milliseconds := 0
  deriving DecidableEq

structure VolumeImbalanceTrendStrategy where
  config : VolumeImbalanceTrendStrategyConfig
  tradeRateAvg : TimeWeightedMovingAverage
  prevTradeRateAvg : Option ℚ := none
  std : StandardDeviation
  deriving DecidableEq

namespace VolumeImbalanceTrendStrategy

def new (config : VolumeImbalanceTrendStrategyConfig) : VolumeImbalanceTrendStrategy where
  config := config
  tradeRateAvg := .new config.lookbackPeriod
  std := .new config.lookbackPeriod

variable (s : VolumeImbalanceTrendStrategy)

/-- `volatility / mean * 100 < limit`. The quotient by zero is infinite or not a number. -/
def VolatilityOk (volatility : SquareRoot) (mean limit : ℚ) : Prop :=
  mean ≠ 0 ∧ volatility.ScaledLt (100 / mean) limit

instance (volatility : SquareRoot) (mean limit : ℚ) :
    Decidable (VolatilityOk volatility mean limit) := inferInstanceAs (Decidable (_ ∧ _))

/-- The arguments of `try_send_order`, where it is called. -/
def pushCandle (c : Candle) : VolumeImbalanceTrendStrategy × Option EntrySignal :=
  let tradeRate : ℚ := c.tradeCount
  let (tradeRateAvg?, tradeRateAvg) := s.tradeRateAvg.pushValue c.closeTs tradeRate
  let (std, volatility?) := s.std.pushValue c.closeTs c.close
  let s' := { s with tradeRateAvg, prevTradeRateAvg := tradeRateAvg?, std }
  let imbalance := c.volumeImbalanceCoef
  let priceDiffPerc := c.priceDiffCoef.percent
  match volatility?, tradeRateAvg?, s.prevTradeRateAvg with
  | some volatility, some _, some prevTradeRateAvg =>
    let tradeRateLowerLimit :=
      prevTradeRateAvg * s.config.minTradeRateThresholdPerc.toNat / 100
    let volatilityOk := VolatilityOk volatility std.mean s.config.maxRelativeVolatilityPerc
    let tradeRateOk := tradeRateLowerLimit < tradeRate
    let imbalanceTriggered :=
      imbalance.unsignedCoef.percent.Exceeds s.config.minVolumeImbalancePerc.toNat .buy
    let priceDiffOk := priceDiffPerc.Exceeds s.config.minPriceChangePerc.toNat .buy
    let imbalanceAndPriceSidesMatch := imbalance.side.sign = 1 ↔ priceDiffPerc.Reaches 0 .buy
    if ¬ volatilityOk ∨ ¬ tradeRateOk ∨ ¬ imbalanceTriggered ∨ ¬ priceDiffOk ∨
        ¬ imbalanceAndPriceSidesMatch then
      (s', none)
    else (s', some ⟨imbalance.side, c.close, c.closeTs⟩)
  | _, _, _ => (s', none)

def step (c : Candle) : VolumeImbalanceTrendStrategy := (s.pushCandle c).1

def signal (config : VolumeImbalanceTrendStrategyConfig) (pre : List Candle) (c : Candle) :
    Option EntrySignal :=
  ((after step (new config) pre).pushCandle c).2

end VolumeImbalanceTrendStrategy

namespace PriceLevel

variable {l : PriceLevel} {q : ℚ}

theorem reaches_zero_of_percent_exceeds (hq : 0 ≤ q) (h : l.percent.Exceeds q .buy) :
    l.percent.Reaches 0 .buy := by
  cases l with
  | number value =>
    have hlt : q < value * 100 := h
    exact hq.trans hlt.le
  | infinity side => exact h
  | nan => exact h

theorem ne_zero_of_percent_exceeds {a b : ℚ} (hq : 0 ≤ q)
    (h : (ofDivision a b).percent.Exceeds q .buy) : a ≠ 0 := by
  rintro rfl
  by_cases hb : b = 0
  · have hnan : ofDivision 0 b = nan := by simp [ofDivision, hb]
    rw [hnan] at h
    exact h
  · have hzero : ofDivision 0 b = number 0 := by simp [ofDivision, hb]
    rw [hzero] at h
    have hlt : q < 0 * 100 := h
    rw [zero_mul] at hlt
    exact hlt.not_ge hq

end PriceLevel

namespace CandleBuilder

/-- Nothing is counted as bought before a purchase, and no volume is negative. -/
structure Counts (bought : Prop) (buyTakerVolume sellTakerVolume : ℚ) : Prop where
  sells_nonneg : 0 ≤ sellTakerVolume
  bought_of_pos : 0 < buyTakerVolume → bought

variable {b b' : CandleBuilder} {bought : Prop} {t : PublicTrade} {ts : List PublicTrade}
  {candles : List Candle}

theorem counts_pushTrade (h : Counts bought b.buyTakerVolume b.sellTakerVolume)
    (ht : 0 < t.volume.value → bought) (hpush : b.pushTrade t = some (b', candles)) :
    Counts bought b'.buyTakerVolume b'.sellTakerVolume ∧
      ∀ c ∈ candles, Counts bought c.buyTakerVolume c.sellTakerVolume := by
  have hsells : 0 ≤ sells t.volume := by
    rw [sells_eq]
    exact le_max_right _ _
  have hbuys : 0 < buys t.volume → bought := by
    rw [buys_eq, lt_max_iff, or_iff_left (lt_irrefl _)]
    exact ht
  have hinit (start : Milliseconds) : Counts bought (b.initCandle t start).buyTakerVolume
      (b.initCandle t start).sellTakerVolume := ⟨hsells, hbuys⟩
  unfold pushTrade at hpush
  dsimp only at hpush
  split_ifs at hpush
  · cases hpush
    refine ⟨⟨add_nonneg h.sells_nonneg hsells, fun hpos => ?_⟩, by simp⟩
    by_contra hnot
    have hb : b.buyTakerVolume ≤ 0 := not_lt.mp (mt h.bought_of_pos hnot)
    have ht' : buys t.volume ≤ 0 := not_lt.mp (mt hbuys hnot)
    exact hpos.not_ge (add_nonpos hb ht')
  · obtain ⟨flats, hflats, heq⟩ := Option.map_eq_some_iff.mp hpush
    cases heq
    refine ⟨hinit _, List.forall_mem_cons.mpr ⟨h, fun c hc => ?_⟩⟩
    rw [emptyCandles, intLoop_eq (by decide)] at hflats
    split_ifs at hflats
    cases hflats
    obtain ⟨i, -, rfl⟩ := List.mem_map.mp hc
    exact ⟨le_rfl, fun hpos => absurd hpos (lt_irrefl _)⟩
  · cases hpush
    exact ⟨hinit _, by simp⟩

/-- The candles of some trades count nothing as bought, unless one of the trades is a purchase. -/
theorem counts_pushTrades (h : Counts bought b.buyTakerVolume b.sellTakerVolume)
    (hts : ∀ t ∈ ts, 0 < t.volume.value → bought) (hpush : b.pushTrades ts = some (b', candles)) :
    ∀ c ∈ candles, Counts bought c.buyTakerVolume c.sellTakerVolume := by
  induction ts generalizing b candles with
  | nil =>
    cases hpush
    simp
  | cons t ts ih =>
    obtain ⟨⟨b₁, candles₁⟩, hpush₁, hrest⟩ := Option.bind_eq_some_iff.mp hpush
    obtain ⟨⟨b₂, candles₂⟩, hpush₂, heq⟩ := Option.bind_eq_some_iff.mp hrest
    cases heq
    obtain ⟨hb₁, hcandles₁⟩ := counts_pushTrade h (hts t List.mem_cons_self) hpush₁
    have hcandles₂ := ih hb₁ (fun t ht => hts t (List.mem_cons_of_mem _ ht)) hpush₂
    exact List.forall_mem_append.mpr ⟨hcandles₁, hcandles₂⟩

end CandleBuilder

namespace VolumeImbalanceTrendStrategy

variable {s : VolumeImbalanceTrendStrategy} {config : VolumeImbalanceTrendStrategyConfig}
  {c : Candle} {order : EntrySignal}

theorem buys_of_pushCandle (h : (s.pushCandle c).2 = some order) :
    order.side = .buy ∧ c.sellTakerVolume < c.buyTakerVolume := by
  simp only [pushCandle] at h
  split at h
  case h_2 => cases h
  case h_1 =>
    split_ifs at h with hnot
    push Not at hnot
    obtain ⟨-, -, htriggered, hdiff, hmatch⟩ := hnot
    cases h
    have hside : c.volumeImbalanceCoef.side = .buy := by
      have hsign := hmatch.mpr
        (PriceLevel.reaches_zero_of_percent_exceeds (Nat.cast_nonneg _) hdiff)
      cases hside : c.volumeImbalanceCoef.side with
      | buy => rfl
      | sell => rw [hside] at hsign; cases hsign
    have hne := PriceLevel.ne_zero_of_percent_exceeds (Nat.cast_nonneg _) htriggered
    refine ⟨hside, ?_⟩
    rw [SignedVolume.value_unsigned, abs_ne_zero, Candle.volumeImbalance, sub_ne_zero] at hne
    by_contra hle
    have hneg : c.volumeImbalance.value < 0 := sub_neg.mpr ((not_lt.mp hle).lt_of_ne hne)
    rw [Candle.volumeImbalanceCoef, SignedVolume.side_of_neg hneg] at hside
    cases hside

theorem bought_of_signal {timeframe : Milliseconds} {trades : List PublicTrade}
    {built : CandleBuilder × List Candle} {pre : List Candle}
    (hbuilt : built ∈ (CandleBuilder.new timeframe).pushTrades trades)
    (hpre : pre ++ [c] <+: built.2) (h : signal config pre c = some order) :
    ∃ t ∈ trades, 0 < t.volume.value := by
  have hmem : c ∈ built.2 := hpre.subset (List.mem_append_right _ List.mem_cons_self)
  have hnew : CandleBuilder.Counts (∃ t ∈ trades, 0 < t.volume.value) 0 0 :=
    ⟨le_rfl, fun hpos => absurd hpos (lt_irrefl _)⟩
  have hcounts :=
    CandleBuilder.counts_pushTrades hnew (fun t ht hpos => ⟨t, ht, hpos⟩) hbuilt c hmem
  exact hcounts.bought_of_pos (hcounts.sells_nonneg.trans_lt (buys_of_pushCandle h).2)

/--
Whatever trades the candles of a run are built of, each order that the strategy tries is a
purchase on a candle with more bought than sold, and comes after a trade whose taker has bought.
-/
theorem buys_after_purchase (config : VolumeImbalanceTrendStrategyConfig)
    (timeframe : Milliseconds) (trades : List PublicTrade) :
    ∀ built ∈ (CandleBuilder.new timeframe).pushTrades trades, ∀ pre c, pre ++ [c] <+: built.2 →
      ∀ order ∈ signal config pre c,
        order.side = .buy ∧ c.sellTakerVolume < c.buyTakerVolume ∧
          ∃ t ∈ trades, 0 < t.volume.value := by
  intro built hbuilt pre c hpre order horder
  obtain ⟨hside, hlt⟩ := buys_of_pushCandle horder
  exact ⟨hside, hlt, bought_of_signal hbuilt hpre horder⟩

/-- A purchase on the third candle. -/
theorem buys_after_purchase_third :
    let config : VolumeImbalanceTrendStrategyConfig := ⟨1000, 40, 1, 100, 50, 1000⟩
    let trades : List PublicTrade := [⟨1000, 10, ⟨1⟩⟩, ⟨2000, 10, ⟨-1⟩⟩, ⟨3000, 10, ⟨1⟩⟩,
      ⟨3500, 12, ⟨5⟩⟩, ⟨4000, 12, ⟨1⟩⟩]
    let candles : List Candle := [⟨1000, 1000, 10, 10, 10, 10, 1, 0, 1⟩,
      ⟨1000, 2000, 10, 10, 10, 10, 0, 1, 1⟩, ⟨1000, 3000, 10, 12, 10, 12, 6, 0, 2⟩]
    ∃ built ∈ (CandleBuilder.new 1000).pushTrades trades, built.2 = candles ∧
      ∃ order ∈ signal config (candles.take 2) ⟨1000, 3000, 10, 12, 10, 12, 6, 0, 2⟩,
        order.side = .buy := by
  intro config trades candles
  obtain ⟨built, hbuilt⟩ : ∃ built, (CandleBuilder.new 1000).pushTrades trades = some built :=
    Option.isSome_iff_exists.mp (by decide +kernel)
  have hcandles : built.2 = candles := by
    have h : ((CandleBuilder.new 1000).pushTrades trades).map Prod.snd = some candles := by
      decide +kernel
    rw [hbuilt] at h
    exact Option.some.inj h
  have horder : signal config (candles.take 2) ⟨1000, 3000, 10, 12, 10, 12, 6, 0, 2⟩ =
      some ⟨.buy, 12, 4000⟩ := by decide +kernel
  have hpre : candles.take 2 ++ [⟨1000, 3000, 10, 12, 10, 12, 6, 0, 2⟩] <+: built.2 := by
    rw [hcandles]
    exact List.prefix_rfl
  exact ⟨built, hbuilt, hcandles, _, horder,
    (buys_after_purchase config 1000 trades built hbuilt _ _ hpre _ horder).1⟩

/-- On live trades, in any number of messages, the strategy never tries an order. -/
theorem no_order_on_live_trades (config : VolumeImbalanceTrendStrategyConfig)
    (timeframe : Milliseconds) (messages : List (List ByBitPublicTrade)) :
    ∀ built ∈ (CandleBuilder.new timeframe).pushTrades (messages.flatMap onPriceReceived),
      ∀ pre c, pre ++ [c] <+: built.2 → signal config pre c = none := by
  intro built hbuilt pre c hpre
  rw [Option.eq_none_iff_forall_ne_some]
  intro order horder
  obtain ⟨t, ht, hpos⟩ := bought_of_signal hbuilt hpre horder
  obtain ⟨trades, -, ht⟩ := List.mem_flatMap.mp ht
  obtain ⟨trade, -, rfl⟩ := List.mem_map.mp ht
  exact absurd hpos (lt_irrefl 0)

/-- The same candles of live trades. -/
theorem no_order_on_live_trades_third :
    let config : VolumeImbalanceTrendStrategyConfig := ⟨1000, 40, 1, 100, 50, 1000⟩
    let trade (ts : Milliseconds) (price volume : ℚ) : ByBitPublicTrade :=
      ⟨ts, "BTCUSDT", price, volume, .buy⟩
    let messages := [[trade 1000 10 1, trade 2000 10 1], [trade 3000 10 1, trade 3500 12 5],
      [trade 4000 12 1]]
    let candles : List Candle := [⟨1000, 1000, 10, 10, 10, 10, 0, 0, 1⟩,
      ⟨1000, 2000, 10, 10, 10, 10, 0, 0, 1⟩, ⟨1000, 3000, 10, 12, 10, 12, 0, 0, 2⟩]
    ((CandleBuilder.new 1000).pushTrades (messages.flatMap onPriceReceived)).map Prod.snd =
        some candles ∧
      signal config (candles.take 2) ⟨1000, 3000, 10, 12, 10, 12, 0, 0, 2⟩ = none := by
  intro config trade messages candles
  have hcandles : ((CandleBuilder.new 1000).pushTrades (messages.flatMap onPriceReceived)).map
      Prod.snd = some candles := by decide +kernel
  obtain ⟨built, hbuilt, hsnd⟩ := Option.map_eq_some_iff.mp hcandles
  refine ⟨hcandles, no_order_on_live_trades config 1000 messages built hbuilt _ _ ?_⟩
  rw [hsnd]
  exact List.prefix_rfl

end VolumeImbalanceTrendStrategy

end CryptoTrading

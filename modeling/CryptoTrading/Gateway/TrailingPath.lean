import CryptoTrading.Gateway.TrailingStop
import CryptoTrading.Lib.Runs

/-! # The path of a trailing stop

On any path of prices the stop of a position is at its distance from the extreme price so
far, until a price is beyond it. The gateway may have other exits of the position and
conditional orders, as long as they leave the position on its side.
-/

namespace CryptoTrading

open Runs

namespace Side

/-- The stop after these prices: below the highest one for a long, above the lowest one for a
short position. -/
def trailedStop (side : Side) (distance p₀ : ℚ) (prices : List ℚ) : ℚ :=
  match side with
  | .buy => prices.foldl max p₀ - distance
  | .sell => prices.foldl min p₀ + distance

/-- The first price is strictly worse for a position on this side than the second one. -/
def Beyond (side : Side) (price stop : ℚ) : Prop :=
  match side with
  | .buy => price < stop
  | .sell => stop < price

instance (side : Side) (price stop : ℚ) : Decidable (side.Beyond price stop) := by
  cases side <;> unfold Beyond <;> infer_instance

theorem beyond_iff {side : Side} {price stop : ℚ} :
    side.Beyond price stop ↔ price * (side.sign : ℚ) < stop * (side.sign : ℚ) := by
  cases side <;> simp [Beyond]

def follower (side : Side) (distance p₀ : ℚ) (prices : List ℚ) : Follower ℚ :=
  (prices.map (· * (side.sign : ℚ))).foldl .follow ⟨p₀ * (side.sign : ℚ), distance⟩

variable {side : Side} {distance p₀ price : ℚ} {prices : List ℚ}

theorem follower_concat : side.follower distance p₀ (prices ++ [price]) =
    (side.follower distance p₀ prices).follow (price * (side.sign : ℚ)) := by
  simp [follower]

theorem foldl_max_neg : (prices.map (· * (-1))).foldl max (p₀ * (-1)) =
    prices.foldl min p₀ * (-1) := by
  induction prices generalizing p₀ with
  | nil => rfl
  | cons price prices ih =>
    rw [List.map_cons, List.foldl_cons, List.foldl_cons, ← ih]
    congr 1
    rw [mul_neg_one, mul_neg_one, mul_neg_one, max_neg_neg]

theorem distance_follower : (side.follower distance p₀ prices).distance = distance := by
  rw [follower, Follower.foldl_follow]

theorem level_follower : (side.follower distance p₀ prices).level =
    side.trailedStop distance p₀ prices * (side.sign : ℚ) := by
  rw [follower, Follower.foldl_follow, Follower.level]
  cases side with
  | buy => simp [trailedStop]
  | sell =>
    simp only [trailedStop, sign_sell, Int.cast_neg, Int.cast_one, foldl_max_neg]
    ring

end Side

/-- The stop that the prices since its request have left. -/
def TrailingStopLoss.stopAfter (tsl : TrailingStopLoss) (side : Side) (p₀ : ℚ) (prices : List ℚ) :
    StopLoss where
  symbolName := tsl.symbolName
  stopPrice := side.trailedStop tsl.priceDistance p₀ prices
  side := side.opposite

def TrailingStopLoss.improvement (tsl : TrailingStopLoss) (side : Side) (p₀ : ℚ)
    (prices : List ℚ) (x : Milliseconds × ℚ) : List TrailingStopLossUpdatedEvent :=
  let stop := tsl.stopAfter side p₀ prices
  let stop' := tsl.stopAfter side p₀ (prices ++ [x.2])
  if side.Beyond stop.stopPrice stop'.stopPrice then [⟨tsl.symbolName, some stop', x.1, none⟩]
  else []

def TrailingStopLoss.improvements (tsl : TrailingStopLoss) (side : Side) (p₀ : ℚ)
    (xs : List (Milliseconds × ℚ)) : List TrailingStopLossUpdatedEvent :=
  outputs (fun prices x => prices ++ [x.2]) (tsl.improvement side p₀) [] xs

/-- No price is beyond the stop that the prices before it have left. -/
def TrailingStopLoss.HoldsOn (tsl : TrailingStopLoss) (side : Side) (p₀ : ℚ)
    (xs : List (Milliseconds × ℚ)) : Prop :=
  Meets (fun prices x => prices ++ [x.2])
    (fun prices x => ¬ side.Beyond x.2 (tsl.stopAfter side p₀ prices).stopPrice) [] xs

instance (tsl : TrailingStopLoss) (side : Side) (p₀ : ℚ) (xs : List (Milliseconds × ℚ)) :
    Decidable (tsl.HoldsOn side p₀ xs) := by
  unfold TrailingStopLoss.HoldsOn
  infer_instance

def GatewayEvent.trailingStop? : GatewayEvent → Option TrailingStopLossUpdatedEvent
  | trailingStopUpdated r => some r
  | _ => none

namespace BacktestTradingGateway

variable (g : BacktestTradingGateway)

def tick (x : Milliseconds × ℚ) : BacktestTradingGateway := (g.onNewPrice x.1 x.2).1

def beforeTrailingStop (x : Milliseconds × ℚ) : BacktestTradingGateway :=
  ((g.setPrice x.1 x.2).checkTpsl x.1 x.2).1

def trailingEvents (x : Milliseconds × ℚ) : List GatewayEvent :=
  ((g.beforeTrailingStop x).checkTrailingStop x.1 x.2).2

def stopUpdates (x : Milliseconds × ℚ) : List TrailingStopLossUpdatedEvent :=
  (g.onNewPrice x.1 x.2).2.filterMap GatewayEvent.trailingStop?

def conditionalEvents (x : Milliseconds × ℚ) : List GatewayEvent :=
  ((g.beforeConditionals x.1 x.2).1.tryTriggerConditionals x.1 x.2).2

/-- The trailing stop, if there is one, finds a position on this side. -/
def KeepsSide (side : Side) (g : BacktestTradingGateway) (x : Milliseconds × ℚ) : Prop :=
  g.trailingStop.isSome → ¬ (g.beforeTrailingStop x).posVolume.IsZero ∧
    (g.beforeTrailingStop x).posVolume.side = side

instance (side : Side) (g : BacktestTradingGateway) (x : Milliseconds × ℚ) :
    Decidable (KeepsSide side g x) := inferInstanceAs (Decidable (_ → _))

variable {g} {x : Milliseconds × ℚ} {tsl : TrailingStopLoss} {side : Side} {p₀ : ℚ}
  {prices : List ℚ}

theorem onNewPrice_events : (g.onNewPrice x.1 x.2).2 =
    ((g.setPrice x.1 x.2).checkTpsl x.1 x.2).2 ++ g.trailingEvents x ++ g.conditionalEvents x :=
  rfl

theorem stopUpdates_eq :
    g.stopUpdates x = (g.trailingEvents x).filterMap GatewayEvent.trailingStop? := by
  have htpsl : ((g.setPrice x.1 x.2).checkTpsl x.1 x.2).2.filterMap GatewayEvent.trailingStop? =
      [] := by
    unfold checkTpsl
    split <;> rfl
  have htrigger (g : BacktestTradingGateway) (takeProfit : Bool) (o : ConditionalMarketOrder) :
      (g.trigger x.1 x.2 takeProfit o).filterMap GatewayEvent.trailingStop? = [] := by
    cases takeProfit <;> rfl
  have hconditionals : (g.conditionalEvents x).filterMap GatewayEvent.trailingStop? = [] := by
    simp [conditionalEvents, tryTriggerConditionals, List.filterMap_flatMap, htrigger]
  rw [stopUpdates, onNewPrice_events, List.filterMap_append, List.filterMap_append, htpsl,
    hconditionals, List.nil_append, List.append_nil]

theorem tick_trailingStop : (g.tick x).trailingStop =
    ((g.beforeTrailingStop x).checkTrailingStop x.1 x.2).1.trailingStop := rfl

theorem checkTpsl_of_position (h : ¬ (g.beforeTrailingStop x).posVolume.IsZero) :
    (g.setPrice x.1 x.2).checkTpsl x.1 x.2 = (g.setPrice x.1 x.2, []) := by
  unfold beforeTrailingStop checkTpsl at h
  unfold checkTpsl
  split at h
  · exact absurd SignedVolume.isZero_zero h
  · rfl

def Trails (g : BacktestTradingGateway) (tsl : TrailingStopLoss) (side : Side) (p₀ : ℚ)
    (prices : List ℚ) : Prop :=
  g.trailingStop = some ⟨tsl.stopAfter side p₀ prices, tsl⟩

theorem follows_stopAfter (hside : tsl.side = side.opposite) (p₀ : ℚ) (prices : List ℚ) :
    BacktestTrailingStopLoss.Follows ⟨tsl.stopAfter side p₀ prices, tsl⟩ side
      (side.follower tsl.priceDistance p₀ prices) :=
  ⟨Side.distance_follower.symm, hside, Side.level_follower.symm⟩

/-- A price improves the stop just when the trailing stop calculates a new one. -/
theorem calcNewStopLoss_stopAfter (hside : tsl.side = side.opposite) (p₀ : ℚ) (prices : List ℚ)
    (price : ℚ) :
    tsl.calcNewStopLoss price (some (tsl.stopAfter side p₀ prices)) =
      if side.Beyond (tsl.stopAfter side p₀ prices).stopPrice
          (tsl.stopAfter side p₀ (prices ++ [price])).stopPrice then
        some (tsl.stopAfter side p₀ (prices ++ [price]))
      else none := by
  have hcalc :=
    BacktestTrailingStopLoss.calcNewStopLoss_eq (follows_stopAfter hside p₀ prices) price
  have hbeyond : side.Beyond (tsl.stopAfter side p₀ prices).stopPrice
      (tsl.stopAfter side p₀ (prices ++ [price])).stopPrice ↔
        (side.follower tsl.priceDistance p₀ prices).level < price * (side.sign : ℚ) -
          (side.follower tsl.priceDistance p₀ prices).distance := by
    rw [Side.beyond_iff, ← Follower.level_lt_follow_iff, ← Side.follower_concat,
      Side.level_follower, Side.level_follower]
    rfl
  rw [hcalc]
  by_cases hpull : side.Beyond (tsl.stopAfter side p₀ prices).stopPrice
      (tsl.stopAfter side p₀ (prices ++ [price])).stopPrice
  · have hlevel : side.trailedStop tsl.priceDistance p₀ (prices ++ [price]) * (side.sign : ℚ) =
        price * (side.sign : ℚ) - tsl.priceDistance := by
      rw [← Side.level_follower, Side.follower_concat,
        Follower.level_follow_of_lt (hbeyond.mp hpull), Side.distance_follower]
    have hstop : price + tsl.priceDistance * (tsl.side.sign : ℚ) =
        side.trailedStop tsl.priceDistance p₀ (prices ++ [price]) := by
      rw [hside, Side.sign_opposite]
      push_cast
      linear_combination (-(side.sign : ℚ)) * hlevel +
        (side.trailedStop tsl.priceDistance p₀ (prices ++ [price]) - price) *
          side.sign_mul_self_rat
    rw [if_pos hpull, if_pos (hbeyond.mp hpull), hstop, hside]
    rfl
  · rw [if_neg hpull, if_neg fun hlt => hpull (hbeyond.mpr hlt)]

theorem beforeTrailingStop_trailingStop :
    (g.beforeTrailingStop x).trailingStop = g.trailingStop := by
  unfold beforeTrailingStop checkTpsl
  split <;> rfl

theorem stopAfter_concat {price : ℚ}
    (h : ¬ side.Beyond (tsl.stopAfter side p₀ prices).stopPrice
      (tsl.stopAfter side p₀ (prices ++ [price])).stopPrice) :
    tsl.stopAfter side p₀ (prices ++ [price]) = tsl.stopAfter side p₀ prices := by
  have hle : (tsl.stopAfter side p₀ prices).stopPrice * (side.sign : ℚ) =
      (tsl.stopAfter side p₀ (prices ++ [price])).stopPrice * (side.sign : ℚ) := by
    apply le_antisymm
    · have hlevel : (side.follower tsl.priceDistance p₀ prices).level ≤
          ((side.follower tsl.priceDistance p₀ prices).follow (price * (side.sign : ℚ))).level :=
        Follower.level_le_follow
      rw [← Side.follower_concat, Side.level_follower, Side.level_follower] at hlevel
      exact hlevel
    · rwa [Side.beyond_iff, not_lt] at h
  have hsign : (side.sign : ℚ) ≠ 0 := left_ne_zero_of_mul_eq_one side.sign_mul_self_rat
  have hprice := mul_right_cancel₀ hsign hle
  simp only [TrailingStopLoss.stopAfter] at hprice ⊢
  rw [hprice]

theorem triggered_iff {b : BacktestTrailingStopLoss} {price : ℚ} :
    b.triggered side price ↔ side.Beyond price b.currentStopLoss.stopPrice := by
  cases side <;> rfl

theorem Trails.tick_of_holds (h : g.Trails tsl side p₀ prices) (hside : tsl.side = side.opposite)
    (hkeep : KeepsSide side g x)
    (hholds : ¬ side.Beyond x.2 (tsl.stopAfter side p₀ prices).stopPrice) :
    (g.tick x).Trails tsl side p₀ (prices ++ [x.2]) ∧
      g.stopUpdates x = tsl.improvement side p₀ prices x := by
  obtain ⟨hpos, hposSide⟩ := hkeep (by rw [h]; rfl)
  have hstop : (g.beforeTrailingStop x).trailingStop = some ⟨tsl.stopAfter side p₀ prices, tsl⟩ :=
    beforeTrailingStop_trailingStop.trans h
  have hcalc := calcNewStopLoss_stopAfter hside p₀ prices x.2
  rw [stopUpdates_eq, Trails, tick_trailingStop, trailingEvents, TrailingStopLoss.improvement]
  by_cases himproved : side.Beyond (tsl.stopAfter side p₀ prices).stopPrice
      (tsl.stopAfter side p₀ (prices ++ [x.2])).stopPrice
  · rw [if_pos himproved] at hcalc
    have hpull : BacktestTrailingStopLoss.onPriceUpdated ⟨tsl.stopAfter side p₀ prices, tsl⟩
        (g.beforeTrailingStop x).posVolume x.1 x.2 = _ :=
      BacktestTrailingStopLoss.onPriceUpdated_pulled hcalc
    rw [if_pos himproved]
    simp only [checkTrailingStop, hstop, hpull, true_and]
    rfl
  · rw [if_neg himproved] at hcalc
    have hidle : BacktestTrailingStopLoss.onPriceUpdated ⟨tsl.stopAfter side p₀ prices, tsl⟩
        (g.beforeTrailingStop x).posVolume x.1 x.2 = _ :=
      BacktestTrailingStopLoss.onPriceUpdated_idle hcalc (by rwa [hposSide, triggered_iff])
    rw [if_neg himproved, stopAfter_concat himproved]
    simp only [checkTrailingStop, hstop, hidle, true_and]
    rfl

/-- The whole position is closed at this price, and the trailing stop is gone. -/
structure ClosesAt (g : BacktestTradingGateway) (x : Milliseconds × ℚ) (tsl : TrailingStopLoss)
    (side : Side) (price : ℚ) : Prop where
  events : ∃ trade : Trade, (g.onNewPrice x.1 x.2).2 =
      .trade trade :: .trailingStopUpdated ⟨tsl.symbolName, none, x.1, none⟩ ::
        g.conditionalEvents x ∧
    trade.orderGuid = tsl.guid ∧ trade.price = price ∧
    trade.unsignedVolume = g.posVolume.unsigned ∧ trade.side = side.opposite
  flat : (g.beforeConditionals x.1 x.2).1.posVolume = .zero
  removed : (g.tick x).trailingStop = none

theorem not_improved_of_beyond (hdistance : 0 < tsl.priceDistance) {price : ℚ}
    (h : side.Beyond price (tsl.stopAfter side p₀ prices).stopPrice) :
    ¬ side.Beyond (tsl.stopAfter side p₀ prices).stopPrice
      (tsl.stopAfter side p₀ (prices ++ [price])).stopPrice := by
  have hlevel : (side.follower tsl.priceDistance p₀ prices).level =
      (tsl.stopAfter side p₀ prices).stopPrice * (side.sign : ℚ) := Side.level_follower
  have hlevel' : ((side.follower tsl.priceDistance p₀ prices).follow
      (price * (side.sign : ℚ))).level =
      (tsl.stopAfter side p₀ (prices ++ [price])).stopPrice * (side.sign : ℚ) := by
    rw [← Side.follower_concat]
    exact Side.level_follower
  rw [Side.beyond_iff, ← hlevel] at h ⊢
  rw [← hlevel', Follower.level_lt_follow_iff, Side.distance_follower, not_lt]
  linarith

theorem checkTrailingStop_closed {b : BacktestTrailingStopLoss} (ts : Milliseconds) {price : ℚ}
    (hb : g.trailingStop = some b)
    (hcalc : b.trailingStop.calcNewStopLoss price (some b.currentStopLoss) = none)
    (htriggered : b.triggered g.posVolume.side price) :
    ∃ trade : Trade, g.checkTrailingStop ts price = (g.closed,
        [.trade trade, .trailingStopUpdated ⟨b.trailingStop.symbolName, none, ts, none⟩]) ∧
      trade.orderGuid = b.trailingStop.guid ∧ trade.price = b.currentStopLoss.stopPrice ∧
      trade.unsignedVolume = g.posVolume.unsigned ∧ trade.side = g.posVolume.side.opposite := by
  have htrade := BacktestTrailingStopLoss.onPriceUpdated_closed ts hcalc htriggered
  rw [checkTrailingStop, hb]
  simp only [htrade]
  exact ⟨_, rfl, rfl, rfl, rfl, rfl⟩

theorem Trails.closesAt (h : g.Trails tsl side p₀ prices) (hside : tsl.side = side.opposite)
    (hdistance : 0 < tsl.priceDistance) (hkeep : KeepsSide side g x)
    (hcross : side.Beyond x.2 (tsl.stopAfter side p₀ prices).stopPrice) :
    g.ClosesAt x tsl side (tsl.stopAfter side p₀ prices).stopPrice := by
  obtain ⟨hpos, hposSide⟩ := hkeep (by rw [h]; rfl)
  have hstop : (g.beforeTrailingStop x).trailingStop = some ⟨tsl.stopAfter side p₀ prices, tsl⟩ :=
    beforeTrailingStop_trailingStop.trans h
  have hcalc := calcNewStopLoss_stopAfter hside p₀ prices x.2
  rw [if_neg (not_improved_of_beyond hdistance hcross)] at hcalc
  have htpsl := checkTpsl_of_position hpos
  have hbefore : g.beforeTrailingStop x = g.setPrice x.1 x.2 := congrArg Prod.fst htpsl
  rw [hbefore] at hposSide hstop
  obtain ⟨trade, hcheck, hguid, hprice, hvolume, htradeSide⟩ :=
    checkTrailingStop_closed x.1 hstop hcalc (by rwa [hposSide, triggered_iff])
  constructor
  · refine ⟨trade, ?_, hguid, hprice, hvolume, hposSide ▸ htradeSide⟩
    rw [onNewPrice_events, htpsl, trailingEvents, hbefore, hcheck]
    rfl
  · rw [beforeConditionals, htpsl]
    simp only [hcheck]
    rfl
  · rw [tick_trailingStop, hbefore, hcheck]
    rfl

theorem tick_of_none (h : g.trailingStop = none) :
    (g.tick x).trailingStop = none ∧ g.trailingEvents x = [] := by
  have hnone : (g.beforeTrailingStop x).trailingStop = none :=
    beforeTrailingStop_trailingStop.trans h
  rw [tick_trailingStop, trailingEvents, checkTrailingStop, hnone]
  exact ⟨hnone, rfl⟩

theorem outputs_of_none (h : g.trailingStop = none) (xs : List (Milliseconds × ℚ)) :
    outputs tick trailingEvents g xs = [] ∧ outputs tick stopUpdates g xs = [] := by
  induction xs generalizing g with
  | nil => exact ⟨rfl, rfl⟩
  | cons x xs ih =>
    obtain ⟨hnone, hevents⟩ := tick_of_none (x := x) h
    rw [outputs, outputs, (ih hnone).1, (ih hnone).2, stopUpdates_eq, hevents]
    exact ⟨rfl, rfl⟩

theorem trails_pushTrailingStopRequest (g : BacktestTradingGateway)
    (ev : TrailingStopLossRequestEvent) (hside : ev.trailingStopLoss.side = side.opposite) :
    (g.pushTrailingStopRequest ev).1.Trails ev.trailingStopLoss side g.lastPrice [] := by
  have hstop : (⟨ev.trailingStopLoss.symbolName,
      g.lastPrice + ev.trailingStopLoss.priceDistance * (ev.trailingStopLoss.side.sign : ℚ),
      ev.trailingStopLoss.side⟩ : StopLoss) =
        ev.trailingStopLoss.stopAfter side g.lastPrice [] := by
    rw [hside]
    cases side with
    | buy => simp [TrailingStopLoss.stopAfter, Side.trailedStop, Side.opposite, sub_eq_add_neg]
    | sell => simp [TrailingStopLoss.stopAfter, Side.trailedStop, Side.opposite]
  have hnew : (g.pushTrailingStopRequest ev).1.trailingStop = some ⟨_, ev.trailingStopLoss⟩ := rfl
  rw [Trails, hnew]
  exact congrArg (fun stop => some (⟨stop, ev.trailingStopLoss⟩ : BacktestTrailingStopLoss)) hstop

theorem after_prices (prices : List ℚ) (xs : List (Milliseconds × ℚ)) :
    after (fun prices x => prices ++ [x.2]) prices xs = prices ++ xs.map Prod.snd := by
  induction xs generalizing prices with
  | nil => simp
  | cons x xs ih => simp [ih]

/-- While no price is beyond it, the stop follows the extreme price and tells of its
improvements. -/
theorem Trails.run {xs : List (Milliseconds × ℚ)} (h : g.Trails tsl side p₀ [])
    (hside : tsl.side = side.opposite) (hkeep : Meets tick (KeepsSide side) g xs)
    (hholds : tsl.HoldsOn side p₀ xs) :
    (after tick g xs).Trails tsl side p₀ (xs.map Prod.snd) ∧
      outputs tick stopUpdates g xs = tsl.improvements side p₀ xs := by
  induction xs using List.reverseRecOn with
  | nil => exact ⟨h, rfl⟩
  | append_singleton xs x ih =>
    rw [TrailingStopLoss.HoldsOn, meets_concat, after_prices, List.nil_append] at hholds
    obtain ⟨hkeep, hx⟩ := meets_concat.mp hkeep
    obtain ⟨harmed, hupdates⟩ := ih hkeep hholds.1
    obtain ⟨harmed', hupdates'⟩ := harmed.tick_of_holds hside hx hholds.2
    constructor
    · rw [after_concat, List.map_append]
      exact harmed'
    · rw [outputs_concat, hupdates, hupdates', TrailingStopLoss.improvements,
        TrailingStopLoss.improvements, outputs_concat, after_prices, List.nil_append]

/--
From its request on, and while the position stays on its side, the stop is at its distance
from the extreme price and each strict improvement is told, until the first price beyond it.
That price closes the whole position at the stop, and nothing comes from the stop any more.
-/
theorem trailing_path (g : BacktestTradingGateway) (ev : TrailingStopLossRequestEvent)
    (side : Side) (xs : List (Milliseconds × ℚ))
    (hside : ev.trailingStopLoss.side = side.opposite)
    (hdistance : 0 < ev.trailingStopLoss.priceDistance)
    (hkeep : Meets tick (KeepsSide side) (g.pushTrailingStopRequest ev).1 xs) :
    let tsl := ev.trailingStopLoss
    let armed := (g.pushTrailingStopRequest ev).1
    let stop (pre : List (Milliseconds × ℚ)) :=
      tsl.stopAfter side g.lastPrice (pre.map Prod.snd)
    (∀ pre, pre <+: xs → tsl.HoldsOn side g.lastPrice pre →
      (after tick armed pre).trailingStop = some ⟨stop pre, tsl⟩ ∧
        outputs tick stopUpdates armed pre = tsl.improvements side g.lastPrice pre) ∧
      ∀ pre x post, xs = pre ++ x :: post → tsl.HoldsOn side g.lastPrice pre →
        side.Beyond x.2 (stop pre).stopPrice →
        (after tick armed pre).ClosesAt x tsl side (stop pre).stopPrice ∧
          outputs tick trailingEvents (after tick armed (pre ++ [x])) post = [] ∧
          outputs tick stopUpdates (after tick armed (pre ++ [x])) post = [] := by
  intro tsl armed stop
  have harmed : armed.Trails tsl side g.lastPrice [] := trails_pushTrailingStopRequest g ev hside
  constructor
  · intro pre hpre hholds
    exact harmed.run hside (hkeep.of_prefix hpre) hholds
  · rintro pre x post rfl hholds hcross
    obtain ⟨hkeepPre, hx, -⟩ := meets_append.mp hkeep
    have hclose := (harmed.run hside hkeepPre hholds).1.closesAt hside hdistance hx hcross
    refine ⟨hclose, outputs_of_none ?_ post⟩
    rw [after_concat]
    exact hclose.removed

/-- A long position of 2: the stop follows the price up to 120 and closes at 110. -/
theorem trailing_path_long :
    let g : BacktestTradingGateway := { BacktestTradingGateway.init with
      lastPrice := 100
      posVolume := ⟨2⟩ }
    let tsl : TrailingStopLoss :=
      { guid := 7, symbolName := "BTCUSDT", priceDistance := 10, side := .sell }
    let armed := (g.pushTrailingStopRequest ⟨⟨"BTCUSDT", ⟨1, 100, 1⟩⟩, tsl⟩).1
    let pre : List (Milliseconds × ℚ) := [(1, 95), (2, 120), (3, 110)]
    tsl.HoldsOn .buy 100 pre ∧ Side.buy.trailedStop 10 100 (pre.map Prod.snd) = 110 ∧
      outputs tick stopUpdates armed pre = [⟨"BTCUSDT", some ⟨"BTCUSDT", 110, .sell⟩, 2, none⟩] ∧
      (after tick armed pre).ClosesAt (4, 105) tsl .buy 110 := by
  intro g tsl armed pre
  have hpath := trailing_path g ⟨⟨"BTCUSDT", ⟨1, 100, 1⟩⟩, tsl⟩ .buy (pre ++ [(4, 105)]) rfl
    (by decide +kernel) (by decide +kernel)
  have hholds : tsl.HoldsOn .buy 100 pre := by decide +kernel
  have hstop : Side.buy.trailedStop 10 100 (pre.map Prod.snd) = 110 := by decide +kernel
  refine ⟨hholds, hstop, ?_, ?_⟩
  · rw [(hpath.1 pre (List.prefix_append _ _) hholds).2]
    decide +kernel
  · rw [← hstop]
    exact (hpath.2 pre (4, 105) [] rfl hholds (by decide +kernel)).1

end BacktestTradingGateway

end CryptoTrading

import CryptoTrading.Engine.OrderManager
import CryptoTrading.Strategy.DynamicGrid

/-! # The static grid strategy

The levels of the grid lie around the middle of the close prices of the previous interval.
An interval is handed over by the first candle past its end. The strategy that inherits says
when entries are banned.
-/

namespace CryptoTrading

def doubleMax : ℚ := (2 ^ 53 - 1) * 2 ^ 971

structure StaticGridWithBanStrategyConfig where
  timeframe : Milliseconds
  interval : ℕ
  levelWidthPerc : ℚ
  deriving DecidableEq

def StaticGridWithBanStrategyConfig.intervalLength (c : StaticGridWithBanStrategyConfig) :
    Milliseconds := c.interval * c.timeframe

structure Limits where
  maxPrice : ℚ := 0
  minPrice : ℚ := doubleMax
  deriving DecidableEq

namespace Limits

variable (l : Limits)

def midPrice : ℚ := l.minPrice + (l.maxPrice - l.minPrice) / 2

def updatePrices (price : ℚ) : Limits where
  minPrice := min l.minPrice price
  maxPrice := max l.maxPrice price

def Outside (price : ℚ) : Prop := price < l.minPrice ∨ l.maxPrice < price

instance (price : ℚ) : Decidable (l.Outside price) := inferInstanceAs (Decidable (_ ∨ _))

end Limits

namespace StaticGridWithBanStrategyConfig

variable (c : StaticGridWithBanStrategyConfig) (limits : Limits)

/-! The strategy's functions of the levels; the limits are its previous ones. -/

def levelWidthInCurrency : ℚ := limits.midPrice / 100 * c.levelWidthPerc

def getLevelNumber (price : ℚ) : ℤ :=
  GridLevels.getLevelNumber price limits.midPrice (c.levelWidthInCurrency limits)

def getPriceFromLevelNumber (levelNum : ℤ) : ℚ :=
  GridLevels.getPriceFromLevelNumber levelNum limits.midPrice (c.levelWidthInCurrency limits)

def calcTpSlPrices (orderPrice : ℚ) (side : Side) : TpSlPrices :=
  let currentLevel := c.getLevelNumber limits orderPrice
  let tpLevel := currentLevel + side.sign
  { takeProfitPrice := c.getPriceFromLevelNumber limits tpLevel
    -- top of the last level
    stopLossPrice :=
      match side with
      | .buy => limits.minPrice - c.levelWidthInCurrency limits
      | .sell => limits.maxPrice + c.levelWidthInCurrency limits }

end StaticGridWithBanStrategyConfig

structure StaticGridWithBan where
  lastOutOfBoundsPriceTs : Milliseconds := 0
  currentIntervalStartTs : Milliseconds := 0
  config : StaticGridWithBanStrategyConfig
  previousLimits : Option Limits := none
  nextLimits : Limits := {}
  ordersByLevels : AList fun _ : ℤ => Level := ∅

namespace StaticGridWithBan

open DynamicGridStrategy (posCurrencyAmount entrySide)

def init (config : StaticGridWithBanStrategyConfig) : StaticGridWithBan := { config }

variable (s : StaticGridWithBan)

def intervalEnd : Milliseconds := s.currentIntervalStartTs + s.config.intervalLength

def tryIntervalHandover (ts : Milliseconds) : StaticGridWithBan :=
  if ts < s.intervalEnd then s
  else
    { s with
      currentIntervalStartTs := ts
      previousLimits := some s.nextLimits
      nextLimits := {} }

/-- The first candle starts the first interval. -/
def startInterval (ts : Milliseconds) : StaticGridWithBan :=
  if s.currentIntervalStartTs = 0 then { s with currentIntervalStartTs := ts } else s

/-- The first part of `push_candle`. -/
def enterInterval (ts : Milliseconds) : StaticGridWithBan :=
  (s.startInterval ts).tryIntervalHandover ts

def HandsOver (ts : Milliseconds) : Prop := (s.startInterval ts).intervalEnd ≤ ts

instance (ts : Milliseconds) : Decidable (s.HandsOver ts) := inferInstanceAs (Decidable (_ ≤ _))

/-- Where the order manager throws no level is added. -/
def pushCandle (isBanned : StaticGridWithBan → Milliseconds → Candle → Bool) (om : OrderManager)
    (ts : Milliseconds) (candle : Candle) :
    StaticGridWithBan × OrderManager × List OrderManagerOutput :=
  let s := s.enterInterval ts
  let newBannedState := isBanned s ts candle
  let price := candle.close
  let s := { s with nextLimits := s.nextLimits.updatePrices price }
  match s.previousLimits with
  | none => (s, om, [])
  | some limits =>
    let priceLevel := s.config.getLevelNumber limits price
    if priceLevel = 0 then (s, om, [])
    else if limits.Outside price then ({ s with lastOutOfBoundsPriceTs := ts }, om, [])
    else if newBannedState then (s, om, [])
    else if priceLevel ∈ s.ordersByLevels then (s, om, [])
    else
      match UnsignedVolume.from? (posCurrencyAmount / price) with
      | none => (s, om, [])
      | some defaultSize =>
        match om.sendMarketOrder price (.ofUnsigned defaultSize (entrySide priceLevel)) ts with
        | (om, out, none) => (s, om, out)
        | (om, out, some guid) =>
          ({ s with
            ordersByLevels := s.ordersByLevels.insert priceLevel
              { levelNum := priceLevel, marketOrder := guid } }, om, out)

def isBanned : Bool :=
  let laterThanStart := s.currentIntervalStartTs < s.lastOutOfBoundsPriceTs
  let beforeEnd := s.lastOutOfBoundsPriceTs < s.intervalEnd
  laterThanStart && beforeEnd

variable {s} {ban : StaticGridWithBan → Milliseconds → Candle → Bool} {om : OrderManager}
  {ts : Milliseconds} {candle : Candle} {limits : Limits}

theorem enterInterval_of_handsOver (h : s.HandsOver ts) :
    s.enterInterval ts =
      { s.startInterval ts with
        currentIntervalStartTs := ts
        previousLimits := some (s.startInterval ts).nextLimits
        nextLimits := {} } := if_neg (not_lt.mpr h)

theorem enterInterval_of_not_handsOver (h : ¬ s.HandsOver ts) :
    s.enterInterval ts = s.startInterval ts := if_pos (not_le.mp h)

structure Enters (s s' : StaticGridWithBan) (ts : Milliseconds) (price : ℚ) : Prop where
  start : s'.currentIntervalStartTs = (s.enterInterval ts).currentIntervalStartTs
  config : s'.config = (s.enterInterval ts).config
  previous : s'.previousLimits = (s.enterInterval ts).previousLimits
  next : s'.nextLimits = (s.enterInterval ts).nextLimits.updatePrices price

theorem pushCandle_enters (s : StaticGridWithBan)
    (ban : StaticGridWithBan → Milliseconds → Candle → Bool) (om : OrderManager)
    (ts : Milliseconds) (candle : Candle) :
    s.Enters (s.pushCandle ban om ts candle).1 ts candle.close := by
  unfold pushCandle
  simp only
  split
  · exact ⟨rfl, rfl, rfl, rfl⟩
  · split_ifs
    all_goals try exact ⟨rfl, rfl, rfl, rfl⟩
    split
    · exact ⟨rfl, rfl, rfl, rfl⟩
    · split <;> exact ⟨rfl, rfl, rfl, rfl⟩

theorem lastOutOfBoundsPriceTs_pushCandle (s : StaticGridWithBan)
    (ban : StaticGridWithBan → Milliseconds → Candle → Bool) (om : OrderManager)
    (candle : Candle) (h : (s.enterInterval ts).previousLimits = some limits) :
    (s.pushCandle ban om ts candle).1.lastOutOfBoundsPriceTs =
      if (s.enterInterval ts).config.getLevelNumber limits candle.close ≠ 0 ∧
          limits.Outside candle.close then ts
      else (s.enterInterval ts).lastOutOfBoundsPriceTs := by
  unfold pushCandle
  simp only [h]
  by_cases hzero : (s.enterInterval ts).config.getLevelNumber limits candle.close = 0
  · rw [if_pos hzero, if_neg fun hboth => hboth.1 hzero]
  · rw [if_neg hzero]
    by_cases hout : limits.Outside candle.close
    · rw [if_pos hout, if_pos ⟨hzero, hout⟩]
    · have hnot : ¬ ((s.enterInterval ts).config.getLevelNumber limits candle.close ≠ 0 ∧
          limits.Outside candle.close) := fun hboth => hout hboth.2
      rw [if_neg hout, if_neg hnot]
      split_ifs
      · rfl
      · rfl
      · split
        · rfl
        · split <;> rfl

theorem pushCandle_out (s : StaticGridWithBan)
    (ban : StaticGridWithBan → Milliseconds → Candle → Bool) (om : OrderManager)
    (ts : Milliseconds) (candle : Candle) :
    (s.pushCandle ban om ts candle).2.2 = [] ∨
      ∃ limits ∈ (s.enterInterval ts).previousLimits, ∃ level size,
        (s.enterInterval ts).config.getLevelNumber limits candle.close = level ∧ level ≠ 0 ∧
        ¬ limits.Outside candle.close ∧ ban (s.enterInterval ts) ts candle = false ∧
        (s.pushCandle ban om ts candle).2.2 =
          (om.sendMarketOrder candle.close (.ofUnsigned size (entrySide level)) ts).2.1 := by
  unfold pushCandle
  cases hprevious : (s.enterInterval ts).previousLimits with
  | none => exact .inl (by simp only [hprevious])
  | some limits =>
    simp only [hprevious]
    split_ifs with hzero hout hban hmem
    · exact .inl rfl
    · exact .inl rfl
    · exact .inl rfl
    · exact .inl rfl
    · cases UnsignedVolume.from? (posCurrencyAmount / candle.close) with
      | none => exact .inl rfl
      | some size =>
        right
        refine ⟨limits, rfl, _, size, rfl, hzero, hout, Bool.eq_false_of_not_eq_true hban, ?_⟩
        dsimp only
        rcases om.sendMarketOrder candle.close (.ofUnsigned size (entrySide
          ((s.enterInterval ts).config.getLevelNumber limits candle.close))) ts with
          ⟨om', out, _ | guid⟩
        · rfl
        · rfl

end StaticGridWithBan

end CryptoTrading

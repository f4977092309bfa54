import CryptoTrading.Gateway.Ledger

/-! # The fees of the gateway's trades

A market order is charged for the price at which it trades. The exits and the conditional
orders trade at their own price, but they are charged for the price that triggers them.
-/

namespace CryptoTrading

open Runs

/-- The fee is the rate of what was traded. -/
def Trade.ChargedAtRate (t : Trade) : Prop :=
  t.fee = takerFeeRate * t.price * t.unsignedVolume.value

instance (t : Trade) : Decidable t.ChargedAtRate := inferInstanceAs (Decidable (_ = _))

theorem takerFeeRate_ne_zero : takerFeeRate ≠ 0 := by norm_num [takerFeeRate]

theorem charged_iff {volume charged price : ℚ} :
    volume * charged * takerFeeRate = takerFeeRate * price * volume ↔
      volume = 0 ∨ price = charged := by
  constructor
  · intro h
    by_contra hne
    push Not at hne
    exact hne.2 (mul_left_cancel₀ (mul_ne_zero takerFeeRate_ne_zero hne.1) (by linarith))
  · rintro (rfl | rfl) <;> ring

theorem SignedVolume.mul_sign (v : SignedVolume) : v.value * (v.sign : ℚ) = |v.value| := by
  unfold sign
  rcases lt_trichotomy v.value 0 with h | h | h
  · simp [h, abs_of_neg h]
  · simp [h]
  · simp [h, h.not_gt, abs_of_pos h]

namespace BacktestTradingGateway

variable {g : BacktestTradingGateway} {price : ℚ} {ts : Milliseconds}

/-- Where the price triggers the take profit or stop loss, the exit is at this price. -/
def TpslAtPrice (g : BacktestTradingGateway) (price : ℚ) : Prop :=
  ∀ tpsl ∈ g.tpsl, ∀ exit ∈ tpslTradePrice tpsl g.posVolume.side price,
    g.posVolume.IsZero ∨ exit = price

/-- The conditional orders that trigger at the price are for this price. -/
def ConditionalsAtPrice (g : BacktestTradingGateway) (price : ℚ) : Prop :=
  ∀ kind, ∀ o ∈ g.triggered kind price, o.targetVolume.value = 0 ∨ o.triggerPrice = price

/-- What triggers in the call trades at the price that triggers it, or without volume. A price
that crosses a trailing stop is never the stop's. -/
def TradesAtPrice (g : BacktestTradingGateway) : GatewayCall → Prop
  | .newPrice _ price =>
    g.TpslAtPrice price ∧
    (g.TrailingStopHit price → g.TpslHit price ∨ g.posVolume.IsZero) ∧
    g.ConditionalsAtPrice price
  | .request (.stopLoss o) =>
    { g with stopLosses := g.stopLosses ++ [o] }.ConditionalsAtPrice g.lastPrice
  | .request (.takeProfit o) =>
    { g with takeProfits := g.takeProfits ++ [o] }.ConditionalsAtPrice g.lastPrice
  | _ => True

def AllCharged (es : List GatewayEvent) : Prop :=
  ∀ t ∈ es.filterMap GatewayEvent.trade?, t.ChargedAtRate

theorem allCharged_append {es es' : List GatewayEvent} :
    AllCharged (es ++ es') ↔ AllCharged es ∧ AllCharged es' := by
  simp [AllCharged, or_imp, forall_and]

theorem checkTpsl_charged (ts : Milliseconds) :
    AllCharged (g.checkTpsl ts price).2 ↔ g.TpslAtPrice price := by
  unfold AllCharged checkTpsl tryTradeTpsl TpslAtPrice
  cases g.tpsl with
  | none => simp
  | some tpsl =>
    cases hexit : tpslTradePrice tpsl g.posVolume.side price with
    | none => simp [hexit]
    | some exit =>
      simp [hexit, Trade.ChargedAtRate, charged_iff, SignedVolume.isZero_iff]

theorem checkTrailingStop_charged (ts : Milliseconds) :
    AllCharged (g.checkTrailingStop ts price).2 ↔
      (g.TrailingStopHit price → g.posVolume.IsZero) := by
  by_cases hit : g.TrailingStopHit price
  · obtain ⟨t, ht, hn, htr⟩ := hit
    have ht := Option.mem_def.mp ht
    have hne : t.currentStopLoss.stopPrice ≠ price := by
      cases hside : g.posVolume.side with
      | buy => rw [hside] at htr; exact ne_of_gt htr
      | sell => rw [hside] at htr; exact ne_of_lt htr
    have hcharged (v : SignedVolume) : v.value * price * (v.sign : ℚ) * takerFeeRate =
        takerFeeRate * t.currentStopLoss.stopPrice * |v.value| ↔ v.IsZero := by
      rw [mul_right_comm v.value, v.mul_sign, charged_iff, or_iff_left hne, abs_eq_zero,
        SignedVolume.isZero_iff]
    have hhit : g.TrailingStopHit price := ⟨t, ht, hn, htr⟩
    unfold AllCharged checkTrailingStop
    simp [ht, BacktestTrailingStopLoss.onPriceUpdated, hn, htr, Trade.ChargedAtRate, hcharged,
      hhit]
  · have hnone := (checkTrailingStop_of_not_hit ts hit).1
    simp [AllCharged, hnone, hit]

theorem tryTriggerConditionals_charged (ts : Milliseconds) :
    AllCharged (g.tryTriggerConditionals ts price).2 ↔ g.ConditionalsAtPrice price := by
  unfold AllCharged ConditionalsAtPrice
  rw [tryTriggerConditionals_trades, ConditionalType.forall_iff]
  simp [conditionalTrade, Trade.ChargedAtRate, charged_iff, or_imp, forall_and]

theorem conditionalsAtPrice_congr {g g' : BacktestTradingGateway}
    (hsl : g'.stopLosses = g.stopLosses) (htp : g'.takeProfits = g.takeProfits) :
    g'.ConditionalsAtPrice price ↔ g.ConditionalsAtPrice price := by
  simp only [ConditionalsAtPrice, ConditionalType.forall_iff, triggered, pending, hsl, htp]

theorem onNewPrice_charged (ts : Milliseconds) :
    AllCharged (g.onNewPrice ts price).2 ↔ g.TradesAtPrice (.newPrice ts price) := by
  have hconditionals : (g.beforeConditionals ts price).1.ConditionalsAtPrice price ↔
      g.ConditionalsAtPrice price :=
    conditionalsAtPrice_congr beforeConditionals_stopLosses beforeConditionals_takeProfits
  simp only [onNewPrice, TradesAtPrice, allCharged_append, tryTriggerConditionals_charged]
  rw [hconditionals, ← and_assoc]
  apply and_congr_left'
  simp only [beforeConditionals, allCharged_append, checkTpsl_charged, checkTrailingStop_charged]
  apply and_congr_right'
  by_cases hit : g.TpslHit price
  · have hzero := (checkTpsl_of_hit (g := g.setPrice ts price) ts hit).1
    simp [hzero, hit]
  · have hnot : ¬ (g.setPrice ts price).TpslHit price := hit
    rw [checkTpsl_of_not_hit hnot, or_iff_right hit]
    rfl

/-- The trades of a call are charged for their price just when it trades at the price that
triggers it. -/
theorem trades_charged_iff (g : BacktestTradingGateway) (c : GatewayCall) :
    (∀ t ∈ g.trades c, t.ChargedAtRate) ↔ g.TradesAtPrice c := by
  cases c with
  | newPrice ts price => exact onNewPrice_charged ts
  | request r =>
    cases r with
    | order o =>
      refine iff_of_true ?_ trivial
      unfold trades handle pushRequest pushOrderRequest
      cases g.tpsl with
      | none =>
        simp [Trade.ChargedAtRate]
        ring
      | some tpsl =>
        dsimp only
        split <;>
        · simp [Trade.ChargedAtRate]
          ring
    | tpsl ev =>
      refine iff_of_true ?_ trivial
      rw [trades_of_volume_none rfl]
      simp
    | trailingStop ev =>
      refine iff_of_true ?_ trivial
      rw [trades_of_volume_none rfl]
      simp
    | takeProfit o =>
      simp only [trades, handle, pushRequest, pushTakeProfitRequest, TradesAtPrice,
        ← tryTriggerConditionals_charged o.signalTs]
      simp [AllCharged]
    | stopLoss o =>
      simp only [trades, handle, pushRequest, pushStopLossRequest, TradesAtPrice,
        ← tryTriggerConditionals_charged o.signalTs]
      simp [AllCharged]
    | cancelStopLoss guid =>
      refine iff_of_true ?_ trivial
      rw [trades_of_volume_none rfl]
      simp
    | cancelTakeProfit guid =>
      refine iff_of_true ?_ trivial
      rw [trades_of_volume_none rfl]
      simp

/--
All trades of a run are charged for their price just when in each of its calls the exits and
the conditional orders trade at the price that triggers them, or without volume.
-/
theorem fees_of_executions_iff (cs : List GatewayCall) :
    (∀ t ∈ outputs step trades init cs,
      t.fee = takerFeeRate * t.price * t.unsignedVolume.value) ↔
      Meets step TradesAtPrice init cs :=
  forall_outputs_iff.trans (meets_congr trades_charged_iff)

/-- A price of 140 closes a position at its take profit of 130. -/
theorem fee_of_price_gap :
    let buy : MarketOrder := .ofSigned 1 "BTCUSDT" 100 ⟨1⟩ 1
    let tpsl : TpslRequestEvent := ⟨⟨"BTCUSDT", ⟨1, 100, 1⟩⟩, 130, 50, 2⟩
    let cs := [.newPrice 1 100, .request (.order buy), .request (.tpsl tpsl), .newPrice 2 140]
    let exit : Trade := ⟨2, "BTCUSDT", 2, 130, ⟨1, zero_le_one⟩, .sell, 140 / 1000⟩
    exit ∈ outputs step trades init cs ∧
      exit.fee ≠ takerFeeRate * exit.price * exit.unsignedVolume.value := by
  decide +kernel

end BacktestTradingGateway

end CryptoTrading

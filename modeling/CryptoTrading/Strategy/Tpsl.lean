import CryptoTrading.Engine.OrderManager
import CryptoTrading.Positions.Closing

/-! # The exit strategy with take profit and stop loss

The prices are set off from the entry price by the fees of the entry and the exit, so that
what a position makes or loses after its fees is a share of its worth at the entry.
-/

namespace CryptoTrading

open Runs

structure TpslExitStrategyConfig where
  risk : ℚ := 1
  riskRewardRatio : ℚ := 1
  deriving DecidableEq

/-- The trade that closes the position of the entry at this price, for the same fee. -/
def Trade.closedAt (entry : Trade) (ts : Milliseconds) (guid : Guid) (price : ℚ) : Trade :=
  { entry with
    ts
    orderGuid := guid
    price
    side := entry.side.opposite }

theorem Trade.value_closedAt (entry : Trade) (ts : Milliseconds) (guid : Guid) (price : ℚ) :
    (entry.closedAt ts guid price).signedVolume.value = -entry.signedVolume.value := by
  rw [value_signedVolume, value_signedVolume]
  cases hside : entry.side <;> simp [closedAt, hside, Side.opposite]

def PositionManager.closedResult (m : PositionManager) (entry : Trade) (ts : Milliseconds)
    (guid : Guid) (price : ℚ) : Option PositionResult :=
  ((m.step entry).onTradeReceived (entry.closedAt ts guid price)).2

namespace TpslExitStrategyConfig

def IsValid (c : TpslExitStrategyConfig) : Prop := 0 < c.risk ∧ c.risk < 1 ∧ 0 < c.riskRewardRatio

instance (c : TpslExitStrategyConfig) : Decidable c.IsValid :=
  inferInstanceAs (Decidable (_ ∧ _ ∧ _))

/-- The prices for a trade that has volume. -/
def calcTpsl (c : TpslExitStrategyConfig) (trade : Trade) : TpslPrices :=
  let entryPrice := trade.price
  let totalFee := trade.fee * 2
  let feePriceDelta := totalFee / trade.unsignedVolume.value
  let risk := entryPrice * c.risk
  let profit := entryPrice * (c.risk / c.riskRewardRatio)
  match trade.side with
  | .buy =>
    { takeProfitPrice := entryPrice + profit + feePriceDelta
      stopLossPrice := entryPrice - risk + feePriceDelta }
  | .sell =>
    { stopLossPrice := entryPrice + risk - feePriceDelta
      takeProfitPrice := entryPrice - profit - feePriceDelta }

variable {c : TpslExitStrategyConfig} {entry : Trade}

theorem takeProfit_sub (hv : entry.unsignedVolume.value ≠ 0) :
    ((c.calcTpsl entry).takeProfitPrice - entry.price) * entry.signedVolume.value =
      entry.price * entry.unsignedVolume.value * (c.risk / c.riskRewardRatio) +
        2 * entry.fee := by
  rw [entry.value_signedVolume]
  unfold calcTpsl
  cases entry.side <;>
  · simp
    field_simp
    ring

theorem stopLoss_sub (hv : entry.unsignedVolume.value ≠ 0) :
    ((c.calcTpsl entry).stopLossPrice - entry.price) * entry.signedVolume.value =
      2 * entry.fee - entry.price * entry.unsignedVolume.value * c.risk := by
  rw [entry.value_signedVolume]
  unfold calcTpsl
  cases entry.side <;>
  · simp
    field_simp
    ring

/--
A position of one entry, larger than dust, that is closed at the take profit realises the
share of its worth that is at risk, divided by the ratio of risk and reward, and at the stop
loss it loses the whole share.
-/
theorem calcTpsl_realises (c : TpslExitStrategyConfig) (before : List Trade) (entry : Trade)
    (ts : Milliseconds) (guid : Guid) (hc : c.IsValid)
    (hflat : (after PositionManager.step .init before).openedPosition = none)
    (hprice : 0 < entry.price) (hvolume : dustVolume < entry.unsignedVolume.value) :
    let m := after PositionManager.step .init before
    let worth := entry.price * entry.unsignedVolume.value
    ∃ profit loss,
      m.closedResult entry ts guid (c.calcTpsl entry).takeProfitPrice = some profit ∧
      m.closedResult entry ts guid (c.calcTpsl entry).stopLossPrice = some loss ∧
      profit.closeTs = some ts ∧ loss.closeTs = some ts ∧
      profit.pnlWithFee = worth * c.risk / c.riskRewardRatio ∧
      loss.pnlWithFee = -(worth * c.risk) ∧
      -loss.pnlWithFee / profit.pnlWithFee = c.riskRewardRatio := by
  intro m worth
  obtain ⟨hrisk, -, hratio⟩ := hc
  have hv : 0 < entry.unsignedVolume.value := dustVolume_pos.trans hvolume
  have hworth : 0 < worth := mul_pos hprice hv
  obtain ⟨profit, hprofit, hts, hpnl⟩ := PositionManager.result_round_trip hflat hvolume
    (entry.value_closedAt ts guid (c.calcTpsl entry).takeProfitPrice)
  obtain ⟨loss, hloss, hts', hpnl'⟩ := PositionManager.result_round_trip hflat hvolume
    (entry.value_closedAt ts guid (c.calcTpsl entry).stopLossPrice)
  have hgain : profit.pnlWithFee = worth * c.risk / c.riskRewardRatio := by
    have hsub := takeProfit_sub (c := c) hv.ne'
    simp only [Trade.closedAt] at hpnl
    rw [hpnl, hsub, mul_div_assoc]
    ring
  have hcost : loss.pnlWithFee = -(worth * c.risk) := by
    have hsub := stopLoss_sub (c := c) hv.ne'
    simp only [Trade.closedAt] at hpnl'
    rw [hpnl', hsub]
    ring
  refine ⟨profit, loss, hprofit, hloss, hts, hts', hgain, hcost, ?_⟩
  rw [hgain, hcost, neg_neg, div_div_cancel₀ (mul_pos hworth hrisk).ne']

/-- A short position of 2 from a price of 100, with a fee of 1. -/
theorem calcTpsl_realises_short :
    let c : TpslExitStrategyConfig := ⟨1 / 10, 1 / 2⟩
    let entry : Trade := ⟨1, "BTCUSDT", 1, 100, ⟨2, zero_le_two⟩, .sell, 1⟩
    c.IsValid ∧ dustVolume < entry.unsignedVolume.value ∧ ∃ profit loss,
      PositionManager.init.closedResult entry 2 2 (c.calcTpsl entry).takeProfitPrice =
        some profit ∧
      PositionManager.init.closedResult entry 2 2 (c.calcTpsl entry).stopLossPrice = some loss ∧
      profit.pnlWithFee = 40 ∧ loss.pnlWithFee = -20 := by
  intro c entry
  have hc : c.IsValid := by decide +kernel
  have hvolume : dustVolume < entry.unsignedVolume.value := by decide +kernel
  obtain ⟨profit, loss, hprofit, hloss, -, -, hgain, hcost, -⟩ :=
    calcTpsl_realises c [] entry 2 2 hc rfl (by decide +kernel) hvolume
  exact ⟨hc, hvolume, profit, loss, hprofit, hloss, by rw [hgain]; decide +kernel,
    by rw [hcost]; decide +kernel⟩

/-- A position of dust counts as none, and no trade closes it. -/
theorem calcTpsl_of_dust :
    let c : TpslExitStrategyConfig := ⟨1 / 10, 1 / 2⟩
    let entry : Trade := ⟨1, "BTCUSDT", 1, 100, ⟨dustVolume, dustVolume_pos.le⟩, .buy, 1 / 10 ^ 9⟩
    c.IsValid ∧ 0 < entry.unsignedVolume.value ∧
      PositionManager.init.closedResult entry 2 2 (c.calcTpsl entry).takeProfitPrice = none ∧
      PositionManager.init.closedResult entry 2 2 (c.calcTpsl entry).stopLossPrice = none := by
  decide +kernel

end TpslExitStrategyConfig

structure TpslExitStrategy where
  config : TpslExitStrategyConfig
  isPosOpened : Bool := false
  /-- The request that the last update was about, unless it has ended. -/
  activeTpsl : Option Guid := none
  /-- The request whose updates the strategy is subscribed to. -/
  tpslSub : Option Guid := none
  deriving DecidableEq

inductive TpslExitOutput
  | error (err : String) (doPanic : Bool)
  | prices (ts : Milliseconds) (tpsl : TpslPrices)
  deriving DecidableEq

namespace TpslExitStrategy

variable (s : TpslExitStrategy)

/-- A new request replaces the one that the strategy was subscribed to. -/
def onTrade (om : OrderManager) (trade : Trade) :
    TpslExitStrategy × OrderManager × List OrderManagerOutput :=
  if s.isPosOpened ∧ s.activeTpsl.isSome then (s, om, [])
  else if s.isPosOpened then
    let tpsl := s.config.calcTpsl trade
    let (om, out) :=
      om.sendTpsl tpsl.takeProfitPrice tpsl.stopLossPrice trade.side.opposite trade.ts
    ({ s with tpslSub := om.tpsl.map (·.guid) }, om, out)
  else (s, om, [])

/-- A rejected request stays the active one. -/
def onUpdated : Option TpslFullPos → TpslExitStrategy × List TpslExitOutput
  | none => ({ s with activeTpsl := none }, [])
  | some tpsl =>
    let errors :=
      if tpsl.status = .rejected then [.error (tpsl.rejectReason.getD "") true] else []
    if tpsl.status = .filled ∨ tpsl.status = .cancelled then
      ({ s with activeTpsl := none, tpslSub := none }, errors)
    else
      ({ s with activeTpsl := some tpsl.guid }, errors ++ [.prices tpsl.signalTs tpsl.prices])

end TpslExitStrategy

end CryptoTrading

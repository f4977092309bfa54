import CryptoTrading.Engine.Calls
import CryptoTrading.Engine.MarketOrders
import CryptoTrading.Gateway.Ledger
import Mathlib.Algebra.Group.Subgroup.ZPowers.Basic

/-! # Volumes in whole quantity steps

The order manager rounds what it is asked to send to whole steps of its symbol. As the
gateway trades the volumes of its orders or its whole position, it trades whole steps.
-/

namespace CryptoTrading

open AddSubgroup EraseLoop

variable {lot : ℚ}

theorem abs_mem_zmultiples {q : ℚ} (h : q ∈ zmultiples lot) : |q| ∈ zmultiples lot := by
  rcases abs_choice q with he | he
  · rwa [he]
  · rw [he]
    exact neg_mem h

theorem sign_mul_mem_zmultiples {q : ℚ} (h : q ∈ zmultiples lot) (s : Side) :
    q * (s.sign : ℚ) ∈ zmultiples lot := by
  cases s with
  | buy => simpa using h
  | sell => simpa using neg_mem h

theorem netVolume_mem_zmultiples {ts : List Trade}
    (h : ∀ t ∈ ts, t.signedVolume.value ∈ zmultiples lot) : netVolume ts ∈ zmultiples lot := by
  induction ts with
  | nil => exact zero_mem _
  | cons t ts ih =>
    rw [netVolume_cons]
    exact add_mem (h t (by simp)) (ih fun t' ht' => h t' (by simp [ht']))

def GatewayRequest.InSteps (lot : ℚ) (r : GatewayRequest) : Prop :=
  ∀ v ∈ r.volume?, v.value ∈ zmultiples lot

def GatewayCall.InSteps (lot : ℚ) : GatewayCall → Prop
  | .newPrice .. => True
  | .request r => r.InSteps lot

namespace BacktestTradingGateway

structure InSteps (g : BacktestTradingGateway) (lot : ℚ) : Prop where
  posVolume : g.posVolume.value ∈ zmultiples lot
  pending : ∀ kind, ∀ o ∈ g.pending kind, o.targetVolume.value ∈ zmultiples lot

structure PushesInSteps (lot : ℚ) (r : BacktestTradingGateway × List GatewayEvent) : Prop where
  pending : ∀ kind, ∀ o ∈ r.1.pending kind, o.targetVolume.value ∈ zmultiples lot
  trades : ∀ t ∈ r.2.filterMap GatewayEvent.trade?, t.signedVolume.value ∈ zmultiples lot

variable {g : BacktestTradingGateway} {t : Trade} {o : ConditionalMarketOrder}

theorem init_inSteps : init.InSteps lot where
  posVolume := zero_mem _
  pending := by rintro (_ | _) o ho <;> cases ho

theorem closing_mem_zmultiples {v : SignedVolume} (h : v.value ∈ zmultiples lot)
    (hvol : t.unsignedVolume = v.unsigned) : t.signedVolume.value ∈ zmultiples lot := by
  rw [Trade.value_signedVolume, hvol, SignedVolume.value_unsigned]
  exact sign_mul_mem_zmultiples (abs_mem_zmultiples h) _

theorem InSteps.tryTriggerConditionals (h : g.InSteps lot) (time : Milliseconds) (price : ℚ) :
    PushesInSteps lot (g.tryTriggerConditionals time price) := by
  constructor
  · intro kind o ho
    rw [tryTriggerConditionals_pending] at ho
    exact h.pending kind o (mem_loop_iff.mp (.inr ho))
  · intro t ht
    rw [tryTriggerConditionals_trades] at ht
    obtain ⟨o, ho, rfl⟩ := List.mem_map.mp ht
    apply sign_mul_mem_zmultiples
    rcases List.mem_append.mp ho with ho | ho
    · exact h.pending .stopLoss o (mem_loop_iff.mp (.inl ho))
    · exact h.pending .takeProfit o (mem_loop_iff.mp (.inl ho))

theorem InSteps.setPrice (h : g.InSteps lot) (time : Milliseconds) (price : ℚ) :
    (g.setPrice time price).InSteps lot where
  posVolume := h.posVolume
  pending := by
    rintro (_ | _) o ho
    · exact h.pending .stopLoss o ho
    · exact h.pending .takeProfit o ho

theorem InSteps.checkTpsl (h : g.InSteps lot) (time : Milliseconds) (price : ℚ) :
    (g.checkTpsl time price).1.InSteps lot ∧ PushesInSteps lot (g.checkTpsl time price) := by
  by_cases hit : g.TpslHit price
  · obtain ⟨hzero, trade, htrade, hvol, -⟩ := checkTpsl_of_hit time hit
    have hg : (g.checkTpsl time price).1.InSteps lot := hzero ▸ ⟨zero_mem _, h.pending⟩
    refine ⟨hg, hg.pending, ?_⟩
    rw [htrade]
    simpa using closing_mem_zmultiples h.posVolume hvol
  · rw [checkTpsl_of_not_hit hit]
    exact ⟨h, h.pending, by simp⟩

theorem InSteps.checkTrailingStop (h : g.InSteps lot) (time : Milliseconds) (price : ℚ) :
    (g.checkTrailingStop time price).1.InSteps lot ∧
      PushesInSteps lot (g.checkTrailingStop time price) := by
  have hpending : ∀ kind, ∀ o ∈ (g.checkTrailingStop time price).1.pending kind,
      o.targetVolume.value ∈ zmultiples lot := by
    rintro (_ | _) o ho
    · exact h.pending .stopLoss o (by simpa [BacktestTradingGateway.pending] using ho)
    · exact h.pending .takeProfit o (by simpa [BacktestTradingGateway.pending] using ho)
  by_cases hit : g.TrailingStopHit price
  · obtain ⟨hzero, trade, htrade, hvol, -⟩ := checkTrailingStop_of_hit time hit
    refine ⟨⟨?_, hpending⟩, hpending, ?_⟩
    · rw [hzero]
      exact zero_mem _
    · rw [htrade]
      simpa using closing_mem_zmultiples h.posVolume hvol
  · obtain ⟨hnone, -, hsame⟩ := checkTrailingStop_of_not_hit time hit
    refine ⟨⟨?_, hpending⟩, hpending, ?_⟩
    · rw [hsame]
      exact h.posVolume
    · simp [hnone]

theorem InSteps.onNewPrice (h : g.InSteps lot) (time : Milliseconds) (price : ℚ) :
    PushesInSteps lot (g.onNewPrice time price) := by
  have htpsl := (h.setPrice time price).checkTpsl time price
  have htrailing := htpsl.1.checkTrailingStop time price
  have hcond := htrailing.1.tryTriggerConditionals time price
  refine ⟨hcond.pending, fun t ht => ?_⟩
  simp only [BacktestTradingGateway.onNewPrice, beforeConditionals, List.filterMap_append,
    List.mem_append] at ht
  rcases ht with (ht | ht) | ht
  · exact htpsl.2.trades t ht
  · exact htrailing.2.trades t ht
  · exact hcond.trades t ht

theorem InSteps.pushStopLossRequest (h : g.InSteps lot)
    (ho : o.targetVolume.value ∈ zmultiples lot) :
    PushesInSteps lot (g.pushStopLossRequest o) := by
  have hadd : { g with stopLosses := g.stopLosses ++ [o] }.InSteps lot := by
    constructor
    · exact h.posVolume
    · rintro (_ | _) o' ho'
      · rcases List.mem_append.mp ho' with ho' | ho'
        · exact h.pending .stopLoss o' ho'
        · rwa [List.mem_singleton.mp ho']
      · exact h.pending .takeProfit o' ho'
  obtain ⟨hpending, htrades⟩ := hadd.tryTriggerConditionals o.signalTs g.lastPrice
  exact ⟨hpending, by simpa [BacktestTradingGateway.pushStopLossRequest] using htrades⟩

theorem InSteps.pushTakeProfitRequest (h : g.InSteps lot)
    (ho : o.targetVolume.value ∈ zmultiples lot) :
    PushesInSteps lot (g.pushTakeProfitRequest o) := by
  have hadd : { g with takeProfits := g.takeProfits ++ [o] }.InSteps lot := by
    constructor
    · exact h.posVolume
    · rintro (_ | _) o' ho'
      · exact h.pending .stopLoss o' ho'
      · rcases List.mem_append.mp ho' with ho' | ho'
        · exact h.pending .takeProfit o' ho'
        · rwa [List.mem_singleton.mp ho']
  obtain ⟨hpending, htrades⟩ := hadd.tryTriggerConditionals o.signalTs g.lastPrice
  exact ⟨hpending, by simpa [BacktestTradingGateway.pushTakeProfitRequest] using htrades⟩

theorem pushOrderRequest_trades (o : MarketOrder) :
    ∃ t, (g.pushOrderRequest o).2.filterMap GatewayEvent.trade? = [t] ∧
      t.signedVolume = o.signedVolume := by
  unfold pushOrderRequest
  cases g.tpsl with
  | none => exact ⟨_, rfl, rfl⟩
  | some tpsl =>
    simp only
    split <;> exact ⟨_, rfl, rfl⟩

theorem InSteps.pushRequest {r : GatewayRequest} (h : g.InSteps lot) (hr : r.InSteps lot) :
    PushesInSteps lot (g.pushRequest r) := by
  cases r with
  | order o =>
    constructor
    · rintro (_ | _) o' ho'
      · exact h.pending .stopLoss o' ho'
      · exact h.pending .takeProfit o' ho'
    · obtain ⟨t, htrades, hvol⟩ := pushOrderRequest_trades (g := g) o
      simp only [BacktestTradingGateway.pushRequest, htrades, List.mem_singleton, forall_eq, hvol]
      exact sign_mul_mem_zmultiples (hr _ rfl) _
  | tpsl ev =>
    simp only [BacktestTradingGateway.pushRequest, pushTpslRequest]
    split
    · exact ⟨h.pending, by simp⟩
    · refine ⟨?_, by simp⟩
      rintro (_ | _) o' ho'
      · exact h.pending .stopLoss o' ho'
      · exact h.pending .takeProfit o' ho'
  | trailingStop ev =>
    refine ⟨?_, by simp [BacktestTradingGateway.pushRequest, pushTrailingStopRequest]⟩
    rintro (_ | _) o' ho'
    · exact h.pending .stopLoss o' ho'
    · exact h.pending .takeProfit o' ho'
  | takeProfit o => exact h.pushTakeProfitRequest (hr _ rfl)
  | stopLoss o => exact h.pushStopLossRequest (hr _ rfl)
  | cancelStopLoss guid =>
    simp only [BacktestTradingGateway.pushRequest, cancelStopLossRequest]
    split
    · refine ⟨?_, by simp⟩
      rintro (_ | _) o' ho'
      · exact h.pending .stopLoss o' (List.mem_of_mem_eraseP ho')
      · exact h.pending .takeProfit o' ho'
    · exact ⟨h.pending, by simp⟩
  | cancelTakeProfit guid =>
    simp only [BacktestTradingGateway.pushRequest, cancelTakeProfitRequest]
    split
    · refine ⟨?_, by simp⟩
      rintro (_ | _) o' ho'
      · exact h.pending .stopLoss o' ho'
      · exact h.pending .takeProfit o' (List.mem_of_mem_eraseP ho')
    · exact ⟨h.pending, by simp⟩

/-- With requests in whole steps, the gateway trades whole steps. -/
theorem InSteps.step {c : GatewayCall} (h : g.InSteps lot) (hc : c.InSteps lot) :
    (g.step c).InSteps lot ∧ ∀ t ∈ g.trades c, t.signedVolume.value ∈ zmultiples lot := by
  have hpushes : PushesInSteps lot (g.handle c) := by
    cases c with
    | newPrice time price => exact h.onNewPrice time price
    | request r => exact h.pushRequest hc
  refine ⟨⟨?_, hpushes.pending⟩, hpushes.trades⟩
  rw [step_ledger]
  exact add_mem h.posVolume (netVolume_mem_zmultiples hpushes.trades)

end BacktestTradingGateway

theorem stdRound_intCast (n : ℤ) : stdRound (n : ℚ) = n := by
  have hhalf : ⌊(1 / 2 : ℚ)⌋ = 0 := by norm_num
  unfold stdRound
  split
  · rw [← Int.cast_neg, Int.floor_intCast_add, hhalf, add_zero, neg_neg]
  · rw [Int.floor_intCast_add, hhalf, add_zero]

namespace Symbol

variable {s : Symbol} {v w : SignedVolume}

theorem getQtyFloored_mem (h : s.getQtyFloored v = some w) :
    w.value ∈ zmultiples s.lotSizeFilter.qtyStep := by
  unfold getQtyFloored at h
  split at h
  · cases h
  · cases h
    have hsteps : (stdRound (|v.value| / s.lotSizeFilter.qtyStep) : ℚ) *
        s.lotSizeFilter.qtyStep ∈ zmultiples s.lotSizeFilter.qtyStep := by
      rw [← zsmul_eq_mul]
      exact zsmul_mem_zmultiples _ _
    simp only
    split
    · exact neg_mem (abs_mem_zmultiples hsteps)
    · exact abs_mem_zmultiples hsteps

theorem getQtyFloored_of_mem (hv : v.value ∈ zmultiples s.lotSizeFilter.qtyStep)
    (h : s.getQtyFloored v = some w) : w = v := by
  obtain ⟨n, hn⟩ := mem_zmultiples_iff.mp (abs_mem_zmultiples hv)
  rw [zsmul_eq_mul] at hn
  unfold getQtyFloored at h
  split at h
  case isTrue => cases h
  case isFalse hstep =>
    have hround : (stdRound (|v.value| / s.lotSizeFilter.qtyStep) : ℚ) *
        s.lotSizeFilter.qtyStep = |v.value| := by
      rw [← hn, mul_div_cancel_right₀ _ hstep, stdRound_intCast]
    cases h
    ext
    simp only [hround, abs_abs]
    split
    case isTrue hneg => rw [abs_of_neg hneg, neg_neg]
    case isFalse hpos => exact abs_of_nonneg (not_lt.mp hpos)

end Symbol

namespace OrderManager

def qtyStep (om : OrderManager) : ℚ := om.symbol.lotSizeFilter.qtyStep

variable {om : OrderManager} {vol adjusted : SignedVolume} {c : OrderManagerCall}
  {r : GatewayRequest}

theorem getQtyFloored_of_adjusted (h : om.adjustedVolume vol = .ok adjusted) :
    om.symbol.getQtyFloored vol = some adjusted := by
  unfold adjustedVolume at h
  split at h
  · cases h
  case h_2 hfloored =>
    split at h
    · cases h
    · cases h
      exact hfloored

theorem adjustedVolume_mem (h : om.adjustedVolume vol = .ok adjusted) :
    adjusted.value ∈ zmultiples om.qtyStep :=
  Symbol.getQtyFloored_mem (getQtyFloored_of_adjusted h)

theorem adjustedVolume_of_mem (hv : vol.value ∈ zmultiples om.qtyStep)
    (h : om.adjustedVolume vol = .ok adjusted) : adjusted = vol :=
  Symbol.getQtyFloored_of_mem hv (getQtyFloored_of_adjusted h)

theorem symbol_call (om : OrderManager) (c : OrderManagerCall) :
    (om.call c).1.symbol = om.symbol := by
  cases c with
  | sendMarketOrder price vol ts =>
    simp only [call, sendMarketOrder]
    split <;> rfl
  | sendTakeProfit price vol ts =>
    simp only [call, sendTakeProfit]
    split <;> rfl
  | sendStopLoss price vol ts =>
    simp only [call, sendStopLoss]
    split <;> rfl
  | cancelTakeProfit guid =>
    simp only [call, cancelTakeProfit]
    split <;> rfl
  | cancelStopLoss guid =>
    simp only [call, cancelStopLoss]
    split <;> rfl
  | sendTrailingStop trailingStop => rfl
  | sendTpsl takeProfitPrice stopLossPrice side ts => rfl
  | setSubscribers guid count => rfl
  | setTakeProfitSubscribers guid count =>
    simp only [call, setTakeProfitSubscribers, cancelTakeProfit]
    split <;> [split <;> rfl; rfl]
  | setStopLossSubscribers guid count =>
    simp only [call, setStopLossSubscribers, cancelStopLoss]
    split <;> [split <;> rfl; rfl]

theorem symbol_step (om : OrderManager) (e : GatewayEvent) : (om.step e).symbol = om.symbol :=
  (step_rest om e).1

theorem mem_requests {out : List OrderManagerOutput} :
    r ∈ out.filterMap OrderManagerOutput.request? ↔ .request r ∈ out := by
  rw [List.mem_filterMap]
  constructor
  · rintro ⟨x, hx, hr⟩
    cases x with
    | request r' => rwa [← Option.some.inj hr]
    | error e => cases hr
  · intro h
    exact ⟨_, h, rfl⟩

theorem volume_cancelTakeProfit {guid : Guid} (h : .request r ∈ (om.cancelTakeProfit guid).2) :
    r.volume? = none := by
  rw [cancelTakeProfit] at h
  split at h
  · obtain rfl : r = _ := by simpa using h
    rfl
  · cases h

theorem volume_cancelStopLoss {guid : Guid} (h : .request r ∈ (om.cancelStopLoss guid).2) :
    r.volume? = none := by
  rw [cancelStopLoss] at h
  split at h
  · obtain rfl : r = _ := by simpa using h
    rfl
  · cases h

theorem call_volume (h : .request r ∈ (om.call c).2) :
    r.volume? = none ∨ ∃ vol adjusted, c.sentVolume? = some vol ∧
      om.adjustedVolume vol = .ok adjusted ∧ r.volume? = some adjusted.unsigned := by
  cases c with
  | sendMarketOrder price vol ts =>
    cases hadj : om.adjustedVolume vol with
    | error e => simp [call, sendMarketOrder, hadj] at h
    | ok adjusted =>
      obtain rfl : r = _ := by simpa [call, sendMarketOrder, hadj] using h
      exact .inr ⟨vol, adjusted, rfl, hadj, rfl⟩
  | sendTakeProfit price vol ts =>
    cases hadj : om.adjustedVolume vol with
    | error e => simp [call, sendTakeProfit, sendConditional, hadj, Except.map] at h
    | ok adjusted =>
      obtain rfl : r = _ := by
        simpa [call, sendTakeProfit, sendConditional, hadj, Except.map] using h
      exact .inr ⟨vol, adjusted, rfl, hadj, rfl⟩
  | sendStopLoss price vol ts =>
    cases hadj : om.adjustedVolume vol with
    | error e => simp [call, sendStopLoss, sendConditional, hadj, Except.map] at h
    | ok adjusted =>
      obtain rfl : r = _ := by
        simpa [call, sendStopLoss, sendConditional, hadj, Except.map] using h
      exact .inr ⟨vol, adjusted, rfl, hadj, rfl⟩
  | cancelTakeProfit guid => exact .inl (volume_cancelTakeProfit h)
  | cancelStopLoss guid => exact .inl (volume_cancelStopLoss h)
  | sendTrailingStop trailingStop =>
    obtain rfl : r = _ := by simpa [call, sendTrailingStop] using h
    exact .inl rfl
  | sendTpsl takeProfitPrice stopLossPrice side ts =>
    obtain rfl : r = _ := by simpa [call, sendTpsl] using h
    exact .inl rfl
  | setSubscribers guid count => cases h
  | setTakeProfitSubscribers guid count =>
    simp only [call, setTakeProfitSubscribers] at h
    split at h
    · exact .inl (volume_cancelTakeProfit h)
    · cases h
  | setStopLossSubscribers guid count =>
    simp only [call, setStopLossSubscribers] at h
    split at h
    · exact .inl (volume_cancelStopLoss h)
    · cases h

theorem call_inSteps (h : .request r ∈ (om.call c).2) : r.InSteps om.qtyStep := by
  rcases call_volume h with hnone | ⟨vol, adjusted, -, hadj, hsome⟩
  · simp [GatewayRequest.InSteps, hnone]
  · simp only [GatewayRequest.InSteps, hsome, Option.mem_some_iff, forall_eq',
      SignedVolume.value_unsigned]
    exact abs_mem_zmultiples (adjustedVolume_mem hadj)

theorem call_volume_of_not_sends (hc : c.sentVolume? = none) (h : .request r ∈ (om.call c).2) :
    r.volume? = none := by
  rcases call_volume h with hnone | ⟨vol, adjusted, hsome, -⟩
  · exact hnone
  · rw [hc] at hsome
    cases hsome

end OrderManager

namespace OpenedPosition

variable {pos : OpenedPosition} {vol : SignedVolume}

theorem addVolume_mem (hpos : pos.absoluteVolume.value ∈ zmultiples lot)
    (hvol : vol.value ∈ zmultiples lot) :
    (pos.addVolume vol).absoluteVolume.value ∈ zmultiples lot := by
  unfold addVolume
  dsimp only
  split
  · exact zero_mem _
  · exact add_mem hpos hvol

theorem onTrade_mem (price fee : ℚ) (hpos : pos.absoluteVolume.value ∈ zmultiples lot)
    (hvol : vol.value ∈ zmultiples lot) :
    (pos.onTrade price vol fee).1.absoluteVolume.value ∈ zmultiples lot := by
  by_cases hz : vol.IsZero
  · rwa [onTrade, if_pos hz]
  · by_cases hg : pos.Grows vol
    · rw [onTrade_of_grows hg hz]
      exact addVolume_mem hpos hvol
    · rw [onTrade_of_not_grows pos _ _ hg hz]
      exact addVolume_mem hpos hvol

end OpenedPosition

theorem PositionManager.step_mem {m : PositionManager} {t : Trade}
    (h : m.volume ∈ zmultiples lot) (ht : t.signedVolume.value ∈ zmultiples lot) :
    (m.step t).volume ∈ zmultiples lot := by
  cases hopened : m.openedPosition with
  | none =>
    rw [step, onTradeReceived_open hopened]
    exact OpenedPosition.onTrade_mem t.price t.fee (zero_mem _) ht
  | some pos =>
    rw [volume_of_opened hopened] at h
    have hpos := OpenedPosition.onTrade_mem t.price t.fee h ht
    cases hc : (pos.onTrade t.price t.signedVolume t.fee).2 with
    | none =>
      rw [step, onTradeReceived_grow hopened hc]
      exact hpos
    | some c =>
      rw [step, onTradeReceived_reduce hopened (Prod.ext rfl hc)]
      split
      · exact zero_mem _
      · exact hpos

end CryptoTrading

import CryptoTrading.Engine.LotSize
import CryptoTrading.Strategy.Base

/-! # Orders without a volume to send

The order manager reports a volume of less than half a step and then goes on to read the
volume that it does not have, which throws.
-/

namespace CryptoTrading

namespace OrderManager

/-- The order whose channel a sending call returns; `none` where it throws. -/
def returned? (om : OrderManager) : OrderManagerCall → Option Guid
  | .sendMarketOrder price vol ts => (om.sendMarketOrder price vol ts).2.2
  | .sendTakeProfit price vol ts => (om.sendTakeProfit price vol ts).2.2
  | .sendStopLoss price vol ts => (om.sendStopLoss price vol ts).2.2
  | _ => none

/-- The call reports the error, sends nothing, changes no order, and returns. -/
structure HandlesError (om : OrderManager) (c : OrderManagerCall) (e : OrderManagerError) :
    Prop where
  reported : (om.call c).2.filterMap OrderManagerOutput.error? = [e]
  notSent : (om.call c).2.filterMap OrderManagerOutput.request? = []
  orders : (om.call c).1.orders = om.orders
  takeProfits : (om.call c).1.takeProfits = om.takeProfits
  stopLosses : (om.call c).1.stopLosses = om.stopLosses
  returns : (om.returned? c).isSome

variable {om : OrderManager} {c : OrderManagerCall} {vol : SignedVolume} {e : OrderManagerError}

theorem isSome_returned? (om : OrderManager) (hc : c.sentVolume? = some vol) :
    (om.returned? c).isSome ↔ om.symbol.HasSteps vol := by
  rw [← adjustedVolume_ok_iff]
  cases c with
  | sendMarketOrder price vol' ts =>
    obtain rfl : vol' = vol := Option.some.inj hc
    simp only [returned?, sendMarketOrder]
    cases om.adjustedVolume vol' <;> simp
  | sendTakeProfit price vol' ts =>
    obtain rfl : vol' = vol := Option.some.inj hc
    simp only [returned?, sendTakeProfit, sendConditional]
    cases om.adjustedVolume vol' <;> simp [Except.map]
  | sendStopLoss price vol' ts =>
    obtain rfl : vol' = vol := Option.some.inj hc
    simp only [returned?, sendStopLoss, sendConditional]
    cases om.adjustedVolume vol' <;> simp [Except.map]
  | _ => cases hc

/-- With an error of the volume a call does all that it should, except that it throws. -/
theorem not_handlesError (hc : c.sentVolume? = some vol) (he : om.adjustedVolume vol = .error e) :
    om.call c = (om, [.error e]) ∧ om.returned? c = none ∧ ¬ om.HandlesError c e := by
  have hsends := call_sends om hc
  simp only [he] at hsends
  have hnone : om.returned? c = none := by
    rw [← Option.not_isSome_iff_eq_none, isSome_returned? om hc]
    exact adjustedVolume_error_iff.mp ⟨e, he⟩
  refine ⟨hsends, hnone, fun hhandles => ?_⟩
  have hreturns := hhandles.returns
  rw [hnone] at hreturns
  cases hreturns

end OrderManager

namespace StrategyBase

variable {s : StrategyBase} {om : OrderManager} {side : Side} {price : Price} {ts : Milliseconds}

/-- An order is pending, a position is known, or the amount at this price has a step. -/
def CanSend (s : StrategyBase) (om : OrderManager) (side : Side) (price : Price) : Prop :=
  om.pendingOrders = [] → s.hasOpenedPos = false →
    ∀ size ∈ UnsignedVolume.from? (s.posCurrencyAmount / price.value),
      om.symbol.HasSteps (.ofUnsigned size side)

theorem isSome_trySendOrder :
    (s.trySendOrder om side price ts).2.2.isSome ↔ s.CanSend om side price := by
  unfold trySendOrder CanSend
  by_cases hpending : om.pendingOrders = []
  · rw [if_neg (not_not.mpr hpending)]
    cases s.hasOpenedPos with
    | true => simp
    | false =>
      cases UnsignedVolume.from? (s.posCurrencyAmount / price.value) with
      | none => simp
      | some size =>
        have hreturned := OrderManager.isSome_returned? om
          (c := .sendMarketOrder price.value (.ofUnsigned size side) ts) rfl
        rw [OrderManager.returned?] at hreturned
        simp [hpending, hreturned]
  · simp [hpending]

end StrategyBase

namespace OrderManager

/--
A sending call handles the errors of its volume just when there are none, as its volume has a
step; an attempt of a strategy to send an order returns just when it has an order to wait
for, a position, or a step to send.
-/
theorem errors_handled_iff (om : OrderManager) (c : OrderManagerCall) (vol : SignedVolume)
    (hc : c.sentVolume? = some vol) :
    ((∀ e, om.adjustedVolume vol = .error e → om.HandlesError c e) ↔ om.symbol.HasSteps vol) ∧
    ∀ (s : StrategyBase) (side : Side) (price : Price) (ts : Milliseconds),
      (s.trySendOrder om side price ts).2.2.isSome ↔ s.CanSend om side price := by
  constructor
  · rw [← not_iff_not, ← adjustedVolume_error_iff]
    constructor
    · intro hall
      by_contra hnone
      exact hall fun e he => absurd ⟨e, he⟩ hnone
    · rintro ⟨e, he⟩ hall
      exact (not_handlesError hc he).2.2 (hall e he)
  · exact fun _ _ _ _ => StrategyBase.isSome_trySendOrder

/-- A sale of three steps at the market. -/
theorem errors_handled_iff_sale :
    let om := init ⟨"BTCUSDT", ⟨1, 100, 1⟩⟩
    let c : OrderManagerCall := .sendMarketOrder 30 ⟨-3⟩ 1
    c.sentVolume? = some ⟨-3⟩ ∧
      (∀ e, om.adjustedVolume ⟨-3⟩ = .error e → om.HandlesError c e) ∧
      (({} : StrategyBase).trySendOrder om .sell ⟨30, by norm_num⟩ 1).2.2.isSome := by
  intro om c
  have hsteps : om.symbol.HasSteps ⟨-3⟩ := by decide +kernel
  obtain ⟨hhandles, hsend⟩ := errors_handled_iff om c ⟨-3⟩ rfl
  refine ⟨rfl, hhandles.mpr hsteps, (hsend _ _ _ _).mpr fun _ _ size hsize => ?_⟩
  obtain rfl : size = ⟨10 / 3, by norm_num⟩ := by
    rw [show UnsignedVolume.from? (({} : StrategyBase).posCurrencyAmount / 30) =
      some ⟨10 / 3, by norm_num⟩ by decide +kernel] at hsize
    exact (Option.some.inj hsize).symm
  decide +kernel

/-- At a price of a thousand the amount of a hundred is a tenth of a step. -/
theorem small_order_throws :
    let om := init ⟨"BTCUSDT", ⟨1, 100, 1⟩⟩
    let c : OrderManagerCall := .sendMarketOrder 1000 ⟨1 / 10⟩ 1
    om.adjustedVolume ⟨1 / 10⟩ = .error .zeroVolume ∧ ¬ om.HandlesError c .zeroVolume ∧
      (({} : StrategyBase).trySendOrder om .buy ⟨1000, by norm_num⟩ 1).2.2 = none := by
  intro om c
  have he : om.adjustedVolume ⟨1 / 10⟩ = .error .zeroVolume := by decide +kernel
  refine ⟨he, fun hhandles => ?_, by decide +kernel⟩
  have hreturns := hhandles.returns
  revert hreturns
  decide +kernel

end OrderManager

end CryptoTrading

import CryptoTrading.Engine.OrderManager

/-! # The base of all strategies

It sends an entry order unless an order is pending or a position is open, as far
as it has been told.
-/

namespace CryptoTrading

/-- A price to divide by. -/
structure Price where
  value : ℚ
  ne_zero : value ≠ 0
  deriving DecidableEq

/-- The arguments of `try_send_order`. -/
structure EntrySignal where
  side : Side
  price : ℚ
  ts : Milliseconds
  deriving DecidableEq

structure StrategyBase where
  posCurrencyAmount : ℚ := 100
  hasOpenedPos : Bool := false
  deriving DecidableEq

namespace StrategyBase

variable (s : StrategyBase) (om : OrderManager) (side : Side) (price : Price) (ts : Milliseconds)

/-- The subscription to the opened position. -/
def onOpenedPos (v : Bool) : StrategyBase := { s with hasOpenedPos := v }

/-- The returned value is missing where the order manager throws. -/
def trySendOrder : OrderManager × List OrderManagerOutput × Option Bool :=
  if om.pendingOrders ≠ [] then (om, [], some false)
  else if s.hasOpenedPos then (om, [], some false)
  else
    match UnsignedVolume.from? (s.posCurrencyAmount / price.value) with
    | none => (om, [], some false)
    | some defaultPosSize =>
      let (om', out, guid) := om.sendMarketOrder price.value (.ofUnsigned defaultPosSize side) ts
      (om', out, guid.map fun _ => true)

variable {s om side price ts} {guid : Guid}

theorem trySendOrder_of_mem (h : guid ∈ om.orders) :
    s.trySendOrder om side price ts = (om, [], some false) :=
  if_pos (List.ne_nil_of_mem (AList.mem_keys.mpr h))

theorem trySendOrder_cases (s : StrategyBase) (om : OrderManager) (side : Side) (price : Price)
    (ts : Milliseconds) :
    s.trySendOrder om side price ts = (om, [], some false) ∨
      om.pendingOrders = [] ∧ s.hasOpenedPos = false ∧
        ∃ vol, (s.trySendOrder om side price ts).1 = (om.sendMarketOrder price.value vol ts).1 ∧
          (s.trySendOrder om side price ts).2.1 = (om.sendMarketOrder price.value vol ts).2.1 := by
  unfold trySendOrder
  by_cases hpending : om.pendingOrders = []
  · rw [if_neg (not_not.mpr hpending)]
    cases hopened : s.hasOpenedPos with
    | true => exact .inl rfl
    | false =>
      cases UnsignedVolume.from? (s.posCurrencyAmount / price.value) with
      | none => exact .inl rfl
      | some size => exact .inr ⟨hpending, rfl, _, rfl, rfl⟩
  · exact .inl (if_pos hpending)

end StrategyBase

end CryptoTrading

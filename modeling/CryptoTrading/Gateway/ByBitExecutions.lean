import CryptoTrading.Engine.Calls
import CryptoTrading.Primitives.Parsing

/-! # Executions of the live gateway

A market order is sent with the text of its guid as `orderLinkId`, and the exchange
returns that text with each execution. The trade made of an execution has the default
guid instead, so that it belongs to no order that the order manager knows.
-/

namespace CryptoTrading

open Runs

structure Execution where
  symbol : String
  orderLinkId : String
  side : String
  execType : String
  execPrice : ℚ
  qty : ℚ
  execFee : ℚ
  execTime : String
  deriving DecidableEq

namespace Execution

def isFunding (e : Execution) : Bool := e.execType = "Funding"

/-- `none` for a negative volume, and where reading the time throws. -/
def toTrade (e : Execution) : Option Trade := do
  let volume ← UnsignedVolume.from? e.qty
  let ts ← stoll e.execTime
  return {
    ts
    symbolName := e.symbol
    -- the source passes `{}` here
    orderGuid := Guid.default
    price := e.execPrice
    unsignedVolume := volume
    side := if e.side = "Buy" then .buy else .sell
    fee := e.execFee }

end Execution

/-- The trades pushed for a batch, up to the first execution without one. -/
def onExecution : List Execution → List Trade
  | [] => []
  | e :: es =>
    if e.isFunding then onExecution es
    else
      match e.toTrade with
      | none => []
      | some t => t :: onExecution es

namespace OrderManager

def Applies (om : OrderManager) (t : Trade) : Prop :=
  (om.tryTradeMarketOrder t).isSome ∨ (om.tryTradeTakeProfit t).isSome ∨
    (om.tryTradeStopLoss t).isSome

end OrderManager

/-- One trade for each execution that is no funding, and the trade of an execution with the
text of a known order's guid is applied to that order. -/
structure Correlates (guidStr : Guid → String) (om : OrderManager) (es : List Execution) :
    Prop where
  images : (onExecution es).map some = (es.filter (! ·.isFunding)).map Execution.toTrade
  applied : ∀ e ∈ es, ¬ e.isFunding → ∀ guid, om.Knows guid → e.orderLinkId = guidStr guid →
    ∃ t ∈ e.toTrade, t.orderGuid = guid ∧ om.Applies t ∧ om.errors (.trade t) = []

/-- The execution has a volume and a time, and no known order has sent it. -/
def Execution.Foreign (guidStr : Guid → String) (om : OrderManager) (e : Execution) : Prop :=
  0 ≤ e.qty ∧ (stoll e.execTime).isSome ∧ ∀ guid, om.Knows guid → e.orderLinkId ≠ guidStr guid

variable {e : Execution} {es : List Execution} {t : Trade} {om : OrderManager}
  {guidStr : Guid → String}

theorem Execution.isSome_toTrade :
    e.toTrade.isSome ↔ 0 ≤ e.qty ∧ (stoll e.execTime).isSome := by
  unfold toTrade UnsignedVolume.from?
  by_cases h : e.qty < 0
  · simp [h, not_le.mpr h]
  · cases stoll e.execTime <;> simp [h, not_lt.mp h]

theorem Execution.orderGuid_toTrade (h : e.toTrade = some t) : t.orderGuid = Guid.default := by
  simp only [toTrade, Option.bind_eq_bind, Option.bind_eq_some_iff] at h
  obtain ⟨_, -, _, -, h⟩ := h
  exact (Option.some.inj h) ▸ rfl

theorem onExecution_images :
    (onExecution es).map some = (es.filter (! ·.isFunding)).map Execution.toTrade ↔
      ∀ e ∈ es, ¬ e.isFunding → e.toTrade.isSome := by
  induction es with
  | nil => simp [onExecution]
  | cons e es ih =>
    by_cases hf : e.isFunding
    · simp [onExecution, hf, ih]
    · cases ht : e.toTrade with
      | none => simp [onExecution, hf, ht]
      | some t => simp [onExecution, hf, ht, ih]

/--
A batch of executions is turned into trades one by one and each trade of a known order is
applied to it, if and only if every execution that is no funding has a volume and a time and
none of them belongs to a known order.
-/
theorem correlates_iff (guidStr : Guid → String) (symbol : Symbol)
    (xs : List (OrderManagerCall ⊕ GatewayEvent)) (es : List Execution) :
    Correlates guidStr (after OrderManager.input (.init symbol) xs) es ↔
      ∀ e ∈ es, ¬ e.isFunding →
        e.Foreign guidStr (after OrderManager.input (.init symbol) xs) := by
  constructor
  · intro h e he hf
    have htrade := onExecution_images.mp h.images e he hf
    obtain ⟨hqty, htime⟩ := Execution.isSome_toTrade.mp htrade
    refine ⟨hqty, htime, fun guid hknown hlink => ?_⟩
    obtain ⟨t, ht, hguid, -⟩ := h.applied e he hf guid hknown hlink
    have hissued := (OrderManager.run_issued symbol xs).known guid hknown
    rw [← hguid, Execution.orderGuid_toTrade ht] at hissued
    exact absurd hissued (by decide)
  · intro h
    constructor
    · apply onExecution_images.mpr
      intro e he hf
      exact Execution.isSome_toTrade.mpr ⟨(h e he hf).1, (h e he hf).2.1⟩
    · intro e he hf guid hknown hlink
      exact absurd hlink ((h e he hf).2.2 guid hknown)

/-- The execution of an order that was just sent is not applied to it. -/
theorem not_correlates_own_order :
    let symbol : Symbol := ⟨"BTCUSDT", ⟨1, 100, 1⟩⟩
    let om := after OrderManager.input (.init symbol) [.inl (.sendMarketOrder 100 ⟨1⟩ 1)]
    let e : Execution := ⟨"BTCUSDT", toString Guid.first, "Buy", "Trade", 100, 1, 0, "2"⟩
    om.Knows Guid.first ∧ ¬ Correlates toString om [e] := by
  intro symbol om e
  have hknown : om.Knows Guid.first := by decide +kernel
  refine ⟨hknown, fun h => ?_⟩
  obtain ⟨t, ht, hguid, -⟩ :=
    h.applied e (List.mem_singleton_self e) (by decide) Guid.first hknown rfl
  rw [Execution.orderGuid_toTrade ht] at hguid
  exact absurd hguid (by decide)

end CryptoTrading

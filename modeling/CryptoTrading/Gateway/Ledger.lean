import CryptoTrading.Gateway.FullPosition
import CryptoTrading.Positions.Accounting

/-! # The gateway's position and its trades

The backtest gateway adds a trade to its position, or sets the position to zero. In
both cases the position moves by the volume of the pushed trades, and a position
manager fed with them holds the same volume as long as it sees no dust.
-/

namespace CryptoTrading

open Runs

variable {ts ts' : List Trade} {t : Trade}

@[simp] theorem netVolume_nil : netVolume [] = 0 := rfl

@[simp] theorem netVolume_cons :
    netVolume (t :: ts) = t.signedVolume.value + netVolume ts := by
  simp [netVolume, CostBasis.position, Trade.fill]

@[simp] theorem netVolume_append : netVolume (ts ++ ts') = netVolume ts + netVolume ts' := by
  simp [netVolume, CostBasis.position]

/-- No running sum of the volumes is dust. -/
def NoDust (ts : List Trade) : Prop :=
  ∀ p, p <+: ts → netVolume p = 0 ∨ dustVolume < |netVolume p|

theorem noDust_iff :
    NoDust ts ↔ ∀ p ∈ ts.inits, netVolume p = 0 ∨ dustVolume < |netVolume p| := by
  simp only [NoDust, List.mem_inits]

instance : Decidable (NoDust ts) := decidable_of_iff' _ noDust_iff

theorem NoDust.of_append (h : NoDust (ts ++ ts')) : NoDust ts :=
  fun p hp => h p (hp.trans (List.prefix_append ..))

namespace OpenedPosition

variable {pos : OpenedPosition} {price fee : ℚ} {vol : SignedVolume}

theorem onTrade_volume' (price fee : ℚ)
    (hd : pos.absoluteVolume.value + vol.value = 0 ∨
      dustVolume < |pos.absoluteVolume.value + vol.value|) :
    (pos.onTrade price vol fee).1.absoluteVolume.value =
      pos.absoluteVolume.value + vol.value := by
  by_cases hv : vol.IsZero
  · rw [onTrade, if_pos hv, SignedVolume.isZero_iff.mp hv, add_zero]
  · exact onTrade_volume price fee hv hd

end OpenedPosition

namespace PositionManager

def volume (m : PositionManager) : ℚ :=
  match m.openedPosition with
  | some pos => pos.absoluteVolume.value
  | none => 0

variable {m : PositionManager} {pos : OpenedPosition}

@[simp] theorem volume_init : init.volume = 0 := rfl

theorem volume_of_opened (h : m.openedPosition = some pos) :
    m.volume = pos.absoluteVolume.value := by simp [volume, h]

theorem volume_of_flat (h : m.openedPosition = none) : m.volume = 0 := by simp [volume, h]

theorem volume_step
    (hd : m.volume + t.signedVolume.value = 0 ∨ dustVolume < |m.volume + t.signedVolume.value|) :
    (m.step t).volume = m.volume + t.signedVolume.value := by
  cases h : m.openedPosition with
  | none =>
    rw [volume_of_flat h] at hd ⊢
    rw [step, onTradeReceived_open h]
    exact OpenedPosition.onTrade_volume' t.price t.fee hd
  | some pos =>
    rw [volume_of_opened h] at hd ⊢
    have hvol := OpenedPosition.onTrade_volume' t.price t.fee hd
    cases hc : (pos.onTrade t.price t.signedVolume t.fee).2 with
    | none =>
      rw [step, onTradeReceived_grow h hc]
      exact hvol
    | some c =>
      rw [step, onTradeReceived_reduce h (Prod.ext rfl hc)]
      split
      case isTrue hz => exact hz.symm.trans hvol
      case isFalse => exact hvol

/-- Without dust the manager holds the sum of all trades it has received. -/
theorem volume_run (h : NoDust ts) : (after step init ts).volume = netVolume ts := by
  induction ts using List.reverseRecOn with
  | nil => rfl
  | append_singleton ts t ih =>
    have hsum := h _ List.prefix_rfl
    rw [netVolume_concat, ← ih h.of_append] at hsum
    rw [after_concat, volume_step hsum, ih h.of_append, netVolume_concat]

end PositionManager

def GatewayRequest.volume? : GatewayRequest → Option UnsignedVolume
  | .order o => some o.targetVolume
  | .takeProfit o => some o.targetVolume
  | .stopLoss o => some o.targetVolume
  | _ => none

namespace BacktestTradingGateway

def eventVolume (es : List GatewayEvent) : ℚ := netVolume (es.filterMap GatewayEvent.trade?)

def trades (g : BacktestTradingGateway) (c : GatewayCall) : List Trade :=
  (g.handle c).2.filterMap GatewayEvent.trade?

variable {g : BacktestTradingGateway} {price : ℚ} {time : Milliseconds} {v : SignedVolume}
  {e : GatewayEvent} {es es' : List GatewayEvent}

@[simp] theorem eventVolume_nil : eventVolume [] = 0 := rfl

@[simp] theorem eventVolume_append :
    eventVolume (es ++ es') = eventVolume es + eventVolume es' := by
  simp [eventVolume]

@[simp] theorem eventVolume_cons :
    eventVolume (e :: es) = netVolume e.trade?.toList + eventVolume es := by
  cases h : e.trade? <;> simp [eventVolume, h]

theorem trades_of_volume_none {r : GatewayRequest} (h : r.volume? = none) :
    g.trades (.request r) = [] := by
  cases r with
  | order o => cases h
  | takeProfit o => cases h
  | stopLoss o => cases h
  | tpsl ev =>
    simp only [trades, handle, pushRequest, pushTpslRequest]
    split <;> rfl
  | trailingStop ev => rfl
  | cancelStopLoss guid =>
    simp only [trades, handle, pushRequest, cancelStopLossRequest]
    split <;> rfl
  | cancelTakeProfit guid =>
    simp only [trades, handle, pushRequest, cancelTakeProfitRequest]
    split <;> rfl

theorem value_add_closing (hvol : t.unsignedVolume = v.unsigned)
    (hside : t.side = v.side.opposite) :
    v.value + t.signedVolume.value = 0 := by
  rw [Trade.signedVolume, hvol, hside, SignedVolume.value_ofUnsigned_opposite]
  exact add_neg_cancel _

theorem checkTpsl_ledger :
    (g.checkTpsl time price).1.posVolume.value =
      g.posVolume.value + eventVolume (g.checkTpsl time price).2 := by
  by_cases h : g.TpslHit price
  · obtain ⟨hzero, trade, htrade, hvol, hside⟩ := checkTpsl_of_hit time h
    rw [hzero, eventVolume, htrade, netVolume_cons, netVolume_nil, add_zero]
    exact (value_add_closing hvol hside).symm
  · simp [checkTpsl_of_not_hit h]

theorem checkTrailingStop_ledger :
    (g.checkTrailingStop time price).1.posVolume.value =
      g.posVolume.value + eventVolume (g.checkTrailingStop time price).2 := by
  by_cases h : g.TrailingStopHit price
  · obtain ⟨hzero, trade, htrade, hvol, hside⟩ := checkTrailingStop_of_hit time h
    rw [hzero, eventVolume, htrade, netVolume_cons, netVolume_nil, add_zero]
    exact (value_add_closing hvol hside).symm
  · obtain ⟨hnone, -, hsame⟩ := checkTrailingStop_of_not_hit time h
    rw [eventVolume, hnone, hsame, netVolume_nil, add_zero]

theorem addTriggered_value (v : SignedVolume) (os : List ConditionalMarketOrder) :
    (addTriggered v os).value =
      v.value + netVolume (os.map (g.conditionalTrade time price)) := by
  induction os generalizing v with
  | nil => simp [addTriggered]
  | cons o os ih =>
    have hrest := ih (v + ⟨o.targetVolume.value * (o.side.sign : ℚ)⟩)
    have htrade : (g.conditionalTrade time price o).signedVolume.value =
        o.targetVolume.value * (o.side.sign : ℚ) := rfl
    rw [addTriggered] at hrest ⊢
    rw [List.foldl_cons, hrest, List.map_cons, netVolume_cons, htrade, SignedVolume.value_add]
    ring

theorem tryTriggerConditionals_ledger :
    (g.tryTriggerConditionals time price).1.posVolume.value =
      g.posVolume.value + eventVolume (g.tryTriggerConditionals time price).2 := by
  rw [eventVolume, tryTriggerConditionals_trades, List.map_append, netVolume_append, ← add_assoc,
    ← addTriggered_value, ← addTriggered_value]
  rfl

theorem onNewPrice_ledger :
    (g.onNewPrice time price).1.posVolume.value =
      g.posVolume.value + eventVolume (g.onNewPrice time price).2 := by
  simp only [onNewPrice, beforeConditionals, eventVolume_append]
  rw [tryTriggerConditionals_ledger, checkTrailingStop_ledger, checkTpsl_ledger,
    setPrice_posVolume]
  ring

theorem pushOrderRequest_ledger (o : MarketOrder) :
    (g.pushOrderRequest o).1.posVolume.value =
      g.posVolume.value + eventVolume (g.pushOrderRequest o).2 := by
  unfold pushOrderRequest
  cases g.tpsl with
  | none => simp [Trade.signedVolume]
  | some tpsl =>
    simp only
    split <;> simp [Trade.signedVolume]

theorem pushTpslRequest_ledger (ev : TpslRequestEvent) :
    (g.pushTpslRequest ev).1.posVolume.value =
      g.posVolume.value + eventVolume (g.pushTpslRequest ev).2 := by
  unfold pushTpslRequest
  split <;> simp

theorem pushStopLossRequest_ledger (o : ConditionalMarketOrder) :
    (g.pushStopLossRequest o).1.posVolume.value =
      g.posVolume.value + eventVolume (g.pushStopLossRequest o).2 := by
  rw [pushStopLossRequest, tryTriggerConditionals_ledger]
  simp

theorem pushTakeProfitRequest_ledger (o : ConditionalMarketOrder) :
    (g.pushTakeProfitRequest o).1.posVolume.value =
      g.posVolume.value + eventVolume (g.pushTakeProfitRequest o).2 := by
  rw [pushTakeProfitRequest, tryTriggerConditionals_ledger]
  simp

theorem cancelStopLossRequest_ledger (guid : Guid) :
    (g.cancelStopLossRequest guid).1.posVolume.value =
      g.posVolume.value + eventVolume (g.cancelStopLossRequest guid).2 := by
  unfold cancelStopLossRequest
  split <;> simp

theorem cancelTakeProfitRequest_ledger (guid : Guid) :
    (g.cancelTakeProfitRequest guid).1.posVolume.value =
      g.posVolume.value + eventVolume (g.cancelTakeProfitRequest guid).2 := by
  unfold cancelTakeProfitRequest
  split <;> simp

/-- One call moves the position by the volume of the trades it pushes. -/
theorem step_ledger (g : BacktestTradingGateway) (c : GatewayCall) :
    (g.step c).posVolume.value = g.posVolume.value + netVolume (g.trades c) := by
  cases c with
  | newPrice time price => exact onNewPrice_ledger
  | request r =>
    cases r with
    | order o => exact pushOrderRequest_ledger o
    | tpsl ev => exact pushTpslRequest_ledger ev
    | trailingStop ev => exact (add_zero _).symm
    | takeProfit o => exact pushTakeProfitRequest_ledger o
    | stopLoss o => exact pushStopLossRequest_ledger o
    | cancelStopLoss guid => exact cancelStopLossRequest_ledger guid
    | cancelTakeProfit guid => exact cancelTakeProfitRequest_ledger guid

theorem run_ledger (g : BacktestTradingGateway) (cs : List GatewayCall) :
    (after step g cs).posVolume.value =
      g.posVolume.value + netVolume (outputs step trades g cs) := by
  induction cs generalizing g with
  | nil => simp
  | cons c cs ih =>
    rw [after_cons, ih, step_ledger, outputs, netVolume_append, add_assoc]

/--
After any calls the gateway's position is the sum of the trades it has pushed, and a position
manager fed with these trades holds the same volume if no running sum of them is dust.
-/
theorem posVolume_eq_netVolume (cs : List GatewayCall) :
    (after step init cs).posVolume.value = netVolume (outputs step trades init cs) ∧
      (NoDust (outputs step trades init cs) →
        (after PositionManager.step .init (outputs step trades init cs)).volume =
          (after step init cs).posVolume.value) := by
  have hsum : (after step init cs).posVolume.value = netVolume (outputs step trades init cs) := by
    rw [run_ledger]
    exact zero_add _
  constructor
  · exact hsum
  · intro h
    rw [PositionManager.volume_run h, hsum]

/-- A purchase and a take profit that sells the half of it. -/
theorem posVolume_eq_netVolume_half :
    let buy : MarketOrder := .ofSigned 1 "BTCUSDT" 100 ⟨2⟩ 1
    let sell : ConditionalMarketOrder := .new 2 "BTCUSDT" 110 ⟨1, zero_le_one⟩ .sell .takeProfit 2
    let cs : List GatewayCall :=
      [.newPrice 1 100, .request (.order buy), .request (.takeProfit sell), .newPrice 3 120]
    NoDust (outputs step trades init cs) ∧
      (after PositionManager.step .init (outputs step trades init cs)).volume =
        (after step init cs).posVolume.value := by
  intro buy sell cs
  have h : NoDust (outputs step trades init cs) := by decide +kernel
  exact ⟨h, (posVolume_eq_netVolume cs).2 h⟩

/-- The position manager does not see a purchase of dust. -/
theorem posVolume_ne_volume_of_dust :
    let buy : MarketOrder := .ofSigned 1 "BTCUSDT" 100 ⟨dustVolume⟩ 1
    let cs : List GatewayCall := [.newPrice 1 100, .request (.order buy)]
    (after PositionManager.step .init (outputs step trades init cs)).volume ≠
      (after step init cs).posVolume.value := by
  decide +kernel

end BacktestTradingGateway

end CryptoTrading

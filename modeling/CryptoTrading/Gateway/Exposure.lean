import CryptoTrading.Gateway.Ledger

/-! # Position and pending orders

A conditional order that triggers moves its volume from the pending orders to the
position. The loops that trigger orders may do so with an order whose condition holds, and
do nothing to the others.
-/

namespace CryptoTrading

open EraseLoop

/-- The order that the event is about; the exits of a full position do not count. -/
def GatewayEvent.guid? : GatewayEvent → Option Guid
  | .orderResponse r => some r.requestGuid
  | .trade t => some t.orderGuid
  | .stopLossUpdated r => some r.guid
  | .takeProfitUpdated r => some r.guid
  | _ => none

@[simp] theorem GatewayEvent.guid?_trade (t : Trade) :
    (GatewayEvent.trade t).guid? = some t.orderGuid := rfl

namespace ConditionalType

def other : ConditionalType → ConditionalType
  | .stopLoss => .takeProfit
  | .takeProfit => .stopLoss

def updatedEvent : ConditionalType → ConditionalOrderUpdateEvent → GatewayEvent
  | .stopLoss => .stopLossUpdated
  | .takeProfit => .takeProfitUpdated

def requestOf : ConditionalType → ConditionalMarketOrder → GatewayRequest
  | .stopLoss => .stopLoss
  | .takeProfit => .takeProfit

def cancelOf : ConditionalType → Guid → GatewayRequest
  | .stopLoss => .cancelStopLoss
  | .takeProfit => .cancelTakeProfit

@[simp] theorem guid?_updatedEvent (kind : ConditionalType) (r : ConditionalOrderUpdateEvent) :
    (kind.updatedEvent r).guid? = some r.guid := by cases kind <;> rfl

@[simp] theorem trade?_updatedEvent (kind : ConditionalType) (r : ConditionalOrderUpdateEvent) :
    (kind.updatedEvent r).trade? = none := by cases kind <;> rfl

theorem other_ne (kind : ConditionalType) : kind.other ≠ kind := by cases kind <;> simp [other]

def pick {α : Type} (sl tp : α) : ConditionalType → α
  | .stopLoss => sl
  | .takeProfit => tp

theorem eq_or_eq_other (kind k : ConditionalType) : k = kind ∨ k = kind.other := by
  cases kind <;> cases k <;> simp [other]

end ConditionalType

namespace ConditionalMarketOrder

variable {x y : ConditionalMarketOrder} {price : ℚ}

/-- No price triggers both the take profit `x` and the stop loss `y`. -/
def Apart (x y : ConditionalMarketOrder) : Prop :=
  ∀ price, ¬ (takeProfitTriggered price x ∧ stopLossTriggered price y)

/-- Orders of one side that do not trigger at some price lie on both sides of it. -/
theorem apart_of_not_triggered (hside : x.side = y.side) (hx : ¬ takeProfitTriggered price x)
    (hy : ¬ stopLossTriggered price y) : Apart x y := by
  rintro price' ⟨hx', hy'⟩
  unfold takeProfitTriggered at hx hx'
  unfold stopLossTriggered at hy hy'
  rw [← hside] at hy hy'
  cases hs : x.side with
  | buy =>
    simp only [hs, decide_eq_true_eq, not_le] at hx hx' hy hy'
    linarith
  | sell =>
    simp only [hs, decide_eq_true_eq, not_le] at hx hx' hy hy'
    linarith

end ConditionalMarketOrder

def ordersVolume (os : List ConditionalMarketOrder) : ℚ :=
  (os.map fun o => o.signedVolume.value).sum

section Volume

variable {os os' : List ConditionalMarketOrder}

@[simp] theorem ordersVolume_nil : ordersVolume [] = 0 := rfl

@[simp] theorem ordersVolume_append :
    ordersVolume (os ++ os') = ordersVolume os + ordersVolume os' := by simp [ordersVolume]

@[simp] theorem ordersVolume_singleton (o : ConditionalMarketOrder) :
    ordersVolume [o] = o.signedVolume.value := by simp [ordersVolume]

theorem ordersVolume_perm (h : os.Perm os') : ordersVolume os = ordersVolume os' :=
  (h.map _).sum_eq

end Volume

namespace BacktestTradingGateway

variable {g : BacktestTradingGateway} {ts : Milliseconds} {price : ℚ} {kind : ConditionalType}
  {guid : Guid} {x : ConditionalMarketOrder}

/-- The price is the same, and so are the exits of the full position. -/
structure SameMarket (g g' : BacktestTradingGateway) : Prop where
  lastPrice : g'.lastPrice = g.lastPrice
  tpsl : g'.tpsl = g.tpsl
  trailingStop : g'.trailingStop = g.trailingStop

/-- The position with the volume of the pending orders. -/
def exposure (g : BacktestTradingGateway) : ℚ :=
  g.posVolume.value + (ordersVolume g.stopLosses + ordersVolume g.takeProfits)

theorem netVolume_conditionalTrades (os : List ConditionalMarketOrder) :
    netVolume (os.map (g.conditionalTrade ts price)) = ordersVolume os := by
  induction os with
  | nil => rfl
  | cons o os ih =>
    rw [List.map_cons, netVolume_cons, ih]
    rfl

theorem exposure_tryTriggerConditionals :
    (g.tryTriggerConditionals ts price).1.exposure = g.exposure := by
  have hpos : (g.tryTriggerConditionals ts price).1.posVolume.value = g.posVolume.value +
      (ordersVolume (loop (stopLossTriggered price) g.stopLosses).erased +
        ordersVolume (loop (takeProfitTriggered price) g.takeProfits).erased) := by
    rw [tryTriggerConditionals_ledger, eventVolume, tryTriggerConditionals_trades,
      netVolume_conditionalTrades, ordersVolume_append]
    rfl
  have hsl := ordersVolume_perm (loop_perm (p := stopLossTriggered price) (l := g.stopLosses))
  have htp := ordersVolume_perm (loop_perm (p := takeProfitTriggered price) (l := g.takeProfits))
  rw [ordersVolume_append] at hsl htp
  rw [exposure, hpos, exposure, ← hsl, ← htp]
  simp only [tryTriggerConditionals]
  ring

def pendingOf (g : BacktestTradingGateway) (guid : Guid) (kind : ConditionalType) :
    List ConditionalMarketOrder :=
  (g.pending kind).filter (·.guid = guid)

def triggeredOf (g : BacktestTradingGateway) (price : ℚ) (guid : Guid) (kind : ConditionalType) :
    List ConditionalMarketOrder :=
  (g.triggered kind price).filter (·.guid = guid)

def triggerEvents (g : BacktestTradingGateway) (ts : Milliseconds) (price : ℚ)
    (kind : ConditionalType) (o : ConditionalMarketOrder) : List GatewayEvent :=
  [.trade (g.conditionalTrade ts price o), kind.updatedEvent ⟨o.guid, false⟩]

theorem triggeredOf_perm (g : BacktestTradingGateway) (ts : Milliseconds) (price : ℚ) (guid : Guid)
    (kind : ConditionalType) : (g.triggeredOf price guid kind ++
      (g.tryTriggerConditionals ts price).1.pendingOf guid kind).Perm (g.pendingOf guid kind) := by
  unfold triggeredOf pendingOf triggered
  rw [tryTriggerConditionals_pending, ← List.filter_append]
  exact loop_perm.filter _

theorem filter_triggerEvents (os : List ConditionalMarketOrder) :
    (os.flatMap (g.triggerEvents ts price kind)).filter (·.guid? = some guid) =
      (os.filter (·.guid = guid)).flatMap (g.triggerEvents ts price kind) := by
  induction os with
  | nil => rfl
  | cons o os ih =>
    rw [List.flatMap_cons, List.filter_append, ih]
    by_cases ho : o.guid = guid
    · have hfilter : (g.triggerEvents ts price kind o).filter (·.guid? = some guid) =
          g.triggerEvents ts price kind o := by
        simp [triggerEvents, conditionalTrade, ho]
      rw [hfilter, List.filter_cons_of_pos (by simpa using ho), List.flatMap_cons]
    · have hfilter : (g.triggerEvents ts price kind o).filter (·.guid? = some guid) = [] := by
        simp [triggerEvents, conditionalTrade, ho]
      rw [hfilter, List.filter_cons_of_neg (by simpa using ho), List.nil_append]

theorem tryTriggerConditionals_events :
    (g.tryTriggerConditionals ts price).2.filter (·.guid? = some guid) =
      (g.triggeredOf price guid .stopLoss).flatMap (g.triggerEvents ts price .stopLoss) ++
        (g.triggeredOf price guid .takeProfit).flatMap (g.triggerEvents ts price .takeProfit) := by
  unfold triggeredOf
  rw [← filter_triggerEvents, ← filter_triggerEvents, ← List.filter_append]
  rfl

theorem tryTriggerConditionals_of_idle (ts : Milliseconds) (price : ℚ)
    (h : ∀ kind, g.pendingOf guid kind = []) :
    (∀ kind, (g.tryTriggerConditionals ts price).1.pendingOf guid kind = []) ∧
      (g.tryTriggerConditionals ts price).2.filter (·.guid? = some guid) = [] := by
  have hsplit : ∀ kind, g.triggeredOf price guid kind = [] ∧
      (g.tryTriggerConditionals ts price).1.pendingOf guid kind = [] := by
    intro kind
    have hperm := triggeredOf_perm g ts price guid kind
    rw [h kind, List.perm_nil] at hperm
    exact List.append_eq_nil_iff.mp hperm
  constructor
  · intro kind
    exact (hsplit kind).2
  · rw [tryTriggerConditionals_events, (hsplit .stopLoss).1, (hsplit .takeProfit).1]
    rfl

theorem tryTriggerConditionals_of_pending (ts : Milliseconds) (price : ℚ)
    (h : g.pendingOf guid kind = [x]) (hother : g.pendingOf guid kind.other = []) :
    ((∀ k, (g.tryTriggerConditionals ts price).1.pendingOf guid k = g.pendingOf guid k) ∧
        (g.tryTriggerConditionals ts price).2.filter (·.guid? = some guid) = []) ∨
      (kind.triggered price x ∧
        (∀ k, (g.tryTriggerConditionals ts price).1.pendingOf guid k = []) ∧
        (g.tryTriggerConditionals ts price).2.filter (·.guid? = some guid) =
          g.triggerEvents ts price kind x) := by
  have hrest := triggeredOf_perm g ts price guid kind.other
  rw [hother, List.perm_nil, List.append_eq_nil_iff] at hrest
  have hself := triggeredOf_perm g ts price guid kind
  rw [h, List.perm_singleton, List.append_eq_singleton_iff] at hself
  have hevents : ∀ os, g.triggeredOf price guid kind = os →
      (g.tryTriggerConditionals ts price).2.filter (·.guid? = some guid) =
        os.flatMap (g.triggerEvents ts price kind) := by
    rintro os rfl
    rw [tryTriggerConditionals_events]
    cases kind
    · have htp : g.triggeredOf price guid .takeProfit = [] := hrest.1
      rw [htp, List.flatMap_nil, List.append_nil]
    · have hsl : g.triggeredOf price guid .stopLoss = [] := hrest.1
      rw [hsl, List.flatMap_nil, List.nil_append]
  rcases hself with ⟨hnone, hleft⟩ | ⟨hone, hleft⟩
  · left
    constructor
    · intro k
      rcases kind.eq_or_eq_other k with rfl | rfl
      · rw [hleft, h]
      · rw [hrest.2, hother]
    · exact hevents _ hnone
  · right
    refine ⟨?_, ?_, ?_⟩
    · have hmem : x ∈ g.triggeredOf price guid kind := by simp [hone]
      exact of_mem_loop_erased (List.mem_filter.mp hmem).1
    · intro k
      rcases kind.eq_or_eq_other k with rfl | rfl
      · exact hleft
      · exact hrest.2
    · rw [hevents _ hone, List.flatMap_singleton]

theorem stopLosses_eq_nil_iff :
    g.stopLosses = [] ↔ ∀ guid, g.pendingOf guid .stopLoss = [] := by
  constructor
  · intro h guid
    rw [pendingOf, pending, h]
    rfl
  · intro h
    rw [List.eq_nil_iff_forall_not_mem]
    intro y hy
    have hmem : y ∈ g.pendingOf y.guid .stopLoss := List.mem_filter.mpr ⟨hy, by simp⟩
    rw [h] at hmem
    cases hmem

theorem stopLosses_trigger_of_nil (ts : Milliseconds) (price : ℚ) (h : g.stopLosses = []) :
    (g.tryTriggerConditionals ts price).1.stopLosses = [] := by
  have hleft := (loop_of_noNeighbours (p := stopLossTriggered price) .nil).2
  simpa [tryTriggerConditionals, h] using hleft

/-- The only stop loss has no neighbour that it could be skipped with. -/
theorem stopLosses_trigger_of_singleton (ts : Milliseconds) (h : g.stopLosses = [x])
    (hx : stopLossTriggered price x) :
    (g.tryTriggerConditionals ts price).1.stopLosses = [] := by
  have hleft := (loop_of_noNeighbours (p := stopLossTriggered price) (.singleton x)).2
  simpa [tryTriggerConditionals, h, hx] using hleft

theorem eraseP_of_filter_eq_singleton {α : Type*} {p : α → Bool} {l : List α} {x : α}
    (h : l.filter p = [x]) :
    ∃ l' l'', l = l' ++ x :: l'' ∧ l.eraseP p = l' ++ l'' ∧ p x ∧ ∀ y ∈ l' ++ l'', ¬ p y := by
  obtain ⟨l', l'', rfl, hleft, hx, hright⟩ := List.filter_eq_cons_iff.mp h
  refine ⟨l', l'', rfl, ?_, hx, ?_⟩
  · rw [List.eraseP_append_right _ hleft, List.eraseP_cons_of_pos hx]
  · intro y hy
    rcases List.mem_append.mp hy with hy | hy
    · exact hleft y hy
    · exact List.filter_eq_nil_iff.mp hright y hy

theorem filter_eraseP {os : List ConditionalMarketOrder} (h : os.filter (·.guid = guid) = [x]) :
    (os.eraseP (·.guid = guid)).filter (·.guid = guid) = [] ∧
      (∀ guid' ≠ guid, (os.eraseP (·.guid = guid)).filter (·.guid = guid') =
        os.filter (·.guid = guid')) ∧
      ordersVolume (os.eraseP (·.guid = guid)) = ordersVolume os - x.signedVolume.value ∧
      os.any (·.guid = guid) := by
  obtain ⟨l, l', rfl, herase, hx, hrest⟩ := eraseP_of_filter_eq_singleton h
  rw [herase]
  refine ⟨List.filter_eq_nil_iff.mpr hrest, fun guid' hne => ?_, ?_, ?_⟩
  · have hx' : ¬ x.guid = guid' := by
      rw [of_decide_eq_true hx]
      exact hne.symm
    simp [hx']
  · simp only [ordersVolume, List.map_append, List.map_cons, List.sum_append, List.sum_cons]
    ring
  · simp [of_decide_eq_true hx]

theorem cancel_of_pending (h : g.pendingOf guid kind = [x]) :
    ∃ g', g.pushRequest (kind.cancelOf guid) = (g', [kind.updatedEvent ⟨guid, false⟩]) ∧
      g.SameMarket g' ∧ g'.exposure = g.exposure - x.signedVolume.value ∧
      g'.pendingOf guid kind = [] ∧ g'.pendingOf guid kind.other = g.pendingOf guid kind.other ∧
      ∀ guid' ≠ guid, g'.pendingOf guid' = g.pendingOf guid' := by
  cases kind with
  | stopLoss =>
    obtain ⟨hself, hne, hvol, hany⟩ := filter_eraseP (show g.stopLosses.filter _ = [x] from h)
    refine ⟨_, if_pos hany, ⟨rfl, rfl, rfl⟩, ?_, hself, rfl, fun guid' hguid => ?_⟩
    · rw [exposure, exposure, hvol]
      ring
    · funext k
      cases k
      · exact hne guid' hguid
      · rfl
  | takeProfit =>
    obtain ⟨hself, hne, hvol, hany⟩ := filter_eraseP (show g.takeProfits.filter _ = [x] from h)
    refine ⟨_, if_pos hany, ⟨rfl, rfl, rfl⟩, ?_, hself, rfl, fun guid' hguid => ?_⟩
    · rw [exposure, exposure, hvol]
      ring
    · funext k
      cases k
      · rfl
      · exact hne guid' hguid

theorem cancel_of_not_pending (h : g.pendingOf guid kind = []) :
    g.pushRequest (kind.cancelOf guid) = (g, []) := by
  have hnone : ∀ os : List ConditionalMarketOrder, os.filter (·.guid = guid) = [] →
      ¬ os.any (·.guid = guid) = true := by
    intro os hos
    rw [List.filter_eq_nil_iff] at hos
    simpa using hos
  cases kind with
  | stopLoss => exact if_neg (hnone _ h)
  | takeProfit => exact if_neg (hnone _ h)

def addPending (g : BacktestTradingGateway) (kind : ConditionalType) (o : ConditionalMarketOrder) :
    BacktestTradingGateway :=
  match kind with
  | .stopLoss => { g with stopLosses := g.stopLosses ++ [o] }
  | .takeProfit => { g with takeProfits := g.takeProfits ++ [o] }

variable {o : ConditionalMarketOrder}

theorem pendingOf_addPending_self :
    (g.addPending kind o).pendingOf o.guid kind = g.pendingOf o.guid kind ++ [o] := by
  cases kind <;> simp [pendingOf, pending, addPending]

theorem pendingOf_addPending_other : (g.addPending kind o).pendingOf guid kind.other =
    g.pendingOf guid kind.other := by cases kind <;> rfl

theorem pendingOf_addPending_of_ne (h : guid ≠ o.guid) :
    (g.addPending kind o).pendingOf guid = g.pendingOf guid := by
  funext k
  cases kind <;> cases k <;> simp [pendingOf, pending, addPending, h.symm]

theorem exposure_addPending :
    (g.addPending kind o).exposure = g.exposure + o.signedVolume.value := by
  cases kind
  · simp only [exposure, addPending, ordersVolume_append, ordersVolume_singleton]
    ring
  · simp only [exposure, addPending, ordersVolume_append, ordersVolume_singleton]
    ring

theorem sameMarket_addPending : g.SameMarket (g.addPending kind o) := by
  cases kind <;> exact ⟨rfl, rfl, rfl⟩

theorem pushRequest_exit : g.pushRequest (kind.requestOf o) =
    (((g.addPending kind o).tryTriggerConditionals o.signalTs g.lastPrice).1,
      kind.updatedEvent ⟨o.guid, true⟩ ::
        ((g.addPending kind o).tryTriggerConditionals o.signalTs g.lastPrice).2) := by
  cases kind <;> rfl

theorem pushRequest_order {o : MarketOrder} (h : g.tpsl = none) :
    ∃ g' t, g.pushRequest (.order o) =
        (g', [.orderResponse { symbolName := o.symbol, requestGuid := o.guid }, .trade t]) ∧
      g.SameMarket g' ∧ g'.exposure = g.exposure + o.signedVolume.value ∧
      g'.pendingOf = g.pendingOf ∧
      t.orderGuid = o.guid ∧ t.price = g.lastPrice ∧ t.unsignedVolume = o.targetVolume := by
  simp only [pushRequest, pushOrderRequest, h]
  refine ⟨_, _, rfl, ⟨rfl, h.symm, rfl⟩, ?_, rfl, rfl, rfl, rfl⟩
  simp only [exposure, SignedVolume.value_add]
  rw [MarketOrder.signedVolume]
  ring

theorem onNewPrice_eq (htpsl : g.tpsl = none) (htrailing : g.trailingStop = none) :
    g.onNewPrice ts price = (g.setPrice ts price).tryTriggerConditionals ts price := by
  have hbefore : g.beforeConditionals ts price = (g.setPrice ts price, []) := by
    simp only [beforeConditionals, checkTpsl, tryTradeTpsl, setPrice_tpsl, htpsl]
    simp [checkTrailingStop, htrailing]
  rw [onNewPrice, hbefore]
  rfl

end BacktestTradingGateway

end CryptoTrading

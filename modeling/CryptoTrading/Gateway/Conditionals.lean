import CryptoTrading.Gateway.Backtest
import CryptoTrading.Lib.Runs

/-! # Stop losses and take profits of the backtest gateway

The loops that trigger conditional orders skip the order after a triggered one. They
do what they should just when no order that triggers follows directly on another one
and the last order of the list does not trigger.
-/

namespace CryptoTrading

open EraseLoop Runs

def ConditionalType.triggered : ConditionalType → ℚ → ConditionalMarketOrder → Bool
  | .stopLoss => stopLossTriggered
  | .takeProfit => takeProfitTriggered

theorem ConditionalType.forall_iff {P : ConditionalType → Prop} :
    (∀ kind, P kind) ↔ P .stopLoss ∧ P .takeProfit :=
  ⟨fun h => ⟨h _, h _⟩, fun h kind => by cases kind <;> [exact h.1; exact h.2]⟩

instance {P : ConditionalType → Prop} [DecidablePred P] : Decidable (∀ kind, P kind) :=
  decidable_of_iff' _ ConditionalType.forall_iff

def ConditionalType.cancelRequest : ConditionalType → Guid → GatewayCall
  | .stopLoss, guid => .request (.cancelStopLoss guid)
  | .takeProfit, guid => .request (.cancelTakeProfit guid)

def GatewayCall.pushed (kind : ConditionalType) : GatewayCall → Option ConditionalMarketOrder
  | .request (.stopLoss o) => if kind = .stopLoss then some o else none
  | .request (.takeProfit o) => if kind = .takeProfit then some o else none
  | _ => none

def pushedOrders (kind : ConditionalType) (cs : List GatewayCall) : List ConditionalMarketOrder :=
  cs.filterMap (GatewayCall.pushed kind)

/-- No two conditional orders of the run share a guid. -/
def DistinctOrders (cs : List GatewayCall) : Prop :=
  ((pushedOrders .stopLoss cs ++ pushedOrders .takeProfit cs).map (·.guid)).Nodup

instance (cs : List GatewayCall) : Decidable (DistinctOrders cs) :=
  inferInstanceAs (Decidable (List.Nodup _))

namespace BacktestTradingGateway

def pending (g : BacktestTradingGateway) : ConditionalType → List ConditionalMarketOrder
  | .stopLoss => g.stopLosses
  | .takeProfit => g.takeProfits

/-- The orders of the list that the loop triggers at the price. -/
def triggered (g : BacktestTradingGateway) (kind : ConditionalType) (price : ℚ) :
    List ConditionalMarketOrder :=
  (loop (kind.triggered price) (g.pending kind)).erased

def NoneSatisfied (g : BacktestTradingGateway) (price : ℚ) : Prop :=
  ∀ kind, ∀ o ∈ g.pending kind, ¬ kind.triggered price o

def satisfiedEvents (g : BacktestTradingGateway) (ts : Milliseconds) (price : ℚ) :
    List GatewayEvent :=
  (g.stopLosses.filter (stopLossTriggered price)).flatMap (g.trigger ts price false) ++
    (g.takeProfits.filter (takeProfitTriggered price)).flatMap (g.trigger ts price true)

/-- The loops stay inside their lists, trade each order whose condition holds, and keep the
others in order. -/
structure TriggersExactly (g : BacktestTradingGateway) (ts : Milliseconds) (price : ℚ) : Prop where
  inside : ∀ kind, ¬ (loop (kind.triggered price) (g.pending kind)).pastEnd
  emitted : (g.tryTriggerConditionals ts price).2 = g.satisfiedEvents ts price
  kept : ∀ kind, (g.tryTriggerConditionals ts price).1.pending kind =
    (g.pending kind).filter (! kind.triggered price ·)

/-- The state, time and price with which a call comes to the conditional orders. -/
def triggerInput (g : BacktestTradingGateway) :
    GatewayCall → Option (BacktestTradingGateway × Milliseconds × ℚ)
  | .newPrice ts price => some ((g.beforeConditionals ts price).1, ts, price)
  | .request (.stopLoss o) =>
    some ({ g with stopLosses := g.stopLosses ++ [o] }, o.signalTs, g.lastPrice)
  | .request (.takeProfit o) =>
    some ({ g with takeProfits := g.takeProfits ++ [o] }, o.signalTs, g.lastPrice)
  | _ => none

def conditionalTrades (g : BacktestTradingGateway) (c : GatewayCall) : List Trade :=
  match g.triggerInput c with
  | some (g', ts, price) => (g'.tryTriggerConditionals ts price).2.filterMap GatewayEvent.trade?
  | none => []

/-- No order triggers directly behind another one. -/
def Unhindered (g : BacktestTradingGateway) (c : GatewayCall) : Prop :=
  ∀ x ∈ g.triggerInput c, ∀ kind : ConditionalType,
    NoNeighbours (kind.triggered x.2.2) (x.1.pending kind)

instance (g : BacktestTradingGateway) (price : ℚ) : Decidable (g.NoneSatisfied price) :=
  inferInstanceAs (Decidable (∀ kind, ∀ o ∈ g.pending kind, ¬ kind.triggered price o))

instance (g : BacktestTradingGateway) (c : GatewayCall) : Decidable (g.Unhindered c) :=
  inferInstanceAs (Decidable (∀ x ∈ g.triggerInput c, ∀ kind : ConditionalType,
    NoNeighbours (kind.triggered x.2.2) (x.1.pending kind)))

variable {g g' : BacktestTradingGateway} {ts : Milliseconds} {price : ℚ} {kind : ConditionalType}
  {c : GatewayCall} {cs : List GatewayCall} {k : Guid}

theorem tryTriggerConditionals_pending :
    (g.tryTriggerConditionals ts price).1.pending kind =
      (loop (kind.triggered price) (g.pending kind)).left := by
  cases kind <;> rfl

theorem tryTriggerConditionals_of_noNeighbours (ts : Milliseconds)
    (h : ∀ kind : ConditionalType, NoNeighbours (kind.triggered price) (g.pending kind)) :
    (g.tryTriggerConditionals ts price).2 = g.satisfiedEvents ts price ∧
      ∀ kind, (g.tryTriggerConditionals ts price).1.pending kind =
        (g.pending kind).filter (! kind.triggered price ·) := by
  have hsl := loop_of_noNeighbours (h .stopLoss)
  have htp := loop_of_noNeighbours (h .takeProfit)
  refine ⟨?_, fun kind => ?_⟩
  · have hsl' : (loop (stopLossTriggered price) g.stopLosses).erased = _ := hsl.1
    have htp' : (loop (takeProfitTriggered price) g.takeProfits).erased = _ := htp.1
    simp only [tryTriggerConditionals, satisfiedEvents]
    rw [hsl', htp']
    rfl
  · rw [tryTriggerConditionals_pending]
    exact (loop_of_noNeighbours (h kind)).2

/-- One call triggers exactly the satisfied orders just when both lists are spaced. -/
theorem triggersExactly_iff (g : BacktestTradingGateway) (ts : Milliseconds) (price : ℚ) :
    g.TriggersExactly ts price ↔
      ∀ kind : ConditionalType, Spaced (kind.triggered price) (g.pending kind) := by
  constructor
  · intro h kind
    have hkept := h.kept kind
    rw [tryTriggerConditionals_pending] at hkept
    exact loop_exact_iff.mp ⟨h.inside kind, hkept⟩
  · intro h
    obtain ⟨hemitted, hkept⟩ :=
      tryTriggerConditionals_of_noNeighbours ts fun kind => (h kind).1
    exact ⟨fun kind => (loop_exact_iff.mpr (h kind)).1, hemitted, hkept⟩

theorem noneSatisfied_of_noNeighbours
    (h : ∀ kind : ConditionalType, NoNeighbours (kind.triggered price) (g.pending kind)) :
    (g.tryTriggerConditionals ts price).1.NoneSatisfied price := by
  intro kind o ho
  rw [(tryTriggerConditionals_of_noNeighbours ts h).2 kind] at ho
  simpa using (List.mem_filter.mp ho).2

theorem tryTriggerConditionals_trades :
    (g.tryTriggerConditionals ts price).2.filterMap GatewayEvent.trade? =
      (g.triggered .stopLoss price ++ g.triggered .takeProfit price).map
        (g.conditionalTrade ts price) := by
  have htrades : ∀ takeProfit (os : List ConditionalMarketOrder),
      (os.flatMap (g.trigger ts price takeProfit)).filterMap GatewayEvent.trade? =
        os.map (g.conditionalTrade ts price) := by
    intro takeProfit os
    induction os with
    | nil => rfl
    | cons o os ih =>
      rw [List.flatMap_cons, List.filterMap_append, ih]
      cases takeProfit <;> rfl
  simp only [tryTriggerConditionals, List.filterMap_append, htrades, List.map_append]
  rfl

theorem handle_of_triggerInput {g' : BacktestTradingGateway}
    (h : g.triggerInput c = some (g', ts, price)) :
    g.step c = (g'.tryTriggerConditionals ts price).1 ∧
      (g'.tryTriggerConditionals ts price).2 <:+ (g.handle c).2 := by
  unfold triggerInput at h
  split at h
  case h_1 =>
    obtain ⟨rfl, rfl, rfl⟩ : _ ∧ _ ∧ _ := by simpa using h
    exact ⟨rfl, List.suffix_append ..⟩
  case h_2 | h_3 =>
    obtain ⟨rfl, rfl, rfl⟩ : _ ∧ _ ∧ _ := by simpa using h
    exact ⟨rfl, List.suffix_cons ..⟩
  case h_4 => simp at h

section Counting

def pendingCount (g : BacktestTradingGateway) (kind : ConditionalType) (k : Guid) : ℕ :=
  (g.pending kind).countP (·.guid = k)

def pushedCount (kind : ConditionalType) (k : Guid) (cs : List GatewayCall) : ℕ :=
  (pushedOrders kind cs).countP (·.guid = k)

def tradedCount (kind : ConditionalType) (k : Guid) (g : BacktestTradingGateway)
    (c : GatewayCall) : ℕ :=
  match g.triggerInput c with
  | some (g', _, price) => (g'.triggered kind price).countP (·.guid = k)
  | none => 0

theorem pushedCount_cons (c : GatewayCall) (cs : List GatewayCall) :
    pushedCount kind k (c :: cs) = pushedCount kind k [c] + pushedCount kind k cs := by
  rw [pushedCount, pushedOrders, ← List.singleton_append, List.filterMap_append,
    List.countP_append]
  rfl

theorem pushedCount_append (cs cs' : List GatewayCall) :
    pushedCount kind k (cs ++ cs') = pushedCount kind k cs + pushedCount kind k cs' := by
  rw [pushedCount, pushedOrders, List.filterMap_append, List.countP_append]
  rfl

theorem countP_eraseP (l : List ConditionalMarketOrder) :
    (l.eraseP (·.guid = k)).countP (·.guid = k) = l.countP (·.guid = k) - 1 := by
  induction l with
  | nil => rfl
  | cons o l ih =>
    by_cases ho : o.guid = k
    · simp [ho]
    · simpa [ho] using ih

theorem triggerInput_pending (h : g.triggerInput c = some (g', ts, price)) :
    g'.pending kind = g.pending kind ++ (c.pushed kind).toList := by
  unfold triggerInput at h
  split at h
  case h_1 =>
    obtain ⟨rfl, rfl, rfl⟩ : _ ∧ _ ∧ _ := by simpa using h
    cases kind
    · simp [pending, GatewayCall.pushed, beforeConditionals_stopLosses]
    · simp [pending, GatewayCall.pushed, beforeConditionals_takeProfits]
  case h_2 | h_3 =>
    obtain ⟨rfl, rfl, rfl⟩ : _ ∧ _ ∧ _ := by simpa using h
    cases kind <;> simp [pending, GatewayCall.pushed]
  case h_4 => simp at h

theorem step_of_no_triggerInput (kind : ConditionalType) (k : Guid)
    (h : g.triggerInput c = none) :
    (g.step c).pendingCount kind k ≤ g.pendingCount kind k ∧ c.pushed kind = none := by
  unfold pendingCount
  cases c with
  | newPrice ts price => simp [triggerInput] at h
  | request r =>
    cases r with
    | stopLoss o | takeProfit o => simp [triggerInput] at h
    | order o | trailingStop ev => exact ⟨by cases kind <;> exact le_rfl, rfl⟩
    | tpsl ev =>
      refine ⟨?_, rfl⟩
      simp only [step, handle, pushRequest, pushTpslRequest]
      split <;> cases kind <;> exact le_rfl
    | cancelStopLoss j =>
      refine ⟨?_, rfl⟩
      simp only [step, handle, pushRequest, cancelStopLossRequest]
      split
      · cases kind
        · exact List.eraseP_sublist.countP_le
        · exact le_rfl
      · exact le_rfl
    | cancelTakeProfit j =>
      refine ⟨?_, rfl⟩
      simp only [step, handle, pushRequest, cancelTakeProfitRequest]
      split
      · cases kind
        · exact le_rfl
        · exact List.eraseP_sublist.countP_le
      · exact le_rfl

/-- One call: what trades and what stays pending was pending before or is pushed by it. -/
theorem step_count (kind : ConditionalType) (k : Guid) (g : BacktestTradingGateway)
    (c : GatewayCall) :
    tradedCount kind k g c + (g.step c).pendingCount kind k ≤
      g.pendingCount kind k + pushedCount kind k [c] := by
  cases h : g.triggerInput c with
  | none =>
    have hle := (step_of_no_triggerInput kind k h).1
    simp only [tradedCount, h]
    omega
  | some x =>
    obtain ⟨g', ts, price⟩ := x
    have hloop := countP_loop (p := kind.triggered price) (fun o => decide (o.guid = k))
      (g'.pending kind)
    rw [triggerInput_pending h, List.countP_append] at hloop
    have hpushed : (c.pushed kind).toList.countP (fun o => decide (o.guid = k)) =
        pushedCount kind k [c] := by
      unfold pushedCount pushedOrders
      cases hc : c.pushed kind <;> simp [hc]
    simp only [tradedCount, h, triggered, pendingCount, (handle_of_triggerInput h).1,
      tryTriggerConditionals_pending]
    rw [triggerInput_pending h, ← hpushed]
    omega

def runTradedCount (kind : ConditionalType) (k : Guid) :
    BacktestTradingGateway → List GatewayCall → ℕ
  | _, [] => 0
  | g, c :: cs => tradedCount kind k g c + runTradedCount kind k (g.step c) cs

theorem run_count (kind : ConditionalType) (k : Guid) (cs : List GatewayCall)
    (g : BacktestTradingGateway) :
    runTradedCount kind k g cs + (after step g cs).pendingCount kind k ≤
      g.pendingCount kind k + pushedCount kind k cs := by
  induction cs generalizing g with
  | nil => simp [runTradedCount, pushedCount, pushedOrders]
  | cons c cs ih =>
    have hstep := step_count kind k g c
    have hrun := ih (g.step c)
    rw [pushedCount_cons, runTradedCount, after_cons]
    omega

theorem countP_conditionalTrades :
    (g.conditionalTrades c).countP (·.orderGuid = k) =
      tradedCount .stopLoss k g c + tradedCount .takeProfit k g c := by
  unfold conditionalTrades tradedCount
  cases g.triggerInput c with
  | none => rfl
  | some x =>
    simp only [tryTriggerConditionals_trades, List.countP_map, List.countP_append]
    rfl

theorem countP_outputs (cs : List GatewayCall) (g : BacktestTradingGateway) :
    (outputs step conditionalTrades g cs).countP (·.orderGuid = k) =
      runTradedCount .stopLoss k g cs + runTradedCount .takeProfit k g cs := by
  induction cs generalizing g with
  | nil => rfl
  | cons c cs ih =>
    rw [outputs, List.countP_append, countP_conditionalTrades, ih]
    simp only [runTradedCount]
    omega

theorem pushedCount_le_one (h : DistinctOrders cs) (k : Guid) :
    pushedCount .stopLoss k cs + pushedCount .takeProfit k cs ≤ 1 := by
  have hcount := List.nodup_iff_count.mp h k
  rw [List.count, List.countP_map, List.countP_append] at hcount
  exact hcount

theorem cancel_pendingCount (g : BacktestTradingGateway) (kind : ConditionalType) (k : Guid) :
    (g.step (kind.cancelRequest k)).pendingCount kind k = g.pendingCount kind k - 1 := by
  have hnone : ∀ l : List ConditionalMarketOrder, ¬ (l.any (·.guid = k)) = true →
      l.countP (·.guid = k) = l.countP (·.guid = k) - 1 := by
    intro l hl
    rw [List.countP_eq_zero.mpr (by simpa using hl)]
  unfold pendingCount
  cases kind with
  | stopLoss =>
    simp only [step, handle, ConditionalType.cancelRequest, pushRequest, cancelStopLossRequest]
    split
    case isTrue => exact countP_eraseP g.stopLosses
    case isFalse h => exact hnone _ h
  | takeProfit =>
    simp only [step, handle, ConditionalType.cancelRequest, pushRequest, cancelTakeProfitRequest]
    split
    case isTrue => exact countP_eraseP g.takeProfits
    case isFalse h => exact hnone _ h

theorem outputs_nodup (h : DistinctOrders cs) :
    ((outputs step conditionalTrades init cs).map Trade.orderGuid).Nodup := by
  rw [List.nodup_iff_count]
  intro k
  have hsl := run_count .stopLoss k cs init
  have htp := run_count .takeProfit k cs init
  have hle := pushedCount_le_one h k
  have hout := countP_outputs (k := k) cs init
  have h₀ : ∀ kind, init.pendingCount kind k = 0 := fun kind => by cases kind <;> rfl
  rw [h₀] at hsl htp
  rw [List.count, List.countP_map]
  calc (outputs step conditionalTrades init cs).countP (·.orderGuid = k)
      = runTradedCount .stopLoss k init cs + runTradedCount .takeProfit k init cs :=
        countP_outputs cs init
    _ ≤ 1 := by omega

theorem counts_after_cancel {pre post : List GatewayCall} (kind' : ConditionalType)
    (h : DistinctOrders (pre ++ kind.cancelRequest k :: post))
    (hk : k ∈ (pushedOrders kind pre).map (·.guid)) :
    (after step init (pre ++ [kind.cancelRequest k])).pendingCount kind' k = 0 ∧
      pushedCount kind' k post = 0 := by
  have hle := pushedCount_le_one h k
  simp only [pushedCount_append, pushedCount_cons _ post] at hle
  have hpos : 0 < pushedCount kind k pre := by
    obtain ⟨o, ho, hok⟩ := List.mem_map.mp hk
    exact List.countP_pos_iff.mpr ⟨o, ho, by simpa using hok⟩
  have hrun := run_count kind' k pre init
  have h₀ : init.pendingCount kind' k = 0 := by cases kind' <;> rfl
  have hcancel := cancel_pendingCount (after step init pre) kind k
  have hother := (step_of_no_triggerInput (g := after step init pre)
    (c := kind.cancelRequest k) kind' k (by cases kind <;> rfl)).1
  rw [after_concat]
  cases kind <;> cases kind' <;> omega

theorem not_traded_after_cancel {pre post : List GatewayCall}
    (h : DistinctOrders (pre ++ kind.cancelRequest k :: post))
    (hk : k ∈ (pushedOrders kind pre).map (·.guid)) :
    ∀ t ∈ outputs step conditionalTrades (after step init (pre ++ [kind.cancelRequest k])) post,
      t.orderGuid ≠ k := by
  obtain ⟨hsl, hsl'⟩ := counts_after_cancel .stopLoss h hk
  obtain ⟨htp, htp'⟩ := counts_after_cancel .takeProfit h hk
  have hrunsl := run_count .stopLoss k post
    (after step init (pre ++ [kind.cancelRequest k]))
  have hruntp := run_count .takeProfit k post
    (after step init (pre ++ [kind.cancelRequest k]))
  have hout := countP_outputs (k := k) post (after step init (pre ++ [kind.cancelRequest k]))
  have hzero : (outputs step conditionalTrades
      (after step init (pre ++ [kind.cancelRequest k])) post).countP (·.orderGuid = k) = 0 := by
    omega
  simpa using List.countP_eq_zero.mp hzero

end Counting

/--
A call triggers exactly the orders whose condition holds just when its lists are spaced. In
a run, no condition is satisfied after a price or a push that finds no order to trigger
behind another one; no order trades twice, or after its cancel.
-/
theorem conditionals_trigger_exactly (g : BacktestTradingGateway) (ts : Milliseconds) (price : ℚ)
    (cs : List GatewayCall) :
    (g.TriggersExactly ts price ↔
      ∀ kind : ConditionalType, Spaced (kind.triggered price) (g.pending kind)) ∧
    (Meets step Unhindered init cs →
      ∀ pre c post, cs = pre ++ c :: post →
        ∀ x ∈ (after step init pre).triggerInput c,
          (after step init (pre ++ [c])).NoneSatisfied x.2.2) ∧
    (DistinctOrders cs →
      ((outputs step conditionalTrades init cs).map Trade.orderGuid).Nodup ∧
      ∀ pre (kind : ConditionalType) k post, cs = pre ++ kind.cancelRequest k :: post →
        k ∈ (pushedOrders kind pre).map (·.guid) →
          ∀ t ∈ outputs step conditionalTrades
              (after step init (pre ++ [kind.cancelRequest k])) post,
            t.orderGuid ≠ k) := by
  refine ⟨triggersExactly_iff g ts price, fun hcs => ?_, fun hcs => ⟨outputs_nodup hcs, ?_⟩⟩
  · rintro pre c post rfl ⟨g', ts, price⟩ hx
    have hinput := Option.mem_def.mp hx
    have hclear := (meets_append.mp hcs).2.1 _ hx
    rw [after_concat, (handle_of_triggerInput hinput).1]
    exact noneSatisfied_of_noNeighbours hclear
  · rintro pre kind k post rfl hk
    exact not_traded_after_cancel hcs hk

/-- Two stop losses, of which the price triggers the first and a cancel removes the second. -/
theorem conditionals_trigger_exactly_sells :
    let sell (k : Guid) (price : ℚ) : GatewayCall :=
      .request (.stopLoss (.new k "BTCUSDT" price ⟨1, zero_le_one⟩ .sell .stopLoss 2))
    let cs := [.newPrice 1 100, sell 1 90, sell 2 80, .newPrice 3 85]
    Meets step Unhindered init cs ∧ DistinctOrders (cs ++ [.request (.cancelStopLoss 2)]) ∧
      (after step init cs).NoneSatisfied 85 ∧
      ∀ t ∈ outputs step conditionalTrades
          (after step init (cs ++ [.request (.cancelStopLoss 2)])) [],
        t.orderGuid ≠ 2 := by
  intro sell cs
  have hmeets : Meets step Unhindered init cs := by decide +kernel
  have hdistinct : DistinctOrders (cs ++ [.request (.cancelStopLoss 2)]) := by decide +kernel
  obtain ⟨_, hclear, _⟩ := conditionals_trigger_exactly init 0 0 cs
  obtain ⟨_, _, hruns⟩ := conditionals_trigger_exactly init 0 0
    (cs ++ [.request (.cancelStopLoss 2)])
  exact ⟨hmeets, hdistinct,
    hclear hmeets [.newPrice 1 100, sell 1 90, sell 2 80] (.newPrice 3 85) [] rfl _ rfl,
    (hruns hdistinct).2 cs .stopLoss 2 [] rfl (by decide)⟩

/-- Of three stop losses, the second one is skipped although the price triggers it. -/
theorem conditionals_skip_neighbour :
    let sell (k : Guid) (price : ℚ) : GatewayCall :=
      .request (.stopLoss (.new k "BTCUSDT" price ⟨1, zero_le_one⟩ .sell .stopLoss 2))
    let g := after step init [.newPrice 1 100, sell 1 90, sell 2 90, sell 3 80]
    (g.conditionalTrades (.newPrice 3 85)).map Trade.orderGuid = [1] ∧
      (g.step (.newPrice 3 85)).stopLosses.map (·.guid) = [2, 3] ∧
      ¬ (g.step (.newPrice 3 85)).NoneSatisfied 85 := by
  decide +kernel

end BacktestTradingGateway

end CryptoTrading

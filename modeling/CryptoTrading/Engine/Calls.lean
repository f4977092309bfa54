import CryptoTrading.Engine.OrderManager
import CryptoTrading.Lib.Runs

/-! # Calls of the order manager

What its users ask of it: orders, cancels, exits and subscriptions to its orders. Every
order it ever knows has a guid that it generated.
-/

namespace CryptoTrading

open Runs

inductive OrderManagerCall
  | sendMarketOrder (price : ℚ) (vol : SignedVolume) (ts : Milliseconds)
  | sendTakeProfit (price : ℚ) (vol : SignedVolume) (ts : Milliseconds)
  | sendStopLoss (price : ℚ) (vol : SignedVolume) (ts : Milliseconds)
  | cancelTakeProfit (guid : Guid)
  | cancelStopLoss (guid : Guid)
  | sendTrailingStop (trailingStop : TrailingStopLoss)
  | sendTpsl (takeProfitPrice stopLossPrice : ℚ) (side : Side) (ts : Milliseconds)
  | setSubscribers (guid : Guid) (count : ℕ)
  | setTakeProfitSubscribers (guid : Guid) (count : ℕ)
  | setStopLossSubscribers (guid : Guid) (count : ℕ)
  deriving DecidableEq

def OrderManagerCall.sentVolume? : OrderManagerCall → Option SignedVolume
  | sendMarketOrder _ vol _ => some vol
  | sendTakeProfit _ vol _ => some vol
  | sendStopLoss _ vol _ => some vol
  | _ => none

def OrderManagerOutput.request? : OrderManagerOutput → Option GatewayRequest
  | request r => some r
  | error _ => none

namespace OrderManager

/-- What a call pushes; one that throws does it after pushing its error. -/
def call (om : OrderManager) : OrderManagerCall → OrderManager × List OrderManagerOutput
  | .sendMarketOrder price vol ts =>
    let (om, out, _) := om.sendMarketOrder price vol ts
    (om, out)
  | .sendTakeProfit price vol ts =>
    let (om, out, _) := om.sendTakeProfit price vol ts
    (om, out)
  | .sendStopLoss price vol ts =>
    let (om, out, _) := om.sendStopLoss price vol ts
    (om, out)
  | .cancelTakeProfit guid => om.cancelTakeProfit guid
  | .cancelStopLoss guid => om.cancelStopLoss guid
  | .sendTrailingStop trailingStop => om.sendTrailingStop trailingStop
  | .sendTpsl takeProfitPrice stopLossPrice side ts =>
    om.sendTpsl takeProfitPrice stopLossPrice side ts
  | .setSubscribers guid count => (om.setSubscribers guid count, [])
  | .setTakeProfitSubscribers guid count => om.setTakeProfitSubscribers guid count
  | .setStopLossSubscribers guid count => om.setStopLossSubscribers guid count

/-- The call reads the adjusted volume where there is none. -/
def throws (om : OrderManager) (c : OrderManagerCall) : Bool :=
  c.sentVolume?.any fun vol => ! (om.adjustedVolume vol).isOk

def input (om : OrderManager) : OrderManagerCall ⊕ GatewayEvent → OrderManager
  | .inl c => (om.call c).1
  | .inr e => om.step e

def Knows (om : OrderManager) (guid : Guid) : Prop :=
  guid ∈ om.orders ∨ guid ∈ om.takeProfits ∨ guid ∈ om.stopLosses

instance (om : OrderManager) (guid : Guid) : Decidable (om.Knows guid) :=
  inferInstanceAs (Decidable (_ ∨ _ ∨ _))

/-- What one step can do to the known guids: it may add the next one. -/
structure Keeps (om om' : OrderManager) : Prop where
  known : ∀ guid, om'.Knows guid → om.Knows guid ∨ guid = om.nextGuid
  nextGuid : om.nextGuid ≤ om'.nextGuid

variable {om om' om'' : OrderManager} {guid : Guid} {t : Trade}

theorem Keeps.of_maps (horders : ∀ g ∈ om'.orders, g ∈ om.orders)
    (htp : ∀ g ∈ om'.takeProfits, g ∈ om.takeProfits)
    (hsl : ∀ g ∈ om'.stopLosses, g ∈ om.stopLosses) (hnext : om.nextGuid ≤ om'.nextGuid) :
    om.Keeps om' := by
  constructor
  · intro g hg
    left
    rcases hg with hg | hg | hg
    · exact .inl (horders g hg)
    · exact .inr (.inl (htp g hg))
    · exact .inr (.inr (hsl g hg))
  · exact hnext

theorem Keeps.refl (om : OrderManager) : om.Keeps om :=
  .of_maps (fun _ => id) (fun _ => id) (fun _ => id) le_rfl

theorem keeps_sendMarketOrder (price : ℚ) (vol : SignedVolume) (ts : Milliseconds) :
    om.Keeps (om.sendMarketOrder price vol ts).1 := by
  unfold sendMarketOrder
  cases om.adjustedVolume vol with
  | error e => exact .refl om
  | ok adjusted =>
    constructor
    · rintro g (hg | hg)
      · rcases (AList.mem_insert _).mp hg with rfl | hg
        · exact .inr rfl
        · exact .inl (.inl hg)
      · exact .inl (.inr hg)
    · exact Nat.le_succ _

theorem guid_sendConditional {type : ConditionalType} {price : ℚ} {vol : SignedVolume}
    {ts : Milliseconds} {order : ConditionalMarketOrder}
    (h : om.sendConditional type price vol ts = .ok order) : order.guid = om.nextGuid := by
  unfold sendConditional at h
  cases hadj : om.adjustedVolume vol with
  | error e => simp [hadj, Except.map] at h
  | ok adjusted =>
    simp only [hadj, Except.map, Except.ok.injEq] at h
    exact h ▸ rfl

theorem keeps_sendTakeProfit (price : ℚ) (vol : SignedVolume) (ts : Milliseconds) :
    om.Keeps (om.sendTakeProfit price vol ts).1 := by
  unfold sendTakeProfit
  cases h : om.sendConditional .takeProfit price vol ts with
  | error e => exact .refl om
  | ok order =>
    constructor
    · rintro g (hg | hg | hg)
      · exact .inl (.inl hg)
      · rcases (AList.mem_insert _).mp hg with rfl | hg
        · exact .inr (guid_sendConditional h)
        · exact .inl (.inr (.inl hg))
      · exact .inl (.inr (.inr hg))
    · exact Nat.le_succ _

theorem keeps_sendStopLoss (price : ℚ) (vol : SignedVolume) (ts : Milliseconds) :
    om.Keeps (om.sendStopLoss price vol ts).1 := by
  unfold sendStopLoss
  cases h : om.sendConditional .stopLoss price vol ts with
  | error e => exact .refl om
  | ok order =>
    constructor
    · rintro g (hg | hg | hg)
      · exact .inl (.inl hg)
      · exact .inl (.inr (.inl hg))
      · rcases (AList.mem_insert _).mp hg with rfl | hg
        · exact .inr (guid_sendConditional h)
        · exact .inl (.inr (.inr hg))
    · exact Nat.le_succ _

theorem Keeps.trans (h : om.Keeps om') (hsame : om'.nextGuid = om.nextGuid)
    (h' : om'.Keeps om'') : om.Keeps om'' := by
  constructor
  · intro g hg
    rcases h'.known g hg with hg | rfl
    · exact h.known g hg
    · exact .inr hsame
  · exact h.nextGuid.trans h'.nextGuid

theorem keeps_cancelTakeProfit (guid : Guid) : om.Keeps (om.cancelTakeProfit guid).1 := by
  unfold cancelTakeProfit
  split
  · exact .of_maps (fun _ => id) (fun _ => GuidMap.mem_modify.mp) (fun _ => id) le_rfl
  · exact .refl om

theorem keeps_cancelStopLoss (guid : Guid) : om.Keeps (om.cancelStopLoss guid).1 := by
  unfold cancelStopLoss
  split
  · exact .of_maps (fun _ => id) (fun _ => id) (fun _ => GuidMap.mem_modify.mp) le_rfl
  · exact .refl om

theorem keeps_setSubscribers (guid : Guid) (count : ℕ) :
    om.Keeps (om.setSubscribers guid count) := by
  refine .of_maps (fun g hg => ?_) (fun _ => id) (fun _ => id) le_rfl
  simp only [setSubscribers] at hg
  split at hg
  · exact (AList.mem_erase.mp hg).2
  · exact GuidMap.mem_modify.mp hg

theorem nextGuid_cancelTakeProfit (guid : Guid) :
    (om.cancelTakeProfit guid).1.nextGuid = om.nextGuid := by
  unfold cancelTakeProfit
  split <;> rfl

theorem nextGuid_cancelStopLoss (guid : Guid) :
    (om.cancelStopLoss guid).1.nextGuid = om.nextGuid := by
  unfold cancelStopLoss
  split <;> rfl

theorem keeps_setTakeProfitSubscribers (guid : Guid) (count : ℕ) :
    om.Keeps (om.setTakeProfitSubscribers guid count).1 := by
  unfold setTakeProfitSubscribers
  split
  · apply (keeps_cancelTakeProfit guid).trans (nextGuid_cancelTakeProfit guid)
    exact .of_maps (fun _ => id) (fun _ hg => (AList.mem_erase.mp hg).2) (fun _ => id) le_rfl
  · exact .of_maps (fun _ => id) (fun _ => GuidMap.mem_modify.mp) (fun _ => id) le_rfl

theorem keeps_setStopLossSubscribers (guid : Guid) (count : ℕ) :
    om.Keeps (om.setStopLossSubscribers guid count).1 := by
  unfold setStopLossSubscribers
  split
  · apply (keeps_cancelStopLoss guid).trans (nextGuid_cancelStopLoss guid)
    exact .of_maps (fun _ => id) (fun _ => id) (fun _ hg => (AList.mem_erase.mp hg).2) le_rfl
  · exact .of_maps (fun _ => id) (fun _ => id) (fun _ => GuidMap.mem_modify.mp) le_rfl

theorem keeps_call (om : OrderManager) (c : OrderManagerCall) : om.Keeps (om.call c).1 := by
  cases c with
  | sendMarketOrder price vol ts => exact keeps_sendMarketOrder price vol ts
  | sendTakeProfit price vol ts => exact keeps_sendTakeProfit price vol ts
  | sendStopLoss price vol ts => exact keeps_sendStopLoss price vol ts
  | cancelTakeProfit guid => exact keeps_cancelTakeProfit guid
  | cancelStopLoss guid => exact keeps_cancelStopLoss guid
  | sendTrailingStop trailingStop =>
    exact .of_maps (fun _ => id) (fun _ => id) (fun _ => id) le_rfl
  | sendTpsl takeProfitPrice stopLossPrice side ts =>
    exact .of_maps (fun _ => id) (fun _ => id) (fun _ => id) (Nat.le_succ _)
  | setSubscribers guid count => exact keeps_setSubscribers guid count
  | setTakeProfitSubscribers guid count => exact keeps_setTakeProfitSubscribers guid count
  | setStopLossSubscribers guid count => exact keeps_setStopLossSubscribers guid count

theorem mem_of_tryTradeConditional {orders orders' : GuidMap ConditionalOrderChannel}
    (h : tryTradeConditional orders t = some orders') (hg : guid ∈ orders') : guid ∈ orders := by
  obtain ⟨ch, hch, rfl⟩ := Option.map_eq_some_iff.mp h
  split at hg
  · exact (AList.mem_erase.mp hg).2
  · rcases (AList.mem_insert _).mp hg with rfl | hg
    · exact AList.lookup_isSome.mp (by rw [hch]; rfl)
    · exact hg

theorem step_trade_routes (om : OrderManager) (t : Trade) :
    om.tryTradeMarketOrder t = some (om.step (.trade t)) ∨
      (∃ takeProfits, tryTradeConditional om.takeProfits t = some takeProfits ∧
        om.step (.trade t) = { om with takeProfits }) ∨
      (∃ stopLosses, tryTradeConditional om.stopLosses t = some stopLosses ∧
        om.step (.trade t) = { om with stopLosses }) ∨
      om.step (.trade t) = om := by
  simp only [step, onEvent, onTrade]
  cases hmarket : om.tryTradeMarketOrder t with
  | some om' => exact .inl rfl
  | none =>
    cases htp : om.tryTradeTakeProfit t with
    | some om' =>
      obtain ⟨takeProfits, htraded, rfl⟩ := Option.map_eq_some_iff.mp htp
      exact .inr (.inl ⟨takeProfits, htraded, rfl⟩)
    | none =>
      cases hsl : om.tryTradeStopLoss t with
      | some om' =>
        obtain ⟨stopLosses, htraded, rfl⟩ := Option.map_eq_some_iff.mp hsl
        exact .inr (.inr (.inl ⟨stopLosses, htraded, rfl⟩))
      | none =>
        right; right; right
        simp only
        split <;> rfl

theorem step_rest (om : OrderManager) (e : GatewayEvent) :
    (om.step e).symbol = om.symbol ∧
      ((∀ r, e ≠ .trailingStopUpdated r) → (om.step e).trailingStop = om.trailingStop) := by
  cases e with
  | orderResponse r =>
    simp only [step, onEvent, onOrderResponse]
    split <;> exact ⟨rfl, fun _ => rfl⟩
  | trade t =>
    rcases step_trade_routes om t with h | ⟨takeProfits, -, h⟩ | ⟨stopLosses, -, h⟩ | h
    · obtain ⟨_, _, hom⟩ := Option.map_eq_some_iff.mp h
      rw [← hom]
      exact ⟨rfl, fun _ => rfl⟩
    all_goals
      rw [h]
      exact ⟨rfl, fun _ => rfl⟩
  | tpslUpdated r =>
    simp only [step, onEvent, onTpslResponse]
    split
    · exact ⟨rfl, fun _ => rfl⟩
    · split <;> exact ⟨rfl, fun _ => rfl⟩
  | trailingStopUpdated r =>
    refine ⟨?_, fun hr => absurd rfl (hr r)⟩
    simp only [step, onEvent, onTrailingStopResponse]
    split
    · rfl
    · split <;> rfl
  | stopLossUpdated r =>
    simp only [step, onEvent, onStopLossResponse]
    split <;> exact ⟨rfl, fun _ => rfl⟩
  | takeProfitUpdated r =>
    simp only [step, onEvent, onTakeProfitResponse]
    split <;> exact ⟨rfl, fun _ => rfl⟩

theorem conditionals_step (e : GatewayEvent) :
    (∀ g ∈ (om.step e).takeProfits, g ∈ om.takeProfits) ∧
      ∀ g ∈ (om.step e).stopLosses, g ∈ om.stopLosses := by
  cases e with
  | orderResponse r =>
    simp only [step, onEvent, onOrderResponse]
    split <;> exact ⟨fun _ => id, fun _ => id⟩
  | trade t =>
    rcases step_trade_routes om t with h | ⟨takeProfits, htp, h⟩ | ⟨stopLosses, hsl, h⟩ | h
    · obtain ⟨_, _, hom⟩ := Option.map_eq_some_iff.mp h
      rw [← hom]
      exact ⟨fun _ => id, fun _ => id⟩
    · rw [h]
      exact ⟨fun _ => mem_of_tryTradeConditional htp, fun _ => id⟩
    · rw [h]
      exact ⟨fun _ => id, fun _ => mem_of_tryTradeConditional hsl⟩
    · rw [h]
      exact ⟨fun _ => id, fun _ => id⟩
  | tpslUpdated r =>
    simp only [step, onEvent, onTpslResponse]
    split
    · exact ⟨fun _ => id, fun _ => id⟩
    · split <;> exact ⟨fun _ => id, fun _ => id⟩
  | trailingStopUpdated r =>
    simp only [step, onEvent, onTrailingStopResponse]
    split
    · exact ⟨fun _ => id, fun _ => id⟩
    · split <;> exact ⟨fun _ => id, fun _ => id⟩
  | stopLossUpdated r =>
    simp only [step, onEvent, onStopLossResponse]
    split
    · exact ⟨fun _ => id, fun _ => GuidMap.mem_modify.mp⟩
    · exact ⟨fun _ => id, fun _ => id⟩
  | takeProfitUpdated r =>
    simp only [step, onEvent, onTakeProfitResponse]
    split
    · exact ⟨fun _ => GuidMap.mem_modify.mp, fun _ => id⟩
    · exact ⟨fun _ => id, fun _ => id⟩

theorem keeps_step (om : OrderManager) (e : GatewayEvent) : om.Keeps (om.step e) :=
  .of_maps (fun _ => mem_of_mem_step) (conditionals_step e).1 (conditionals_step e).2
    (step_cases om e).nextGuid.ge

theorem keeps_input (om : OrderManager) (x : OrderManagerCall ⊕ GatewayEvent) :
    om.Keeps (om.input x) := by
  cases x with
  | inl c => exact keeps_call om c
  | inr e => exact keeps_step om e

structure Issued (om : OrderManager) : Prop where
  known : ∀ guid, om.Knows guid → Guid.first ≤ guid
  nextGuid : Guid.first ≤ om.nextGuid

theorem Issued.step (h : om.Issued) (hk : om.Keeps om') : om'.Issued := by
  constructor
  · intro g hg
    rcases hk.known g hg with hg | rfl
    · exact h.known g hg
    · exact h.nextGuid
  · exact h.nextGuid.trans hk.nextGuid

theorem run_issued (symbol : Symbol) (xs : List (OrderManagerCall ⊕ GatewayEvent)) :
    (after input (init symbol) xs).Issued := by
  induction xs using List.reverseRecOn with
  | nil =>
    constructor
    · rintro g (hg | hg | hg) <;> cases hg
    · exact le_rfl
  | append_singleton xs x ih =>
    rw [after_concat]
    exact ih.step (keeps_input _ x)

end OrderManager

end CryptoTrading

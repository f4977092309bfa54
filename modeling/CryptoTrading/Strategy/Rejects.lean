import CryptoTrading.Lib.Runs
import CryptoTrading.Strategy.Base

/-! # Rejected orders

A reject only marks the order as acknowledged, so an order that has not traded stays
pending and blocks every further entry. The instance's own handler of responses,
which would send the order again, is subscribed to no channel.
-/

namespace CryptoTrading

open Runs

/-- What the strategy, its instance and the gateway do with the order manager. -/
inductive StrategyCall
  | trySendOrder (side : Side) (price : Price) (ts : Milliseconds)
  | sendMarketOrder (price : ℚ) (vol : SignedVolume) (ts : Milliseconds)
  | subscribers (guid : Guid) (count : ℕ)
  | openedPos (v : Bool)
  | gateway (e : GatewayEvent)

def StrategyCall.Concerns (guid : Guid) : StrategyCall → Prop
  | subscribers g _ => g = guid
  | gateway e => e.orderGuid? = some guid
  | _ => False

structure RejectLog where
  om : OrderManager
  strategy : StrategyBase
  rejected : List Guid

namespace RejectLog

def init (symbol : Symbol) : RejectLog := ⟨.init symbol, {}, []⟩

def step (s : RejectLog) : StrategyCall → RejectLog
  | .trySendOrder side price ts => { s with om := (s.strategy.trySendOrder s.om side price ts).1 }
  | .sendMarketOrder price vol ts => { s with om := (s.om.sendMarketOrder price vol ts).1 }
  | .subscribers guid count => { s with om := s.om.setSubscribers guid count }
  | .openedPos v => { s with strategy := s.strategy.onOpenedPos v }
  | .gateway e =>
    { s with
      om := s.om.step e
      rejected :=
        match e with
        | .orderResponse r =>
          if r.rejectReason.isSome ∧ r.requestGuid < s.om.nextGuid then
            r.requestGuid :: s.rejected
          else s.rejected
        | _ => s.rejected }

/-- A rejected order is no longer pending, and is sent again if that is asked for. -/
structure HandlesReject (s : RejectLog) (r : OrderResponseEvent) : Prop where
  removed : r.requestGuid ∉ (s.om.step (.orderResponse r)).pendingOrders
  resent : r.retry → ∃ order, .request (.order order) ∈ (s.om.onOrderResponse r).2 ∧
    order.guid ≠ r.requestGuid

/-- A reject asks for no retry, and its order is not pending or has traded. -/
def RejectsSettled (s : RejectLog) (c : StrategyCall) : Prop :=
  ∀ r, c = .gateway (.orderResponse r) → r.rejectReason.isSome →
    r.retry = false ∧ (s.om.orders.lookup r.requestGuid).all (·.traded)

variable {s : RejectLog} {c : StrategyCall} {r : OrderResponseEvent} {guid : Guid}
  {symbol : Symbol} {cs post : List StrategyCall}

theorem mem_step_response_iff :
    r.requestGuid ∈ (s.om.step (.orderResponse r)).pendingOrders ↔
      ¬ (s.om.orders.lookup r.requestGuid).all (·.traded) := by
  cases h : s.om.orders.lookup r.requestGuid with
  | none =>
    have hmem : r.requestGuid ∉ s.om.orders := AList.lookup_eq_none.mp h
    simp only [Option.all_none, not_true_eq_false, iff_false]
    exact fun hg => hmem (OrderManager.mem_of_mem_step hg)
  | some mo =>
    have horders : (s.om.step (.orderResponse r)).orders = _ :=
      (OrderManager.onOrderResponse_pending h).2
    have hpending : r.requestGuid ∈ (s.om.step (.orderResponse r)).pendingOrders ↔
      r.requestGuid ∈ (s.om.step (.orderResponse r)).orders := Iff.rfl
    rw [hpending, horders, Option.all_some]
    cases mo.traded with
    | true => simp
    | false => simp

theorem not_resent {order : MarketOrder} :
    .request (.order order) ∉ (s.om.onOrderResponse r).2 := by
  cases h : s.om.orders.lookup r.requestGuid with
  | none => simp [OrderManager.onOrderResponse_unsolicited h]
  | some mo => simp [(OrderManager.onOrderResponse_pending h).1]

theorem handlesReject_iff :
    s.HandlesReject r ↔
      r.retry = false ∧ (s.om.orders.lookup r.requestGuid).all (·.traded) := by
  constructor
  · rintro ⟨hremoved, hresent⟩
    refine ⟨?_, not_not.mp fun hopen => hremoved (mem_step_response_iff.mpr hopen)⟩
    by_contra hretry
    obtain ⟨order, horder, _⟩ := hresent (by simpa using hretry)
    exact not_resent horder
  · rintro ⟨hretry, hsettled⟩
    refine ⟨fun hmem => mem_step_response_iff.mp hmem hsettled, fun h => ?_⟩
    rw [hretry] at h
    cases h

theorem mem_step_of_not_concerns (h : guid ∈ s.om.orders) (hc : ¬ c.Concerns guid) :
    guid ∈ (s.step c).om.orders := by
  have hsend {price : ℚ} {vol : SignedVolume} {ts : Milliseconds} :
      guid ∈ (s.om.sendMarketOrder price vol ts).1.orders := by
    rcases s.om.sendMarketOrder_cases price vol ts with ⟨hom, _⟩ | ⟨o, hadds, _⟩
    · rwa [hom]
    · rw [hadds.orders]
      exact AList.mem_insert _ |>.mpr (.inr h)
  cases c with
  | trySendOrder side price ts =>
    simp only [step, StrategyBase.trySendOrder_of_mem h]
    exact h
  | sendMarketOrder price vol ts => exact hsend
  | subscribers g count =>
    simp only [step, OrderManager.setSubscribers]
    split
    · exact AList.mem_erase.mpr ⟨fun hg => hc hg.symm, h⟩
    · exact GuidMap.mem_modify.mpr h
  | openedPos v => exact h
  | gateway e => exact OrderManager.mem_step_of_ne hc h

/-- A pending order without further events keeps the strategy from sending, for ever. -/
theorem blocked_of_pending (h : guid ∈ s.om.orders) (hpost : ∀ c ∈ post, ¬ c.Concerns guid)
    (side : Side) (price : Price) (ts : Milliseconds) :
    let s' := after step s post
    s'.strategy.trySendOrder s'.om side price ts = (s'.om, [], some false) := by
  induction post generalizing s with
  | nil => exact StrategyBase.trySendOrder_of_mem h
  | cons c post ih =>
    exact ih (mem_step_of_not_concerns h (hpost c (by simp))) fun c' hc' => hpost c' (by simp [hc'])

def RejectedGone (s : RejectLog) : Prop :=
  ∀ g ∈ s.rejected, g < s.om.nextGuid ∧ g ∉ s.om.orders

theorem RejectedGone.of_orders {s' : RejectLog} (hs : s.RejectedGone)
    (hrejected : s'.rejected = s.rejected) (hnext : s'.om.nextGuid = s.om.nextGuid)
    (horders : ∀ g, g ∈ s'.om.orders → g ∈ s.om.orders) : s'.RejectedGone := by
  intro g hg
  rw [hrejected] at hg
  obtain ⟨hlt, hgone⟩ := hs g hg
  exact ⟨hlt.trans_eq hnext.symm, fun hmem => hgone (horders g hmem)⟩

theorem RejectedGone.send {s' : RejectLog} {price : ℚ} {vol : SignedVolume} {ts : Milliseconds}
    (hs : s.RejectedGone) (hrejected : s'.rejected = s.rejected)
    (hom : s'.om = (s.om.sendMarketOrder price vol ts).1) : s'.RejectedGone := by
  rcases s.om.sendMarketOrder_cases price vol ts with ⟨h, _⟩ | ⟨o, hadds, _⟩
  · rw [h] at hom
    exact hs.of_orders hrejected (by rw [hom]) fun g hg => by rwa [hom] at hg
  · intro g hg
    rw [hrejected] at hg
    obtain ⟨hlt, hgone⟩ := hs g hg
    rw [hom, hadds.orders, hadds.nextGuid]
    refine ⟨Nat.lt_succ_of_lt hlt, fun hmem => ?_⟩
    rcases AList.mem_insert _ |>.mp hmem with rfl | hmem
    · exact Nat.lt_irrefl _ hlt
    · exact hgone hmem

theorem RejectedGone.step (hs : s.RejectedGone) (hc : s.RejectsSettled c) :
    (s.step c).RejectedGone := by
  cases c with
  | trySendOrder side price ts =>
    rcases s.strategy.trySendOrder_cases s.om side price ts with h | ⟨_, _, vol, hom, _⟩
    · exact hs.of_orders rfl (by simp only [RejectLog.step, h]) fun g hg => by
        simpa only [RejectLog.step, h] using hg
    · exact hs.send rfl hom
  | sendMarketOrder price vol ts => exact hs.send rfl rfl
  | subscribers g count =>
    refine hs.of_orders rfl rfl fun g' hg' => ?_
    simp only [RejectLog.step, OrderManager.setSubscribers] at hg'
    split at hg'
    · exact (AList.mem_erase.mp hg').2
    · exact GuidMap.mem_modify.mp hg'
  | openedPos v => exact hs.of_orders rfl rfl fun g hg => hg
  | gateway e =>
    have hnext : (s.step (.gateway e)).om.nextGuid = s.om.nextGuid :=
      (s.om.step_cases e).nextGuid
    have horders (g : Guid) (hg : g ∈ (s.step (.gateway e)).om.orders) : g ∈ s.om.orders :=
      OrderManager.mem_of_mem_step hg
    by_cases hlog : (s.step (.gateway e)).rejected = s.rejected
    · exact hs.of_orders hlog hnext horders
    cases e with
    | orderResponse r =>
      by_cases hreject : r.rejectReason.isSome ∧ r.requestGuid < s.om.nextGuid
      · intro g hg
        have hrejected : (s.step (.gateway (.orderResponse r))).rejected =
            r.requestGuid :: s.rejected := if_pos hreject
        rw [hrejected] at hg
        rcases List.mem_cons.mp hg with rfl | hg
        · refine ⟨hreject.2.trans_eq hnext.symm, fun hmem => ?_⟩
          exact mem_step_response_iff.mp hmem (hc r rfl hreject.1).2
        · obtain ⟨hlt, hgone⟩ := hs g hg
          exact ⟨hlt.trans_eq hnext.symm, fun hmem => hgone (horders g hmem)⟩
      · exact absurd (if_neg hreject) hlog
    | trade t => exact absurd rfl hlog
    | tpslUpdated r => exact absurd rfl hlog
    | trailingStopUpdated r => exact absurd rfl hlog
    | stopLossUpdated r => exact absurd rfl hlog
    | takeProfitUpdated r => exact absurd rfl hlog

theorem handlesReject_of_run {pre post : List StrategyCall}
    (h : Meets RejectLog.step RejectsSettled (init symbol) cs)
    (hcs : cs = pre ++ .gateway (.orderResponse r) :: post) (hr : r.rejectReason.isSome) :
    (after RejectLog.step (init symbol) pre).HandlesReject r :=
  handlesReject_iff.mpr (meets_iff_split.mp h pre _ post hcs r rfl hr)

theorem meets_of_handlesReject
    (h : ∀ pre r post, cs = pre ++ .gateway (.orderResponse r) :: post → r.rejectReason.isSome →
      (after RejectLog.step (init symbol) pre).HandlesReject r) :
    Meets RejectLog.step RejectsSettled (init symbol) cs := by
  refine meets_iff_split.mpr fun pre c post hcs r hc hr => ?_
  subst hc
  exact handlesReject_iff.mp (h pre r post hcs hr)

/--
Every rejected order of a run leaves the pending orders for good, and is sent again where that
is asked for, just when no reject asks for it and each finds its order traded or not pending.
-/
theorem rejects_handled_iff (symbol : Symbol) (cs : List StrategyCall) :
    (∀ pre r post, cs = pre ++ .gateway (.orderResponse r) :: post → r.rejectReason.isSome →
        (after RejectLog.step (init symbol) pre).HandlesReject r) ∧
      (∀ pre, pre <+: cs → ∀ g ∈ (after RejectLog.step (init symbol) pre).rejected,
        g ∉ (after RejectLog.step (init symbol) pre).om.pendingOrders) ↔
      Meets RejectLog.step RejectsSettled (init symbol) cs := by
  constructor
  · rintro ⟨hhandled, _⟩
    exact meets_of_handlesReject hhandled
  · intro h
    refine ⟨fun pre r post hcs hr => handlesReject_of_run h hcs hr, fun pre hpre g hg => ?_⟩
    obtain ⟨post, rfl⟩ := hpre
    have hgone : (after RejectLog.step (init symbol) pre).RejectedGone :=
      (meets_append.mp h).1.invariant (fun _ _ hs hc => hs.step hc) (by simp [RejectedGone, init])
    exact (hgone g hg).2

/-- A rejected order stays pending and blocks all later entries, as long as nothing is heard
of it. -/
theorem rejected_blocks_entries :
    let s := after RejectLog.step (init ⟨"BTCUSDT", ⟨1, 100, 1⟩⟩)
      [.trySendOrder .buy ⟨100, OfNat.ofNat_ne_zero 100⟩ 1,
        .gateway (.orderResponse ⟨"BTCUSDT", 1, some "Order request timeout", false⟩)]
    (1 ∈ s.rejected ∧ 1 ∈ s.om.pendingOrders) ∧
      ∀ post : List StrategyCall, (∀ c ∈ post, ¬ c.Concerns 1) →
        ∀ side price ts, ((after RejectLog.step s post).strategy.trySendOrder
          (after RejectLog.step s post).om side price ts).2 = ([], some false) := by
  intro s
  have hpending : 1 ∈ s.rejected ∧ 1 ∈ s.om.pendingOrders := by decide +kernel
  refine ⟨hpending, fun post hpost side price ts => ?_⟩
  rw [blocked_of_pending hpending.2 hpost side price ts]

end RejectLog

end CryptoTrading

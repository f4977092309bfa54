import CryptoTrading.Engine.MarketOrders

/-! # Overlapping market orders

Any number of orders without subscribers, each with one response and one trade for its
whole volume, in any order. The orders' events are logged beside the order manager.
-/

namespace CryptoTrading

open Runs

inductive OrderCall
  | send (price : ℚ) (vol : SignedVolume) (ts : Milliseconds)
  | response (r : OrderResponseEvent)
  | trade (t : Trade)

/-- An order manager with the orders it has sent and the guids of those that were
acknowledged and that were traded. -/
structure OrderLog where
  om : OrderManager
  sent : List MarketOrder
  acked : List Guid
  traded : List Guid

namespace OrderLog

def init (symbol : Symbol) : OrderLog := ⟨.init symbol, [], [], []⟩

def step (s : OrderLog) : OrderCall → OrderLog
  | .send price vol ts =>
    let (om, out, _) := s.om.sendMarketOrder price vol ts
    { s with om, sent := s.sent ++ out.filterMap OrderManagerOutput.order? }
  | .response r => { s with om := s.om.step (.orderResponse r), acked := r.requestGuid :: s.acked }
  | .trade t => { s with om := s.om.step (.trade t), traded := t.orderGuid :: s.traded }

def errors (s : OrderLog) : OrderCall → List OrderManagerError
  | .send price vol ts =>
    (s.om.sendMarketOrder price vol ts).2.1.filterMap OrderManagerOutput.error?
  | .response r => s.om.errors (.orderResponse r)
  | .trade t => s.om.errors (.trade t)

def Sent (s : OrderLog) (guid : Guid) : Prop := ∃ o ∈ s.sent, o.guid = guid

def Finished (s : OrderLog) (guid : Guid) : Prop := guid ∈ s.acked ∧ guid ∈ s.traded

instance (s : OrderLog) (guid : Guid) : Decidable (s.Sent guid) :=
  inferInstanceAs (Decidable (∃ o ∈ s.sent, o.guid = guid))

instance (s : OrderLog) (guid : Guid) : Decidable (s.Finished guid) :=
  inferInstanceAs (Decidable (_ ∧ _))

/-- Sends have a proper volume; a sent order gets one response, which does not reject it, and
one trade, of its whole volume. -/
def OneEventEach (s : OrderLog) : OrderCall → Prop
  | .send _ vol _ => (s.om.adjustedVolume vol).isOk
  | .response r => s.Sent r.requestGuid ∧ r.requestGuid ∉ s.acked ∧ r.rejectReason = none
  | .trade t =>
    t.orderGuid ∉ s.traded ∧ ∃ o ∈ s.sent, o.guid = t.orderGuid ∧ t.unsignedVolume = o.targetVolume

instance (s : OrderLog) : (c : OrderCall) → Decidable (s.OneEventEach c)
  | .send _ vol _ => inferInstanceAs (Decidable ((s.om.adjustedVolume vol).isOk = true))
  | .response _ => inferInstanceAs (Decidable (_ ∧ _ ∧ _))
  | .trade _ => inferInstanceAs (Decidable (_ ∧ _))

def entry (s : OrderLog) (guid : Guid) : Option MarketOrderChannelWithAckInfo :=
  if s.Sent guid ∧ ¬ s.Finished guid then
    some { acked := guid ∈ s.acked, traded := guid ∈ s.traded }
  else none

def ObjectOf (s : OrderLog) (o o' : MarketOrder) : Prop :=
  o'.rejectReason = "" ∧ o'.targetVolume = o.targetVolume ∧
    o'.filledVolume = if o.guid ∈ s.traded then o.targetVolume else .zero

/-- The order manager's orders are the unfinished ones of the log. -/
structure Agrees (s : OrderLog) : Prop where
  fresh : ∀ o ∈ s.sent, o.guid < s.om.nextGuid
  unique : ∀ o ∈ s.sent, ∀ o' ∈ s.sent, o.guid = o'.guid → o = o'
  acked : ∀ g ∈ s.acked, s.Sent g
  traded : ∀ g ∈ s.traded, s.Sent g
  pending : ∀ g, s.om.orders.lookup g = s.entry g
  object : ∀ o ∈ s.sent, ∃ o', s.om.marketOrders.lookup o.guid = some o' ∧ s.ObjectOf o o'

variable {s s' : OrderLog} {g : Guid} {price : ℚ} {vol adjusted : SignedVolume} {ts : Milliseconds}
  {r : OrderResponseEvent} {t : Trade} {symbol : Symbol}

theorem entry_of_pending (hs : s.Sent g) (hf : ¬ s.Finished g) :
    s.entry g = some { acked := g ∈ s.acked, traded := g ∈ s.traded } := if_pos ⟨hs, hf⟩

theorem entry_of_finished (hf : s.Finished g) : s.entry g = none := if_neg fun h => h.2 hf

theorem entry_congr (hsent : s.Sent g ↔ s'.Sent g) (hacked : g ∈ s.acked ↔ g ∈ s'.acked)
    (htraded : g ∈ s.traded ↔ g ∈ s'.traded) : s.entry g = s'.entry g := by
  simp only [entry, Finished, hsent, hacked, htraded]
  congr

theorem init_agrees : (init symbol).Agrees where
  fresh := by simp [init]
  unique := by simp [init]
  acked := by simp [init]
  traded := by simp [init]
  pending g := by
    rw [entry, if_neg (by simp [init, Sent])]
    rfl
  object := by simp [init]

theorem adjusted_of_isOk (h : (s.om.adjustedVolume vol).isOk) :
    ∃ adjusted, s.om.adjustedVolume vol = .ok adjusted := by
  cases hadj : s.om.adjustedVolume vol with
  | error e => rw [hadj] at h; cases h
  | ok adjusted => exact ⟨adjusted, rfl⟩

def newOrder (s : OrderLog) (price : ℚ) (adjusted : SignedVolume) (ts : Milliseconds) :
    MarketOrder :=
  .ofSigned s.om.nextGuid s.om.symbol.symbolName price adjusted ts

theorem step_send (h : s.om.adjustedVolume vol = .ok adjusted) :
    s.errors (.send price vol ts) = [] ∧
      s.step (.send price vol ts) =
        { s with
          om := { s.om with
            orders := s.om.orders.insert s.om.nextGuid {}
            marketOrders := s.om.marketOrders.insert s.om.nextGuid (s.newOrder price adjusted ts)
            nextGuid := s.om.nextGuid + 1 }
          sent := s.sent ++ [s.newOrder price adjusted ts] } := by
  simp only [errors, step, OrderManager.sendMarketOrder_ok h]
  exact ⟨rfl, rfl⟩

theorem Agrees.not_sent_next (hs : s.Agrees) : ¬ s.Sent s.om.nextGuid := by
  rintro ⟨o, ho, hguid⟩
  exact absurd hguid (Nat.ne_of_lt (hs.fresh o ho))

theorem sent_send {o : MarketOrder} {g : Guid} :
    ({ s with sent := s.sent ++ [o] } : OrderLog).Sent g ↔ s.Sent g ∨ g = o.guid := by
  simp only [Sent, List.mem_append, List.mem_singleton]
  constructor
  · rintro ⟨o', ho' | rfl, rfl⟩
    · exact .inl ⟨o', ho', rfl⟩
    · exact .inr rfl
  · rintro (⟨o', ho', rfl⟩ | rfl)
    · exact ⟨o', .inl ho', rfl⟩
    · exact ⟨o, .inr rfl, rfl⟩

theorem Agrees.step_send (hs : s.Agrees) (h : s.om.adjustedVolume vol = .ok adjusted) :
    (s.step (.send price vol ts)).Agrees := by
  rw [(OrderLog.step_send h).2]
  have hnew := hs.not_sent_next
  have hnotAcked : s.om.nextGuid ∉ s.acked := fun hg => hnew (hs.acked _ hg)
  have hnotTraded : s.om.nextGuid ∉ s.traded := fun hg => hnew (hs.traded _ hg)
  refine ⟨fun o ho => ?_, fun o ho o' ho' hguid => ?_, fun g hg => ?_, fun g hg => ?_,
    fun g => ?_, fun o ho => ?_⟩
  · rcases List.mem_append.mp ho with ho | ho
    · exact Nat.lt_succ_of_lt (hs.fresh o ho)
    · obtain rfl := List.mem_singleton.mp ho
      exact Nat.lt_succ_self _
  · rcases List.mem_append.mp ho with ho | ho <;> rcases List.mem_append.mp ho' with ho' | ho'
    · exact hs.unique o ho o' ho' hguid
    · obtain rfl := List.mem_singleton.mp ho'
      exact absurd ⟨o, ho, hguid⟩ hnew
    · obtain rfl := List.mem_singleton.mp ho
      exact absurd ⟨o', ho', hguid.symm⟩ hnew
    · rw [List.mem_singleton.mp ho, List.mem_singleton.mp ho']
  · exact sent_send.mpr (.inl (hs.acked g hg))
  · exact sent_send.mpr (.inl (hs.traded g hg))
  · by_cases hg : g = s.om.nextGuid
    · subst hg
      have hsent : (s.step (.send price vol ts)).Sent s.om.nextGuid := by
        rw [(OrderLog.step_send h).2]
        exact sent_send.mpr (.inr rfl)
      have hentry := entry_of_pending hsent fun hf => hnotAcked hf.1
      rw [(OrderLog.step_send h).2] at hentry
      rw [AList.lookup_insert, hentry]
      simp [hnotAcked, hnotTraded]
    · rw [AList.lookup_insert_ne hg, hs.pending g]
      refine entry_congr ?_ Iff.rfl Iff.rfl
      exact (sent_send.trans (or_iff_left hg)).symm
  · rcases List.mem_append.mp ho with ho | ho
    · obtain ⟨o', ho', hobject⟩ := hs.object o ho
      refine ⟨o', ?_, hobject⟩
      rw [← ho']
      exact AList.lookup_insert_ne (Nat.ne_of_lt (hs.fresh o ho))
    · obtain rfl := List.mem_singleton.mp ho
      refine ⟨_, AList.lookup_insert _, rfl, rfl, ?_⟩
      exact (if_neg hnotTraded).symm

theorem Agrees.step_response (hs : s.Agrees) (hsent : s.Sent r.requestGuid)
    (hnew : r.requestGuid ∉ s.acked) (hr : r.rejectReason = none) :
    s.errors (.response r) = [] ∧ (s.step (.response r)).Agrees := by
  have hlookup := hs.pending r.requestGuid
  rw [entry_of_pending hsent fun hf => hnew hf.1] at hlookup
  obtain ⟨herr, hobjects, horders⟩ := OrderManager.step_response_pending hlookup hr
  obtain ⟨hguid, _⟩ := OrderManager.step_response_rest s.om r
  refine ⟨herr, fun o ho => ?_, hs.unique, fun g hg => ?_, hs.traded, fun g => ?_, fun o ho => ?_⟩
  · exact (hs.fresh o ho).trans_eq hguid.symm
  · rcases List.mem_cons.mp hg with rfl | hg
    · exact hsent
    · exact hs.acked g hg
  · have hstep : (s.step (.response r)).om = s.om.step (.orderResponse r) := rfl
    rw [hstep, horders]
    by_cases hg : g = r.requestGuid
    · subst hg
      by_cases ht : r.requestGuid ∈ s.traded
      · have hdone : (s.step (.response r)).Finished r.requestGuid :=
          ⟨List.mem_cons_self, ht⟩
        rw [if_pos (by simpa using ht), AList.lookup_erase, entry_of_finished hdone]
      · have hopen : (s.step (.response r)).entry r.requestGuid = _ :=
          entry_of_pending hsent fun hf => ht hf.2
        rw [if_neg (by simpa using ht), AList.lookup_insert, hopen]
        simp [OrderLog.step, ht]
    · have hcongr : (s.step (.response r)).entry g = s.entry g :=
        entry_congr Iff.rfl (by simp [OrderLog.step, hg]) Iff.rfl
      rw [hcongr, ← hs.pending g]
      exact GuidMap.lookup_eraseOrInsert_of_ne hg
  · obtain ⟨o', ho', hobject⟩ := hs.object o ho
    exact ⟨o', (congrArg (AList.lookup o.guid) hobjects).trans ho', hobject⟩

theorem Agrees.step_trade {o : MarketOrder} (hs : s.Agrees) (hnew : t.orderGuid ∉ s.traded)
    (ho : o ∈ s.sent) (hguid : o.guid = t.orderGuid) (hvol : t.unsignedVolume = o.targetVolume) :
    s.errors (.trade t) = [] ∧ (s.step (.trade t)).Agrees := by
  have hsent : s.Sent t.orderGuid := ⟨o, ho, hguid⟩
  have hlookup := hs.pending t.orderGuid
  rw [entry_of_pending hsent fun hf => hnew hf.2] at hlookup
  obtain ⟨herr, hobjects, horders⟩ := OrderManager.step_trade_pending hlookup
  obtain ⟨hnext, _⟩ := OrderManager.step_trade_nextGuid hlookup
  refine ⟨herr, fun o ho => ?_, hs.unique, hs.acked, fun g hg => ?_, fun g => ?_, fun o' ho' => ?_⟩
  · exact (hs.fresh o ho).trans_eq hnext.symm
  · rcases List.mem_cons.mp hg with rfl | hg
    · exact hsent
    · exact hs.traded g hg
  · have hstep : (s.step (.trade t)).om = s.om.step (.trade t) := rfl
    rw [hstep, horders]
    by_cases hg : g = t.orderGuid
    · subst hg
      by_cases ha : t.orderGuid ∈ s.acked
      · have hdone : (s.step (.trade t)).Finished t.orderGuid := ⟨ha, List.mem_cons_self⟩
        rw [if_pos (by simpa using ha), AList.lookup_erase, entry_of_finished hdone]
      · have hopen : (s.step (.trade t)).entry t.orderGuid = _ :=
          entry_of_pending hsent fun hf => ha hf.1
        rw [if_neg (by simpa using ha), AList.lookup_insert, hopen]
        simp [OrderLog.step, ha]
    · have hcongr : (s.step (.trade t)).entry g = s.entry g :=
        entry_congr Iff.rfl Iff.rfl (by simp [OrderLog.step, hg])
      rw [hcongr, ← hs.pending g]
      exact GuidMap.lookup_eraseOrInsert_of_ne hg
  · obtain ⟨x, hx, hreject, htarget, hfilled⟩ := hs.object o' ho'
    have hstep : (s.step (.trade t)).om = s.om.step (.trade t) := rfl
    rw [hstep, hobjects]
    by_cases hg : o'.guid = t.orderGuid
    · obtain rfl : o' = o := hs.unique o' ho' o ho (hg.trans hguid.symm)
      rw [hg] at hx hfilled
      rw [if_neg hnew] at hfilled
      rw [hg, GuidMap.lookup_modify_self, hx]
      refine ⟨_, rfl, hreject, htarget, ?_⟩
      rw [if_pos (by simp [OrderLog.step, hg]), ← hvol]
      simp only [MarketOrder.onTrade, hfilled]
      ext
      simp
    · refine ⟨x, (GuidMap.lookup_modify_of_ne hg).trans hx, hreject, htarget, hfilled.trans ?_⟩
      simp [OrderLog.step, hg]

theorem Agrees.step {c : OrderCall} (hs : s.Agrees) (hc : s.OneEventEach c) :
    s.errors c = [] ∧ (s.step c).Agrees := by
  cases c with
  | send price vol ts =>
    obtain ⟨adjusted, h⟩ := adjusted_of_isOk hc
    exact ⟨(OrderLog.step_send h).1, hs.step_send h⟩
  | response r =>
    obtain ⟨hsent, hnew, hr⟩ := hc
    exact hs.step_response hsent hnew hr
  | trade t =>
    obtain ⟨hnew, o, ho, hguid, hvol⟩ := hc
    exact hs.step_trade hnew ho hguid hvol

theorem run_agrees {cs : List OrderCall} (h : Meets OrderLog.step OneEventEach (init symbol) cs) :
    outputs OrderLog.step errors (init symbol) cs = [] ∧
      (after OrderLog.step (init symbol) cs).Agrees := by
  induction cs using List.reverseRecOn with
  | nil => exact ⟨rfl, init_agrees⟩
  | append_singleton cs c ih =>
    obtain ⟨hcs, hc⟩ := meets_concat.mp h
    obtain ⟨herr, hagrees⟩ := ih hcs
    obtain ⟨herr', hagrees'⟩ := hagrees.step hc
    rw [outputs_concat, after_concat, herr, herr']
    exact ⟨rfl, hagrees'⟩

/-- The pending orders are the sent ones that miss an event. -/
theorem Agrees.mem_pendingOrders (hs : s.Agrees) :
    g ∈ s.om.pendingOrders ↔ s.Sent g ∧ ¬ s.Finished g := by
  have hmem : g ∈ s.om.pendingOrders ↔ (s.om.orders.lookup g).isSome := AList.lookup_isSome.symm
  rw [hmem, hs.pending g, entry]
  split
  case isTrue h => simp [h]
  case isFalse h => simp [h]

theorem Agrees.filled {o : MarketOrder} (hs : s.Agrees) (ho : o ∈ s.sent)
    (hf : s.Finished o.guid) : ∃ o', s.om.marketOrders.lookup o.guid = some o' ∧
      o'.status = .filled ∧ o'.filledVolume = o.targetVolume := by
  obtain ⟨o', hlookup, hreject, htarget, hfilled⟩ := hs.object o ho
  rw [if_pos hf.2] at hfilled
  refine ⟨o', hlookup, ?_, hfilled⟩
  simp [MarketOrder.status, hreject, htarget, hfilled]

/--
In every run with one response and one full trade for each order, the pending orders are the
sent ones that miss an event, there is no error, every finished order is filled, and none is
pending when all are finished.
-/
theorem pending_iff_unfinished (symbol : Symbol) (cs : List OrderCall)
    (h : Meets OrderLog.step OneEventEach (init symbol) cs) :
    let s := after OrderLog.step (init symbol) cs
    (∀ g, g ∈ s.om.pendingOrders ↔ s.Sent g ∧ ¬ s.Finished g) ∧
      outputs OrderLog.step errors (init symbol) cs = [] ∧
      (∀ o ∈ s.sent, s.Finished o.guid → ∃ o', s.om.marketOrders.lookup o.guid = some o' ∧
        o'.status = .filled ∧ o'.filledVolume = o.targetVolume) ∧
      ((∀ o ∈ s.sent, s.Finished o.guid) → s.om.pendingOrders = []) := by
  intro s
  obtain ⟨herr, hs⟩ := run_agrees h
  refine ⟨fun g => hs.mem_pendingOrders, herr, fun o ho hf => hs.filled ho hf, fun hall => ?_⟩
  refine List.eq_nil_iff_forall_not_mem.mpr fun g hg => ?_
  obtain ⟨⟨o, ho, rfl⟩, hf⟩ := hs.mem_pendingOrders.mp hg
  exact hf (hall o ho)

/-- Two orders, one traded before its response and one after it. -/
theorem pending_iff_unfinished_two :
    let symbol : Symbol := ⟨"BTCUSDT", ⟨1, 100, 1⟩⟩
    let response (g : Guid) : OrderCall := .response ⟨"BTCUSDT", g, none, false⟩
    let trade (g : Guid) : OrderCall :=
      .trade ⟨2, "BTCUSDT", g, 100, ⟨1, zero_le_one⟩, .buy, 0⟩
    let cs := [.send 100 ⟨1⟩ 1, .send 100 ⟨1⟩ 1, trade 1, response 2, response 1, trade 2]
    Meets OrderLog.step OneEventEach (init symbol) cs ∧
      (after OrderLog.step (init symbol) cs).om.pendingOrders = [] := by
  intro symbol response trade cs
  have h : Meets OrderLog.step OneEventEach (init symbol) cs := by decide +kernel
  refine ⟨h, (pending_iff_unfinished symbol cs h).2.2.2 ?_⟩
  decide +kernel

end OrderLog

end CryptoTrading

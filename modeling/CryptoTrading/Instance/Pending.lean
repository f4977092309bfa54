import CryptoTrading.Instance.System

/-! # Entries among the pending orders

An entry is pending until the order manager has handled both its response and its
trade, wherever the two are in the queue.
-/

namespace CryptoTrading

open Runs

namespace OrderManager

def PendingWith (om : OrderManager) (guid : Guid)
    (flag : MarketOrderChannelWithAckInfo → Bool) : Prop :=
  ∃ mo, om.orders.lookup guid = some mo ∧ flag mo = false

variable {om om' : OrderManager} {guid : Guid} {flag : MarketOrderChannelWithAckInfo → Bool}
  {o : MarketOrder}

theorem PendingWith.mem (h : om.PendingWith guid flag) : guid ∈ om.orders := by
  obtain ⟨mo, hmo, _⟩ := h
  exact AList.lookup_isSome.mp (by rw [hmo]; rfl)

theorem PendingWith.adds (h : om.PendingWith guid flag) (hadds : om.Adds om' o)
    (hne : guid ≠ om.nextGuid) : om'.PendingWith guid flag := by
  obtain ⟨mo, hmo, hflag⟩ := h
  refine ⟨mo, ?_, hflag⟩
  rw [hadds.orders, AList.lookup_insert_ne hne, hmo]

theorem Adds.pendingWith (hadds : om.Adds om' o) (hflag : flag {} = false) :
    om'.PendingWith o.guid flag := by
  refine ⟨{}, ?_, hflag⟩
  rw [hadds.orders, hadds.guid, AList.lookup_insert]

theorem PendingWith.step_of_ne {e : GatewayEvent} (h : om.PendingWith guid flag)
    (hne : e.orderGuid? ≠ some guid) : (om.step e).PendingWith guid flag := by
  obtain ⟨mo, hmo, hflag⟩ := h
  refine ⟨mo, ?_, hflag⟩
  rw [step_lookup_of_ne hne, hmo]

theorem PendingWith.response {r : OrderResponseEvent}
    (h : om.PendingWith guid (·.traded)) : (om.step (.orderResponse r)).PendingWith guid
      (·.traded) := by
  by_cases hne : r.requestGuid = guid
  · subst hne
    obtain ⟨mo, hmo, htraded⟩ := h
    have horders : (om.step (.orderResponse r)).orders = _ := (onOrderResponse_pending hmo).2
    refine ⟨{ mo with acked := true }, ?_, htraded⟩
    rw [horders, if_neg (by simp [htraded]), AList.lookup_insert]
  · exact h.step_of_ne fun hsome => hne (Option.some.inj hsome)

theorem PendingWith.trade {t : Trade} (h : om.PendingWith guid (·.acked)) :
    (om.step (.trade t)).PendingWith guid (·.acked) := by
  by_cases hne : t.orderGuid = guid
  · subst hne
    obtain ⟨mo, hmo, hacked⟩ := h
    have hstep : om.onEvent (.trade t) = _ := onTrade_pending hmo
    refine ⟨{ mo with traded := true }, ?_, hacked⟩
    rw [step, hstep]
    simp only
    rw [if_neg (by simp [hacked]), AList.lookup_insert]
  · exact h.step_of_ne fun hsome => hne (Option.some.inj hsome)

end OrderManager

namespace InstanceEvent

def responseGuid? : InstanceEvent → Option Guid
  | orderResponse r => some r.requestGuid
  | _ => none

def orderTradeGuid? : InstanceEvent → Option Guid
  | orderTrade t => some t.orderGuid
  | _ => none

def NoOrder (e : InstanceEvent) : Prop := e.responseGuid? = none ∧ e.orderTradeGuid? = none

end InstanceEvent

namespace InstanceSystem

def responses (l : List InstanceEvent) : List Guid := l.filterMap InstanceEvent.responseGuid?

def orderTrades (l : List InstanceEvent) : List Guid := l.filterMap InstanceEvent.orderTradeGuid?

variable (s : InstanceSystem)

def tradedGuids : List Guid := s.traded.map (·.orderGuid)

def IsEntry (guid : Guid) : Prop := ∃ o ∈ s.entries, o.guid = guid

instance (guid : Guid) : Decidable (s.IsEntry guid) :=
  inferInstanceAs (Decidable (∃ o ∈ s.entries, o.guid = guid))

/-- The gateway answers every order once and trades it at most once; other trades only change
a position that is open. -/
def GatewayKeeps : InstanceStep → Prop
  | .respond r =>
    (∃ o ∈ s.entries ++ s.closings, o.guid = r.requestGuid) ∧ r.requestGuid ∉ s.acked
  | .beginTrade t =>
    t.orderGuid ∉ s.tradedGuids ∧ (s.IsEntry t.orderGuid ∨ t.orderGuid < s.om.nextGuid ∧
      (after PositionManager.step .init s.traded).openedPosition.isSome)
  | _ => True

instance : (c : InstanceStep) → Decidable (s.GatewayKeeps c)
  | .respond _ | .beginTrade _ => inferInstanceAs (Decidable (_ ∧ _))
  | .price .. | .endTrade | .stopAsync | .error _ | .mdStatus _ | .flush | .run =>
    inferInstanceAs (Decidable True)

/-- The order manager has still to handle the order's response. -/
def AwaitsResponse (guid : Guid) (l : List InstanceEvent) : Prop :=
  guid ∉ s.acked ∨ guid ∈ responses l

/-- The order manager has still to handle the order's trade. -/
def AwaitsTrade (guid : Guid) (l : List InstanceEvent) : Prop :=
  guid ∉ s.tradedGuids ∨ guid ∈ orderTrades l

structure Numbered : Prop where
  entries : ∀ o ∈ s.entries, o.guid < s.om.nextGuid
  closings : ∀ o ∈ s.closings, o.guid < s.om.nextGuid
  acked : ∀ g ∈ s.acked, g < s.om.nextGuid
  traded : ∀ g ∈ s.tradedGuids, g < s.om.nextGuid
  tradedOnce : s.tradedGuids.Nodup
  responsesOnce : (responses s.queue.normal).Nodup
  responsesAcked : ∀ g ∈ responses s.queue.normal, g ∈ s.acked
  orderTradesOnce : (orderTrades s.queue.normal).Nodup
  orderTradesTraded : ∀ g ∈ orderTrades s.queue.normal, g ∈ s.tradedGuids

/-- An entry is pending until the order manager has handled its response and its trade. -/
structure EntriesPending : Prop where
  unacked : ∀ o ∈ s.entries, s.AwaitsResponse o.guid s.queue.normal →
    s.om.PendingWith o.guid (·.acked)
  untraded : ∀ o ∈ s.entries, s.AwaitsTrade o.guid s.queue.normal →
    s.om.PendingWith o.guid (·.traded)

variable {s} {s' : InstanceSystem} {e : InstanceEvent} {l pre post : List InstanceEvent} {g : Guid}
  {r : OrderResponseEvent} {t : Trade} {om' : OrderManager} {o : MarketOrder}
  {queue : ThreadSafePriorityQueue InstanceEvent} {c : InstanceStep}

@[simp] theorem responses_append : responses (l ++ pre) = responses l ++ responses pre :=
  List.filterMap_append

@[simp] theorem orderTrades_append : orderTrades (l ++ pre) = orderTrades l ++ orderTrades pre :=
  List.filterMap_append

theorem nodup_append_singleton {l : List Guid} (hl : l.Nodup) (h : g ∉ l) : (l ++ [g]).Nodup :=
  List.concat_eq_append ▸ hl.concat h

theorem responses_sublist (h : l.Sublist pre) : (responses l).Sublist (responses pre) :=
  h.filterMap _

theorem orderTrades_sublist (h : l.Sublist pre) : (orderTrades l).Sublist (orderTrades pre) :=
  h.filterMap _

theorem normal_push_of_noOrder (s : InstanceSystem) (h : e.NoOrder) :
    responses (s.push e).queue.normal = responses s.queue.normal ∧
      orderTrades (s.push e).queue.normal = orderTrades s.queue.normal := by
  by_cases hp : e.priority = .normal
  · have hresponses : responses [e] = [] := List.filterMap_cons_none h.1
    have horderTrades : orderTrades [e] = [] := List.filterMap_cons_none h.2
    rw [normal_push s hp, responses_append, orderTrades_append, hresponses, horderTrades,
      List.append_nil, List.append_nil]
    exact ⟨rfl, rfl⟩
  · rw [normal_push_of_ne s hp]
    exact ⟨rfl, rfl⟩

theorem Numbered.push (hs : s.Numbered) (h : e.NoOrder) : (s.push e).Numbered := by
  obtain ⟨hresponses, horderTrades⟩ := normal_push_of_noOrder s h
  refine ⟨hs.entries, hs.closings, hs.acked, hs.traded, hs.tradedOnce, ?_, ?_, ?_, ?_⟩
  · rw [hresponses]
    exact hs.responsesOnce
  · rw [hresponses]
    exact hs.responsesAcked
  · rw [horderTrades]
    exact hs.orderTradesOnce
  · rw [horderTrades]
    exact hs.orderTradesTraded

theorem Numbered.respond (hs : s.Numbered) (h : s.GatewayKeeps (.respond r)) :
    (s.step (.respond r)).Numbered := by
  obtain ⟨⟨o, ho, hguid⟩, hnew⟩ := h
  have hlt : r.requestGuid < s.om.nextGuid := by
    rw [← hguid]
    rcases List.mem_append.mp ho with ho | ho
    · exact hs.entries o ho
    · exact hs.closings o ho
  have hresponses : responses (s.step (.respond r)).queue.normal =
      responses s.queue.normal ++ [r.requestGuid] := responses_append
  have horderTrades : orderTrades (s.step (.respond r)).queue.normal =
      orderTrades s.queue.normal := by
    rw [← List.append_nil (orderTrades s.queue.normal)]
    exact orderTrades_append
  refine ⟨hs.entries, hs.closings, ?_, hs.traded, hs.tradedOnce, ?_, ?_, ?_, ?_⟩
  · intro g hg
    rcases List.mem_cons.mp hg with rfl | hg
    · exact hlt
    · exact hs.acked g hg
  · rw [hresponses]
    exact nodup_append_singleton hs.responsesOnce fun hg => hnew (hs.responsesAcked _ hg)
  · rw [hresponses]
    intro g hg
    rcases List.mem_append.mp hg with hg | hg
    · exact List.mem_cons_of_mem _ (hs.responsesAcked g hg)
    · exact List.mem_singleton.mp hg ▸ List.mem_cons_self
  · rw [horderTrades]
    exact hs.orderTradesOnce
  · rw [horderTrades]
    exact hs.orderTradesTraded

def tradeBegun (s : InstanceSystem) (t : Trade) : InstanceSystem :=
  { s.push (.orderTrade t) with pushing := some t, traded := s.traded ++ [t] }

theorem tradedGuids_tradeBegun : (s.tradeBegun t).tradedGuids = s.tradedGuids ++ [t.orderGuid] := by
  simp [tradedGuids, tradeBegun]

theorem Numbered.tradeBegun (hs : s.Numbered) (h : s.GatewayKeeps (.beginTrade t)) :
    (s.tradeBegun t).Numbered := by
  obtain ⟨hnew, hfrom⟩ := h
  have hlt : t.orderGuid < s.om.nextGuid := by
    rcases hfrom with ⟨o, ho, hguid⟩ | ⟨hlt, _⟩
    · exact hguid ▸ hs.entries o ho
    · exact hlt
  have hresponses : responses (s.tradeBegun t).queue.normal = responses s.queue.normal := by
    rw [← List.append_nil (responses s.queue.normal)]
    exact responses_append
  have horderTrades : orderTrades (s.tradeBegun t).queue.normal =
      orderTrades s.queue.normal ++ [t.orderGuid] := orderTrades_append
  have hmem (g : Guid) (hg : g ∈ s.tradedGuids ++ [t.orderGuid]) : g < s.om.nextGuid := by
    rcases List.mem_append.mp hg with hg | hg
    · exact hs.traded g hg
    · exact List.mem_singleton.mp hg ▸ hlt
  refine ⟨hs.entries, hs.closings, hs.acked, ?_, ?_, ?_, ?_, ?_, ?_⟩
  · rw [tradedGuids_tradeBegun]
    exact hmem
  · rw [tradedGuids_tradeBegun]
    exact nodup_append_singleton hs.tradedOnce hnew
  · rw [hresponses]
    exact hs.responsesOnce
  · rw [hresponses]
    exact hs.responsesAcked
  · rw [horderTrades]
    exact nodup_append_singleton hs.orderTradesOnce fun hg => hnew (hs.orderTradesTraded _ hg)
  · rw [horderTrades, tradedGuids_tradeBegun]
    intro g hg
    rcases List.mem_append.mp hg with hg | hg
    · exact List.mem_append_left _ (hs.orderTradesTraded g hg)
    · exact List.mem_append_right _ hg

theorem Numbered.take (hs : s.Numbered) (h : queue.normal.Sublist s.queue.normal) :
    ({ s with queue } : InstanceSystem).Numbered := by
  have hresponses := responses_sublist h
  have horderTrades := orderTrades_sublist h
  exact ⟨hs.entries, hs.closings, hs.acked, hs.traded, hs.tradedOnce,
    hs.responsesOnce.sublist hresponses, fun g hg => hs.responsesAcked g (hresponses.subset hg),
    hs.orderTradesOnce.sublist horderTrades,
    fun g hg => hs.orderTradesTraded g (horderTrades.subset hg)⟩

theorem Numbered.adds (hs : s.Numbered) (hadds : s.om.Adds om' o) :
    (∀ x ∈ s.entries ++ [o], x.guid < om'.nextGuid) ∧
      (∀ x ∈ s.closings ++ [o], x.guid < om'.nextGuid) := by
  have hnew : o.guid < om'.nextGuid := by
    rw [hadds.guid, hadds.nextGuid]
    exact Nat.lt_succ_self _
  have hold {g : Guid} (hg : g < s.om.nextGuid) : g < om'.nextGuid := by
    rw [hadds.nextGuid]
    exact Nat.lt_succ_of_lt hg
  constructor
  · intro x hx
    rcases List.mem_append.mp hx with hx | hx
    · exact hold (hs.entries x hx)
    · exact List.mem_singleton.mp hx ▸ hnew
  · intro x hx
    rcases List.mem_append.mp hx with hx | hx
    · exact hold (hs.closings x hx)
    · exact List.mem_singleton.mp hx ▸ hnew

theorem Numbered.of_sameLedger (hs : s.Numbered) (hsame : s.SameLedger s')
    (hentries : ∀ o ∈ s'.entries, o.guid < s'.om.nextGuid)
    (hclosings : ∀ o ∈ s'.closings, o.guid < s'.om.nextGuid)
    (hnext : s.om.nextGuid ≤ s'.om.nextGuid) : s'.Numbered := by
  have htraded : s'.tradedGuids = s.tradedGuids := by rw [tradedGuids, hsame.traded]; rfl
  refine ⟨hentries, hclosings, ?_, ?_, ?_, ?_, ?_, ?_, ?_⟩
  · rw [hsame.acked]
    exact fun g hg => (hs.acked g hg).trans_le hnext
  · rw [htraded]
    exact fun g hg => (hs.traded g hg).trans_le hnext
  · rw [htraded]
    exact hs.tradedOnce
  · rw [hsame.queue]
    exact hs.responsesOnce
  · rw [hsame.queue, hsame.acked]
    exact hs.responsesAcked
  · rw [hsame.queue]
    exact hs.orderTradesOnce
  · rw [hsame.queue, htraded]
    exact hs.orderTradesTraded

theorem Numbered.handles (hs : s.Numbered) (h : s.Handles e s') : s'.Numbered := by
  have hom (e : GatewayEvent) : ({ s with om := s.om.step e } : InstanceSystem).Numbered := by
    have hnext := (s.om.step_cases e).nextGuid
    exact hs.of_sameLedger ⟨rfl, rfl, rfl, rfl, rfl, rfl⟩
      (fun o ho => (hs.entries o ho).trans_eq hnext.symm)
      (fun o ho => (hs.closings o ho).trans_eq hnext.symm) hnext.ge
  cases h with
  | entry _ _ _ hadds =>
    have hlt := hs.adds hadds
    exact hs.of_sameLedger ⟨rfl, rfl, rfl, rfl, rfl, rfl⟩ hlt.1
      (fun x hx => hlt.2 x (List.mem_append_left _ hx)) (hadds.nextGuid ▸ Nat.le_succ _)
  | closing _ _ hadds =>
    have hlt := hs.adds hadds
    exact hs.of_sameLedger ⟨rfl, rfl, rfl, rfl, rfl, rfl⟩
      (fun x hx => hlt.1 x (List.mem_append_left _ hx)) hlt.2 (hadds.nextGuid ▸ Nat.le_succ _)
  | orderResponse r => exact hom _
  | orderTrade t => exact hom _
  | _ => exact { hs with }

theorem EntriesPending.push (hs : s.EntriesPending) (h : e.NoOrder) :
    (s.push e).EntriesPending := by
  obtain ⟨hresponses, horderTrades⟩ := normal_push_of_noOrder s h
  constructor
  · intro o ho hawaits
    apply hs.unacked o ho
    rwa [AwaitsResponse, hresponses] at hawaits
  · intro o ho hawaits
    apply hs.untraded o ho
    rwa [AwaitsTrade, horderTrades] at hawaits

theorem EntriesPending.respond (hs : s.EntriesPending) (h : s.GatewayKeeps (.respond r)) :
    (s.step (.respond r)).EntriesPending := by
  constructor
  · intro o ho hawaits
    apply hs.unacked o ho
    rcases hawaits with hnew | hqueued
    · exact .inl fun hacked => hnew (List.mem_cons_of_mem _ hacked)
    · rcases List.mem_append.mp (responses_append ▸ hqueued) with hqueued | hnew
      · exact .inr hqueued
      · have hguid : o.guid = r.requestGuid := List.mem_singleton.mp hnew
        exact .inl (hguid ▸ h.2)
  · intro o ho hawaits
    apply hs.untraded o ho
    rcases hawaits with hnew | hqueued
    · exact .inl hnew
    · rcases List.mem_append.mp (orderTrades_append ▸ hqueued) with hqueued | hnew
      · exact .inr hqueued
      · cases hnew

theorem EntriesPending.tradeBegun (hs : s.EntriesPending) (h : s.GatewayKeeps (.beginTrade t)) :
    (s.tradeBegun t).EntriesPending := by
  constructor
  · intro o ho hawaits
    apply hs.unacked o ho
    rcases hawaits with hnew | hqueued
    · exact .inl hnew
    · rcases List.mem_append.mp (responses_append ▸ hqueued) with hqueued | hnew
      · exact .inr hqueued
      · cases hnew
  · intro o ho hawaits
    apply hs.untraded o ho
    rcases hawaits with hnew | hqueued
    · exact .inl fun htraded => hnew (by
        rw [tradedGuids_tradeBegun]
        exact List.mem_append_left _ htraded)
    · rcases List.mem_append.mp (orderTrades_append ▸ hqueued) with hqueued | hnew
      · exact .inr hqueued
      · have hguid : o.guid = t.orderGuid := List.mem_singleton.mp hnew
        exact .inl (hguid ▸ h.1)

theorem AwaitsResponse.mono (h : s.AwaitsResponse g l) (hl : l.Sublist pre) :
    s.AwaitsResponse g pre :=
  h.imp_right fun hg => (responses_sublist hl).subset hg

theorem AwaitsTrade.mono (h : s.AwaitsTrade g l) (hl : l.Sublist pre) : s.AwaitsTrade g pre :=
  h.imp_right fun hg => (orderTrades_sublist hl).subset hg

theorem EntriesPending.take (hs : s.EntriesPending) (h : queue.normal.Sublist s.queue.normal) :
    ({ s with queue } : InstanceSystem).EntriesPending :=
  ⟨fun o ho hawaits => hs.unacked o ho (AwaitsResponse.mono hawaits h),
    fun o ho hawaits => hs.untraded o ho (AwaitsTrade.mono hawaits h)⟩

theorem sublist_of_take (h : s.queue.normal = e :: queue.normal) :
    queue.normal.Sublist s.queue.normal := h ▸ List.sublist_cons_self _ _

theorem EntriesPending.adds (hs : s.EntriesPending) (hn : s.Numbered) (hadds : s.om.Adds om' o)
    (hsame : s.SameLedger s') (hom : s'.om = om')
    (hentries : s'.entries = s.entries ∨ s'.entries = s.entries ++ [o]) : s'.EntriesPending := by
  have hne (x : MarketOrder) (hx : x ∈ s.entries) : x.guid ≠ s.om.nextGuid :=
    (hn.entries x hx).ne
  have hmem (x : MarketOrder) (hx : x ∈ s'.entries) : x ∈ s.entries ∨ x = o := by
    rcases hentries with h | h
    · exact .inl (h ▸ hx)
    · rw [h] at hx
      exact (List.mem_append.mp hx).imp_right List.mem_singleton.mp
  have htraded : s'.tradedGuids = s.tradedGuids := by rw [tradedGuids, hsame.traded]; rfl
  constructor
  · intro x hx hawaits
    rw [AwaitsResponse, hsame.acked, hsame.queue] at hawaits
    rw [hom]
    rcases hmem x hx with hx | rfl
    · exact (hs.unacked x hx hawaits).adds hadds (hne x hx)
    · exact hadds.pendingWith rfl
  · intro x hx hawaits
    rw [AwaitsTrade, htraded, hsame.queue] at hawaits
    rw [hom]
    rcases hmem x hx with hx | rfl
    · exact (hs.untraded x hx hawaits).adds hadds (hne x hx)
    · exact hadds.pendingWith rfl

theorem EntriesPending.orderResponse (hs : s.EntriesPending) (hn : s.Numbered)
    (h : s.queue.normal = .orderResponse r :: queue.normal) :
    ({ s with queue, om := s.om.step (.orderResponse r) } : InstanceSystem).EntriesPending := by
  have hresponses : responses s.queue.normal = r.requestGuid :: responses queue.normal := by
    rw [h]
    rfl
  constructor
  · intro o ho hawaits
    by_cases hguid : o.guid = r.requestGuid
    · have honce := hn.responsesOnce
      have hacked := hn.responsesAcked r.requestGuid
      rw [hresponses] at honce hacked
      rcases hawaits with hnew | hqueued
      · exact absurd (hguid ▸ hacked List.mem_cons_self) hnew
      · exact absurd (hguid ▸ hqueued) (List.nodup_cons.mp honce).1
    · exact ((hs.take (sublist_of_take h)).unacked o ho hawaits).step_of_ne fun hsome =>
        hguid (Option.some.inj hsome).symm
  · intro o ho hawaits
    exact ((hs.take (sublist_of_take h)).untraded o ho hawaits).response

theorem EntriesPending.orderTrade (hs : s.EntriesPending) (hn : s.Numbered)
    (h : s.queue.normal = .orderTrade t :: queue.normal) :
    ({ s with queue, om := s.om.step (.trade t) } : InstanceSystem).EntriesPending := by
  have horderTrades : orderTrades s.queue.normal = t.orderGuid :: orderTrades queue.normal := by
    rw [h]
    rfl
  constructor
  · intro o ho hawaits
    exact ((hs.take (sublist_of_take h)).unacked o ho hawaits).trade
  · intro o ho hawaits
    by_cases hguid : o.guid = t.orderGuid
    · have honce := hn.orderTradesOnce
      have htraded := hn.orderTradesTraded t.orderGuid
      rw [horderTrades] at honce htraded
      rcases hawaits with hnew | hqueued
      · exact absurd (hguid ▸ htraded List.mem_cons_self) hnew
      · exact absurd (hguid ▸ hqueued) (List.nodup_cons.mp honce).1
    · exact ((hs.take (sublist_of_take h)).untraded o ho hawaits).step_of_ne fun hsome =>
        hguid (Option.some.inj hsome).symm

theorem EntriesPending.handles (hs : s.EntriesPending) (hn : s.Numbered) (h : s.Handles e s')
    (he : e.NoOrder) : s'.EntriesPending := by
  cases h with
  | entry _ _ _ hadds => exact hs.adds hn hadds ⟨rfl, rfl, rfl, rfl, rfl, rfl⟩ rfl (.inr rfl)
  | closing _ _ hadds => exact hs.adds hn hadds ⟨rfl, rfl, rfl, rfl, rfl, rfl⟩ rfl (.inl rfl)
  | orderResponse r => cases he.1
  | orderTrade t => cases he.2
  | _ => exact { hs with }

end InstanceSystem

end CryptoTrading

import CryptoTrading.Instance.Pending

/-! # One entry at a time

The strategy sends an entry when no order is pending and no position is known to it.
Both facts lag behind: an order leaves the pending orders before the position that it
opened is announced. A callback queued in between enters again.
-/

namespace CryptoTrading

open Runs

namespace InstanceEvent

/-- What the strategy takes for the presence of a position after the event. -/
def announced (v : Bool) : InstanceEvent → Bool
  | openedPos v' => v'
  | _ => v

/-- The event neither brings news of an order or the position nor runs the strategy. -/
def Silent : InstanceEvent → Prop
  | orderResponse _ | orderTrade _ | openedPos _ | callback _ => False
  | _ => True

theorem Silent.noOrder {e : InstanceEvent} (h : e.Silent) : e.NoOrder := by
  cases e <;> first | exact ⟨rfl, rfl⟩ | exact h.elim

theorem Silent.announced {e : InstanceEvent} (h : e.Silent) (v : Bool) : e.announced v = v := by
  cases e <;> first | rfl | exact h.elim

theorem noOrder_of_stops {e : InstanceEvent} (h : e.stops) : e.NoOrder := by
  cases e <;> first | exact ⟨rfl, rfl⟩ | cases h

theorem announced_of_stops {e : InstanceEvent} (h : e.stops) (v : Bool) : e.announced v = v := by
  cases e <;> first | rfl | cases h

end InstanceEvent

namespace InstanceSystem

def lastAnnounced (v : Bool) (l : List InstanceEvent) : Bool := l.foldl InstanceEvent.announced v

variable (s : InstanceSystem)

def handledGuids : List Guid := s.handled.map (·.orderGuid)

/-- No entry is on its way: the instance has handled the trades of all of them. -/
def EntriesHandled : Prop := ∀ o ∈ s.entries, o.guid ∈ s.handledGuids

instance : Decidable s.EntriesHandled :=
  inferInstanceAs (Decidable (∀ o ∈ s.entries, o.guid ∈ s.handledGuids))

/-- A callback that will attempt an entry is queued only while the instance has handled the
trade of every entry that has both its response and its trade queued or handled. -/
def CallbackClear : InstanceStep → Prop
  | .flush =>
    match s.outbox with
    | .callback (_ :: _) :: _ =>
      ∀ o ∈ s.entries, o.guid ∈ s.acked → o.guid ∈ s.tradedGuids → o.guid ∈ s.handledGuids
    | _ => True
  | _ => True

/-- A step sends one entry at most, and only without an entry on its way or an open position. -/
def EntersAlone (c : InstanceStep) : Prop :=
  (s.step c).entries ≠ s.entries →
    (s.step c).entries.length = s.entries.length + 1 ∧ s.EntriesHandled ∧ s.opened = none

instance (c : InstanceStep) : Decidable (s.CallbackClear c) := by
  unfold CallbackClear
  split
  · split <;> infer_instance
  · infer_instance

instance (c : InstanceStep) : Decidable (s.EntersAlone c) :=
  inferInstanceAs (Decidable (_ → _ ∧ _ ∧ _))

def Announced : Prop :=
  lastAnnounced s.strategy.hasOpenedPos (s.queue.normal ++ s.outbox) = s.opened.isSome

/-- Trades of other orders than entries found an open position. -/
def OpensByEntry : Prop :=
  ∀ pre t post, s.traded = pre ++ t :: post →
    s.IsEntry t.orderGuid ∨ (after PositionManager.step .init pre).openedPosition.isSome

/-- With these events before and after it in the queue, a callback will find an order pending
or a position announced, or there is neither an entry on its way nor a position. -/
def CallbackSafe (pre post : List InstanceEvent) : Prop :=
  (∃ o ∈ s.entries, s.AwaitsResponse o.guid post ∨ s.AwaitsTrade o.guid post) ∨
    lastAnnounced s.strategy.hasOpenedPos pre = true ∨
    s.opened = none ∧ pre.filterMap InstanceEvent.instanceTrade? = [] ∧ s.EntriesHandled

def CallbacksSafe : Prop :=
  ∀ pre attempts post, s.queue.normal = pre ++ .callback attempts :: post → attempts ≠ [] →
    s.CallbackSafe pre post

structure Orderly : Prop where
  coherent : s.Coherent .init
  numbered : s.Numbered
  pending : s.EntriesPending
  announced : s.Announced
  opensByEntry : s.OpensByEntry
  callbacksSafe : s.CallbacksSafe

variable {s} {s' : InstanceSystem} {e : InstanceEvent} {l pre post : List InstanceEvent} {g : Guid}
  {r : OrderResponseEvent} {t : Trade} {om' : OrderManager} {o : MarketOrder}
  {queue : ThreadSafePriorityQueue InstanceEvent} {c : InstanceStep}

@[simp] theorem lastAnnounced_append {v : Bool} :
    lastAnnounced v (l ++ pre) = lastAnnounced (lastAnnounced v l) pre := List.foldl_append

theorem lastAnnounced_callbacks {v : Bool} (callbacks : List (List Attempt)) :
    lastAnnounced v (callbacks.map .callback) = v := by
  induction callbacks with
  | nil => rfl
  | cons attempts callbacks ih => exact ih

theorem Announced.append (hs : s.Announced) (he : ∀ v, e.announced v = v)
    (hnormal : s'.queue.normal = s.queue.normal ++ [e]) (houtbox : s'.outbox = s.outbox)
    (hstrategy : s'.strategy = s.strategy) (hresults : s'.results = s.results) :
    s'.Announced := by
  unfold Announced at hs ⊢
  rw [hnormal, houtbox, hstrategy, opened, hresults]
  rw [lastAnnounced_append, lastAnnounced_append]
  rw [lastAnnounced_append] at hs
  have hsame : lastAnnounced (lastAnnounced s.strategy.hasOpenedPos s.queue.normal) [e] =
      lastAnnounced s.strategy.hasOpenedPos s.queue.normal := he _
  rw [hsame]
  exact hs

theorem Announced.push (hs : s.Announced) (h : e.Silent) : (s.push e).Announced := by
  by_cases hp : e.priority = .normal
  · exact hs.append h.announced (normal_push s hp) rfl rfl rfl
  · unfold Announced
    rw [normal_push_of_ne s hp]
    exact hs

theorem Announced.handles (hs : s.Handles e s') (houtbox : s.outbox = [])
    (h : lastAnnounced (e.announced s.strategy.hasOpenedPos) s.queue.normal = s.opened.isSome) :
    s'.Announced := by
  have hidle (h : lastAnnounced s.strategy.hasOpenedPos s.queue.normal = s.opened.isSome) :
      s.Announced := by
    unfold Announced
    rw [houtbox, List.append_nil]
    exact h
  cases hs with
  | price ts price callbacks =>
    simp only [Announced, lastAnnounced_append, lastAnnounced_callbacks]
    exact h
  | instanceTrade t => exact lastAnnounced_append
  | openedPos v =>
    simp only [Announced, houtbox, List.append_nil]
    exact h
  | error doPanic =>
    simp only [Announced, lastAnnounced_append]
    exact h
  | noClosing hstops =>
    rw [InstanceEvent.announced_of_stops hstops] at h
    exact hidle h
  | closing hstops =>
    rw [InstanceEvent.announced_of_stops hstops] at h
    exact hidle h
  | _ => exact hidle h

theorem Handles.log (h : s.Handles e s') :
    s'.traded = s.traded ∧ ∀ o ∈ s.entries, o ∈ s'.entries := by
  cases h with
  | entry => exact ⟨rfl, fun x hx => List.mem_append_left _ hx⟩
  | _ => exact ⟨rfl, fun x hx => hx⟩

theorem Handles.queue_eq (h : s.Handles e s') : s'.queue = s.queue := by cases h <;> rfl

theorem OpensByEntry.mono (hs : s.OpensByEntry) (htraded : s'.traded = s.traded)
    (hentries : ∀ o ∈ s.entries, o ∈ s'.entries) : s'.OpensByEntry := by
  intro pre t post h
  rw [htraded] at h
  apply (hs pre t post h).imp_left
  rintro ⟨o, ho, hguid⟩
  exact ⟨o, hentries o ho, hguid⟩

theorem concat_eq_split {α : Type} {l pre post : List α} {x a : α}
    (h : l ++ [a] = pre ++ x :: post) :
    pre = l ∧ x = a ∧ post = [] ∨ ∃ post', post = post' ++ [a] ∧ l = pre ++ x :: post' := by
  rcases List.eq_nil_or_concat post with rfl | ⟨post', b, rfl⟩
  · obtain ⟨rfl, hx⟩ := List.append_inj' h rfl
    exact .inl ⟨rfl, (List.singleton_inj.mp hx).symm, rfl⟩
  · rw [List.concat_eq_append] at h ⊢
    rw [← List.cons_append, ← List.append_assoc] at h
    obtain ⟨hl, hb⟩ := List.append_inj' h rfl
    obtain rfl := List.singleton_inj.mp hb
    exact .inr ⟨post', rfl, hl⟩

theorem OpensByEntry.tradeBegun (hs : s.OpensByEntry) (h : s.GatewayKeeps (.beginTrade t)) :
    (s.tradeBegun t).OpensByEntry := by
  intro pre x post hsplit
  rcases concat_eq_split hsplit with ⟨rfl, rfl, rfl⟩ | ⟨post', rfl, hold⟩
  · exact h.2.imp_right And.right
  · exact hs pre x post' hold

theorem CallbackSafe.congr (h : s.CallbackSafe pre post) {pre' post' : List InstanceEvent}
    (hentries : s'.entries = s.entries)
    (hresponse : ∀ g, s.AwaitsResponse g post → s'.AwaitsResponse g post')
    (htrade : ∀ g, s.AwaitsTrade g post → s'.AwaitsTrade g post')
    (hannounced : lastAnnounced s'.strategy.hasOpenedPos pre' =
      lastAnnounced s.strategy.hasOpenedPos pre)
    (hopened : s'.opened = s.opened) (hhandled : s'.handled = s.handled)
    (htransit : pre.filterMap InstanceEvent.instanceTrade? = [] →
      pre'.filterMap InstanceEvent.instanceTrade? = []) :
    s'.CallbackSafe pre' post' := by
  rcases h with ⟨o, ho, hawaits⟩ | hannounces | ⟨hnone, hnothing, hall⟩
  · refine .inl ⟨o, hentries ▸ ho, ?_⟩
    exact hawaits.imp (hresponse o.guid) (htrade o.guid)
  · exact .inr (.inl (hannounced.trans hannounces))
  · refine .inr (.inr ⟨hopened.trans hnone, htransit hnothing, ?_⟩)
    intro o ho
    rw [handledGuids, hhandled]
    exact hall o (hentries ▸ ho)

theorem CallbacksSafe.append (hs : s.CallbacksSafe)
    (hnormal : s'.queue.normal = s.queue.normal ++ [e])
    (hold : ∀ pre post, s.CallbackSafe pre post → s'.CallbackSafe pre (post ++ [e]))
    (hnew : ∀ attempts, e = .callback attempts → attempts ≠ [] →
      s'.CallbackSafe s.queue.normal []) : s'.CallbacksSafe := by
  intro pre attempts post h hattempts
  rw [hnormal] at h
  rcases concat_eq_split h with ⟨rfl, he, rfl⟩ | ⟨post', rfl, hsplit⟩
  · exact hnew attempts he.symm hattempts
  · exact hold pre post' (hs pre attempts post' hsplit hattempts)

theorem AwaitsResponse.append (h : s.AwaitsResponse g l) : s.AwaitsResponse g (l ++ pre) :=
  h.mono (List.sublist_append_left _ _)

theorem AwaitsTrade.append (h : s.AwaitsTrade g l) : s.AwaitsTrade g (l ++ pre) :=
  h.mono (List.sublist_append_left _ _)

theorem CallbackSafe.append (h : s.CallbackSafe pre post) : s.CallbackSafe pre (post ++ [e]) :=
  h.congr rfl (fun _ => .append) (fun _ => .append) rfl rfl rfl id

theorem CallbacksSafe.push (hs : s.CallbacksSafe) (h : e.Silent) : (s.push e).CallbacksSafe := by
  by_cases hp : e.priority = .normal
  · apply hs.append (normal_push s hp) (fun pre post => CallbackSafe.append)
    rintro attempts rfl
    exact h.elim
  · intro pre attempts post hsplit hattempts
    rw [normal_push_of_ne s hp] at hsplit
    exact hs pre attempts post hsplit hattempts

theorem CallbacksSafe.respond (hs : s.CallbacksSafe) : (s.step (.respond r)).CallbacksSafe := by
  refine hs.append (e := .orderResponse r) rfl (fun pre post h => ?_) (by simp)
  refine h.congr rfl (fun g hawaits => ?_) (fun g hawaits => AwaitsTrade.append hawaits) rfl rfl
    rfl id
  by_cases hguid : g = r.requestGuid
  · refine .inr ?_
    rw [responses_append, hguid]
    exact List.mem_append_right _ List.mem_cons_self
  · rcases hawaits with hnew | hqueued
    · exact .inl fun hacked => hnew ((List.mem_cons.mp hacked).resolve_left hguid)
    · exact AwaitsResponse.append (.inr hqueued)

theorem CallbacksSafe.tradeBegun (hs : s.CallbacksSafe) : (s.tradeBegun t).CallbacksSafe := by
  refine hs.append (e := .orderTrade t) rfl (fun pre post h => ?_) (by simp)
  refine h.congr rfl (fun g hawaits => AwaitsResponse.append hawaits) (fun g hawaits => ?_) rfl rfl
    rfl id
  by_cases hguid : g = t.orderGuid
  · refine .inr ?_
    rw [orderTrades_append, hguid]
    exact List.mem_append_right _ List.mem_cons_self
  · rcases hawaits with hnew | hqueued
    · refine .inl fun htraded => ?_
      rw [tradedGuids_tradeBegun] at htraded
      rcases List.mem_append.mp htraded with hold | hlast
      · exact hnew hold
      · exact hguid (List.mem_singleton.mp hlast)
    · exact AwaitsTrade.append (.inr hqueued)

theorem CallbackSafe.handles (hs : s.Handles e s') (hn : s.Numbered) (hp : e.priority = .normal)
    (h : s.CallbackSafe (e :: pre) post) : s'.CallbackSafe pre post := by
  have htransit (hnothing : (e :: pre).filterMap InstanceEvent.instanceTrade? = []) :
      pre.filterMap InstanceEvent.instanceTrade? = [] :=
    List.filterMap_eq_nil_iff.mpr fun x hx =>
      List.filterMap_eq_nil_iff.mp hnothing x (List.mem_cons_of_mem _ hx)
  have hrest (hannounced : ∀ v, e.announced v = v) : s.CallbackSafe pre post := by
    refine h.congr rfl (fun _ => id) (fun _ => id) ?_ rfl rfl htransit
    rw [lastAnnounced, lastAnnounced, List.foldl_cons, hannounced]
  cases hs with
  | entry _ _ _ hadds =>
    refine .inl ⟨_, List.mem_append_right _ List.mem_cons_self, .inl (.inl fun hacked => ?_)⟩
    exact absurd (hn.acked _ hacked) (hadds.guid ▸ Nat.lt_irrefl _)
  | instanceTrade t =>
    rcases h with hawaits | hannounces | ⟨_, hnothing, _⟩
    · exact .inl hawaits
    · exact .inr (.inl hannounces)
    · cases hnothing
  | openedPos v => exact h.congr rfl (fun _ => id) (fun _ => id) rfl rfl rfl htransit
  | noClosing hstops => exact hrest (InstanceEvent.announced_of_stops hstops)
  | closing hstops =>
    exact (hrest (InstanceEvent.announced_of_stops hstops)).congr rfl (fun _ => id) (fun _ => id)
      rfl rfl rfl id
  | price ts price callbacks => cases hp
  | error doPanic => cases hp
  | _ => exact (hrest fun v => rfl).congr rfl (fun _ => id) (fun _ => id) rfl rfl rfl id

theorem Orderly.callbackSafe {a : Attempt} {attempts : List Attempt} {outbox : List InstanceEvent}
    (hs : s.Orderly) (hout : s.outbox = .callback (a :: attempts) :: outbox)
    (hc : s.CallbackClear .flush) : s.CallbackSafe s.queue.normal [] := by
  simp only [CallbackClear, hout] at hc
  by_cases hall : s.EntriesHandled
  · cases hopened : s.opened with
    | some pos =>
      refine .inr (.inl ?_)
      have hpushes := hs.coherent.outbox
      have hannounced := hs.announced
      rw [hout] at hpushes
      obtain ⟨callbacks, hcallbacks⟩ := hpushes.callbacks_of_cons
      unfold Announced at hannounced
      rw [hout, hcallbacks, lastAnnounced_append, hopened] at hannounced
      exact (lastAnnounced_callbacks (.cons _ callbacks)).symm.trans hannounced
    | none =>
      refine .inr (.inr ⟨hopened, ?_, hall⟩)
      by_contra htransit
      obtain ⟨t, rest, ht⟩ : ∃ t rest, s.inTransit = t :: rest := by
        refine List.exists_cons_of_ne_nil fun hnil => htransit ?_
        exact (List.append_eq_nil_iff.mp hnil).1
      have hledger := hs.coherent.ledger
      rw [ht] at hledger
      rcases hs.opensByEntry _ t rest hledger with ⟨o, ho, hguid⟩ | hopen
      · have honce := hs.numbered.tradedOnce
        rw [tradedGuids, hledger, List.map_append, List.map_cons] at honce
        have hhandled := hall o ho
        rw [hguid] at hhandled
        exact (List.nodup_append.mp honce).2.2 _ hhandled _ List.mem_cons_self rfl
      · rw [← hs.coherent.books] at hopen
        rw [opened] at hopened
        rw [hopened] at hopen
        cases hopen
  · obtain ⟨o, ho, hwaiting⟩ : ∃ o ∈ s.entries, o.guid ∉ s.handledGuids := by
      simpa [EntriesHandled] using hall
    refine .inl ⟨o, ho, ?_⟩
    by_cases hacked : o.guid ∈ s.acked
    · exact .inr (.inl fun htraded => hwaiting (hc o ho hacked htraded))
    · exact .inl (.inl hacked)

theorem HandlerPushes.noOrder {outbox : List InstanceEvent} (h : HandlerPushes (e :: outbox)) :
    e.NoOrder := by
  generalize hl : e :: outbox = l at h
  cases h with
  | callbacks callbacks =>
    cases callbacks with
    | nil => cases hl
    | cons attempts callbacks =>
      obtain ⟨rfl, _⟩ := List.cons.inj hl
      exact ⟨rfl, rfl⟩
  | openedPos v =>
    obtain ⟨rfl, _⟩ := List.cons.inj hl
    exact ⟨rfl, rfl⟩
  | stopRequest =>
    obtain ⟨rfl, _⟩ := List.cons.inj hl
    exact ⟨rfl, rfl⟩

theorem Orderly.push (hs : s.Orderly) (h : e.Silent) (ht : e.instanceTrade? = none) :
    (s.push e).Orderly :=
  ⟨hs.coherent.push ht, hs.numbered.push h.noOrder, hs.pending.push h.noOrder,
    hs.announced.push h, hs.opensByEntry, hs.callbacksSafe.push h⟩

theorem Orderly.respond (hs : s.Orderly) (h : s.GatewayKeeps (.respond r)) :
    (s.step (.respond r)).Orderly where
  coherent := hs.coherent.step
  numbered := hs.numbered.respond h
  pending := hs.pending.respond h
  announced := hs.announced.append (e := .orderResponse r) (fun _ => rfl) rfl rfl rfl rfl
  opensByEntry := hs.opensByEntry
  callbacksSafe := hs.callbacksSafe.respond

theorem Orderly.tradeBegun (hs : s.Orderly) (hpushing : s.pushing = none)
    (h : s.GatewayKeeps (.beginTrade t)) : (s.tradeBegun t).Orderly where
  coherent := hs.coherent.beginTrade hpushing
  numbered := hs.numbered.tradeBegun h
  pending := hs.pending.tradeBegun h
  announced := hs.announced.append (e := .orderTrade t) (fun _ => rfl) rfl rfl rfl rfl
  opensByEntry := hs.opensByEntry.tradeBegun h
  callbacksSafe := hs.callbacksSafe.tradeBegun

theorem Orderly.endTrade (hs : s.Orderly) (hpushing : s.pushing = some t) :
    ({ s.push (.instanceTrade t) with pushing := none } : InstanceSystem).Orderly := by
  have hsilent : (InstanceEvent.instanceTrade t).Silent := trivial
  have hnumbered := hs.numbered.push hsilent.noOrder
  have hpending := hs.pending.push hsilent.noOrder
  exact ⟨hs.coherent.endTrade hpushing, { hnumbered with }, { hpending with },
    hs.announced.push hsilent, hs.opensByEntry, hs.callbacksSafe.push hsilent⟩

theorem Orderly.flush {outbox : List InstanceEvent} (hs : s.Orderly)
    (hout : s.outbox = e :: outbox) (hc : s.CallbackClear .flush) :
    ({ s with outbox }.push e).Orderly := by
  have hpushes := hs.coherent.outbox
  rw [hout] at hpushes
  obtain ⟨hrest, hpriority, htrade⟩ := hpushes.of_cons
  have hnormal : ({ s with outbox }.push e).queue.normal = s.queue.normal ++ [e] :=
    normal_push _ hpriority
  have hnumbered : ({ s with outbox } : InstanceSystem).Numbered := { hs.numbered with }
  have hpending : ({ s with outbox } : InstanceSystem).EntriesPending := { hs.pending with }
  have hcoherent : ({ s with outbox } : InstanceSystem).Coherent .init :=
    ⟨hs.coherent.sorted, hrest, hs.coherent.ledger, hs.coherent.books⟩
  refine ⟨hcoherent.push htrade, hnumbered.push hpushes.noOrder, hpending.push hpushes.noOrder,
    ?_, hs.opensByEntry, ?_⟩
  · have hannounced := hs.announced
    unfold Announced at hannounced ⊢
    rw [hnormal]
    rw [hout, List.append_cons] at hannounced
    exact hannounced
  · refine hs.callbacksSafe.append hnormal (fun pre post h => ?_) ?_
    · exact h.congr rfl (fun _ => .append) (fun _ => .append) rfl rfl rfl id
    · rintro attempts rfl hattempts
      obtain ⟨a, attempts, rfl⟩ := List.exists_cons_of_ne_nil hattempts
      exact (hs.callbackSafe hout hc).congr rfl (fun _ => id) (fun _ => id) rfl rfl rfl id

theorem Orderly.handleNormal (hs : s.Orderly) (hout : s.outbox = [])
    (hpriority : e.priority = .normal) (hnormal : s.queue.normal = e :: queue.normal)
    (h : Handles { s with queue } e s') (hcoherent : s'.Coherent .init) : s'.Orderly := by
  have hsub := sublist_of_take hnormal
  refine ⟨hcoherent, (hs.numbered.take hsub).handles h, ?_, ?_, ?_, ?_⟩
  · by_cases horder : e.NoOrder
    · exact (hs.pending.take hsub).handles (hs.numbered.take hsub) h horder
    · cases h with
      | orderResponse r => exact hs.pending.orderResponse hs.numbered hnormal
      | orderTrade t => exact hs.pending.orderTrade hs.numbered hnormal
      | noClosing hstops => exact absurd (InstanceEvent.noOrder_of_stops hstops) horder
      | closing hstops => exact absurd (InstanceEvent.noOrder_of_stops hstops) horder
      | _ => exact absurd ⟨rfl, rfl⟩ horder
  · have hannounced := hs.announced
    unfold Announced at hannounced
    rw [hout, List.append_nil, hnormal] at hannounced
    exact .handles h hout hannounced
  · exact hs.opensByEntry.mono h.log.1 h.log.2
  · intro pre attempts post hsplit hattempts
    rw [h.queue_eq] at hsplit
    have hold : s.CallbackSafe (e :: pre) post :=
      hs.callbacksSafe (e :: pre) attempts post (by rw [hnormal, hsplit]; rfl) hattempts
    exact CallbackSafe.handles h (hs.numbered.take hsub) hpriority hold

theorem Orderly.handleOther (hs : s.Orderly) (hout : s.outbox = [])
    (hpriority : e.priority ≠ .normal) (hnormal : queue.normal = s.queue.normal)
    (h : Handles { s with queue } e s') (hcoherent : s'.Coherent .init) : s'.Orderly := by
  have hsub : queue.normal.Sublist s.queue.normal := hnormal ▸ List.Sublist.refl _
  have horder : e.NoOrder := by
    cases e <;> first | exact ⟨rfl, rfl⟩ | exact absurd rfl hpriority
  refine ⟨hcoherent, (hs.numbered.take hsub).handles h,
    (hs.pending.take hsub).handles (hs.numbered.take hsub) h horder, ?_, ?_, ?_⟩
  · have hannounced := hs.announced
    unfold Announced at hannounced
    rw [hout, List.append_nil, ← hnormal] at hannounced
    refine .handles h hout ?_
    cases e <;> first | exact hannounced | exact absurd rfl hpriority
  · exact hs.opensByEntry.mono h.log.1 h.log.2
  · intro pre attempts post hsplit hattempts
    rw [h.queue_eq, hnormal] at hsplit
    have hold := hs.callbacksSafe pre attempts post hsplit hattempts
    cases h with
    | price ts price callbacks => exact hold
    | error doPanic => exact hold
    | noClosing hstops => exact absurd (InstanceEvent.of_stops hstops).1 hpriority
    | closing hstops => exact absurd (InstanceEvent.of_stops hstops).1 hpriority
    | _ => exact absurd rfl hpriority

theorem Orderly.run (hs : s.Orderly) : (s.step .run).Orderly := by
  have hcoherent := hs.coherent.step (c := .run)
  rcases run_cases (s := s) with h | ⟨e, queue, hout, hpop, h⟩
  · rwa [h]
  · rcases (hs.coherent.sorted.waitAndPop hpop).2 with ⟨hpriority, hnormal⟩ | ⟨hpriority, hnormal⟩
    · exact hs.handleNormal hout hpriority hnormal h hcoherent
    · exact hs.handleOther hout hpriority hnormal h hcoherent

theorem Orderly.step (hs : s.Orderly) (h : s.GatewayKeeps c) (hc : s.CallbackClear c) :
    (s.step c).Orderly := by
  cases c with
  | price ts price callbacks => exact hs.push trivial rfl
  | respond r => exact hs.respond h
  | beginTrade t =>
    simp only [InstanceSystem.step]
    cases hpushing : s.pushing with
    | some t' => exact hs
    | none => exact hs.tradeBegun hpushing h
  | endTrade =>
    simp only [InstanceSystem.step]
    cases hpushing : s.pushing with
    | some t => exact hs.endTrade hpushing
    | none => exact hs
  | stopAsync => exact hs.push trivial rfl
  | error doPanic => exact hs.push trivial rfl
  | mdStatus status =>
    simp only [InstanceSystem.step]
    split
    · exact hs
    · exact hs.push trivial rfl
  | flush =>
    simp only [InstanceSystem.step]
    cases hout : s.outbox with
    | nil => exact hs
    | cons e outbox => exact hs.flush hout hc
  | run => exact hs.run

theorem init_orderly (symbol : Symbol) (historical : Bool) : (init symbol historical).Orderly where
  coherent := start_coherent ..
  numbered := by constructor <;> simp [init, start, tradedGuids, responses, orderTrades,
    ThreadSafePriorityQueue.empty]
  pending := by constructor <;> simp [init, start]
  announced := rfl
  opensByEntry := by simp [OpensByEntry, init, start]
  callbacksSafe := by simp [CallbacksSafe, init, start, ThreadSafePriorityQueue.empty]

theorem Orderly.run_entersAlone (hs : s.Orderly) : s.EntersAlone .run := by
  unfold EntersAlone
  rcases run_cases (s := s) with h | ⟨e, queue, _, hpop, h⟩
  · rw [h]
    exact fun hsent => absurd rfl hsent
  generalize s.step .run = s' at h ⊢
  intro hsent
  -- only a callback sends entries
  cases h with
  | @entry attempts om' o hattempts hpending hunknown hadds =>
    have hnormal : s.queue.normal = .callback attempts :: queue.normal := by
      rcases (hs.coherent.sorted.waitAndPop hpop).2 with ⟨_, hnormal⟩ | ⟨hpriority, _⟩
      · exact hnormal
      · exact absurd rfl hpriority
    have hsub := sublist_of_take hnormal
    have hblocked (g : Guid) (flag : MarketOrderChannelWithAckInfo → Bool)
        (hg : s.om.PendingWith g flag) : False := by
      have hmem : g ∈ s.om.pendingOrders := AList.mem_keys.mp hg.mem
      have hnone : s.om.pendingOrders = [] := hpending
      rw [hnone] at hmem
      cases hmem
    rcases hs.callbacksSafe [] _ queue.normal hnormal hattempts with
      ⟨x, hx, hawaits⟩ | hannounced | ⟨hopened, _, hall⟩
    · rcases hawaits with hresponse | htrade
      · exact (hblocked _ _ (hs.pending.unacked x hx (hresponse.mono hsub))).elim
      · exact (hblocked _ _ (hs.pending.untraded x hx (htrade.mono hsub))).elim
    · exact absurd hannounced (by simpa [lastAnnounced] using hunknown)
    · exact ⟨List.length_append, hall, hopened⟩
  | _ => exact absurd rfl hsent

theorem Orderly.entersAlone (hs : s.Orderly) : s.EntersAlone c := by
  cases c with
  | run => exact hs.run_entersAlone
  | beginTrade t =>
    intro hsent
    simp only [InstanceSystem.step] at hsent
    cases hpushing : s.pushing <;> rw [hpushing] at hsent <;> exact absurd rfl hsent
  | endTrade =>
    intro hsent
    simp only [InstanceSystem.step] at hsent
    cases hpushing : s.pushing <;> rw [hpushing] at hsent <;> exact absurd rfl hsent
  | mdStatus status =>
    intro hsent
    simp only [InstanceSystem.step] at hsent
    split at hsent <;> exact absurd rfl hsent
  | flush =>
    intro hsent
    simp only [InstanceSystem.step] at hsent
    cases hout : s.outbox <;> rw [hout] at hsent <;> exact absurd rfl hsent
  | _ => exact fun hsent => absurd rfl hsent

/--
In every run in which the callbacks that attempt an entry are queued only while the instance
has handled the trades of all acknowledged entries, every entry is sent alone: no earlier one is
on its way, and no position is open.
-/
theorem entries_sent_alone (symbol : Symbol) (historical : Bool) (cs : List InstanceStep)
    (hgateway : Meets step GatewayKeeps (init symbol historical) cs)
    (hclear : Meets step CallbackClear (init symbol historical) cs) :
    Meets step EntersAlone (init symbol historical) cs := by
  refine meets_iff_split.mpr fun pre c post hcs => ?_
  suffices h : (after step (init symbol historical) pre).Orderly from h.entersAlone
  have hboth : Meets step (fun s c => s.GatewayKeeps c ∧ s.CallbackClear c)
      (init symbol historical) cs := hgateway.and hclear
  rw [hcs] at hboth
  exact (meets_append.mp hboth).1.invariant (fun s c hs h => Orderly.step hs h.1 h.2)
    (init_orderly symbol historical)

/-- The position of an entry is announced before the next callback is queued. -/
theorem entries_sent_alone_announced :
    let buy : Attempt := ⟨.buy, ⟨100, OfNat.ofNat_ne_zero 100⟩, 1⟩
    let fill : Trade := ⟨1, "BTCUSDT", 1, 100, ⟨1, zero_le_one⟩, .buy, 0⟩
    let cs : List InstanceStep := [.price 1 100 [[buy]], .run, .flush, .run,
      .respond ⟨"BTCUSDT", 1, none, false⟩, .beginTrade fill, .run, .endTrade, .run, .run, .flush,
      .price 2 101 [[buy]], .run, .run, .flush, .run]
    Meets step GatewayKeeps (init ⟨"BTCUSDT", ⟨1, 100, 1⟩⟩ false) cs ∧
      Meets step CallbackClear (init ⟨"BTCUSDT", ⟨1, 100, 1⟩⟩ false) cs ∧
      Meets step EntersAlone (init ⟨"BTCUSDT", ⟨1, 100, 1⟩⟩ false) cs := by
  intro buy fill cs
  have hgateway : Meets step GatewayKeeps (init ⟨"BTCUSDT", ⟨1, 100, 1⟩⟩ false) cs := by
    decide +kernel
  have hclear : Meets step CallbackClear (init ⟨"BTCUSDT", ⟨1, 100, 1⟩⟩ false) cs := by
    decide +kernel
  exact ⟨hgateway, hclear, entries_sent_alone _ _ cs hgateway hclear⟩

/-- While a price is handled, the entry is acknowledged and traded. The callback of the price
finds neither the order nor, yet, its position, and enters again. -/
theorem entry_sent_twice :
    let buy : Attempt := ⟨.buy, ⟨100, OfNat.ofNat_ne_zero 100⟩, 1⟩
    let fill : Trade := ⟨1, "BTCUSDT", 1, 100, ⟨1, zero_le_one⟩, .buy, 0⟩
    let cs : List InstanceStep := [.price 1 100 [[buy]], .run, .flush, .run, .price 2 101 [[buy]],
      .run, .respond ⟨"BTCUSDT", 1, none, false⟩, .beginTrade fill, .endTrade, .flush, .run, .run,
      .run, .flush]
    let s := after step (init ⟨"BTCUSDT", ⟨1, 100, 1⟩⟩ false) cs
    Meets step GatewayKeeps (init ⟨"BTCUSDT", ⟨1, 100, 1⟩⟩ false) (cs ++ [.run]) ∧
      s.opened.isSome ∧ s.entries.length = 1 ∧ (s.step .run).entries.length = 2 ∧
      ¬ s.EntersAlone .run := by
  decide +kernel

end InstanceSystem

end CryptoTrading

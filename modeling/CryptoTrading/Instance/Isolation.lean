import CryptoTrading.Instance.Shared

/-! # Each instance reads its own feed

An answer is taken only by the instance that still waits for it, so an instance that has
a generator reads the reader of its own request. The trades that it has handled, the price
on its way and what its reader has still to read are together the feed of that reader.
-/

namespace CryptoTrading

open Runs

namespace SharedGateway

variable {n : ℕ}

def side (s : SharedGateway n) (i : Fin n) : MarketSide := (s.clients i).system.marketSide

inductive Phase (readers : Guid → SequentialMarketDataReader) (feeds : Guid → List PublicTrade)
    (m : MarketSide) (generator : Option Guid) (requested : List Guid)
    (handled : List PublicTrade) (interrupted : Bool) : Prop
  /-- It has made no request. -/
  | idle (hrequested : requested = []) (hpending : m.pendingRequests = [])
    (hmdRequests : m.mdRequests = []) (hgenerator : generator = none) (hprices : m.prices = [])
    (hhandled : handled = [])
  /-- It waits for the answer to its request. -/
  | waiting (guid : Guid) (hrequested : requested = [guid]) (hpending : m.pendingRequests = [guid])
    (hanswer : m.mdRequests = [guid] ∧ ¬ m.Answered guid ∨ m.mdRequests = [] ∧ m.Answered guid)
    (hgenerator : generator = none) (hprices : m.prices = []) (hhandled : handled = [])
    (hunread : (readers guid).remaining = feeds guid)
  /-- It has its feed, or has stopped. -/
  | fed (guid : Guid) (hrequested : requested = [guid]) (hpending : m.pendingRequests = [])
    (hmdRequests : m.mdRequests = []) (hgenerator : generator = none ∨ generator = some guid)
    (hone : m.prices.length ≤ 1)
    (hfeed : handled ++ m.prices ++ (readers guid).remaining = feeds guid)
    (hnext : interrupted ∨ m.prices = [] ∧ (readers guid).remaining = [] ∨
      m.prices ≠ [] ∧ generator = some guid)

structure Isolates (s : SharedGateway n) : Prop where
  phase (i : Fin n) : Phase s.readers s.feeds (s.side i) (s.clients i).generator
    (s.clients i).requested (s.clients i).handled (s.clients i).interrupted
  /-- The start request is on its way, or it was handled and the instance has sent its request. -/
  starts (i : Fin n) : (s.side i).events.countP BacktestEvent.isStart +
    (s.clients i).requested.length ≤ (s.side i).started.toNat
  disjoint (i j : Fin n) (guid : Guid) :
    guid ∈ (s.clients i).requested → guid ∈ (s.clients j).requested → i = j
  requested (i : Fin n) : ∀ guid ∈ (s.clients i).requested, guid < s.nextRequest
  answers (i : Fin n) (guid : Guid) : (s.side i).Answered guid → guid < s.nextRequest
  deliveries : ∀ d ∈ s.deliveries, d.2 < s.nextRequest
  unread (guid : Guid) : s.nextRequest ≤ guid → (s.readers guid).remaining = s.feeds guid
  reads : ∀ c ∈ s.reads, (s.clients c.1).requested = [c.2]

variable {readers readers' : Guid → SequentialMarketDataReader}
  {feeds feeds' : Guid → List PublicTrade}
  {m m' : MarketSide} {generator : Option Guid} {requested : List Guid}
  {handled : List PublicTrade} {interrupted : Bool} {guid : Guid}

theorem Phase.congr (h : Phase readers feeds m generator requested handled interrupted)
    (hpending : m'.pendingRequests = m.pendingRequests) (hmdRequests : m'.mdRequests = m.mdRequests)
    (hprices : m'.prices = m.prices)
    (hanswered : ∀ guid ∈ m.pendingRequests, m'.Answered guid ↔ m.Answered guid)
    (hreaders : ∀ guid ∈ requested, readers' guid = readers guid)
    (hfeeds : ∀ guid ∈ requested, feeds' guid = feeds guid) :
    Phase readers' feeds' m' generator requested handled interrupted := by
  cases h with
  | idle hr hp hm hg hpr hh =>
    exact .idle hr (hpending.trans hp) (hmdRequests.trans hm) hg (hprices.trans hpr) hh
  | waiting guid hr hp ha hg hpr hh hu =>
    apply Phase.waiting guid hr (hpending.trans hp) _ hg (hprices.trans hpr) hh
    · rw [hreaders guid (by simp [hr]), hfeeds guid (by simp [hr]), hu]
    · rwa [hmdRequests, hanswered guid (by simp [hp])]
  | fed guid hr hp hm hg ho hf hn =>
    apply Phase.fed guid hr (hpending.trans hp) (hmdRequests.trans hm) hg
    · rwa [hprices]
    · rwa [hprices, hreaders guid (by simp [hr]), hfeeds guid (by simp [hr])]
    · rwa [hprices, hreaders guid (by simp [hr])]

theorem Phase.generator_of_pending
    (h : Phase readers feeds m generator requested handled interrupted)
    (hpending : guid ∈ m.pendingRequests) : generator = none := by
  cases h with
  | idle hr hp hm hg => exact hg
  | waiting g hr hp ha hg => exact hg
  | fed g hr hp => simp [hp] at hpending

theorem Phase.requested_of_read {c : FeedClient} {e : BacktestEvent}
    (h : Phase readers feeds c.system.marketSide c.generator c.requested c.handled c.interrupted)
    (hread : c.read? e = some guid) : c.requested = [guid] := by
  cases e with
  | feed g reader =>
    simp only [FeedClient.read?, Option.ite_none_right_eq_some, Option.some.injEq] at hread
    obtain ⟨⟨-, hmem⟩, rfl⟩ := hread
    have hmem : g ∈ c.system.marketSide.pendingRequests := hmem
    cases h with
    | idle hr hp => simp [hp] at hmem
    | waiting g' hr hp => rwa [hp, List.mem_singleton, ← List.singleton_inj, ← hr, eq_comm] at hmem
    | fed g' hr hp => simp [hp] at hmem
  | price t =>
    have hread : c.generator = some guid := hread
    cases h with
    | idle hr hp hm hg => simp [hg] at hread
    | waiting g hr hp ha hg => simp [hg] at hread
    | fed g hr hp hm hg =>
      rcases hg with hg | hg <;> rw [hg] at hread
      · cases hread
      · rwa [← Option.some.inj hread]
  | _ => cases hread

theorem generator_of_not_read :
    (if (generator.map readers).isSome then (none : Option Guid).or generator else none) =
      generator := by
  cases generator <;> rfl

theorem remaining_readNext :
    (readNext readers (some guid) guid).remaining = (readers guid).remaining.tail := by
  rw [readNext, Function.update_self]
  exact (readers guid).getNext_spec.2

section Handle

variable {c : FeedClient} {nextRequest : Guid}

theorem Phase.handle_start
    (h : Phase readers feeds (m.before .start) c.generator c.requested c.handled c.interrupted)
    (hm : (m.load (c.generator.map readers) nextRequest).Handles .start m')
    (hnone : c.requested = []) (hanswered : ¬ m.Answered nextRequest)
    (hunread : (readers nextRequest).remaining = feeds nextRequest) :
    Phase readers feeds m' (if m'.generator.isSome then c.generator else none)
      (c.requested ++ [nextRequest]) c.handled c.interrupted := by
  cases h with
  | waiting g hr => simp [hr] at hnone
  | fed g hr => simp [hr] at hnone
  | idle hr hp hmd hg hpr hh =>
    cases hm with
    | other ho => cases ho
    | start =>
      apply Phase.waiting nextRequest
      · simp [hnone]
      · exact congrArg (nextRequest :: ·) hp
      · exact .inl ⟨congrArg (· ++ [nextRequest]) hmd, hanswered⟩
      · simp [hg]
      · exact hpr
      · exact hh
      · exact hunread

theorem Phase.waiting_of_pending {reader : SequentialMarketDataReader}
    (h : Phase readers feeds (m.before (.feed guid reader)) generator requested handled interrupted)
    (hmem : guid ∈ m.pendingRequests) :
    requested = [guid] ∧ m.pendingRequests = [guid] ∧ m.mdRequests = [] ∧ m.prices = [] ∧
      handled = [] ∧ (readers guid).remaining = feeds guid := by
  cases h with
  | idle hr hp =>
    have hp : m.pendingRequests = [] := hp
    simp [hp] at hmem
  | waiting g hr hp ha hg hpr hh hu =>
    have hp : m.pendingRequests = [g] := hp
    obtain rfl : guid = g := by simpa [hp] using hmem
    rcases ha with ⟨-, hno⟩ | ⟨hmd, -⟩
    · exact absurd ⟨reader, .head _⟩ hno
    · exact ⟨hr, hp, hmd, hpr, hh, hu⟩
  | fed g hr hp =>
    have hp : m.pendingRequests = [] := hp
    simp [hp] at hmem

theorem Phase.handle_feed {reader : SequentialMarketDataReader}
    (h : Phase readers feeds (m.before (.feed guid reader)) c.generator c.requested c.handled
      c.interrupted)
    (hm : (m.load (c.generator.map readers) nextRequest).Handles (.feed guid (readers guid)) m')
    (hpending : c.system.pendingRequests = m.pendingRequests) :
    Phase (readNext readers (c.read? (.feed guid reader))) feeds m'
      (if m'.generator.isSome then (c.read? (.feed guid reader)).or c.generator else none)
      c.requested c.handled c.interrupted := by
  have hread : c.read? (.feed guid reader) =
      if c.generator = none ∧ guid ∈ m.pendingRequests then some guid else none := by
    rw [FeedClient.read?, hpending]
  cases hm with
  | other ho => cases ho
  | ignored hnot =>
    have hnot : ¬ (c.generator = none ∧ guid ∈ m.pendingRequests) := by
      simpa only [MarketSide.load, Option.map_eq_none_iff] using hnot
    rw [hread, if_neg hnot, MarketSide.load, generator_of_not_read]
    refine h.congr rfl rfl rfl (fun g hg => ?_) (fun _ _ => rfl) (fun _ _ => rfl)
    have hne : g ≠ guid := by
      rintro rfl
      exact hnot ⟨h.generator_of_pending hg, hg⟩
    constructor
    · rintro ⟨reader', hmem⟩
      exact ⟨reader', .tail _ hmem⟩
    · rintro ⟨reader', _ | ⟨_, hmem⟩⟩
      · exact absurd rfl hne
      · exact ⟨reader', hmem⟩
  | emptyFeed hg hp hreader =>
    have hg : c.generator = none := Option.map_eq_none_iff.mp hg
    obtain ⟨hr, hpend, hmd, hpr, hh, hu⟩ := h.waiting_of_pending hp
    rw [hread, if_pos ⟨hg, hp⟩]
    apply Phase.fed guid hr
    · simp [MarketSide.load, hpend]
    · exact hmd
    · exact .inr rfl
    · exact (congrArg List.length hpr).trans_le zero_le_one
    · have hprices : m.prices = [] := hpr
      rw [remaining_readNext, hh, ← hu, hreader]
      exact congrArg (· ++ []) hprices
    · exact .inr (.inl ⟨hpr, by rw [remaining_readNext, hreader]; rfl⟩)
  | feed t hg hp hreader =>
    have hg : c.generator = none := Option.map_eq_none_iff.mp hg
    obtain ⟨hr, hpend, hmd, hpr, hh, hu⟩ := h.waiting_of_pending hp
    rw [hread, if_pos ⟨hg, hp⟩]
    have hprices := m.prices_concat t
    rw [hpr, List.nil_append] at hprices
    apply Phase.fed guid hr
    · simp [MarketSide.load, hpend]
    · exact hmd
    · exact .inr rfl
    · exact (congrArg List.length hprices).le
    · rw [remaining_readNext, hh, ← hu, hreader]
      exact congrArg (· ++ _) hprices
    · exact .inr (.inr ⟨fun hnil => List.cons_ne_nil t [] (hprices.symm.trans hnil), rfl⟩)

theorem Phase.handle_price {t : PublicTrade}
    (h : Phase readers feeds (m.before (.price t)) c.generator c.requested c.handled c.interrupted)
    (hm : (m.load (c.generator.map readers) nextRequest).Handles (.price t) m') :
    Phase (readNext readers c.generator) feeds m'
      (if m'.generator.isSome then c.generator.or c.generator else none)
      c.requested (c.handled ++ [t]) c.interrupted := by
  cases h with
  | idle hr hp hmd hg hpr => cases hpr
  | waiting g hr hp ha hg hpr => cases hpr
  | fed g hr hp hmd hg ho hf hn =>
    have hpr : m.prices = [] :=
      List.length_eq_zero_iff.mp (Nat.le_zero.mp (Nat.le_of_succ_le_succ ho))
    have hf : c.handled ++ [t] ++ m.prices ++ (readers g).remaining = feeds g := by
      rw [← hf, List.append_assoc c.handled]
      rfl
    cases hm with
    | other ho => cases ho
    | noGenerator hnone =>
      have hnone : c.generator = none := Option.map_eq_none_iff.mp hnone
      rw [hnone]
      apply Phase.fed g hr
      · exact hp
      · exact hmd
      · exact .inl rfl
      · exact (congrArg List.length hpr).trans_le zero_le_one
      · exact hf
      · rcases hn with hn | ⟨hnil, -⟩ | ⟨-, hsome⟩
        · exact .inl hn
        · cases hnil
        · rw [hnone] at hsome
          cases hsome
    | lastPrice hsome hreader =>
      obtain ⟨g', hgen, rfl⟩ := Option.map_eq_some_iff.mp hsome
      obtain rfl : g' = g := by simpa [hgen] using hg
      rw [hgen]
      apply Phase.fed g' hr
      · exact hp
      · exact hmd
      · exact .inl rfl
      · exact (congrArg List.length hpr).trans_le zero_le_one
      · rw [hreader] at hf
        rw [remaining_readNext, hreader]
        exact hf
      · exact .inr (.inl ⟨hpr, by rw [remaining_readNext, hreader]; rfl⟩)
    | price t' hsome hreader =>
      obtain ⟨g', hgen, rfl⟩ := Option.map_eq_some_iff.mp hsome
      obtain rfl : g' = g := by simpa [hgen] using hg
      have hprices := m.prices_concat t'
      rw [hpr, List.nil_append] at hprices
      rw [hgen]
      apply Phase.fed g' hr
      · exact hp
      · exact hmd
      · exact .inr rfl
      · exact (congrArg List.length hprices).le
      · rw [remaining_readNext, ← hf, hpr]
        have hcons := congrArg (c.handled ++ [t] ++ · ++ (readers g').remaining.tail) hprices
        exact hcons.trans (by simp [hreader])
      · exact .inr (.inr ⟨fun hnil => List.cons_ne_nil t' [] (hprices.symm.trans hnil), rfl⟩)

theorem Phase.handle_other {e : BacktestEvent}
    (h : Phase readers feeds m c.generator c.requested c.handled c.interrupted)
    (hm : (m.load (c.generator.map readers) nextRequest).Handles e m')
    (he : e.isMarketData = false) :
    Phase readers feeds m' (if m'.generator.isSome then c.generator else none)
      c.requested c.handled (c.interrupted || decide (e = .stop ∧ m.prices ≠ [])) := by
  have hkeep : Phase readers feeds m c.generator c.requested c.handled
      (c.interrupted || decide (e = .stop ∧ m.prices ≠ [])) := by
    cases h with
    | idle hr hp hmd hg hpr hh => exact .idle hr hp hmd hg hpr hh
    | waiting g hr hp ha hg hpr hh hu => exact .waiting g hr hp ha hg hpr hh hu
    | fed g hr hp hmd hg ho hf hn =>
      exact .fed g hr hp hmd hg ho hf (hn.imp_left fun hi => by simp [hi])
  cases hm with
  | stop =>
    refine Phase.congr (m := m) ?_ rfl rfl rfl (fun _ _ => Iff.rfl) (fun _ _ => rfl) fun _ _ => rfl
    cases hkeep with
    | idle hr hp hmd hg hpr hh => exact .idle hr hp hmd rfl hpr hh
    | waiting g hr hp ha hg hpr hh hu => exact .waiting g hr hp ha rfl hpr hh hu
    | fed g hr hp hmd hg ho hf hn =>
      refine .fed g hr hp hmd (.inl rfl) ho hf ?_
      by_cases hpr : m.prices = []
      · rcases hn with hn | hn | ⟨hne, -⟩
        · exact .inl hn
        · exact .inr (.inl hn)
        · exact absurd hpr hne
      · exact .inl (by simp [hpr])
  | other =>
    have hsame : (if (c.generator.map readers).isSome then c.generator else none) = c.generator :=
      generator_of_not_read
    rw [MarketSide.load, hsame]
    exact hkeep.congr rfl rfl rfl (fun _ _ => Iff.rfl) (fun _ _ => rfl) fun _ _ => rfl
  | _ => cases he

end Handle

theorem readNext_of_ne {read : Option Guid} (h : read ≠ some guid) :
    readNext readers read guid = readers guid := by
  cases read with
  | none => rfl
  | some g => exact Function.update_of_ne (fun heq => h (congrArg some heq.symm)) ..

section Steps

variable {s : SharedGateway n} {i : Fin n} {r : Reaction} {e : BacktestEvent}
  {system : BacktestSystem}

theorem Isolates.requested_of_start (h : s.Isolates)
    (hnext : (s.clients i).system.next? = some (.start, system)) :
    (s.clients i).requested = [] := by
  have hstarts := h.starts i
  rw [side, BacktestSystem.marketSide_next hnext] at hstarts
  have hcount : (system.marketSide.before .start).events.countP BacktestEvent.isStart =
      system.marketSide.events.countP BacktestEvent.isStart + 1 := List.countP_cons_of_pos rfl
  rw [hcount] at hstarts
  have hlength : (s.clients i).requested.length = 0 := by
    have hbool := Bool.toNat_le (system.marketSide.before .start).started
    omega
  exact List.length_eq_zero_iff.mp hlength

theorem Isolates.phase_handle (h : s.Isolates)
    (hnext : (s.clients i).system.next? = some (e, system))
    (hm : (system.marketSide.load ((s.clients i).generator.map s.readers) s.nextRequest).Handles
      (loadEvent s.readers e) m') :
    Phase (readNext s.readers ((s.clients i).read? e)) s.feeds m'
      (if m'.generator.isSome then ((s.clients i).read? e).or (s.clients i).generator else none)
      (if e = .start then (s.clients i).requested ++ [s.nextRequest]
        else (s.clients i).requested)
      ((s.clients i).handled ++ e.price?.toList)
      ((s.clients i).interrupted || decide (e = .stop ∧ (s.side i).prices ≠ [])) := by
  have hpop := BacktestSystem.marketSide_next hnext
  have hphase := h.phase i
  rw [side, hpop] at hphase
  cases e with
  | start =>
    have hanswered : ¬ system.marketSide.Answered s.nextRequest := by
      rintro ⟨reader, hmem⟩
      have hlt := h.answers i s.nextRequest ⟨reader, by rw [side, hpop]; exact .tail _ hmem⟩
      exact lt_irrefl _ hlt
    have hstart :=
      hphase.handle_start hm (h.requested_of_start hnext) hanswered (h.unread _ le_rfl)
    simpa [BacktestEvent.price?, FeedClient.read?, readNext] using hstart
  | feed guid reader =>
    have hpending : (s.clients i).system.pendingRequests = system.marketSide.pendingRequests :=
      congrArg MarketSide.pendingRequests hpop
    simpa [BacktestEvent.price?] using hphase.handle_feed hm hpending
  | price t =>
    simpa [BacktestEvent.price?, FeedClient.read?] using hphase.handle_price hm
  | _ =>
    simpa [BacktestEvent.price?, FeedClient.read?, readNext, loadEvent, side, hpop] using
      hphase.handle_other hm rfl

@[simp] theorem handle_clients_self :
    (s.handle i r e system).clients i = (s.clients i).handle e s.nextRequest
      ((s.load i system).handleEvent r (loadEvent s.readers e)) :=
  Function.update_self ..

theorem handle_clients_of_ne {j : Fin n} (h : j ≠ i) :
    (s.handle i r e system).clients j = s.clients j :=
  Function.update_of_ne h ..

theorem loadEvent_eq_start : loadEvent readers e = .start ↔ e = .start := by
  cases e <;> simp [loadEvent]

theorem mem_requested_handle {j : Fin n}
    (hmem : guid ∈ ((s.handle i r e system).clients j).requested) :
    guid ∈ (s.clients j).requested ∨ j = i ∧ e = .start ∧ guid = s.nextRequest := by
  by_cases hj : j = i
  · subst hj
    simp only [handle_clients_self, FeedClient.handle] at hmem
    split at hmem
    case isTrue he =>
      rw [List.mem_append, List.mem_singleton] at hmem
      exact hmem.imp_right fun hg => ⟨rfl, he, hg⟩
    case isFalse => exact .inl hmem
  · rw [handle_clients_of_ne hj] at hmem
    exact .inl hmem

theorem Isolates.handle (h : s.Isolates)
    (hnext : (s.clients i).system.next? = some (e, system)) :
    (s.handle i r e system).Isolates := by
  have hm : (system.marketSide.load ((s.clients i).generator.map s.readers) s.nextRequest).Handles
      (loadEvent s.readers e) ((s.handle i r e system).side i) := by
    rw [side, handle_clients_self]
    exact (s.load i system).handles_handleEvent r (loadEvent s.readers e)
  have hpop := BacktestSystem.marketSide_next hnext
  have hread (guid : Guid) (hr : (s.clients i).read? e = some guid) :
      (s.clients i).requested = [guid] := (h.phase i).requested_of_read hr
  have hnr : (s.handle i r e system).nextRequest =
      if e = .start then s.nextRequest + 1 else s.nextRequest := by
    have hnext := hm.nextRequest
    simp only [loadEvent_eq_start] at hnext
    rw [side, handle_clients_self] at hnext
    exact hnext
  have hle : s.nextRequest ≤ (s.handle i r e system).nextRequest := by
    rw [hnr]
    split
    · exact Nat.le_succ _
    · exact le_rfl
  have hfresh (j : Fin n) (hmem : s.nextRequest ∈ (s.clients j).requested) : False :=
    lt_irrefl _ (h.requested j _ hmem)
  constructor
  case phase =>
    intro j
    by_cases hj : j = i
    · subst hj
      have hphase := h.phase_handle hnext hm
      rw [side, handle_clients_self] at hphase ⊢
      exact hphase
    · have hphase := h.phase j
      rw [side, handle_clients_of_ne hj]
      refine hphase.congr rfl rfl rfl (fun _ _ => Iff.rfl) (fun guid hmem => ?_) fun _ _ => rfl
      apply readNext_of_ne
      intro hr
      exact hj (h.disjoint j i guid hmem (by simp [hread guid hr]))
  case starts =>
    intro j
    by_cases hj : j = i
    · subst hj
      have hstarts := h.starts j
      rw [side, hpop] at hstarts
      rw [hm.starts, hm.started, handle_clients_self]
      by_cases he : e = .start
      · subst he
        have hnone := h.requested_of_start hnext
        have hcount : (system.marketSide.before .start).events.countP BacktestEvent.isStart =
            system.marketSide.events.countP BacktestEvent.isStart + 1 := List.countP_cons_of_pos rfl
        rw [hcount, hnone] at hstarts
        simpa [FeedClient.handle, hnone] using hstarts
      · have hcount : (system.marketSide.before e).events.countP BacktestEvent.isStart =
            system.marketSide.events.countP BacktestEvent.isStart := by
          cases e <;> first | rfl | exact absurd rfl he
        rw [hcount] at hstarts
        simpa [FeedClient.handle, he] using hstarts
    · rw [side, handle_clients_of_ne hj]
      exact h.starts j
  case disjoint =>
    intro j k guid hj hk
    rcases mem_requested_handle hj with holdj | ⟨hji, -, hnewj⟩
    · rcases mem_requested_handle hk with holdk | ⟨-, -, hnewk⟩
      · exact h.disjoint j k guid holdj holdk
      · exact (hfresh j (hnewk ▸ holdj)).elim
    · rcases mem_requested_handle hk with holdk | ⟨hki, -, -⟩
      · exact (hfresh k (hnewj ▸ holdk)).elim
      · exact hji.trans hki.symm
  case requested =>
    intro j guid hmem
    rcases mem_requested_handle hmem with hmem | ⟨-, he, rfl⟩
    · exact (h.requested j guid hmem).trans_le hle
    · rw [hnr, if_pos he]
      exact Nat.lt_succ_self _
  case answers =>
    intro j guid hanswered
    apply (h.answers j guid _).trans_le hle
    by_cases hj : j = i
    · subst hj
      obtain ⟨reader, hmem⟩ := hm.answered hanswered
      rw [side, hpop]
      exact ⟨reader, List.mem_append_right _ hmem⟩
    · rwa [side, handle_clients_of_ne hj] at hanswered
  case deliveries => exact fun d hd => (h.deliveries d hd).trans_le hle
  case unread =>
    intro guid hguid
    have hguid := hle.trans hguid
    have hsame : (s.handle i r e system).readers guid = s.readers guid := by
      apply readNext_of_ne
      intro hr
      exact (h.requested i guid (by simp [hread guid hr])).not_ge hguid
    rw [hsame]
    exact h.unread guid hguid
  case reads =>
    rintro ⟨j, guid⟩ hmem
    have hreq : (s.clients j).requested = [guid] := by
      rcases List.mem_append.mp hmem with hmem | hmem
      · exact h.reads _ hmem
      · simp only [List.mem_map, Option.mem_toList, Prod.mk.injEq] at hmem
        obtain ⟨g, hg, rfl, rfl⟩ := hmem
        exact hread g hg
    by_cases hj : j = i
    · subst hj
      have he : e ≠ .start := by
        rintro rfl
        simp [h.requested_of_start hnext] at hreq
      simpa [FeedClient.handle, he] using hreq
    · rwa [handle_clients_of_ne hj]

section SetSystem

variable {j : Fin n}

@[simp] theorem requested_setSystem :
    ((s.setSystem i system).clients j).requested = (s.clients j).requested := by
  by_cases hj : j = i
  · subst hj
    simp [setSystem]
  · simp [setSystem, hj]

theorem side_setSystem_self : (s.setSystem i system).side i = system.marketSide := by
  simp [side, setSystem]

theorem clients_setSystem_of_ne (h : j ≠ i) : (s.setSystem i system).clients j = s.clients j :=
  Function.update_of_ne h ..

theorem Isolates.setSystem (h : s.Isolates)
    (hphase : Phase s.readers s.feeds system.marketSide (s.clients i).generator
      (s.clients i).requested (s.clients i).handled (s.clients i).interrupted)
    (hstarts : system.marketSide.events.countP BacktestEvent.isStart +
      (s.clients i).requested.length ≤ system.marketSide.started.toNat)
    (hanswers : ∀ guid, system.marketSide.Answered guid → guid < s.nextRequest) :
    (s.setSystem i system).Isolates where
  phase j := by
    by_cases hj : j = i
    · subst hj
      rw [side_setSystem_self]
      simpa [SharedGateway.setSystem] using hphase
    · rw [side, clients_setSystem_of_ne hj]
      exact h.phase j
  starts j := by
    by_cases hj : j = i
    · subst hj
      rwa [side_setSystem_self, requested_setSystem]
    · rw [side, clients_setSystem_of_ne hj]
      exact h.starts j
  disjoint j k guid := by
    simpa using h.disjoint j k guid
  requested j guid := by
    rw [requested_setSystem]
    exact h.requested j guid
  answers j guid hanswered := by
    by_cases hj : j = i
    · subst hj
      rw [side_setSystem_self] at hanswered
      exact hanswers guid hanswered
    · rw [side, clients_setSystem_of_ne hj] at hanswered
      exact h.answers j guid hanswered
  deliveries := h.deliveries
  unread := h.unread
  reads c hc := by
    rw [requested_setSystem]
    exact h.reads c hc

end SetSystem

theorem Phase.handleRequest (h : Phase readers feeds m generator requested handled interrupted)
    (files : List (List PublicTrade)) (hmem : guid ∈ m.mdRequests) :
    requested = [guid] ∧ Phase (Function.update readers guid (.new files))
      (Function.update feeds guid files.flatten) m generator requested handled interrupted := by
  cases h with
  | idle hr hp hm => simp [hm] at hmem
  | waiting g hr hp ha hg hpr hh hu =>
    obtain rfl : guid = g := by
      rcases ha with ⟨hm, -⟩ | ⟨hm, -⟩
      · simpa [hm] using hmem
      · simp [hm] at hmem
    refine ⟨hr, .waiting guid hr hp ha hg hpr hh ?_⟩
    simp
  | fed g hr hp hm => simp [hm] at hmem

theorem Phase.prices_length_le (h : Phase readers feeds m generator requested handled interrupted) :
    m.prices.length ≤ 1 := by
  cases h with
  | idle hr hp hm hg hpr => simp [hpr]
  | waiting guid hr hp ha hg hpr => simp [hpr]
  | fed guid hr hp hm hg ho => exact ho

theorem Isolates.setSystem_of_perm (h : s.Isolates)
    (hside : system.marketSide = { s.side i with events := system.marketEvents })
    (hperm : system.marketEvents.Perm (s.side i).events) : (s.setSystem i system).Isolates := by
  have hperm : system.marketSide.events.Perm (s.side i).events := hperm
  have hanswered (guid : Guid) : system.marketSide.Answered guid ↔ (s.side i).Answered guid :=
    MarketSide.answered_iff_of_perm hperm
  apply h.setSystem
  · refine (h.phase i).congr ?_ ?_ ?_ (fun guid _ => hanswered guid) (fun _ _ => rfl)
      fun _ _ => rfl
    · rw [hside]
    · rw [hside]
    · exact MarketSide.prices_eq_of_perm hperm (h.phase i).prices_length_le
  · have hstarted : system.marketSide.started = (s.side i).started := by rw [hside]
    rw [hperm.countP_eq, hstarted]
    exact h.starts i
  · intro guid hg
    exact h.answers i guid ((hanswered guid).mp hg)

section Push

variable {guid : Guid} {reader : SequentialMarketDataReader}

theorem Isolates.runAsync (h : s.Isolates) (hstarted : (s.side i).started = false) :
    (s.setSystem i ((s.clients i).system.advance .runAsync)).Isolates := by
  set system := (s.clients i).system.advance .runAsync
  have hperm : system.marketSide.events.Perm ((s.side i).before .start).events :=
    BacktestSystem.marketEvents_push rfl
  have hanswered (guid : Guid) : system.marketSide.Answered guid ↔ (s.side i).Answered guid := by
    rw [MarketSide.answered_iff_of_perm hperm, MarketSide.answered_before]
    simp
  apply h.setSystem
  · refine (h.phase i).congr rfl rfl ?_ (fun guid _ => hanswered guid) (fun _ _ => rfl)
      fun _ _ => rfl
    exact MarketSide.prices_eq_of_push hperm rfl (h.phase i).prices_length_le
  · have hcount : ((s.side i).before .start).events.countP BacktestEvent.isStart =
        (s.side i).events.countP BacktestEvent.isStart + 1 := List.countP_cons_of_pos rfl
    have hstarts := h.starts i
    rw [hstarted, Bool.toNat_false] at hstarts
    have hstarted' : system.marketSide.started = true := rfl
    rw [hperm.countP_eq, hcount, hstarted', Bool.toNat_true]
    omega
  · intro guid hg
    exact h.answers i guid ((hanswered guid).mp hg)

theorem Isolates.answer (h : s.Isolates) (hlt : guid < s.nextRequest) :
    (s.setSystem i ((s.clients i).system.advance (.answer guid reader))).Isolates := by
  set system := (s.clients i).system.advance (.answer guid reader)
  have hperm : system.marketSide.events.Perm ((s.side i).before (.feed guid reader)).events :=
    BacktestSystem.marketEvents_push rfl
  have hanswered (g : Guid) :
      system.marketSide.Answered g ↔ g = guid ∨ (s.side i).Answered g := by
    rw [MarketSide.answered_iff_of_perm hperm, MarketSide.answered_before]
    apply or_congr_left
    constructor
    · rintro ⟨reader', heq⟩
      exact (BacktestEvent.feed.inj heq).1.symm
    · rintro rfl
      exact ⟨reader, rfl⟩
  have hprices : system.marketSide.prices = (s.side i).prices :=
    MarketSide.prices_eq_of_push hperm rfl (h.phase i).prices_length_le
  have hmd : system.marketSide.mdRequests = (s.side i).mdRequests.erase guid := rfl
  apply h.setSystem
  · cases h.phase i with
    | idle hr hp hm hg hpr hh =>
      exact .idle hr hp (by rw [hmd, hm]; rfl) hg (hprices.trans hpr) hh
    | waiting g hr hp ha hg hpr hh hu =>
      refine .waiting g hr hp ?_ hg (hprices.trans hpr) hh hu
      rw [hmd, hanswered]
      by_cases heq : g = guid
      · subst heq
        right
        rcases ha with ⟨hm, -⟩ | ⟨hm, -⟩ <;> simp [hm]
      · rcases ha with ⟨hm, hno⟩ | ⟨hm, hyes⟩
        · exact .inl ⟨by rw [hm, List.erase_of_not_mem (by simpa using Ne.symm heq)],
            by simp [heq, hno]⟩
        · exact .inr ⟨by rw [hm]; rfl, .inr hyes⟩
    | fed g hr hp hm hg ho hf hn =>
      refine .fed g hr hp ?_ hg ?_ ?_ ?_
      · rw [hmd, hm]
        rfl
      · rwa [hprices]
      · rwa [hprices]
      · rwa [hprices]
  · rw [hperm.countP_eq]
    exact h.starts i
  · intro g hg
    rcases (hanswered g).mp hg with rfl | hg
    · exact hlt
    · exact h.answers i g hg

end Push

theorem Isolates.advanceClient (h : s.Isolates) {x : BacktestStep}
    (hok : s.StartedOnce (.client i x)) : (s.advanceClient i x).Isolates := by
  cases x with
  | runAsync => exact h.runAsync hok
  | stopAsync doPanic => exact hok.elim
  | answer guid reader => exact h
  | delayed => exact h.setSystem_of_perm rfl (BacktestSystem.marketEvents_push_of_not rfl)
  | flush =>
    simp only [SharedGateway.advanceClient, BacktestSystem.advance]
    split
    case h_1 e outbox hout => exact h.setSystem_of_perm rfl (BacktestSystem.marketEvents_flush hout)
    case h_2 => exact h.setSystem_of_perm rfl (.refl _)
  | run r =>
    simp only [SharedGateway.advanceClient]
    split
    case h_1 e system hnext => exact h.handle hnext
    case h_2 => exact h

theorem Isolates.handleRequest (h : s.Isolates) (guid : Guid) (files : List (List PublicTrade)) :
    (s.advance (.handleRequest guid files)).Isolates := by
  simp only [advance]
  split
  case isFalse => exact h
  case isTrue hreq =>
    obtain ⟨-, i, hmem⟩ := hreq
    have hmem : guid ∈ (s.side i).mdRequests := hmem
    obtain ⟨hrequested, hphase⟩ := (h.phase i).handleRequest files hmem
    have hne (j : Fin n) (hj : j ≠ i) : guid ∉ (s.clients j).requested :=
      fun hmem => hj (h.disjoint j i guid hmem (by simp [hrequested]))
    have hlt : guid < s.nextRequest := h.requested i guid (by simp [hrequested])
    constructor
    case phase =>
      intro j
      by_cases hj : j = i
      · subst hj
        exact hphase
      · refine (h.phase j).congr rfl rfl rfl (fun _ _ => Iff.rfl) (fun g hg => ?_) fun g hg => ?_
        all_goals
          apply Function.update_of_ne
          rintro rfl
          exact hne j hj hg
    case deliveries =>
      intro d hd
      obtain ⟨j, -, rfl⟩ := List.mem_map.mp hd
      exact hlt
    case unread =>
      intro g hg
      have hg' : g ≠ guid := by
        rintro rfl
        exact hlt.not_ge hg
      simpa [hg'] using h.unread g hg
    case starts => exact h.starts
    case disjoint => exact h.disjoint
    case requested => exact h.requested
    case answers => exact h.answers
    case reads => exact h.reads

theorem Isolates.deliver (h : s.Isolates) : (s.advance .deliver).Isolates := by
  simp only [advance]
  split
  case h_1 => exact h
  case h_2 i guid deliveries hd =>
    have hlt : guid < s.nextRequest := h.deliveries (i, guid) (by simp [hd])
    have hanswer : (s.setSystem i ((s.clients i).system.advance
        (.answer guid (s.readers guid)))).Isolates := h.answer hlt
    obtain ⟨hphase, hstarts, hdisjoint, hrequested, hanswers, -, hunread, hreads⟩ := hanswer
    refine ⟨hphase, hstarts, hdisjoint, hrequested, hanswers, ?_, hunread, hreads⟩
    intro d hmem
    exact h.deliveries d (by simp [hd, hmem])

end Steps

theorem Isolates.step {s : SharedGateway n} {x : SharedStep n} (h : s.Isolates)
    (hok : s.StartedOnce x) : (s.step x).Isolates := by
  unfold SharedGateway.step
  split
  case isFalse => exact h
  case isTrue =>
    cases x with
    | client i x => exact h.advanceClient hok
    | handleRequest guid files => exact h.handleRequest guid files
    | deliver => exact h.deliver

theorem Isolates.init (symbols : Fin n → Symbol) : (init symbols).Isolates where
  phase i := .idle rfl rfl rfl rfl rfl rfl
  starts i := Nat.zero_le _
  disjoint i j guid hi := by cases hi
  requested i guid hi := by cases hi
  answers i guid := by
    rintro ⟨reader, hmem⟩
    cases hmem
  deliveries d hd := by cases hd
  unread guid hguid := rfl
  reads c hc := by cases hc

/-- The trades of the reader that was created for the instance's request. -/
def ownFeed (s : SharedGateway n) (i : Fin n) : List PublicTrade :=
  (s.clients i).requested.flatMap s.feeds

/-- The gateway has answered the instance, to which no market data is on its way. -/
def Settled (s : SharedGateway n) (i : Fin n) : Prop :=
  (s.side i).mdRequests = [] ∧ (s.side i).events = []

instance (s : SharedGateway n) (i : Fin n) : Decidable (s.Settled i) :=
  inferInstanceAs (Decidable (_ ∧ _))

/-- The instances read their own feeds: each handles the trades of its feed in their order, and
all of them unless a stop request of its own has met a price on its way. -/
structure Isolated (s : SharedGateway n) : Prop where
  reads : ∀ c ∈ s.reads, (s.clients c.1).requested = [c.2]
  disjoint (i j : Fin n) (guid : Guid) :
    guid ∈ (s.clients i).requested → guid ∈ (s.clients j).requested → i = j
  handled (i : Fin n) : (s.clients i).handled <+: s.ownFeed i
  complete (i : Fin n) : s.Settled i → (s.clients i).interrupted = false →
    (s.clients i).handled = s.ownFeed i

theorem Isolates.isolated {s : SharedGateway n} (h : s.Isolates) : s.Isolated where
  reads := h.reads
  disjoint := h.disjoint
  handled i := by
    cases h.phase i with
    | idle hr hp hm hg hpr hh => simp [hh]
    | waiting g hr hp ha hg hpr hh => simp [hh]
    | fed g hr hp hm hg ho hf =>
      refine ⟨(s.side i).prices ++ (s.readers g).remaining, ?_⟩
      rw [← List.append_assoc, hf, ownFeed, hr, List.flatMap_singleton]
  complete i := by
    rintro ⟨hanswered, hnone⟩ hinterrupted
    have hprices : (s.side i).prices = [] := by rw [MarketSide.prices, hnone]; rfl
    cases h.phase i with
    | idle hr hp hm hg hpr hh => simp [hh, ownFeed, hr]
    | waiting g hr hp ha hg hpr hh =>
      rcases ha with ⟨hm, -⟩ | ⟨-, reader, hmem⟩
      · simp [hm] at hanswered
      · simp [hnone] at hmem
    | fed g hr hp hm hg ho hf hn =>
      have hremaining : (s.readers g).remaining = [] := by
        rcases hn with hn | ⟨-, hn⟩ | ⟨hne, -⟩
        · simp [hinterrupted] at hn
        · exact hn
        · exact absurd hprices hne
      rw [hprices, hremaining] at hf
      simpa [ownFeed, hr] using hf

/-- In every run in which each instance is started once and none is stopped from outside, the
instances read their own feeds. -/
theorem isolated_of_startedOnce (symbols : Fin n → Symbol) (xs : List (SharedStep n))
    (h : Meets step StartedOnce (init symbols) xs) :
    (after step (init symbols) xs).Isolated :=
  (h.invariant (fun _ _ hs hok => hs.step hok) (Isolates.init symbols)).isolated

/-- Two instances, whose answers arrive at both before they are handled. -/
theorem isolated_of_startedOnce_two :
    let symbols : Fin 2 → Symbol := fun _ => ⟨"BTCUSDT", ⟨1, 100, 1⟩⟩
    let xs : List (SharedStep 2) :=
      [.client 0 .runAsync, .client 1 .runAsync, .client 0 (.run {}), .client 1 (.run {}),
        .handleRequest 2 [[⟨1, 100, ⟨1⟩⟩]], .deliver, .deliver,
        .handleRequest 1 [[⟨1, 50, ⟨1⟩⟩], [⟨2, 51, ⟨1⟩⟩]], .deliver, .deliver,
        .client 0 (.run {}), .client 0 (.run {}), .client 0 .flush, .client 1 (.run {}),
        .client 1 .flush, .client 0 (.run {}), .client 1 (.run {}), .client 1 (.run {}),
        .client 0 .flush, .client 0 (.run {})]
    Meets step StartedOnce (init symbols) xs ∧ (after step (init symbols) xs).Isolated := by
  intro symbols xs
  have h : Meets step StartedOnce (init symbols) xs := by decide +kernel
  exact ⟨h, isolated_of_startedOnce symbols xs h⟩

/-- The strategy of the first instance reports an error in the first of three callbacks. -/
theorem handled_of_own_error :
    let symbols : Fin 2 → Symbol := fun _ => ⟨"BTCUSDT", ⟨1, 100, 1⟩⟩
    let xs : List (SharedStep 2) :=
      [.client 0 .runAsync, .client 1 .runAsync, .client 0 (.run {}), .client 1 (.run {}),
        .handleRequest 2 [[⟨1, 100, ⟨1⟩⟩]], .deliver, .deliver,
        .client 1 (.run {}), .client 1 .flush, .client 1 (.run {}), .client 1 .flush,
        .client 1 (.run {}),
        .handleRequest 1 [[⟨1, 50, ⟨1⟩⟩, ⟨2, 51, ⟨1⟩⟩, ⟨3, 52, ⟨1⟩⟩]], .deliver, .deliver,
        .client 1 (.run {}), .client 0 (.run {}), .client 0 (.run {}), .client 0 .flush,
        .client 0 (.run { first := 1 }), .client 0 .flush, .client 0 .flush,
        .client 0 (.run { actions := [.error false] }), .client 0 .flush, .client 0 (.run {}),
        .client 0 .flush, .client 0 (.run {}), .client 0 (.run {})]
    Meets step StartedOnce (init symbols) xs ∧
      (after step (init symbols) xs).Settled 0 ∧
      ((after step (init symbols) xs).clients 0).handled = [⟨1, 50, ⟨1⟩⟩, ⟨2, 51, ⟨1⟩⟩] ∧
      (after step (init symbols) xs).ownFeed 0 =
        [⟨1, 50, ⟨1⟩⟩, ⟨2, 51, ⟨1⟩⟩, ⟨3, 52, ⟨1⟩⟩] := by
  decide +kernel

end SharedGateway

end CryptoTrading

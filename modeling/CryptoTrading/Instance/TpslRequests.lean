import CryptoTrading.Engine.TpslUpdates
import CryptoTrading.Strategy.Tpsl

/-! # Requests of the take profit and stop loss of a position

The exit strategy asks for them when a trade finds the position opened, and does not ask
again while it knows of an active request. It learns of one by a queued update only. The
trades, the notifications of an opened position, the gateway's updates and the queued ones
come in any order.
-/

namespace CryptoTrading

open Runs

/-- The request is rejected, triggered or taken back. -/
def TpslUpdatedEvent.ends (r : TpslUpdatedEvent) : Bool :=
  r.rejectReason.isSome || r.triggered || ! r.setUp

def OrderManagerOutput.tpsl? : OrderManagerOutput → Option TpslRequestEvent
  | request (.tpsl ev) => some ev
  | _ => none

inductive TpslStep
  | openedPos (v : Bool)
  | trade (t : Trade)
  /-- An update of the gateway, about this request; the order manager does not look at it. -/
  | updated (request : Guid) (r : TpslUpdatedEvent)
  | notify
  deriving DecidableEq

structure TpslSystem where
  om : OrderManager
  strategy : TpslExitStrategy
  /-- The objects of all requests; the queued updates share them. -/
  objects : GuidMap TpslFullPos
  /-- The queued updates of the strategy's subscriber. -/
  queue : List Guid
  /-- The requests for the position that is open, and those that have ended. -/
  requests : List Guid
  ended : List Guid

/-- A trade makes the strategy send a request just when it finds the position opened and no
active request. -/
theorem TpslExitStrategy.onTrade_cases (s : TpslExitStrategy) (om : OrderManager) (t : Trade) :
    s.onTrade om t = (s, om, []) ∨
      s.isPosOpened = true ∧ s.activeTpsl = none ∧ ∃ o ev, o.guid = om.nextGuid ∧
        ev.guid = om.nextGuid ∧ o.status = .pending ∧
        s.onTrade om t = ({ s with tpslSub := some om.nextGuid },
          { om with tpsl := some o, nextGuid := om.nextGuid + 1 }, [.request (.tpsl ev)]) := by
  unfold onTrade
  by_cases hopened : s.isPosOpened = true
  · cases hactive : s.activeTpsl with
    | none =>
      right
      simp only [hopened, Option.isSome_none, Bool.false_eq_true, and_false, if_false, if_true]
      exact ⟨trivial, trivial, _, _, rfl, rfl, rfl, rfl⟩
    | some g => exact .inl (if_pos ⟨hopened, rfl⟩)
  · left
    rw [if_neg fun hboth => hopened hboth.1, if_neg hopened]

theorem TpslExitStrategy.onUpdated_cases (s : TpslExitStrategy) (tpsl? : Option TpslFullPos) :
    (s.onUpdated tpsl?).1.tpslSub = s.tpslSub ∨ (s.onUpdated tpsl?).1.tpslSub = none ∧
      ∃ o ∈ tpsl?, o.status = .filled ∨ o.status = .cancelled := by
  cases tpsl? with
  | none => exact .inl rfl
  | some o =>
    by_cases hdone : o.status = .filled ∨ o.status = .cancelled
    · right
      simp only [onUpdated, if_pos hdone]
      exact ⟨trivial, o, rfl, hdone⟩
    · left
      simp only [onUpdated, if_neg hdone]

theorem TpslUpdatedEvent.ends_of_status (o : TpslFullPos) (r : TpslUpdatedEvent)
    (h : (o.onResponse r).status = .filled ∨ (o.onResponse r).status = .cancelled) :
    r.ends = true := by
  unfold ends
  by_contra hgoes
  simp only [Bool.or_eq_true, Bool.not_eq_true', not_or, Bool.not_eq_true, Bool.not_eq_false]
    at hgoes
  obtain ⟨⟨hreject, htriggered⟩, hsetUp⟩ := hgoes
  have hstatus : (o.onResponse r).status = .suspended := by
    simp [TpslFullPos.status, TpslFullPos.onResponse, hreject, htriggered, hsetUp]
  rw [hstatus] at h
  simp at h

namespace TpslSystem

def init (symbol : Symbol) (config : TpslExitStrategyConfig) : TpslSystem where
  om := .init symbol
  strategy := { config }
  objects := ∅
  queue := []
  requests := []
  ended := []

variable (s : TpslSystem)

def sends (t : Trade) : List TpslRequestEvent :=
  (s.strategy.onTrade s.om t).2.2.filterMap OrderManagerOutput.tpsl?

/-- With a new subscriber the queued updates of the old one are discarded. -/
def trade (t : Trade) : TpslSystem :=
  let (strategy, om, _) := s.strategy.onTrade s.om t
  if s.sends t = [] then { s with strategy, om }
  else
    { s with
      strategy
      om
      objects := om.tpsl.elim s.objects fun o => s.objects.insert o.guid o
      queue := []
      requests := (s.sends t).map (·.guid) ++ s.requests }

def updated (request : Guid) (r : TpslUpdatedEvent) : TpslSystem :=
  let ended := if r.ends then request :: s.ended else s.ended
  let (om, _) := s.om.onTpslResponse r
  match s.om.tpsl with
  | none => { s with om, ended }
  | some o =>
    { s with
      om
      objects := s.objects.insert o.guid (o.onResponse r)
      queue := if s.strategy.tpslSub = some o.guid then s.queue ++ [o.guid] else s.queue
      ended }

/-- The update shows the request as it is by now. -/
def notify : TpslSystem :=
  match s.queue with
  | [] => s
  | guid :: queue =>
    let (strategy, _) := s.strategy.onUpdated (s.objects.lookup guid)
    { s with strategy, queue := if strategy.tpslSub.isNone then [] else queue }

def step : TpslStep → TpslSystem
  | .openedPos v =>
    { s with strategy.isPosOpened := v, requests := if v then s.requests else [] }
  | .trade t => s.trade t
  | .updated request r => s.updated request r
  | .notify => s.notify

/-- A request of the position that has not ended. -/
def Outstanding (guid : Guid) : Prop := guid ∈ s.requests ∧ guid ∉ s.ended

instance (guid : Guid) : Decidable (s.Outstanding guid) := inferInstanceAs (Decidable (_ ∧ _))

/-- Nothing is sent while a request of the position is outstanding. -/
def SendsOne : TpslStep → Prop
  | .trade t => s.sends t ≠ [] → ∀ g ∈ s.requests, ¬ s.Outstanding g
  | _ => True

/-- No trade finds the position opened with a request that the strategy has not heard of, and
each update is about the last request. -/
def AnswersFirst : TpslStep → Prop
  | .trade _ => s.strategy.isPosOpened → s.requests ≠ [] → s.strategy.tpslSub.isSome →
    s.strategy.activeTpsl.isSome
  | .updated request _ => ∀ o ∈ s.om.tpsl, o.guid = request
  | _ => True

instance : (x : TpslStep) → Decidable (s.SendsOne x)
  | .trade _ => inferInstanceAs (Decidable (_ → _))
  | .openedPos _ | .updated _ _ | .notify => isTrue trivial

instance : (x : TpslStep) → Decidable (s.AnswersFirst x)
  | .trade _ => inferInstanceAs (Decidable (_ → _))
  | .updated request _ => inferInstanceAs (Decidable (∀ o ∈ s.om.tpsl, o.guid = request))
  | .openedPos _ | .notify => isTrue trivial

structure Answered : Prop where
  subscribed : ∀ g, s.Outstanding g → s.strategy.tpslSub = some g
  queue : ∀ g ∈ s.queue, s.strategy.tpslSub = some g
  ended : ∀ g, ∀ o ∈ s.objects.lookup g,
    o.status = .filled ∨ o.status = .cancelled → g ∈ s.ended

variable {s} {t : Trade} {guid request : Guid} {r : TpslUpdatedEvent}

theorem Answered.init (symbol : Symbol) (config : TpslExitStrategyConfig) :
    (init symbol config).Answered := by
  constructor
  · rintro g ⟨⟨⟩, -⟩
  · rintro g ⟨⟩
  · rintro g o ⟨⟩

/-- No request of the position is outstanding when the strategy asks for another one. -/
theorem Answered.not_outstanding (h : s.Answered) (hx : s.AnswersFirst (.trade t))
    (hopened : s.strategy.isPosOpened = true) (hactive : s.strategy.activeTpsl = none) (g : Guid) :
    ¬ s.Outstanding g := by
  intro hg
  have hsub : s.strategy.tpslSub.isSome = true := by rw [h.subscribed g hg]; rfl
  have hsome := hx hopened (List.ne_nil_of_mem hg.1) hsub
  rw [hactive] at hsome
  cases hsome

theorem Answered.trade (h : s.Answered) (hx : s.AnswersFirst (.trade t)) :
    (s.trade t).Answered ∧ s.SendsOne (.trade t) := by
  rcases s.strategy.onTrade_cases s.om t with hidle | ⟨hopened, hactive, o, ev, ho, hev, hstatus,
    hsend⟩
  · have hsends : s.sends t = [] := by rw [sends, hidle]; rfl
    have htrade : s.trade t = s := by
      simp only [TpslSystem.trade, hsends, if_true, hidle]
    rw [htrade]
    exact ⟨h, fun hne => absurd hsends hne⟩
  · have hnone := h.not_outstanding hx hopened hactive
    have hsends : s.sends t = [ev] := by rw [sends, hsend]; rfl
    have htrade : s.trade t =
        { s with
          strategy.tpslSub := some s.om.nextGuid
          om := { s.om with tpsl := some o, nextGuid := s.om.nextGuid + 1 }
          objects := s.objects.insert o.guid o
          queue := []
          requests := s.om.nextGuid :: s.requests } := by
      simp [TpslSystem.trade, hsends, hsend, hev]
    rw [htrade]
    refine ⟨?_, fun _ g _ => hnone g⟩
    constructor
    · rintro g ⟨hg, hopen⟩
      rcases List.mem_cons.mp hg with rfl | hg
      · rfl
      · exact absurd ⟨hg, hopen⟩ (hnone g)
    · rintro g ⟨⟩
    · intro g o' ho' hdone
      by_cases hg : g = o.guid
      · subst hg
        rw [AList.lookup_insert, Option.mem_some_iff] at ho'
        subst ho'
        rw [hstatus] at hdone
        simp at hdone
      · rw [AList.lookup_insert_ne hg] at ho'
        exact h.ended g o' ho' hdone

theorem mem_ended_updated (h : guid ∈ s.ended) : guid ∈ (s.updated request r).ended := by
  unfold TpslSystem.updated
  cases s.om.tpsl <;>
  · simp only
    split
    · exact List.mem_cons_of_mem _ h
    · exact h

theorem Answered.updated (h : s.Answered) (hx : s.AnswersFirst (.updated request r)) :
    (s.updated request r).Answered := by
  have hrest : (s.updated request r).strategy = s.strategy ∧
      (s.updated request r).requests = s.requests := by
    unfold TpslSystem.updated
    cases s.om.tpsl <;> exact ⟨rfl, rfl⟩
  constructor
  · rintro g ⟨hg, hopen⟩
    rw [hrest.2] at hg
    rw [hrest.1]
    exact h.subscribed g ⟨hg, fun hended => hopen (mem_ended_updated hended)⟩
  · intro g hg
    rw [hrest.1]
    unfold TpslSystem.updated at hg
    cases htpsl : s.om.tpsl with
    | none =>
      rw [htpsl] at hg
      exact h.queue g hg
    | some o =>
      simp only [htpsl] at hg
      split at hg
      · rename_i hsub
        rcases List.mem_append.mp hg with hg | hg
        · exact h.queue g hg
        · rw [List.mem_singleton.mp hg]
          exact hsub
      · exact h.queue g hg
  · intro g o' ho' hdone
    cases htpsl : s.om.tpsl with
    | none =>
      have hobjects : (s.updated request r).objects = s.objects := by
        simp only [TpslSystem.updated, htpsl]
      rw [hobjects] at ho'
      exact mem_ended_updated (h.ended g o' ho' hdone)
    | some o =>
      have hobjects : (s.updated request r).objects = s.objects.insert o.guid (o.onResponse r) := by
        simp only [TpslSystem.updated, htpsl]
      rw [hobjects] at ho'
      by_cases hg : g = o.guid
      · -- the update is about the object that it is applied to
        have hrequest : o.guid = request := hx o (by rw [htpsl]; rfl)
        rw [hg, AList.lookup_insert, Option.mem_some_iff] at ho'
        subst ho'
        have hends := TpslUpdatedEvent.ends_of_status o r hdone
        simp only [TpslSystem.updated, htpsl, hends, if_true]
        rw [hg, hrequest]
        exact List.mem_cons_self
      · rw [AList.lookup_insert_ne hg] at ho'
        exact mem_ended_updated (h.ended g o' ho' hdone)

theorem Answered.notify (h : s.Answered) : s.notify.Answered := by
  cases hqueue : s.queue with
  | nil =>
    simp only [TpslSystem.notify, hqueue]
    exact h
  | cons g queue =>
    have hsub : s.strategy.tpslSub = some g := h.queue g (by rw [hqueue]; exact List.mem_cons_self)
    have hnotify : s.notify = { s with
        strategy := (s.strategy.onUpdated (s.objects.lookup g)).1
        queue := if (s.strategy.onUpdated (s.objects.lookup g)).1.tpslSub.isNone then []
          else queue } := by
      simp only [TpslSystem.notify, hqueue]
    rw [hnotify]
    constructor
    · rintro g' ⟨hg', hopen⟩
      rcases s.strategy.onUpdated_cases (s.objects.lookup g) with hsame | ⟨-, o, ho, hdone⟩
      · exact hsame.trans (h.subscribed g' ⟨hg', hopen⟩)
      · have heq := h.subscribed g' ⟨hg', hopen⟩
        rw [hsub, Option.some.injEq] at heq
        subst heq
        exact absurd (h.ended g o ho hdone) hopen
    · intro g' hg'
      simp only at hg' ⊢
      rcases s.strategy.onUpdated_cases (s.objects.lookup g) with hsame | ⟨hnone, -⟩
      · rw [hsame, hsub, if_neg (by simp)] at hg'
        rw [hsame]
        exact h.queue g' (by rw [hqueue]; exact List.mem_cons_of_mem _ hg')
      · rw [hnone] at hg'
        cases hg'
    · exact h.ended

theorem Answered.step (h : s.Answered) {x : TpslStep} (hx : s.AnswersFirst x) :
    (s.step x).Answered ∧ s.SendsOne x := by
  cases x with
  | openedPos v =>
    refine ⟨⟨?_, h.queue, h.ended⟩, trivial⟩
    rintro g ⟨hg, hopen⟩
    apply h.subscribed g
    cases v with
    | false => cases hg
    | true => exact ⟨hg, hopen⟩
  | trade t => exact h.trade hx
  | updated request r => exact ⟨h.updated hx, trivial⟩
  | notify => exact ⟨h.notify, trivial⟩

/--
In a run whose trades find no request that the strategy has not heard of, and whose updates
are about the last request, a request is sent only when no other one of the position is
outstanding, and so there is one at most at any time.
-/
theorem one_outstanding (symbol : Symbol) (config : TpslExitStrategyConfig) (xs : List TpslStep)
    (hxs : Meets step AnswersFirst (init symbol config) xs) :
    Meets step SendsOne (init symbol config) xs ∧
      ∀ pre, pre <+: xs → ∀ g g', (after step (init symbol config) pre).Outstanding g →
        (after step (init symbol config) pre).Outstanding g' → g = g' := by
  constructor
  · exact hxs.of_invariant (fun _ _ h hx => h.step hx) (Answered.init symbol config)
  · intro pre hpre g g' hg hg'
    have hanswered : (after step (init symbol config) pre).Answered :=
      (hxs.of_prefix hpre).invariant (fun _ _ h hx => (h.step hx).1) (.init symbol config)
    have hsub := hanswered.subscribed g hg
    rw [hanswered.subscribed g' hg'] at hsub
    exact (Option.some.inj hsub).symm

/-- A trade during an active request, and another position after it was triggered. -/
theorem one_outstanding_twice :
    let entry : Trade := ⟨1, "BTCUSDT", 1, 100, ⟨1, zero_le_one⟩, .buy, 1⟩
    let xs : List TpslStep :=
      [.openedPos true, .trade entry, .updated 1 ⟨"BTCUSDT", 1, true, false, none⟩, .notify,
        .openedPos true, .trade entry, .updated 1 ⟨"BTCUSDT", 1, false, true, none⟩,
        .openedPos false, .notify, .openedPos true, .trade entry]
    let s := after step (init ⟨"BTCUSDT", ⟨1, 100, 1⟩⟩ ⟨1 / 10, 1⟩) xs
    s.requests = [2] ∧ s.ended = [1] ∧
      Meets step SendsOne (init ⟨"BTCUSDT", ⟨1, 100, 1⟩⟩ ⟨1 / 10, 1⟩) xs := by
  intro entry xs s
  refine ⟨by decide +kernel, by decide +kernel, ?_⟩
  exact (one_outstanding ⟨"BTCUSDT", ⟨1, 100, 1⟩⟩ ⟨1 / 10, 1⟩ xs (by decide +kernel)).1

/-- The second trade of a position comes before the update about the first request. -/
theorem two_outstanding :
    let entry : Trade := ⟨1, "BTCUSDT", 1, 100, ⟨1, zero_le_one⟩, .buy, 1⟩
    let xs : List TpslStep := [.openedPos true, .trade entry, .openedPos true, .trade entry]
    let s := after step (init ⟨"BTCUSDT", ⟨1, 100, 1⟩⟩ ⟨1 / 10, 1⟩) xs
    s.Outstanding 1 ∧ s.Outstanding 2 ∧
      ¬ Meets step SendsOne (init ⟨"BTCUSDT", ⟨1, 100, 1⟩⟩ ⟨1 / 10, 1⟩) xs := by
  decide +kernel

end TpslSystem

end CryptoTrading

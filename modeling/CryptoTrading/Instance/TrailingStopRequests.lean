import CryptoTrading.Engine.OrderManager
import CryptoTrading.Lib.Runs
import CryptoTrading.Strategy.TrailingStop

/-! # Requests of trailing stops

The exit strategy asks for a trailing stop when a trade finds the position opened, and does
not ask again while it is subscribed to one. The gateway sets the stop, rejects the request
or removes the stop, and is known by its events as far as they are handled. The trades, the
notifications of an opened position, the gateway's events and the queued updates come in any
order.
-/

namespace CryptoTrading

open Runs

def OrderManagerOutput.trailingStop? :
    OrderManagerOutput → Option TrailingStopLossRequestEvent
  | request (.trailingStop ev) => some ev
  | _ => none

inductive TslStep
  | openedPos (v : Bool)
  | trade (t : Trade)
  | response (r : TrailingStopLossUpdatedEvent)
  | notify
  deriving DecidableEq

structure TslSystem where
  om : OrderManager
  strategy : TrailigStopLossStrategy
  /-- The stop of the last subscription; the queued updates share it. -/
  stop : Option TrailingStopLoss
  /-- The queued updates of the subscription: whether each is about the stop, or its removal. -/
  queue : List Bool
  /-- The requests that the gateway has not answered. -/
  pending : ℕ
  /-- A stop is active in the gateway. -/
  active : Bool

namespace TslSystem

def init (symbol : Symbol) (risk : ℚ) : TslSystem where
  om := .init symbol
  strategy := { risk }
  stop := none
  queue := []
  pending := 0
  active := false

variable (s : TslSystem)

def send (tsl : TrailingStopLoss) : OrderManager × List OrderManagerOutput :=
  { s.om with nextGuid := s.om.nextGuid + 1 }.sendTrailingStop tsl

def sends (t : Trade) : List TrailingStopLossRequestEvent :=
  match s.strategy.onTrade s.om.nextGuid t with
  | none => []
  | some tsl => (s.send tsl).2.filterMap OrderManagerOutput.trailingStop?

/-- With a new subscriber the queued updates of the old one are discarded. -/
def trade (t : Trade) : TslSystem :=
  match s.strategy.onTrade s.om.nextGuid t with
  | none => s
  | some tsl =>
    { s with
      om := (s.send tsl).1
      strategy.tslSub := true
      stop := some tsl
      queue := []
      pending := s.pending + (s.sends t).length }

def answer (r : TrailingStopLossUpdatedEvent) : TslSystem :=
  if r.rejectReason.isSome then { s with pending := s.pending - 1 }
  else if r.stopLoss.isSome then { s with pending := s.pending - 1, active := true }
  else { s with active := false }

def response (r : TrailingStopLossUpdatedEvent) : TslSystem :=
  let om := (s.om.onTrailingStopResponse r).1
  if r.rejectReason = none ∧ s.om.trailingStop.isSome ∧ s.strategy.tslSub then
    { s.answer r with
      om
      stop := om.trailingStop <|> s.stop
      queue := s.queue ++ [om.trailingStop.isSome] }
  else { s.answer r with om }

/-- The update shows the stop as it is by now. -/
def notify : TslSystem :=
  match s.queue with
  | [] => s
  | isSet :: queue =>
    let strategy := s.strategy.onTrailingStopUpdated (if isSet then s.stop else none)
    { s with strategy, queue := if strategy.tslSub then queue else [] }

def step : TslStep → TslSystem
  | .openedPos v => { s with strategy.isPosOpened := v }
  | .trade t => s.trade t
  | .response r => s.response r
  | .notify => s.notify

/-- A stop is pending at or active in the gateway. -/
def Protected : Prop := 0 < s.pending ∨ s.active = true

instance : Decidable s.Protected := inferInstanceAs (Decidable (_ ∨ _))

/-- A rejected request is not the only thing that the strategy's subscription stands for. -/
def RejectsOther : TslStep → Prop
  | .response r => r.rejectReason.isSome → s.strategy.tslSub → false ∉ s.queue →
    (s.answer r).Protected
  | _ => True

instance : (x : TslStep) → Decidable (s.RejectsOther x)
  | .response _ => inferInstanceAs (Decidable (_ → _))
  | .openedPos _ | .trade _ | .notify => isTrue trivial

/-- A subscribed strategy has a stop at the gateway, or its removal is queued. -/
def Covered : Prop :=
  s.strategy.tslSub → (s.om.trailingStop.isSome ∧ s.Protected) ∨ false ∈ s.queue

variable {s} {t : Trade} {r : TrailingStopLossUpdatedEvent}

theorem answer_strategy (r : TrailingStopLossUpdatedEvent) :
    (s.answer r).strategy = s.strategy := by
  unfold answer
  split_ifs <;> rfl

theorem answer_queue (r : TrailingStopLossUpdatedEvent) : (s.answer r).queue = s.queue := by
  unfold answer
  split_ifs <;> rfl

theorem response_of_reject (h : r.rejectReason.isSome) : s.response r = s.answer r := by
  obtain ⟨reason, hreason⟩ := Option.isSome_iff_exists.mp h
  have hom : (s.om.onTrailingStopResponse r).1 = s.om := by
    simp only [OrderManager.onTrailingStopResponse, hreason]
  have hkeeps : (s.answer r).om = s.om := by
    unfold answer
    rw [if_pos h]
  unfold response
  rw [if_neg (by simp [hreason]), hom, ← hkeeps]

theorem response_of_unsolicited (h : r.rejectReason = none) (hnone : s.om.trailingStop = none) :
    s.response r = s.answer r := by
  have hom : (s.om.onTrailingStopResponse r).1 = s.om := by
    simp only [OrderManager.onTrailingStopResponse, h, hnone]
  have hkeeps : (s.answer r).om = s.om := by
    unfold answer
    split_ifs <;> rfl
  unfold response
  rw [if_neg (by rw [hnone]; simp), hom, ← hkeeps]

theorem trailingStop_onResponse {om : OrderManager} (h : r.rejectReason = none)
    (hsome : om.trailingStop.isSome) :
    (om.onTrailingStopResponse r).1.trailingStop.isSome = r.stopLoss.isSome := by
  obtain ⟨stop, hstop⟩ := Option.isSome_iff_exists.mp hsome
  cases hsl : r.stopLoss <;> simp [OrderManager.onTrailingStopResponse, h, hstop, hsl]

theorem Covered.init (symbol : Symbol) (risk : ℚ) : (init symbol risk).Covered := nofun

theorem Covered.trade (h : s.Covered) (t : Trade) : (s.trade t).Covered := by
  unfold TslSystem.trade
  cases hstop : s.strategy.onTrade s.om.nextGuid t with
  | none => exact h
  | some tsl =>
    have hsends : (s.sends t).length = 1 := by
      simp only [sends, hstop]
      rfl
    intro _
    refine .inl ⟨rfl, .inl ?_⟩
    simp only [hsends]
    exact Nat.succ_pos _

theorem Covered.response (h : s.Covered) (hx : s.RejectsOther (.response r)) :
    (s.response r).Covered := by
  cases hreject : r.rejectReason with
  | some reason =>
    have hsome : r.rejectReason.isSome = true := by rw [hreject]; rfl
    rw [response_of_reject hsome]
    intro hsub
    rw [answer_strategy] at hsub
    rw [answer_queue]
    by_cases hremoved : false ∈ s.queue
    · exact .inr hremoved
    · left
      obtain ⟨hstop, -⟩ := (h hsub).resolve_right hremoved
      refine ⟨?_, hx hsome hsub hremoved⟩
      rw [answer, if_pos hsome]
      exact hstop
  | none =>
    cases hstop : s.om.trailingStop with
    | none =>
      rw [response_of_unsolicited hreject hstop]
      intro hsub
      rw [answer_strategy] at hsub
      rw [answer_queue]
      right
      apply (h hsub).resolve_left
      rw [hstop]
      rintro ⟨⟨⟩, -⟩
    | some stop =>
      have hsome : s.om.trailingStop.isSome = true := by rw [hstop]; rfl
      have hset := trailingStop_onResponse hreject hsome
      unfold TslSystem.response
      by_cases hsub : s.strategy.tslSub = true
      · rw [if_pos ⟨hreject, hsome, hsub⟩, hset]
        intro _
        cases hsl : r.stopLoss.isSome with
        | false => exact .inr (List.mem_append_right _ List.mem_cons_self)
        | true =>
          refine .inl ⟨hset.trans hsl, .inr ?_⟩
          simp only [answer, hreject, hsl, Option.isSome_none, Bool.false_eq_true, if_false,
            if_true]
      · rw [if_neg fun hforward => hsub hforward.2.2]
        intro hsub'
        simp only [answer_strategy] at hsub'
        exact absurd hsub' hsub

theorem Covered.notify (h : s.Covered) : s.notify.Covered := by
  cases hqueue : s.queue with
  | nil =>
    simp only [TslSystem.notify, hqueue]
    exact h
  | cons isSet queue =>
    simp only [TslSystem.notify, hqueue]
    intro hsub
    obtain ⟨hsub', hset⟩ := TrailigStopLossStrategy.subscribed_of_onTrailingStopUpdated hsub
    cases isSet with
    | false => cases hset
    | true =>
      rcases h hsub' with hstop | hremoved
      · exact .inl hstop
      · right
        rw [hqueue, List.mem_cons] at hremoved
        rw [if_pos hsub]
        exact hremoved.resolve_left nofun

theorem Covered.step (h : s.Covered) {x : TslStep} (hx : s.RejectsOther x) :
    (s.step x).Covered := by
  cases x with
  | openedPos v => exact h
  | trade t => exact h.trade t
  | response r => exact h.response hx
  | notify => exact h.notify

/-- With nothing at the gateway and nothing queued, a trade of an open position asks for a stop. -/
theorem Covered.sends (h : s.Covered) (hqueue : s.queue = []) (hopened : s.strategy.isPosOpened)
    (hnot : ¬ s.Protected) (t : Trade) : s.sends t ≠ [] := by
  have hsub : ¬ s.strategy.tslSub = true := by
    intro hsub
    rcases h hsub with ⟨-, hprotected⟩ | hremoved
    · exact hnot hprotected
    · rw [hqueue] at hremoved
      cases hremoved
  have hsend : s.strategy.onTrade s.om.nextGuid t =
      some (s.strategy.calcTrailingStop s.om.nextGuid t) := by
    rw [TrailigStopLossStrategy.onTrade, if_neg fun hboth => hsub hboth.2,
      if_neg (not_not.mpr hopened)]
  simp only [TslSystem.sends, hsend]
  exact List.cons_ne_nil _ _

/--
In a run in which no rejected request is all that the strategy's subscription stands for,
whenever the queue is empty a subscribed strategy has a stop pending at or active in the
gateway, and without one the next trade of an open position asks for it.
-/
theorem protected_of_subscribed (symbol : Symbol) (risk : ℚ) (xs : List TslStep)
    (hxs : Meets step RejectsOther (init symbol risk) xs) :
    ∀ pre, pre <+: xs →
      let s := after step (init symbol risk) pre
      s.queue = [] → (s.strategy.tslSub → s.Protected) ∧
        (s.strategy.isPosOpened → ¬ s.Protected → ∀ t, s.sends t ≠ []) := by
  intro pre hpre s hqueue
  have hcovered : s.Covered :=
    (hxs.of_prefix hpre).invariant (fun _ _ h hx => h.step hx) (.init symbol risk)
  constructor
  · intro hsub
    rcases hcovered hsub with ⟨-, hprotected⟩ | hremoved
    · exact hprotected
    · rw [hqueue] at hremoved
      cases hremoved
  · exact fun hopened hnot t => hcovered.sends hqueue hopened hnot t

/-- The reject of an older request finds another one pending. The stop that this one asks for is set
and removed. -/
theorem protected_of_subscribed_again :
    let entry : Trade := ⟨1, "BTCUSDT", 1, 100, ⟨1, zero_le_one⟩, .buy, 1⟩
    let pre : List TslStep :=
      [.openedPos true, .trade entry, .response ⟨"BTCUSDT", none, 1, none⟩, .notify, .trade entry,
        .response ⟨"BTCUSDT", none, 2, some "Request timed out"⟩]
    let xs : List TslStep :=
      pre ++ [.response ⟨"BTCUSDT", some ⟨"BTCUSDT", 90, .sell⟩, 3, none⟩, .notify,
        .response ⟨"BTCUSDT", none, 4, none⟩, .notify]
    let rejected := after step (init ⟨"BTCUSDT", ⟨1, 100, 1⟩⟩ (1 / 10)) pre
    let removed := after step (init ⟨"BTCUSDT", ⟨1, 100, 1⟩⟩ (1 / 10)) xs
    rejected.strategy.tslSub = true ∧ rejected.Protected ∧ removed.sends entry ≠ [] := by
  intro entry pre xs rejected removed
  have hxs : Meets step RejectsOther (init ⟨"BTCUSDT", ⟨1, 100, 1⟩⟩ (1 / 10)) xs := by
    decide +kernel
  have hrejected := protected_of_subscribed ⟨"BTCUSDT", ⟨1, 100, 1⟩⟩ (1 / 10) xs hxs pre
    (List.prefix_append _ _) (by decide +kernel)
  have hremoved := protected_of_subscribed ⟨"BTCUSDT", ⟨1, 100, 1⟩⟩ (1 / 10) xs hxs xs
    List.prefix_rfl (by decide +kernel)
  have hsub : rejected.strategy.tslSub = true := by decide +kernel
  exact ⟨hsub, hrejected.1 hsub, hremoved.2 (by decide +kernel) (by decide +kernel) entry⟩

/-- The strategy does not hear of the reject and never asks again. -/
theorem unprotected_after_reject :
    let entry : Trade := ⟨1, "BTCUSDT", 1, 100, ⟨1, zero_le_one⟩, .buy, 1⟩
    let xs : List TslStep :=
      [.openedPos true, .trade entry, .response ⟨"BTCUSDT", none, 0, some "Request timed out"⟩]
    let s := after step (init ⟨"BTCUSDT", ⟨1, 100, 1⟩⟩ (1 / 10)) xs
    s.queue = [] ∧ s.strategy.tslSub = true ∧ s.strategy.isPosOpened = true ∧ ¬ s.Protected ∧
      s.sends entry = [] := by
  decide +kernel

end TslSystem

end CryptoTrading

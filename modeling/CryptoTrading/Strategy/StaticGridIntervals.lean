import CryptoTrading.Lib.Epochs
import CryptoTrading.Lib.Runs
import CryptoTrading.Strategy.StaticGrid
import Mathlib.Order.Bounds.Basic

/-! # Intervals of the static grid

The stream of candles is cut into epochs of the interval's length. The strategy hands over
just where an epoch ends, and its limits are those of the last epoch that has ended and of
the current one.
-/

namespace CryptoTrading

open Runs

namespace Limits

def ofCandles (cs : List (Milliseconds × Candle)) : Limits :=
  cs.foldl (fun l c => l.updatePrices c.2.close) {}

structure Exact (l : Limits) (cs : List (Milliseconds × Candle)) : Prop where
  min : IsLeast { p | ∃ c ∈ cs, c.2.close = p } l.minPrice
  max : IsGreatest { p | ∃ c ∈ cs, c.2.close = p } l.maxPrice

variable {cs : List (Milliseconds × Candle)} {c : Milliseconds × Candle} {l : Limits}

theorem ofCandles_concat (cs : List (Milliseconds × Candle)) (c : Milliseconds × Candle) :
    ofCandles (cs ++ [c]) = (ofCandles cs).updatePrices c.2.close := by
  simp [ofCandles]

theorem closes_concat (cs : List (Milliseconds × Candle)) (c : Milliseconds × Candle) :
    { p | ∃ c' ∈ cs ++ [c], c'.2.close = p } =
      insert c.2.close { p | ∃ c' ∈ cs, c'.2.close = p } := by
  ext p
  simp [or_and_right, exists_or, or_comm, eq_comm]

theorem Exact.updatePrices (h : l.Exact cs) (c : Milliseconds × Candle) :
    (l.updatePrices c.2.close).Exact (cs ++ [c]) := by
  constructor
  · rw [closes_concat, Limits.updatePrices, min_comm]
    exact h.min.insert c.2.close
  · rw [closes_concat, Limits.updatePrices, max_comm]
    exact h.max.insert c.2.close

end Limits

inductive StaticGridStep
  | candle (ts : Milliseconds) (candle : Candle)
  /-- The updates of orders change the levels and the order manager. -/
  | orders (ordersByLevels : AList fun _ : ℤ => Level) (om : OrderManager)

def StaticGridStep.candle? : StaticGridStep → Option (Milliseconds × Candle)
  | candle ts c => some (ts, c)
  | orders .. => none

structure StaticGridSystem where
  strategy : StaticGridWithBan
  om : OrderManager

namespace StaticGridSystem

def init (symbol : Symbol) (config : StaticGridWithBanStrategyConfig) : StaticGridSystem where
  strategy := .init config
  om := .init symbol

variable (ban : StaticGridWithBan → Milliseconds → Candle → Bool)

def step (s : StaticGridSystem) : StaticGridStep → StaticGridSystem
  | .candle ts c =>
    let (strategy, om, _) := s.strategy.pushCandle ban s.om ts c
    { strategy, om }
  | .orders ordersByLevels om => { strategy := { s.strategy with ordersByLevels }, om }

def sends (s : StaticGridSystem) (ts : Milliseconds) (c : Candle) : List OrderManagerOutput :=
  (s.strategy.pushCandle ban s.om ts c).2.2

def candles (xs : List StaticGridStep) : List (Milliseconds × Candle) :=
  xs.filterMap StaticGridStep.candle?

def intervals (config : StaticGridWithBanStrategyConfig) (xs : List StaticGridStep) :
    Epochs (Milliseconds × Candle) :=
  .ofList Prod.fst config.intervalLength (candles xs)

structure Counts (config : StaticGridWithBanStrategyConfig) (s : StaticGridWithBan)
    (e : Epochs (Milliseconds × Candle)) : Prop where
  config : s.config = config
  start : s.currentIntervalStartTs = e.current.head?.elim 0 Prod.fst
  next : s.nextLimits = .ofCandles e.current
  previous : s.previousLimits = e.closed.getLast?.map .ofCandles

variable {ban} {config : StaticGridWithBanStrategyConfig} {s : StaticGridWithBan}
  {e : Epochs (Milliseconds × Candle)} {ts : Milliseconds} {c : Candle}

theorem Counts.init (config : StaticGridWithBanStrategyConfig) :
    Counts config (.init config) .empty := ⟨rfl, rfl, rfl, rfl⟩

theorem Counts.startInterval (h : Counts config s e) (hpos : ∀ c ∈ e.current, 0 < c.1)
    (ts : Milliseconds) :
    s.startInterval ts = { s with currentIntervalStartTs := e.current.head?.elim ts Prod.fst } := by
  have hstart := h.start
  unfold StaticGridWithBan.startInterval
  cases hcurrent : e.current with
  | nil =>
    rw [hcurrent, List.head?_nil, Option.elim_none] at hstart
    rw [if_pos hstart]
    rfl
  | cons first rest =>
    rw [hcurrent] at hstart
    have hfirst := hpos first (by rw [hcurrent]; exact List.mem_cons_self)
    rw [if_neg (by rw [hstart]; exact hfirst.ne')]
    rw [List.head?_cons, Option.elim_some] at hstart ⊢
    rw [← hstart]

theorem Counts.handsOver_iff (h : Counts config s e) (hpos : ∀ c ∈ e.current, 0 < c.1)
    (hlength : 0 < config.intervalLength) :
    s.HandsOver ts ↔ e.Ends Prod.fst config.intervalLength (ts, c) := by
  unfold StaticGridWithBan.HandsOver StaticGridWithBan.intervalEnd Epochs.Ends
  rw [h.startInterval hpos ts, h.config]
  cases e.current with
  | nil =>
    apply iff_of_false
    · simp
      exact hlength
    · rintro ⟨_, ⟨⟩, -⟩
  | cons first rest => simp

theorem Counts.push (h : Counts config s e) (hpos : ∀ c ∈ e.current, 0 < c.1)
    (hlength : 0 < config.intervalLength) {s' : StaticGridWithBan}
    (henters : s.Enters s' ts c.close) :
    Counts config s' (e.push Prod.fst config.intervalLength (ts, c)) := by
  have hiff := @Counts.handsOver_iff _ _ _ ts c h hpos hlength
  have hstart := h.startInterval hpos ts
  by_cases hends : s.HandsOver ts
  · have henter := StaticGridWithBan.enterInterval_of_handsOver hends
    rw [Epochs.push_of_ends (hiff.mp hends)]
    constructor
    · rw [henters.config, henter, hstart]
      exact h.config
    · rw [henters.start, henter]
      rfl
    · rw [henters.next, henter]
      rfl
    · rw [henters.previous, henter, hstart, List.getLast?_concat, Option.map_some, ← h.next]
  · have henter := StaticGridWithBan.enterInterval_of_not_handsOver hends
    rw [Epochs.push_of_not_ends (hiff.not.mp hends)]
    constructor
    · rw [henters.config, henter, hstart]
      exact h.config
    · rw [henters.start, henter, hstart]
      cases e.current <;> rfl
    · rw [henters.next, henter, hstart, Limits.ofCandles_concat, ← h.next]
    · rw [henters.previous, henter, hstart]
      exact h.previous

theorem candles_concat (xs : List StaticGridStep) (x : StaticGridStep) :
    candles (xs ++ [x]) = candles xs ++ x.candle?.toList := by
  cases x <;> simp [candles, StaticGridStep.candle?]

theorem mem_candles_of_current {xs : List StaticGridStep} {c : Milliseconds × Candle}
    (h : c ∈ (intervals config xs).current) : c ∈ candles xs := by
  rw [← @Epochs.elements_ofList _ Prod.fst config.intervalLength (candles xs)]
  exact Epochs.mem_elements_of_current h

/-- The run of the strategy refines the cutting of its candles into epochs. -/
theorem counts_after (ban : StaticGridWithBan → Milliseconds → Candle → Bool) (symbol : Symbol)
    (hlength : 0 < config.intervalLength) {xs : List StaticGridStep}
    (hpos : ∀ c ∈ candles xs, 0 < c.1) :
    Counts config (after (step ban) (init symbol config) xs).strategy (intervals config xs) := by
  induction xs using List.reverseRecOn with
  | nil => exact .init config
  | append_singleton xs x ih =>
    rw [candles_concat, List.forall_mem_append] at hpos
    rw [intervals, candles_concat, after_concat]
    have hxs := ih hpos.1
    cases x with
    | candle ts c =>
      rw [StaticGridStep.candle?, Option.toList_some, Epochs.ofList_concat]
      exact hxs.push (fun c hc => hpos.1 c (mem_candles_of_current hc)) hlength
        (StaticGridWithBan.pushCandle_enters ..)
    | orders ordersByLevels om =>
      rw [StaticGridStep.candle?, Option.toList_none, List.append_nil]
      exact ⟨hxs.config, hxs.start, hxs.next, hxs.previous⟩

end StaticGridSystem

end CryptoTrading

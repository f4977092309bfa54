import CryptoTrading.Strategy.StaticGridIntervals

/-! # The ban of the static grid

A price out of bounds bans the entries until the next interval. It is inferred from the time
of the last such price, which has to be later than the start of the interval.
-/

namespace CryptoTrading

open Runs

namespace Limits

variable {l : Limits} {p q : ℚ}

theorem abs_sub_midPrice_le (h : ¬ l.Outside p) :
    |p - l.midPrice| ≤ (l.maxPrice - l.minPrice) / 2 := by
  obtain ⟨hmin, hmax⟩ := not_or.mp h
  unfold midPrice
  rw [abs_le]
  constructor <;> linarith

theorem lt_abs_sub_midPrice (h : l.Outside p) :
    (l.maxPrice - l.minPrice) / 2 < |p - l.midPrice| := by
  unfold midPrice
  rw [lt_abs]
  rcases h with hlt | hlt
  · right
    linarith
  · left
    linarith

end Limits

namespace StaticGridWithBanStrategyConfig

variable {config : StaticGridWithBanStrategyConfig} {limits : Limits} {p q : ℚ}

/-- With a price out of bounds in level zero, all prices within the bounds are there. -/
theorem getLevelNumber_eq_zero_of_outside (hout : limits.Outside p)
    (hzero : config.getLevelNumber limits p = 0) (hin : ¬ limits.Outside q) :
    config.getLevelNumber limits q = 0 := by
  unfold getLevelNumber at hzero ⊢
  rw [GridLevels.getLevelNumber_eq, Truncate.truncate_eq_zero_iff, abs_div] at hzero ⊢
  refine lt_of_le_of_lt (div_le_div_of_nonneg_right ?_ (abs_nonneg _)) hzero
  exact ((Limits.abs_sub_midPrice_le hin).trans_lt (Limits.lt_abs_sub_midPrice hout)).le

end StaticGridWithBanStrategyConfig

namespace StaticGridSystem

open StaticGridWithBan

/-- The strategy that bans by the last price out of bounds. -/
def ownBan (s : StaticGridWithBan) (_ : Milliseconds) (_ : Candle) : Bool := s.isBanned

/-- The candle at which an interval is handed over closes within the limits that it hands over,
or in their level zero. -/
def HandsOverInside (s : StaticGridSystem) : StaticGridStep → Prop
  | .candle ts c => s.strategy.HandsOver ts → s.strategy.nextLimits.Outside c.close →
    s.strategy.config.getLevelNumber s.strategy.nextLimits c.close = 0
  | .orders .. => True

instance (s : StaticGridSystem) : (x : StaticGridStep) → Decidable (s.HandsOverInside x)
  | .candle .. => inferInstanceAs (Decidable (_ → _))
  | .orders .. => isTrue trivial

/-- After a price out of bounds in the current interval the entries are banned, or no price
within the bounds asks for one. -/
def Banned (s : StaticGridWithBan) (e : Epochs (Milliseconds × Candle)) : Prop :=
  ∀ limits ∈ s.previousLimits, ∀ c ∈ e.current, limits.Outside c.2.close →
    s.isBanned = true ∨ ∀ q, ¬ limits.Outside q → s.config.getLevelNumber limits q = 0

variable {config : StaticGridWithBanStrategyConfig} {s : StaticGridWithBan}
  {e : Epochs (Milliseconds × Candle)} {ts : Milliseconds} {c : Candle} {om : OrderManager}

theorem isBanned_iff : s.isBanned = true ↔
    s.currentIntervalStartTs < s.lastOutOfBoundsPriceTs ∧
      s.lastOutOfBoundsPriceTs < s.intervalEnd := by
  simp [isBanned]

theorem Counts.enterInterval_eq (h : Counts config s e) (hpos : ∀ c ∈ e.current, 0 < c.1)
    (hne : e.current ≠ []) (hover : ¬ s.HandsOver ts) : s.enterInterval ts = s := by
  rw [enterInterval_of_not_handsOver hover, h.startInterval hpos ts]
  have hstart := h.start
  cases hcurrent : e.current with
  | nil => exact absurd hcurrent hne
  | cons first rest =>
    rw [hcurrent] at hstart
    rw [List.head?_cons, Option.elim_some] at hstart ⊢
    rw [← hstart]

theorem isBanned_of_recorded (hcounts : Counts config s e) (hpos : ∀ c ∈ e.current, 0 < c.1)
    (hne : e.current ≠ []) (hlate : ∀ c ∈ e.current, c.1 < ts) (hover : ¬ s.HandsOver ts)
    {s' : StaticGridWithBan} (henters : s.Enters s' ts c.close)
    (hlast : s'.lastOutOfBoundsPriceTs = ts) : s'.isBanned = true := by
  have henter := hcounts.enterInterval_eq hpos hne hover
  have hend : ts < s.intervalEnd := by
    rw [enterInterval_of_not_handsOver hover] at henter
    rw [← henter]
    exact not_le.mp hover
  rw [isBanned_iff, hlast, intervalEnd, henters.start, henters.config, henter]
  refine ⟨?_, hend⟩
  rw [hcounts.start]
  cases hcurrent : e.current with
  | nil => exact absurd hcurrent hne
  | cons first rest => exact hlate first (by rw [hcurrent]; exact List.mem_cons_self)

theorem Banned.push (h : Banned s e) (hcounts : Counts config s e)
    (hpos : ∀ c ∈ e.current, 0 < c.1) (hlength : 0 < config.intervalLength)
    (hclosed : e.current = [] → e.closed = []) (hlate : ∀ c ∈ e.current, c.1 < ts)
    (hinside : s.HandsOver ts → s.nextLimits.Outside c.close →
      s.config.getLevelNumber s.nextLimits c.close = 0) :
    Banned (s.pushCandle ownBan om ts c).1 (e.push Prod.fst config.intervalLength (ts, c)) := by
  have henters := s.pushCandle_enters ownBan om ts c
  have hiff := @Counts.handsOver_iff _ _ _ ts c hcounts hpos hlength
  have hstart := hcounts.startInterval hpos ts
  intro limits hlimits c' hc' hout
  have hprevious : (s.enterInterval ts).previousLimits = some limits := by
    rw [← henters.previous]
    exact hlimits
  have hlast := s.lastOutOfBoundsPriceTs_pushCandle ownBan om c hprevious
  rw [henters.config]
  by_cases hover : s.HandsOver ts
  · right
    rw [enterInterval_of_handsOver hover] at hprevious ⊢
    rw [hstart] at hprevious ⊢
    cases hprevious
    rw [Epochs.push_of_ends (hiff.mp hover), List.mem_singleton] at hc'
    rw [hc'] at hout
    exact fun q hq =>
      StaticGridWithBanStrategyConfig.getLevelNumber_eq_zero_of_outside hout (hinside hover hout) hq
  · rw [Epochs.push_of_not_ends (hiff.not.mp hover)] at hc'
    by_cases hnil : e.current = []
    · rw [enterInterval_of_not_handsOver hover, hstart, hcounts.previous, hclosed hnil] at hprevious
      cases hprevious
    · have henter := hcounts.enterInterval_eq hpos hnil hover
      rw [henter] at hprevious hlast ⊢
      by_cases hrecorded : s.config.getLevelNumber limits c.close ≠ 0 ∧ limits.Outside c.close
      · left
        rw [if_pos hrecorded] at hlast
        exact isBanned_of_recorded hcounts hpos hnil hlate hover henters hlast
      · rw [if_neg hrecorded] at hlast
        rcases List.mem_append.mp hc' with hc' | hc'
        · rcases h limits hprevious c' hc' hout with hbanned | hnarrow
          · left
            rw [isBanned_iff] at hbanned ⊢
            rw [hlast, intervalEnd, henters.start, henters.config, henter]
            exact hbanned
          · exact .inr hnarrow
        · right
          rw [List.mem_singleton.mp hc'] at hout
          have hzero : s.config.getLevelNumber limits c.close = 0 := by
            by_contra hne
            exact hrecorded ⟨hne, hout⟩
          exact fun q hq =>
            StaticGridWithBanStrategyConfig.getLevelNumber_eq_zero_of_outside hout hzero hq

theorem Banned.sends_none (h : Banned s e) (hcounts : Counts config s e)
    (hpos : ∀ c ∈ e.current, 0 < c.1) (hover : ¬ s.HandsOver ts)
    (hout : ∃ limits ∈ s.previousLimits, ∃ c' ∈ e.current, limits.Outside c'.2.close) :
    (s.pushCandle ownBan om ts c).2.2 = [] := by
  obtain ⟨limits, hprevious, c', hc', hout⟩ := hout
  have henter := hcounts.enterInterval_eq hpos (List.ne_nil_of_mem hc') hover
  rcases s.pushCandle_out ownBan om ts c with hnone |
    ⟨limits', hlimits', level, size, hlevel, hne, hin, hban, -⟩
  · exact hnone
  · rw [henter] at hlimits' hlevel hban
    cases Option.mem_unique hprevious hlimits'
    rcases h limits hprevious c' hc' hout with hbanned | hnarrow
    · exact absurd (hbanned.symm.trans hban) nofun
    · exact absurd (hlevel.symm.trans (hnarrow _ hin)) hne

theorem banned_after (symbol : Symbol) (hlength : 0 < config.intervalLength)
    {xs : List StaticGridStep} (htimes : (candles xs).Pairwise fun c c' => c.1 < c'.1)
    (hpos : ∀ c ∈ candles xs, 0 < c.1)
    (hinside : Meets (step ownBan) HandsOverInside (init symbol config) xs) :
    Banned (after (step ownBan) (init symbol config) xs).strategy (intervals config xs) := by
  induction xs using List.reverseRecOn with
  | nil => exact nofun
  | append_singleton xs x ih =>
    rw [candles_concat] at htimes hpos
    obtain ⟨hpre, -, hlast⟩ := List.pairwise_append.mp htimes
    rw [List.forall_mem_append] at hpos
    rw [meets_concat] at hinside
    have hbanned := ih hpre hpos.1 hinside.1
    have hcounts := counts_after ownBan symbol hlength hpos.1
    rw [intervals, candles_concat, after_concat]
    cases x with
    | candle ts c =>
      rw [StaticGridStep.candle?, Option.toList_some, Epochs.ofList_concat]
      refine hbanned.push hcounts (fun c hc => hpos.1 c (mem_candles_of_current hc)) hlength
        Epochs.closed_eq_nil (fun c' hc' => ?_) hinside.2
      exact hlast c' (mem_candles_of_current hc') (ts, c) List.mem_cons_self
    | orders ordersByLevels om =>
      rw [StaticGridStep.candle?, Option.toList_none, List.append_nil]
      exact hbanned

/--
In a run in which every candle that hands an interval over closes within the limits that it
hands over, or in their level zero, no order is sent between a candle out of bounds and the
next handover.
-/
theorem sends_none_until_handover (symbol : Symbol) (config : StaticGridWithBanStrategyConfig)
    (hinterval : 1 ≤ config.interval) (htimeframe : 0 < config.timeframe)
    (xs : List StaticGridStep) (htimes : (candles xs).Pairwise fun c c' => c.1 < c'.1)
    (hpos : ∀ c ∈ candles xs, 0 < c.1)
    (hinside : Meets (step ownBan) HandsOverInside (init symbol config) xs) :
    ∀ pre ts c, pre ++ [.candle ts c] <+: xs →
      let s := after (step ownBan) (init symbol config) pre
      ¬ s.strategy.HandsOver ts →
      (∃ limits ∈ s.strategy.previousLimits, ∃ c' ∈ (intervals config pre).current,
        limits.Outside c'.2.close) →
      s.sends ownBan ts c = [] := by
  intro pre ts c hprefix s hover hout
  have hlength : 0 < config.intervalLength := mul_pos (by exact_mod_cast hinterval) htimeframe
  have hpre : pre <+: xs := (List.prefix_append pre _).trans hprefix
  have hcandles : candles pre <+: candles xs := hpre.filterMap _
  have hpos' : ∀ c ∈ candles pre, 0 < c.1 := fun c hc => hpos c (hcandles.subset hc)
  have hbanned := banned_after symbol hlength (htimes.sublist hcandles.sublist) hpos'
    (hinside.of_prefix hpre)
  exact hbanned.sends_none (counts_after ownBan symbol hlength hpos')
    (fun c hc => hpos' c (mem_candles_of_current hc)) hover hout

/-- The second candle of the second interval closes far above the first interval. -/
theorem sends_none_until_handover_three :
    let config : StaticGridWithBanStrategyConfig := ⟨60000, 3, 1⟩
    let candle (ts : Milliseconds) (close : ℚ) : StaticGridStep :=
      .candle ts (.flat 60000 (ts - 60000) close)
    let pre := [candle 60000 100, candle 120000 110, candle 180000 105, candle 240000 104,
      candle 300000 150]
    let s := after (step ownBan) (init ⟨"BTCUSDT", ⟨1, 100, 1⟩⟩ config) pre
    s.sends ownBan 360000 (.flat 60000 300000 109) = [] := by
  intro config candle pre s
  let xs : List StaticGridStep := pre ++ [.candle 360000 (.flat 60000 300000 109)]
  have htimes : (candles xs).Pairwise fun c c' => c.1 < c'.1 := by decide +kernel
  have hpos : ∀ c ∈ candles xs, 0 < c.1 := by decide +kernel
  have hinside : Meets (step ownBan) HandsOverInside (init ⟨"BTCUSDT", ⟨1, 100, 1⟩⟩ config) xs := by
    decide +kernel
  have h := sends_none_until_handover ⟨"BTCUSDT", ⟨1, 100, 1⟩⟩ config (by decide) (by decide) xs
    htimes hpos hinside pre 360000 (.flat 60000 300000 109) List.prefix_rfl
  exact h (by decide +kernel) (by decide +kernel)

/-- The first candle of the second interval does so, and an order is sent for the next one. -/
theorem sends_after_handover_outside :
    let config : StaticGridWithBanStrategyConfig := ⟨60000, 3, 1⟩
    let candle (ts : Milliseconds) (close : ℚ) : StaticGridStep :=
      .candle ts (.flat 60000 (ts - 60000) close)
    let pre := [candle 60000 100, candle 120000 110, candle 180000 105, candle 240000 150]
    let s := after (step ownBan) (init ⟨"BTCUSDT", ⟨1, 100, 1⟩⟩ config) pre
    ¬ s.strategy.HandsOver 300000 ∧
      (∃ limits ∈ s.strategy.previousLimits, ∃ c' ∈ (intervals config pre).current,
        limits.Outside c'.2.close) ∧
      (s.sends ownBan 300000 (.flat 60000 240000 109)).filterMap OrderManagerOutput.order? ≠
        [] := by
  decide +kernel

end StaticGridSystem

end CryptoTrading

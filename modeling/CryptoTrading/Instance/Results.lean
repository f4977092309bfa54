import CryptoTrading.Positions.Manager
import CryptoTrading.Lib.Latest

/-! # Position results

The strategy instance enters every trade in its position manager and keeps the
totals of the results. The remembered profit of the result before is taken off
again, because the results of one position are cumulative.
-/

namespace CryptoTrading

open Runs

/-- The totals of the results; durations are in seconds. -/
structure StrategyResult where
  positionCurrencyAmount : ℚ := 0
  /-- `none` until the first price. -/
  strategyStartTs : Option Milliseconds := none
  finalProfit : ℚ := 0
  tradesCount : ℕ := 0
  profitPositionsCnt : ℕ := 0
  lossPositionsCnt : ℕ := 0
  feesPaid : ℚ := 0
  bestProfitTrade : Option ℚ := some 0
  worstLossTrade : Option ℚ := some 0
  maxDepo : ℚ := 0
  minDepo : ℚ := 0
  totalTimeInProfitPos : ℤ := 0
  totalTimeInLossPos : ℤ := 0
  avgProfitPosTime : Option ℚ := some 0
  avgLossPosTime : Option ℚ := some 0
  longestProfitTradeTime : ℤ := 0
  longestLossTradeTime : ℤ := 0
  deriving DecidableEq

namespace StrategyResult

def addOpenedTime (res : StrategyResult) (pnlWithFee : ℚ) (openedTime : Milliseconds) :
    StrategyResult :=
  let res :=
    if 0 < pnlWithFee then
      { res with
        longestProfitTradeTime :=
          if res.longestProfitTradeTime * 1000 < openedTime then openedTime.toSeconds
          else res.longestProfitTradeTime
        totalTimeInProfitPos := res.totalTimeInProfitPos + openedTime.toSeconds }
    else res
  if pnlWithFee < 0 then
    { res with
      longestLossTradeTime :=
        if res.longestLossTradeTime * 1000 < openedTime then openedTime.toSeconds
        else res.longestLossTradeTime
      totalTimeInLossPos := res.totalTimeInLossPos + openedTime.toSeconds }
  else res

/-- The update of `process_position_result`, given the profit remembered before. -/
def addResult (res : StrategyResult) (old : ℚ) (newResult : PositionResult) : StrategyResult :=
  let pnl := newResult.pnlWithFee
  let res := { res with
    finalProfit := res.finalProfit - old + pnl
    feesPaid := res.feesPaid + newResult.feesPaid
    profitPositionsCnt := if 0 < pnl then res.profitPositionsCnt + 1 else res.profitPositionsCnt
    lossPositionsCnt := if 0 < pnl then res.lossPositionsCnt else res.lossPositionsCnt + 1
    bestProfitTrade :=
      if res.bestProfitTrade.all (· < pnl) then some pnl else res.bestProfitTrade
    worstLossTrade :=
      if res.worstLossTrade.all (pnl < ·) then some pnl else res.worstLossTrade }
  let res := (newResult.openedTime.map (res.addOpenedTime pnl)).getD res
  { res with
    avgProfitPosTime := divide res.totalTimeInProfitPos res.profitPositionsCnt
    avgLossPosTime := divide res.totalTimeInLossPos res.lossPositionsCnt
    maxDepo := max res.maxDepo res.finalProfit
    minDepo := min res.minDepo res.finalProfit }

@[simp] theorem addOpenedTime_finalProfit (res : StrategyResult) (pnl : ℚ) (t : Milliseconds) :
    (res.addOpenedTime pnl t).finalProfit = res.finalProfit := by
  unfold addOpenedTime
  split_ifs <;> rfl

@[simp] theorem addResult_finalProfit (res : StrategyResult) (old : ℚ) (r : PositionResult) :
    (res.addResult old r).finalProfit = res.finalProfit - old + r.pnlWithFee := by
  unfold addResult
  cases r.openedTime <;> simp

end StrategyResult

/-- The fields of the instance that its trades change. -/
structure InstanceResults where
  positionManager : PositionManager
  strategyResult : StrategyResult
  previousProfit : Option ℚ
  positionsChannel : List (Milliseconds × PositionResult)
  depoChannel : List (Milliseconds × ℚ)
  deriving DecidableEq

namespace InstanceResults

def posCurrencyAmount : ℚ := 100

def init : InstanceResults where
  positionManager := .init
  strategyResult := { positionCurrencyAmount := posCurrencyAmount }
  previousProfit := none
  positionsChannel := []
  depoChannel := []

def processPositionResult (s : InstanceResults) (newResult : PositionResult)
    (ts : Milliseconds) : InstanceResults :=
  let strategyResult := s.strategyResult.addResult (s.previousProfit.getD 0) newResult
  { s with
    positionsChannel := s.positionsChannel ++ [(ts, newResult)]
    strategyResult
    -- An empty `close_ts` also differs from zero milliseconds.
    previousProfit := if newResult.closeTs ≠ some 0 then none else some newResult.pnlWithFee
    depoChannel := s.depoChannel ++ [(ts, strategyResult.finalProfit)] }

/-- The part of `handle_event(TradeEvent)` that enters the trade in the books. -/
def handleTrade (s : InstanceResults) (trade : Trade) : InstanceResults :=
  let res := (s.positionManager.onTradeReceived trade).2
  let s := { s with positionManager := (s.positionManager.onTradeReceived trade).1 }
  let s := (res.map (s.processPositionResult · trade.ts)).getD s
  { s with strategyResult.tradesCount := s.strategyResult.tradesCount + 1 }

end InstanceResults

def positionResults (ts : List Trade) : List PositionResult :=
  outputs PositionManager.step PositionManager.result .init ts

/-- The profit of all positions, each counted once with its latest result. -/
def totalProfit (rs : List PositionResult) : ℚ :=
  Latest.total PositionResult.guid PositionResult.pnlWithFee rs

def positionProfit (rs : List PositionResult) (guid : Guid) : ℚ :=
  Latest.value PositionResult.guid PositionResult.pnlWithFee rs guid

def openProfit (rs : List PositionResult) : ℚ :=
  match rs.getLast? with
  | some r => if r.closeTs = none then r.pnlWithFee else 0
  | none => 0

def rememberedProfit (rs : List PositionResult) : Option ℚ :=
  match rs.getLast? with
  | some r => if r.closeTs ≠ some 0 then none else some r.pnlWithFee
  | none => none

variable {m : PositionManager} {s : InstanceResults} {rs : List PositionResult}
  {r : PositionResult} {t : Trade} {pos : OpenedPosition}

def PositionManager.Reduces (m : PositionManager) (t : Trade) : Prop :=
  ∃ pos, m.openedPosition = some pos ∧ ¬ t.signedVolume.IsZero ∧ ¬ pos.Grows t.signedVolume

instance : Decidable (m.Reduces t) := by
  unfold PositionManager.Reduces
  cases m.openedPosition with
  | none => exact isFalse (by simp)
  | some pos =>
    exact decidable_of_iff (¬ t.signedVolume.IsZero ∧ ¬ pos.Grows t.signedVolume) (by simp)

theorem totalProfit_concat :
    totalProfit (rs ++ [r]) = totalProfit rs - positionProfit rs r.guid + r.pnlWithFee :=
  Latest.total_concat ..

theorem openProfit_concat :
    openProfit (rs ++ [r]) = if r.closeTs = none then r.pnlWithFee else 0 := by
  simp [openProfit]

theorem rememberedProfit_concat :
    rememberedProfit (rs ++ [r]) = if r.closeTs ≠ some 0 then none else some r.pnlWithFee := by
  simp [rememberedProfit]

namespace PositionManager

theorem onTradeReceived_cases (m : PositionManager) (t : Trade) :
    (m.openedPosition = none ∧ (m.onTradeReceived t).2 = none ∧ ¬ m.Reduces t ∧
      (m.step t).nextGuid = m.nextGuid + 1 ∧
      ∃ pos, (m.step t).openedPosition = some pos ∧ pos.guid = m.nextGuid) ∨
    (∃ pos pos', m.openedPosition = some pos ∧ (m.onTradeReceived t).2 = none ∧
      ¬ m.Reduces t ∧ (m.step t).nextGuid = m.nextGuid ∧
      (m.step t).openedPosition = some pos' ∧ pos'.guid = pos.guid) ∨
    (∃ pos r, m.openedPosition = some pos ∧ (m.onTradeReceived t).2 = some r ∧ m.Reduces t ∧
      (m.step t).nextGuid = m.nextGuid ∧ r.guid = pos.guid ∧
      ((m.step t).openedPosition = none ∧ r.closeTs ≠ none ∨
        (∃ pos', (m.step t).openedPosition = some pos' ∧ pos'.guid = pos.guid) ∧
          r.closeTs = none)) := by
  cases h : m.openedPosition with
  | none =>
    have hr := onTradeReceived_open (t := t) h
    refine Or.inl ⟨rfl, by rw [hr], ?_, by rw [step, hr], ?_⟩
    · rintro ⟨pos, hp, _⟩
      simp [h] at hp
    · exact ⟨_, by rw [step, hr], by simp [OpenedPosition.ofTrade]⟩
  | some pos =>
    refine Or.inr ?_
    by_cases hz : t.signedVolume.IsZero
    · have hr := onTradeReceived_grow (t := t) h (by rw [OpenedPosition.onTrade, if_pos hz])
      refine Or.inl ⟨pos, _, rfl, by rw [hr], ?_, by rw [step, hr], by rw [step, hr], by simp⟩
      rintro ⟨_, _, hz', _⟩
      exact hz' hz
    by_cases hg : pos.Grows t.signedVolume
    · have hr := onTradeReceived_grow (t := t) h
        (by rw [OpenedPosition.onTrade_of_grows hg hz])
      refine Or.inl ⟨pos, _, rfl, by rw [hr], ?_, by rw [step, hr], by rw [step, hr], by simp⟩
      rintro ⟨pos', hp, _, hg'⟩
      obtain rfl : pos = pos' := Option.some.inj (h.symm.trans hp)
      exact hg' hg
    · have hr := onTradeReceived_reduce (t := t) h (pos.onTrade_of_not_grows _ _ hg hz)
      refine Or.inr ⟨pos, ?_⟩
      split at hr
      case isTrue hclosed =>
        refine ⟨_, rfl, by rw [hr], ⟨pos, h, hz, hg⟩, by rw [step, hr], rfl, Or.inl ?_⟩
        exact ⟨by rw [step, hr], by simp⟩
      case isFalse hopen =>
        refine ⟨_, rfl, by rw [hr], ⟨pos, h, hz, hg⟩, by rw [step, hr], rfl, Or.inr ⟨?_, rfl⟩⟩
        rw [step, hr]
        exact ⟨_, rfl, rfl⟩

theorem result_eq_nil (h : (m.onTradeReceived t).2 = none) : m.result t = [] := by
  rw [result, h, Option.toList_none]

theorem result_eq_singleton (h : (m.onTradeReceived t).2 = some r) : m.result t = [r] := by
  rw [result, h, Option.toList_some]

structure Logged (m : PositionManager) (rs : List PositionResult) : Prop where
  known : ∀ r ∈ rs, r.guid < m.nextGuid
  opened : ∀ pos, m.openedPosition = some pos →
    pos.guid < m.nextGuid ∧ positionProfit rs pos.guid = openProfit rs
  flat : m.openedPosition = none → openProfit rs = 0

theorem init_logged : init.Logged [] := ⟨by simp, by simp [init], fun _ => rfl⟩

theorem Logged.step (h : m.Logged rs) : (m.step t).Logged (rs ++ m.result t) := by
  obtain ⟨hnone, hres, _, hnext, pos', hpos', hguid⟩ |
    ⟨pos, pos', hpos, hres, _, hnext, hpos', hguid⟩ |
    ⟨pos, r, hpos, hres, _, hnext, hguid, hafter⟩ := onTradeReceived_cases m t
  · rw [result_eq_nil hres, List.append_nil]
    refine ⟨fun r hr => ?_, fun p hp => ?_, fun hn => ?_⟩
    · rw [hnext]
      exact Nat.lt_succ_of_lt (h.known r hr)
    · obtain rfl : pos' = p := Option.some.inj (hpos'.symm.trans hp)
      rw [h.flat hnone, hguid, hnext]
      refine ⟨Nat.lt_succ_self _, Latest.value_eq_zero _ _ fun hmem => ?_⟩
      obtain ⟨r, hr, hrg⟩ := List.mem_map.mp hmem
      exact (h.known r hr).ne hrg
    · exact absurd (hn.symm.trans hpos') (by simp)
  · rw [result_eq_nil hres, List.append_nil]
    refine ⟨fun r hr => hnext ▸ h.known r hr, fun p hp => ?_, fun hn => ?_⟩
    · obtain rfl : pos' = p := Option.some.inj (hpos'.symm.trans hp)
      rw [hnext, hguid]
      exact h.opened pos hpos
    · exact absurd (hn.symm.trans hpos') (by simp)
  · rw [result_eq_singleton hres]
    obtain ⟨hlt, _⟩ := h.opened pos hpos
    refine ⟨fun r' hr' => ?_, fun p hp => ?_, fun hn => ?_⟩
    · rcases List.mem_append.mp hr' with hr' | hr'
      · exact hnext ▸ h.known r' hr'
      · rw [List.mem_singleton.mp hr', hnext, hguid]
        exact hlt
    · obtain ⟨hclosed, _⟩ | ⟨⟨pos', hpos', hg'⟩, hts⟩ := hafter
      · exact absurd (hclosed.symm.trans hp) (by simp)
      · obtain rfl : pos' = p := Option.some.inj (hpos'.symm.trans hp)
        rw [hnext, openProfit_concat, if_pos hts, hg', ← hguid]
        exact ⟨hguid ▸ hlt, Latest.value_concat_self ..⟩
    · obtain ⟨_, hts⟩ | ⟨⟨pos', hpos', _⟩, _⟩ := hafter
      · rw [openProfit_concat, if_neg hts]
      · exact absurd (hn.symm.trans hpos') (by simp)

end PositionManager

namespace InstanceResults

/-- The instance has published these results, in step with its position manager. -/
structure Follows (s : InstanceResults) (rs : List PositionResult) : Prop where
  logged : s.positionManager.Logged rs
  published : s.positionsChannel.map Prod.snd = rs
  remembered : s.previousProfit = rememberedProfit rs

theorem init_follows : init.Follows [] := ⟨PositionManager.init_logged, rfl, rfl⟩

theorem handleTrade_positionManager :
    (s.handleTrade t).positionManager = s.positionManager.step t := by
  unfold handleTrade PositionManager.step
  cases (s.positionManager.onTradeReceived t).2 <;> rfl

theorem handleTrade_of_none (h : (s.positionManager.onTradeReceived t).2 = none) :
    (s.handleTrade t).strategyResult.finalProfit = s.strategyResult.finalProfit ∧
      (s.handleTrade t).previousProfit = s.previousProfit ∧
      (s.handleTrade t).positionsChannel = s.positionsChannel := by
  unfold handleTrade
  rw [h]
  exact ⟨rfl, rfl, rfl⟩

theorem handleTrade_of_some (h : (s.positionManager.onTradeReceived t).2 = some r) :
    (s.handleTrade t).strategyResult.finalProfit =
        s.strategyResult.finalProfit - s.previousProfit.getD 0 + r.pnlWithFee ∧
      (s.handleTrade t).previousProfit =
        (if r.closeTs ≠ some 0 then none else some r.pnlWithFee) ∧
      (s.handleTrade t).positionsChannel = s.positionsChannel ++ [(t.ts, r)] := by
  unfold handleTrade
  rw [h]
  exact ⟨StrategyResult.addResult_finalProfit .., rfl, rfl⟩

theorem Follows.step (h : s.Follows rs) :
    (s.handleTrade t).Follows (rs ++ s.positionManager.result t) := by
  refine ⟨handleTrade_positionManager ▸ h.logged.step, ?_, ?_⟩ <;>
    cases hres : (s.positionManager.onTradeReceived t).2 with
    | none =>
      obtain ⟨_, hprev, hch⟩ := handleTrade_of_none hres
      simp [PositionManager.result_eq_nil hres, hprev, hch, h.published, h.remembered]
    | some r =>
      obtain ⟨_, hprev, hch⟩ := handleTrade_of_some hres
      simp [PositionManager.result_eq_singleton hres, hprev, hch, h.published,
        rememberedProfit_concat]

/-- The last published result has no profit, or closed its position at a nonzero time. -/
def NothingCarried (s : InstanceResults) (t : Trade) : Prop :=
  s.positionManager.Reduces t →
    ∀ x ∈ s.positionsChannel.getLast?,
      x.2.pnlWithFee = 0 ∨ x.2.closeTs ≠ none ∧ x.2.closeTs ≠ some 0

instance : Decidable (s.NothingCarried t) := by
  unfold NothingCarried
  infer_instance

/-- The remembered profit is that of the open position just when nothing was carried over. -/
theorem remembered_eq_open_iff (rs : List PositionResult) :
    (rememberedProfit rs).getD 0 = openProfit rs ↔
      ∀ r ∈ rs.getLast?, r.pnlWithFee = 0 ∨ r.closeTs ≠ none ∧ r.closeTs ≠ some 0 := by
  unfold rememberedProfit openProfit
  cases rs.getLast? with
  | none => simp
  | some r =>
    rcases hts : r.closeTs with _ | ts
    · simp [hts, eq_comm]
    · by_cases hz : ts = 0 <;> simp [hts, hz]

/-- One trade keeps the total right just when nothing is carried over. -/
theorem Follows.profit_step_iff (h : s.Follows rs)
    (hp : s.strategyResult.finalProfit = totalProfit rs) :
    (s.handleTrade t).strategyResult.finalProfit =
        totalProfit (rs ++ s.positionManager.result t) ↔ s.NothingCarried t := by
  obtain ⟨_, hres, hred, _⟩ | ⟨_, _, _, hres, hred, _⟩ |
    ⟨pos, r, hpos, hres, hred, _, hguid, _⟩ :=
      PositionManager.onTradeReceived_cases s.positionManager t
  case inl | inr.inl =>
    rw [(handleTrade_of_none hres).1, PositionManager.result_eq_nil hres, List.append_nil]
    exact iff_of_true hp fun hr => absurd hr hred
  · have hopen := (h.logged.opened pos hpos).2
    have hlast : s.NothingCarried t ↔
        ∀ r ∈ rs.getLast?, r.pnlWithFee = 0 ∨ r.closeTs ≠ none ∧ r.closeTs ≠ some 0 := by
      unfold NothingCarried
      rw [← h.published, List.getLast?_map]
      cases s.positionsChannel.getLast? <;> simp [hred]
    rw [(handleTrade_of_some hres).1, PositionManager.result_eq_singleton hres,
      totalProfit_concat, hguid, hopen, h.remembered, hp, hlast, ← remembered_eq_open_iff]
    constructor <;> intro hsum <;> linarith

theorem after_positionManager (ts : List Trade) :
    (after handleTrade init ts).positionManager =
      after PositionManager.step PositionManager.init ts := by
  induction ts using List.reverseRecOn with
  | nil => rfl
  | append_singleton ts t ih => rw [after_concat, after_concat, handleTrade_positionManager, ih]

theorem positionResults_concat (ts : List Trade) (t : Trade) :
    positionResults (ts ++ [t]) =
      positionResults ts ++ (after handleTrade init ts).positionManager.result t := by
  rw [positionResults, outputs_concat, after_positionManager, positionResults]

theorem after_follows (ts : List Trade) :
    (after handleTrade init ts).Follows (positionResults ts) := by
  induction ts using List.reverseRecOn with
  | nil => exact init_follows
  | append_singleton ts t ih =>
    rw [after_concat, positionResults_concat]
    exact ih.step

/--
The final profit counts every position once, after every trade of the run, just when each
reducing trade finds nothing carried over: no profit of an earlier result of the same
position, and none of a position closed at time zero.
-/
theorem final_profit_eq_iff (ts : List Trade) :
    (∀ pre, pre <+: ts →
      (after handleTrade init pre).strategyResult.finalProfit =
        totalProfit (positionResults pre)) ↔
      Meets handleTrade NothingCarried init ts := by
  refine forall_prefix_iff_meets (by simp [positionResults, totalProfit, init]) fun ts t _ hp => ?_
  rw [after_concat, positionResults_concat]
  exact (after_follows ts).profit_step_iff hp

/-- A position closed in two parts is counted with the profit of both its results. -/
theorem final_profit_two_part_close :
    let ts : List Trade := [
      ⟨1, "BTCUSDT", 1, 100, ⟨2, zero_le_two⟩, .buy, 0⟩,
      ⟨2, "BTCUSDT", 2, 110, ⟨1, zero_le_one⟩, .sell, 0⟩,
      ⟨3, "BTCUSDT", 3, 120, ⟨1, zero_le_one⟩, .sell, 0⟩]
    (after handleTrade init ts).strategyResult.finalProfit = 40 ∧
      totalProfit (positionResults ts) = 30 := by
  decide +kernel

end InstanceResults

end CryptoTrading

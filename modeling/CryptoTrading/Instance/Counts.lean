import CryptoTrading.Instance.Results

/-! # Fees and counts of the positions

The instance adds the fees and counts a profit or a loss for every result, while the
results of one position are cumulative. Both agree with the positions as long as
no position is closed in parts.
-/

namespace CryptoTrading

open Runs

/-- The share of the profitable results; not a number before the first one. -/
def StrategyResult.winRate (res : StrategyResult) : Option ℚ :=
  divide (res.profitPositionsCnt : ℚ) ((res.profitPositionsCnt + res.lossPositionsCnt : ℕ) : ℚ)

def positionFees (rs : List PositionResult) (guid : Guid) : ℚ :=
  Latest.value PositionResult.guid PositionResult.feesPaid rs guid

def closedPositions (rs : List PositionResult) : Finset Guid :=
  ((rs.filter (·.closeTs.isSome)).map PositionResult.guid).toFinset

def profitablePositions (rs : List PositionResult) : Finset Guid :=
  (closedPositions rs).filter (0 < positionProfit rs ·)

def openFees (rs : List PositionResult) : ℚ :=
  match rs.getLast? with
  | some r => if r.closeTs = none then r.feesPaid else 0
  | none => 0

def allFees (rs : List PositionResult) : ℚ :=
  ∑ guid ∈ closedPositions rs, positionFees rs guid + openFees rs

namespace StrategyResult

variable (res : StrategyResult) (old : ℚ) (r : PositionResult) (pnl : ℚ) (t : Milliseconds)

@[simp] theorem addOpenedTime_feesPaid : (res.addOpenedTime pnl t).feesPaid = res.feesPaid := by
  unfold addOpenedTime
  split_ifs <;> rfl

@[simp] theorem addOpenedTime_profitPositionsCnt :
    (res.addOpenedTime pnl t).profitPositionsCnt = res.profitPositionsCnt := by
  unfold addOpenedTime
  split_ifs <;> rfl

@[simp] theorem addOpenedTime_lossPositionsCnt :
    (res.addOpenedTime pnl t).lossPositionsCnt = res.lossPositionsCnt := by
  unfold addOpenedTime
  split_ifs <;> rfl

@[simp] theorem addResult_feesPaid :
    (res.addResult old r).feesPaid = res.feesPaid + r.feesPaid := by
  unfold addResult
  cases r.openedTime <;> simp

@[simp] theorem addResult_profitPositionsCnt :
    (res.addResult old r).profitPositionsCnt =
      res.profitPositionsCnt + if 0 < r.pnlWithFee then 1 else 0 := by
  unfold addResult
  cases r.openedTime <;> by_cases hp : 0 < r.pnlWithFee <;> simp [hp]

@[simp] theorem addResult_lossPositionsCnt :
    (res.addResult old r).lossPositionsCnt =
      res.lossPositionsCnt + if 0 < r.pnlWithFee then 0 else 1 := by
  unfold addResult
  cases r.openedTime <;> by_cases hp : 0 < r.pnlWithFee <;> simp [hp]

end StrategyResult

section Concat

variable {rs : List PositionResult} {r : PositionResult} {guid : Guid}

theorem mem_closedPositions :
    guid ∈ closedPositions rs ↔ ∃ r ∈ rs, r.closeTs.isSome ∧ r.guid = guid := by
  simp [closedPositions, and_assoc]

theorem closedPositions_concat :
    closedPositions (rs ++ [r]) =
      if r.closeTs.isSome then insert r.guid (closedPositions rs) else closedPositions rs := by
  unfold closedPositions
  rw [List.filter_append]
  split_ifs with hc
  · ext guid
    simp [hc]
  · simp [hc]

theorem openFees_concat :
    openFees (rs ++ [r]) = if r.closeTs = none then r.feesPaid else 0 := by
  simp [openFees]

theorem sum_positionFees_concat (h : r.guid ∉ closedPositions rs) :
    ∑ guid ∈ closedPositions rs, positionFees (rs ++ [r]) guid =
      ∑ guid ∈ closedPositions rs, positionFees rs guid := by
  refine Finset.sum_congr rfl fun guid hg => ?_
  exact Latest.value_concat_of_ne _ _ fun he => h (he ▸ hg)

/-- The fees of a new result take the place of those of the open position. -/
theorem allFees_concat (h : r.guid ∉ closedPositions rs) :
    allFees (rs ++ [r]) = allFees rs - openFees rs + r.feesPaid := by
  have hsum := sum_positionFees_concat h
  have hnew : positionFees (rs ++ [r]) r.guid = r.feesPaid := Latest.value_concat_self ..
  unfold allFees
  rw [closedPositions_concat, openFees_concat]
  cases hts : r.closeTs with
  | none => simp [hsum]
  | some ts =>
    simp [Finset.sum_insert h, hsum, hnew]
    ring

theorem profitablePositions_concat (h : r.guid ∉ closedPositions rs) :
    profitablePositions (rs ++ [r]) =
      if r.closeTs.isSome ∧ 0 < r.pnlWithFee then insert r.guid (profitablePositions rs)
      else profitablePositions rs := by
  have hold : (closedPositions rs).filter (0 < positionProfit (rs ++ [r]) ·) =
      profitablePositions rs := by
    refine Finset.filter_congr fun guid hg => ?_
    have hne : r.guid ≠ guid := fun he => h (he ▸ hg)
    rw [positionProfit, Latest.value_concat_of_ne _ _ hne, positionProfit]
  have hnew : positionProfit (rs ++ [r]) r.guid = r.pnlWithFee := Latest.value_concat_self ..
  rw [profitablePositions, closedPositions_concat]
  by_cases hc : r.closeTs.isSome <;> by_cases hp : 0 < r.pnlWithFee <;>
    simp [hc, hp, Finset.filter_insert, hold, hnew]

end Concat

namespace OpenedPosition

variable {pos : OpenedPosition} {c : ClosedPosition} {price fee : ℚ} {vol : SignedVolume}

theorem addVolume_isZero_iff :
    (pos.addVolume vol).absoluteVolume.IsZero ↔
      |pos.absoluteVolume.value + vol.value| ≤ dustVolume := by
  unfold addVolume
  by_cases h : |pos.absoluteVolume.value + vol.value| ≤ dustVolume
  · simp [h]
  · have hne : pos.absoluteVolume.value + vol.value ≠ 0 := fun hz =>
      h (by simp [hz, dustVolume_pos.le])
    simp [h, SignedVolume.isZero_iff, hne]

theorem onTrade_isZero_iff (h : (pos.onTrade price vol fee).2 = some c) :
    (pos.onTrade price vol fee).1.absoluteVolume.IsZero ↔
      |pos.absoluteVolume.value + vol.value| ≤ dustVolume := by
  unfold onTrade at h ⊢
  split_ifs at h ⊢
  exact addVolume_isZero_iff

end OpenedPosition

variable {m : PositionManager} {s : InstanceResults} {rs : List PositionResult}
  {r : PositionResult} {t : Trade} {pos : OpenedPosition}

namespace PositionManager

theorem paidFees_step :
    (m.step t).paidFees =
      match (m.onTradeReceived t).2 with
      | none => m.paidFees
      | some r => if r.closeTs = none then r.feesPaid else 0 := by
  cases h : m.openedPosition with
  | none => simp [step, onTradeReceived_open h, paidFees]
  | some pos =>
    cases hc : (pos.onTrade t.price t.signedVolume t.fee).2 with
    | none => simp [step, onTradeReceived_grow h hc, paidFees]
    | some c =>
      rw [step, onTradeReceived_reduce h (Prod.ext rfl hc)]
      split <;> simp [paidFees, partialResult]

/-- The closed positions have one final result each, and the open one has none. -/
structure Closed (m : PositionManager) (rs : List PositionResult) : Prop where
  opened : ∀ pos, m.openedPosition = some pos → pos.guid ∉ closedPositions rs
  fees : openFees rs = m.paidFees
  closed : (closedPositions rs).card = rs.countP (·.closeTs.isSome)
  profitable : (profitablePositions rs).card =
    rs.countP fun r => r.closeTs.isSome && decide (0 < r.pnlWithFee)

theorem init_closed : init.Closed [] :=
  ⟨fun _ _ => by simp [closedPositions], rfl, rfl, rfl⟩

theorem Closed.step (hl : m.Logged rs) (h : m.Closed rs) :
    (m.step t).Closed (rs ++ m.result t) := by
  have hfees := paidFees_step (m := m) (t := t)
  obtain ⟨hnone, hres, _, _, pos', hpos', hguid⟩ |
    ⟨pos, pos', hpos, hres, _, _, hpos', hguid⟩ |
    ⟨pos, r, hpos, hres, _, _, hguid, hafter⟩ := onTradeReceived_cases m t
  · rw [hres] at hfees
    rw [result_eq_nil hres, List.append_nil]
    refine ⟨fun p hp hmem => ?_, h.fees.trans hfees.symm, h.closed, h.profitable⟩
    obtain rfl : pos' = p := Option.some.inj (hpos'.symm.trans hp)
    obtain ⟨r, hr, _, hrg⟩ := mem_closedPositions.mp hmem
    exact (hl.known r hr).ne (hrg.trans hguid)
  · rw [hres] at hfees
    rw [result_eq_nil hres, List.append_nil]
    refine ⟨fun p hp => ?_, h.fees.trans hfees.symm, h.closed, h.profitable⟩
    obtain rfl : pos' = p := Option.some.inj (hpos'.symm.trans hp)
    exact hguid ▸ h.opened pos hpos
  · rw [hres] at hfees
    have hnew : r.guid ∉ closedPositions rs := hguid ▸ h.opened pos hpos
    rw [result_eq_singleton hres]
    refine ⟨fun p hp => ?_, openFees_concat.trans hfees.symm, ?_, ?_⟩
    · obtain ⟨hclosed, _⟩ | ⟨⟨pos', hpos', hg'⟩, hts⟩ := hafter
      · exact absurd (hclosed.symm.trans hp) (by simp)
      · obtain rfl : pos' = p := Option.some.inj (hpos'.symm.trans hp)
        simpa [closedPositions_concat, hts, hg'] using h.opened pos hpos
    · rw [closedPositions_concat, List.countP_append, ← h.closed]
      split_ifs with hc <;> simp [hc, Finset.card_insert_of_notMem hnew]
    · have hnew' : r.guid ∉ profitablePositions rs := fun hmem =>
        hnew (Finset.mem_filter.mp hmem).1
      rw [profitablePositions_concat hnew, List.countP_append, ← h.profitable]
      split_ifs with hc <;> simp [hc, Finset.card_insert_of_notMem hnew']

end PositionManager
namespace PositionManager

def ClosesWhole (m : PositionManager) (t : Trade) : Prop :=
  ∀ pos ∈ m.openedPosition, |pos.absoluteVolume.value + t.signedVolume.value| ≤ dustVolume

instance : Decidable (m.ClosesWhole t) := by
  unfold ClosesWhole
  infer_instance

theorem closeTs_isSome_iff (h : (m.onTradeReceived t).2 = some r) :
    r.closeTs.isSome ↔ m.ClosesWhole t := by
  cases hpos : m.openedPosition with
  | none => simp [onTradeReceived_open hpos] at h
  | some pos =>
    cases hc : (pos.onTrade t.price t.signedVolume t.fee).2 with
    | none => simp [onTradeReceived_grow hpos hc] at h
    | some c =>
      rw [onTradeReceived_reduce hpos (Prod.ext rfl hc)] at h
      have hzero := OpenedPosition.onTrade_isZero_iff hc
      simp only [ClosesWhole, hpos, Option.mem_def, Option.some.injEq, forall_eq', ← hzero]
      split at h
      case isTrue hz => simp [← Option.some.inj h, hz]
      case isFalse hz => simp [← Option.some.inj h, hz, partialResult]

end PositionManager

namespace InstanceResults

theorem handleTrade_feesPaid :
    (s.handleTrade t).strategyResult.feesPaid = s.strategyResult.feesPaid +
      ((s.positionManager.result t).map PositionResult.feesPaid).sum := by
  unfold handleTrade PositionManager.result
  cases (s.positionManager.onTradeReceived t).2 <;> simp [processPositionResult]

structure Tallies (s : InstanceResults) (rs : List PositionResult) : Prop where
  total : s.strategyResult.profitPositionsCnt + s.strategyResult.lossPositionsCnt = rs.length
  profit : s.strategyResult.profitPositionsCnt = rs.countP fun r => decide (0 < r.pnlWithFee)

theorem Tallies.step (h : s.Tallies rs) :
    (s.handleTrade t).Tallies (rs ++ s.positionManager.result t) := by
  obtain ⟨ht, hp⟩ := h
  unfold handleTrade PositionManager.result
  cases (s.positionManager.onTradeReceived t).2 with
  | none => exact ⟨by simpa using ht, by simpa using hp⟩
  | some r =>
    refine ⟨?_, ?_⟩ <;> by_cases hr : 0 < r.pnlWithFee <;>
      simp [processPositionResult, hr, ← ht, ← hp] <;> omega

theorem after_tallies (ts : List Trade) :
    (after handleTrade init ts).Tallies (positionResults ts) := by
  induction ts using List.reverseRecOn with
  | nil => exact ⟨rfl, rfl⟩
  | append_singleton ts t ih =>
    rw [after_concat, positionResults_concat]
    exact ih.step

theorem after_closed (ts : List Trade) :
    (after handleTrade init ts).positionManager.Closed (positionResults ts) := by
  induction ts using List.reverseRecOn with
  | nil => exact PositionManager.init_closed
  | append_singleton ts t ih =>
    rw [after_concat, positionResults_concat, handleTrade_positionManager]
    exact ih.step (after_follows ts).logged

/-- A trade against the open position finds no fees of parts closed before. -/
def NoFeesCarried (s : InstanceResults) (t : Trade) : Prop :=
  s.positionManager.Reduces t → s.positionManager.paidFees = 0

instance : Decidable (s.NoFeesCarried t) := by
  unfold NoFeesCarried
  infer_instance

/-- One trade keeps the fees right just when no fees of the same position are counted already. -/
theorem feesPaid_step_iff (hc : s.positionManager.Closed rs)
    (hf : s.strategyResult.feesPaid = allFees rs) :
    (s.handleTrade t).strategyResult.feesPaid = allFees (rs ++ s.positionManager.result t) ↔
      s.NoFeesCarried t := by
  rw [handleTrade_feesPaid, NoFeesCarried]
  obtain ⟨_, hres, hred, _⟩ | ⟨_, _, _, hres, hred, _⟩ |
    ⟨pos, r, hpos, hres, hred, _, hguid, _⟩ :=
      PositionManager.onTradeReceived_cases s.positionManager t
  case inl | inr.inl => simp [PositionManager.result_eq_nil hres, hf, hred]
  · have hnew : r.guid ∉ closedPositions rs := hguid ▸ hc.opened pos hpos
    rw [PositionManager.result_eq_singleton hres, allFees_concat hnew, hf, hc.fees]
    simp only [hred, forall_const, List.map_cons, List.map_nil, List.sum_singleton]
    constructor <;> intro hsum <;> linarith

/--
After every trade of the run the fees paid are those of the closed positions and of the open
one so far, just when each trade against the open position finds no fees of parts closed
before.
-/
theorem fees_paid_eq_iff (ts : List Trade) :
    (∀ pre, pre <+: ts →
      (after handleTrade init pre).strategyResult.feesPaid = allFees (positionResults pre)) ↔
      Meets handleTrade NoFeesCarried init ts := by
  refine forall_prefix_iff_meets
    (by simp [positionResults, allFees, closedPositions, openFees, init]) fun ts t _ hf => ?_
  rw [after_concat, positionResults_concat]
  exact feesPaid_step_iff (after_closed ts) hf

/-- The fees of the first part of a position closed in two are counted twice. -/
theorem fees_paid_two_part_close :
    let ts : List Trade := [
      ⟨1, "BTCUSDT", 1, 100, ⟨2, zero_le_two⟩, .buy, 2⟩,
      ⟨2, "BTCUSDT", 2, 110, ⟨1, zero_le_one⟩, .sell, 1⟩,
      ⟨3, "BTCUSDT", 3, 120, ⟨1, zero_le_one⟩, .sell, 1⟩]
    (after handleTrade init ts).strategyResult.feesPaid = 6 ∧
      allFees (positionResults ts) = 4 := by
  decide +kernel

/-- A trade against the open position closes it completely. -/
def ClosesWhole (s : InstanceResults) (t : Trade) : Prop :=
  s.positionManager.Reduces t → s.positionManager.ClosesWhole t

instance : Decidable (s.ClosesWhole t) := by
  unfold ClosesWhole
  infer_instance

theorem closesWhole_iff (s : InstanceResults) (t : Trade) :
    s.ClosesWhole t ↔ ∀ r ∈ s.positionManager.result t, r.closeTs.isSome := by
  unfold ClosesWhole
  obtain ⟨_, hres, hred, _⟩ | ⟨_, _, _, hres, hred, _⟩ | ⟨_, r, _, hres, hred, _⟩ :=
    PositionManager.onTradeReceived_cases s.positionManager t
  case inl | inr.inl => simp [PositionManager.result_eq_nil hres, hred]
  · simp [PositionManager.result_eq_singleton hres, hred,
      PositionManager.closeTs_isSome_iff hres]

/-- Every position closes in one trade just when every result closes its position. -/
theorem meets_closesWhole_iff (ts : List Trade) :
    Meets handleTrade ClosesWhole init ts ↔
      ∀ r ∈ positionResults ts, r.closeTs.isSome := by
  induction ts using List.reverseRecOn with
  | nil => simp [positionResults]
  | append_singleton ts t ih =>
    have hstep := (after handleTrade init ts).closesWhole_iff t
    rw [meets_concat, positionResults_concat, List.forall_mem_append, ih, hstep]

structure CountsPositions (res : StrategyResult) (rs : List PositionResult) : Prop where
  total : res.profitPositionsCnt + res.lossPositionsCnt = (closedPositions rs).card
  profit : res.profitPositionsCnt = (profitablePositions rs).card
  winRate : res.winRate =
    divide ((profitablePositions rs).card : ℚ) ((closedPositions rs).card : ℚ)

theorem countsPositions_iff (ts : List Trade) :
    CountsPositions (after handleTrade init ts).strategyResult (positionResults ts) ↔
      ∀ r ∈ positionResults ts, r.closeTs.isSome := by
  have hc := after_closed ts
  have ht := after_tallies ts
  constructor
  · intro h
    have hlen : (positionResults ts).countP (·.closeTs.isSome) = (positionResults ts).length := by
      rw [← hc.closed, ← h.total, ht.total]
    exact List.countP_eq_length.mp hlen
  · intro h
    have htotal : (closedPositions (positionResults ts)).card = (positionResults ts).length :=
      hc.closed.trans (List.countP_eq_length.mpr h)
    have hprofit : (profitablePositions (positionResults ts)).card =
        (after handleTrade init ts).strategyResult.profitPositionsCnt := by
      rw [hc.profitable, ht.profit]
      refine List.countP_congr fun r hr => ?_
      simp [h r hr]
    refine ⟨ht.total.trans htotal.symm, hprofit.symm, ?_⟩
    rw [StrategyResult.winRate, ht.total, hprofit, htotal]

/--
After every trade of the run the counts and the win rate are those of the closed positions,
just when every trade against the open position closes it completely.
-/
theorem position_counts_iff (ts : List Trade) :
    (∀ pre, pre <+: ts →
      CountsPositions (after handleTrade init pre).strategyResult (positionResults pre)) ↔
      Meets handleTrade ClosesWhole init ts := by
  constructor
  · intro h
    exact (meets_closesWhole_iff ts).mpr ((countsPositions_iff ts).mp (h ts List.prefix_rfl))
  · intro h pre hp
    exact (countsPositions_iff pre).mpr ((meets_closesWhole_iff pre).mp (h.of_prefix hp))

/-- A position closed in two parts with a profit counts twice. -/
theorem position_counts_two_part_close :
    let ts : List Trade := [
      ⟨1, "BTCUSDT", 1, 100, ⟨2, zero_le_two⟩, .buy, 0⟩,
      ⟨2, "BTCUSDT", 2, 90, ⟨1, zero_le_one⟩, .sell, 0⟩,
      ⟨3, "BTCUSDT", 3, 120, ⟨1, zero_le_one⟩, .sell, 0⟩]
    (after handleTrade init ts).strategyResult.lossPositionsCnt = 1 ∧
      (after handleTrade init ts).strategyResult.profitPositionsCnt = 1 ∧
      (after handleTrade init ts).strategyResult.winRate = some (1 / 2) ∧
      (closedPositions (positionResults ts)).card = 1 ∧
      (profitablePositions (positionResults ts)).card = 1 := by
  decide +kernel

end InstanceResults

end CryptoTrading

import CryptoTrading.Positions.AverageCost
import CryptoTrading.Positions.PriceLevels

/-! # Closing at the price levels

A position that is closed at one of its price levels, for a fee as high as its entry fee,
realises the profit of that level.
-/

namespace CryptoTrading

open Runs

namespace OpenedPosition

variable {pos : OpenedPosition} {pnl price fee : ℚ}

def closingVolume (pos : OpenedPosition) : SignedVolume := ⟨-pos.absoluteVolume.value⟩

/-- The level is a price, and closing the whole position at this price, for a fee as high as
the entry fee, realises the profit. -/
def ClosesAt (pos : OpenedPosition) (level : PriceLevel) (pnl : ℚ) : Prop :=
  ∃ price, level = .number price ∧
    ∃ pos' c, pos.onTrade price pos.closingVolume pos.totalEntryFee = (pos', some c) ∧
      pos'.absoluteVolume.IsZero ∧ c.rpnl = pnl

theorem value_closingVolume (pos : OpenedPosition) :
    pos.closingVolume.value = -pos.absoluteVolume.value := rfl

theorem onTrade_closingVolume_of_isZero (h : pos.absoluteVolume.IsZero) :
    pos.onTrade price pos.closingVolume fee = (pos, none) := by
  have hzero : pos.closingVolume.IsZero := by
    rw [SignedVolume.isZero_iff, value_closingVolume, SignedVolume.isZero_iff.mp h, neg_zero]
  rw [onTrade, if_pos hzero]

theorem extractFee_closingVolume (h : ¬ pos.absoluteVolume.IsZero) :
    (pos.extractFee pos.closingVolume.unsigned).1 = pos.totalEntryFee := by
  have habs : |pos.absoluteVolume.value| ≠ 0 := abs_ne_zero.mpr h
  simp only [extractFee, SignedVolume.value_unsigned, value_closingVolume, abs_neg]
  field_simp

theorem onTrade_closingVolume (price fee : ℚ) (h : ¬ pos.absoluteVolume.IsZero) :
    ∃ pos' c, pos.onTrade price pos.closingVolume fee = (pos', some c) ∧
      pos'.absoluteVolume.IsZero ∧
      c.rpnl = (price - pos.avgEntryPrice) * pos.absoluteVolume.value -
        (fee + pos.totalEntryFee) := by
  have hv : ¬ pos.closingVolume.IsZero := fun hz => h (neg_eq_zero.mp hz)
  have hsum : pos.absoluteVolume.value + pos.closingVolume.value = 0 := add_neg_cancel _
  have hg : ¬ pos.Grows pos.closingVolume := fun hg => hg.sum_ne_zero hv hsum
  have hclosed := onTrade_volume price fee hv (.inl hsum)
  rw [onTrade_of_not_grows pos price fee hg hv] at hclosed ⊢
  refine ⟨_, _, rfl, hclosed.trans hsum, ?_⟩
  rw [extractFee_closingVolume h, value_closingVolume, neg_neg]

/-- The price for a profit is the one at which closing the position realises it. -/
theorem closesAt_priceForUpnl (pnl : ℚ) (h : ¬ pos.absoluteVolume.IsZero) :
    pos.ClosesAt (pos.priceForUpnl pnl) pnl := by
  have hne : pos.absoluteVolume.value ≠ 0 := h
  let price := (pnl + pos.expectedTotalFee) / pos.absoluteVolume.value + pos.avgEntryPrice
  obtain ⟨pos', c, htrade, hclosed, hpnl⟩ := onTrade_closingVolume price pos.totalEntryFee h
  refine ⟨price, ?_, pos', c, htrade, hclosed, ?_⟩
  · rw [priceForUpnl, PriceLevel.ofDivision, if_pos hne, PriceLevel.add]
  · calc c.rpnl
        = (pnl + pos.expectedTotalFee) / pos.absoluteVolume.value * pos.absoluteVolume.value -
            (pos.totalEntryFee + pos.totalEntryFee) := by rw [hpnl, add_sub_cancel_right]
      _ = pnl + pos.expectedTotalFee - (pos.totalEntryFee + pos.totalEntryFee) := by
          rw [div_mul_cancel₀ _ hne]
      _ = pnl := by
          rw [expectedTotalFee]
          ring

theorem not_closesAt_of_isZero {level : PriceLevel} (h : pos.absoluteVolume.IsZero) :
    ¬ pos.ClosesAt level pnl := by
  rintro ⟨price, -, pos', c, htrade, -⟩
  rw [onTrade_closingVolume_of_isZero h] at htrade
  cases htrade

/--
After any trades the position is open just when closing it at its three price levels realises
its expected total fee as a profit, nothing, and that fee as a loss.
-/
theorem closesAt_priceLevels_iff (guid : Guid) (t : Trade) (ts : List Trade) :
    let pos := after enter (ofTrade guid t) ts
    ¬ pos.absoluteVolume.IsZero ↔
      pos.ClosesAt pos.priceLevels.feeProfitPrice pos.expectedTotalFee ∧
      pos.ClosesAt pos.priceLevels.noLossPrice 0 ∧
      pos.ClosesAt pos.priceLevels.feeLossPrice (-pos.expectedTotalFee) := by
  intro pos
  constructor
  · intro hopen
    exact ⟨closesAt_priceForUpnl _ hopen, closesAt_priceForUpnl _ hopen,
      closesAt_priceForUpnl _ hopen⟩
  · rintro ⟨-, hclose, -⟩ hz
    exact not_closesAt_of_isZero hz hclose

end OpenedPosition

namespace PositionManager

variable {entry exit : Trade} {ts : List Trade}

/-- Without a position there are no closed pieces. -/
def Settled (m : PositionManager) : Prop := m.openedPosition = none → m.closedPosition = none

theorem settled_step (m : PositionManager) (t : Trade) : (m.step t).Settled := by
  unfold Settled
  cases hpos : m.openedPosition with
  | none =>
    rw [step, onTradeReceived_open hpos]
    rintro ⟨⟩
  | some pos =>
    cases hc : (pos.onTrade t.price t.signedVolume t.fee).2 with
    | none =>
      rw [step, onTradeReceived_grow hpos hc]
      rintro ⟨⟩
    | some c =>
      rw [step, onTradeReceived_reduce hpos (Prod.ext rfl hc)]
      split
      · exact fun _ => rfl
      · rintro ⟨⟩

theorem run_settled (ts : List Trade) : (after step init ts).Settled := by
  cases ts using List.reverseRecOn with
  | nil => exact fun _ => rfl
  | append_singleton ts t =>
    rw [after_concat]
    exact settled_step _ t

theorem result_round_trip (hflat : (after step init ts).openedPosition = none)
    (hdust : dustVolume < entry.unsignedVolume.value)
    (hexit : exit.signedVolume.value = -entry.signedVolume.value) :
    ∃ r, (((after step init ts).step entry).onTradeReceived exit).2 = some r ∧
      r.closeTs = some exit.ts ∧
      r.pnlWithFee = (exit.price - entry.price) * entry.signedVolume.value -
        (exit.fee + entry.fee) := by
  have hclosed := run_settled ts hflat
  generalize after step init ts = m at hflat hclosed
  have hopened : (m.step entry).openedPosition = some (.ofTrade m.nextGuid entry) := by
    rw [step, onTradeReceived_open hflat]
  have hpieces : (m.step entry).closedPosition = none := by
    rw [step, onTradeReceived_open hflat, hclosed]
  have hpos := OpenedPosition.ofTrade_of_dust_lt (t := entry) m.nextGuid hdust
  have hopen : ¬ (OpenedPosition.ofTrade m.nextGuid entry).absoluteVolume.IsZero := by
    rw [hpos]
    exact not_isZero_signedVolume (dustVolume_pos.trans hdust).ne'
  have hvolume : exit.signedVolume =
      (OpenedPosition.ofTrade m.nextGuid entry).closingVolume := by
    ext
    rw [hexit, OpenedPosition.value_closingVolume, hpos]
  obtain ⟨pos', c, htrade, hzero, hpnl⟩ :=
    OpenedPosition.onTrade_closingVolume exit.price exit.fee hopen
  rw [← hvolume] at htrade
  rw [onTradeReceived_reduce hopened htrade, if_pos hzero]
  refine ⟨_, rfl, rfl, ?_⟩
  rw [partialResult, accumulate_rpnl, realisedPnl, hpieces, hpnl, hpos]
  simp

end PositionManager

end CryptoTrading

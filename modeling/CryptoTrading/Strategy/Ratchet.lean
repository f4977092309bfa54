import CryptoTrading.Ta.Ratchet
import CryptoTrading.MarketData.CandleBuilder
import CryptoTrading.Strategy.Base

/-! # The ratchet strategy

It enters at each flip of a ratchet that follows the closes, on the side of the new trend.
-/

namespace CryptoTrading

open Runs

structure RatchetStrategy where
  ratchet : Ratchet
  deriving DecidableEq

namespace RatchetStrategy

def new (retracement : ℚ) : RatchetStrategy := ⟨.new retracement⟩

variable (s : RatchetStrategy)

def pushCandle (c : Candle) : RatchetStrategy × Option EntrySignal :=
  let (ratchet, value, flip) := s.ratchet.pushPriceForValue c.close
  if ¬ flip then ({ s with ratchet }, none)
  else
    let side := if value < c.close then Side.buy else .sell
    ({ s with ratchet }, some ⟨side, c.close, c.closeTs⟩)

def step (c : Candle) : RatchetStrategy := (s.pushCandle c).1

def entries (retracement : ℚ) (candles : List Candle) : List EntrySignal :=
  outputs step (fun s c => (s.pushCandle c).2.toList) (new retracement) candles

variable {s} {c : Candle} {retracement : ℚ} {candles : List Candle}

theorem pushCandle_eq (s : RatchetStrategy) (c : Candle) :
    s.pushCandle c =
      (⟨s.ratchet.step c.close⟩,
        if s.ratchet.flips c.close then
          some ⟨if (s.ratchet.step c.close).lastValue < c.close then .buy else .sell,
            c.close, c.closeTs⟩
        else none) := by
  rw [← Ratchet.push_value, Ratchet.step, Ratchet.flips]
  rcases hpush : s.ratchet.pushPriceForValue c.close with ⟨ratchet, value, flip⟩
  rw [pushCandle, hpush]
  cases flip <;> rfl

theorem step_ratchet (s : RatchetStrategy) (c : Candle) :
    (s.step c).ratchet = s.ratchet.step c.close := by
  rw [step, pushCandle_eq]

theorem after_ratchet (retracement : ℚ) (candles : List Candle) :
    (after step (new retracement) candles).ratchet =
      after Ratchet.step (.new retracement) (candles.map Candle.close) := by
  induction candles using List.reverseRecOn with
  | nil => rfl
  | append_singleton candles c ih =>
    rw [after_concat, step_ratchet, ih, List.map_append, List.map_singleton, after_concat]

theorem pushCandle_side (hfollows : s.ratchet.Follows c.close) :
    (s.pushCandle c).2.toList.map EntrySignal.side =
      if s.ratchet.flips c.close then [(s.ratchet.step c.close).trendSide] else [] := by
  rw [pushCandle_eq]
  by_cases hflip : s.ratchet.flips c.close
  · rw [if_pos hflip, if_pos hflip, Ratchet.trendSide]
    rcases hfollows.trend with hup | hdown
    · rw [if_pos hup, if_pos (hfollows.up hup).2]
      rfl
    · rw [if_neg (hfollows.down hdown).1.not_gt, if_neg (by rw [hdown]; decide)]
      rfl
  · rw [if_neg hflip, if_neg hflip]
    rfl

theorem entries_side (hpos : 0 < retracement) (hclose : ∀ c ∈ candles, 0 < c.close) :
    (entries retracement candles).map EntrySignal.side =
      Ratchet.flipsOf retracement (candles.map Candle.close) := by
  induction candles using List.reverseRecOn with
  | nil => rfl
  | append_singleton candles c ih =>
    rw [List.forall_mem_append, List.forall_mem_singleton] at hclose
    have hsound := Ratchet.sound_after retracement (candles.map Candle.close)
    have hside := pushCandle_side (s := after step (new retracement) candles) (c := c)
      (by rw [after_ratchet]; exact hsound.follows hpos hclose.2)
    rw [entries, outputs_concat, ← entries, List.map_append, ih hclose.1, hside, after_ratchet,
      List.map_append, List.map_singleton, Ratchet.flipsOf_concat]

/-- After each push the value is at its side of the price and within the retracement, and never
moves against a trend that stays. The trend turns when the price has come down to the value or
gone above it. The reported flips are the turns after the first one, so the entries at them
alternate. -/
theorem entries_alternate (hpos : 0 < retracement) :
    (∀ prices : List ℚ, (∀ price ∈ prices, 0 < price) →
      ∀ pre price, pre ++ [price] <+: prices →
        let r := after Ratchet.step (.new retracement) pre
        r.Follows price ∧
          (r.flips price ↔ r.Turns price ∧ Ratchet.turnsOf retracement pre ≠ [])) ∧
      ∀ candles : List Candle, (∀ c ∈ candles, 0 < c.close) →
        ((entries retracement candles).map EntrySignal.side).IsChain
          fun side side' => side' = side.opposite := by
  constructor
  · intro prices hprices pre price hpre
    have hprice := hprices price (hpre.subset (List.mem_append_right _ List.mem_cons_self))
    exact ⟨(Ratchet.sound_after retracement pre).follows hpos hprice,
      Ratchet.flips_iff retracement pre price⟩
  · intro candles hclose
    rw [entries_side hpos hclose, Ratchet.flipsOf_eq_tail]
    exact (Ratchet.turned_after retracement _).alternate.tail

theorem entries_alternate_half :
    (after Ratchet.step (.new (1 / 2)) [100, 40]).Follows 70 ∧
      ((entries (1 / 2) ([100, 40, 70, 30].map (Candle.flat 60000 0))).map EntrySignal.side).IsChain
        fun side side' => side' = side.opposite := by
  have h := @entries_alternate (1 / 2) (by norm_num)
  exact ⟨(h.1 [100, 40, 70] (by decide +kernel) [100, 40] 70 List.prefix_rfl).1,
    h.2 _ (by decide +kernel)⟩

/-- A price that has come up to the value does not turn a down trend. -/
theorem not_turns_at_value :
    let r := after Ratchet.step (.new (1 / 2)) [100, 40]
    r.currentTrendSide = -1 ∧ r.lastValue = 60 ∧ ¬ r.Turns 60 := by
  decide +kernel

end RatchetStrategy

end CryptoTrading

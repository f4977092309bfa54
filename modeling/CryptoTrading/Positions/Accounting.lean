import CryptoTrading.Positions.Manager
import Mathlib.Data.List.Infix

/-! # Realised profit and cash flow

The position manager keeps a cost-basis book of the trades since the position was
opened, also through flips. Its results are therefore the cash flow of these
trades less their fees, apart from what the opened part still holds at cost.
-/

namespace CryptoTrading

open CostBasis Runs

def Trade.fill (t : Trade) : Fill ℚ := ⟨t.price, t.signedVolume.value, t.fee⟩

def netVolume (ts : List Trade) : ℚ := position (ts.map Trade.fill)

/-- The money received for the trades, fees aside. -/
def cashFlow (ts : List Trade) : ℚ := cash (ts.map Trade.fill)

def totalFees (ts : List Trade) : ℚ := fees (ts.map Trade.fill)

/-- A trade joins the current position, or opens the next one when that is flat. -/
def extendPosition (ts : List Trade) (t : Trade) : List Trade :=
  if netVolume ts = 0 then [t] else ts ++ [t]

/-- The trades since the last position was opened, its closing trade included. -/
def sinceOpened (ts : List Trade) : List Trade := after extendPosition [] ts

/-- Trades with volume whose running sums since the opening are zero or larger than dust. -/
structure CleanTrades (ts : List Trade) : Prop where
  volume_ne_zero : ∀ t ∈ ts, t.unsignedVolume.value ≠ 0
  no_dust : ∀ p, p <+: ts →
    netVolume (sinceOpened p) = 0 ∨ dustVolume < |netVolume (sinceOpened p)|

variable {ts : List Trade} {t : Trade} {m : PositionManager} {pos : OpenedPosition}

theorem cleanTrades_iff : CleanTrades ts ↔
    (∀ t ∈ ts, t.unsignedVolume.value ≠ 0) ∧
      ∀ p ∈ ts.inits, netVolume (sinceOpened p) = 0 ∨ dustVolume < |netVolume (sinceOpened p)| := by
  constructor
  · rintro ⟨hv, hd⟩
    exact ⟨hv, fun p hp => hd p ((List.mem_inits p ts).mp hp)⟩
  · rintro ⟨hv, hd⟩
    exact ⟨hv, fun p hp => hd p ((List.mem_inits p ts).mpr hp)⟩

instance : Decidable (CleanTrades ts) := decidable_of_iff' _ cleanTrades_iff

theorem netVolume_concat : netVolume (ts ++ [t]) = netVolume ts + t.signedVolume.value := by
  simp [netVolume, Trade.fill]

theorem sinceOpened_concat : sinceOpened (ts ++ [t]) = extendPosition (sinceOpened ts) t :=
  after_concat

theorem CleanTrades.of_concat (h : CleanTrades (ts ++ [t])) : CleanTrades ts :=
  ⟨fun x hx => h.volume_ne_zero x (List.mem_append_left _ hx),
    fun p hp => h.no_dust p (hp.trans (List.prefix_append ..))⟩

namespace PositionManager

/-- The manager has entered exactly these trades since the position was opened. -/
structure Tracks (m : PositionManager) (pos : OpenedPosition) (ts : List Trade) : Prop where
  opened : m.openedPosition = some pos
  balanced : (pos.book m.realisedPnl m.paidFees).Balanced (ts.map Trade.fill)
  volume_ne_zero : netVolume ts ≠ 0

/-- The manager holds nothing back from an earlier position. -/
structure Flat (m : PositionManager) : Prop where
  opened : m.openedPosition = none
  closed : m.closedPosition = none

/-- A final result accounts for all cash and fees of the position's trades. -/
structure Settles (res : PositionResult) (ts : List Trade) : Prop where
  closed : res.closeTs.isSome
  pnl : res.pnlWithFee = cashFlow ts - totalFees ts
  fees : res.feesPaid = totalFees ts

theorem Tracks.volume (h : m.Tracks pos ts) : pos.absoluteVolume.value = netVolume ts :=
  h.balanced.volume

def Reported (m' : PositionManager) (ts : List Trade) (res : PositionResult) : Prop :=
  (res.closeTs = none ∧ (∃ pos, m'.Tracks pos ts) ∧
    res.pnlWithFee = m'.realisedPnl ∧ res.feesPaid = m'.paidFees) ∨
  (m'.Flat ∧ netVolume ts = 0 ∧ Settles res ts)

theorem netVolume_mul_sign_nonneg {s : Side} (h : ∀ x ∈ ts, x.side = s) :
    0 ≤ netVolume ts * (s.sign : ℚ) := by
  induction ts using List.reverseRecOn with
  | nil => simp [netVolume, position]
  | append_singleton ts t ih =>
    have ht := h t (by simp)
    have hn := ih fun x hx => h x (List.mem_append_left _ hx)
    have hsq : (s.sign : ℚ) * s.sign = 1 := by exact_mod_cast s.sign_mul_self
    rw [netVolume_concat, Trade.value_signedVolume, ht, add_mul, mul_assoc, hsq, mul_one]
    exact add_nonneg hn t.unsignedVolume.nonneg

theorem Tracks.grows_of_side (h : m.Tracks pos ts) (hv : t.unsignedVolume.value ≠ 0)
    (hs : ∀ x ∈ ts, x.side = t.side) : pos.Grows t.signedVolume := by
  have hz := not_isZero_signedVolume hv
  have hp : ¬ pos.absoluteVolume.IsZero := fun hz' =>
    h.volume_ne_zero (h.volume.symm.trans (SignedVolume.isZero_iff.mp hz'))
  refine Or.inr ((SignedVolume.sign_eq_iff hz hp).mpr ?_)
  have hn := netVolume_mul_sign_nonneg hs
  rw [Trade.value_signedVolume, h.volume, mul_assoc, mul_comm (t.side.sign : ℚ)]
  have hsign : netVolume ts * (t.side.sign : ℚ) ≠ 0 :=
    mul_ne_zero h.volume_ne_zero (by cases t.side <;> simp)
  have hvol := t.unsignedVolume.nonneg.lt_of_ne' hv
  exact mul_pos hvol (hn.lt_of_ne' hsign)

section Step

variable (hv : t.unsignedVolume.value ≠ 0)

include hv

theorem Flat.step_tracks (h : m.Flat) (hd : dustVolume < |t.signedVolume.value|) :
    (∃ pos, (m.step t).Tracks pos [t]) ∧ (m.onTradeReceived t).2 = none ∧
      (m.step t).closedPosition = none := by
  have hz := not_isZero_signedVolume hv
  have hr := onTradeReceived_open (t := t) h.opened
  have hc : (m.step t).closedPosition = none := by rw [step, hr, h.closed]
  refine ⟨⟨.ofTrade m.nextGuid t, by rw [step, hr], ?_, ?_⟩, by rw [hr], hc⟩
  · let empty : OpenedPosition := ⟨m.nextGuid, .zero, 0, 0, t.ts⟩
    have hgrows : empty.Grows t.signedVolume := Or.inl SignedVolume.isZero_zero
    have hsum : empty.absoluteVolume.value + t.signedVolume.value = 0 ∨
        dustVolume < |empty.absoluteVolume.value + t.signedVolume.value| :=
      Or.inr (by simpa [empty] using hd)
    have hstep := OpenedPosition.book_step_of_grows t.price t.fee 0 0 hgrows hz hsum
    have hb := balanced_empty.step hstep
    simpa [realisedPnl, paidFees, hc, OpenedPosition.ofTrade, Trade.fill, empty] using hb
  · simpa [netVolume, position, Trade.fill, SignedVolume.isZero_iff] using hz

theorem Tracks.step_grow (h : m.Tracks pos ts) (hg : pos.Grows t.signedVolume)
    (hd : dustVolume < |netVolume (ts ++ [t])|) :
    (∃ pos', (m.step t).Tracks pos' (ts ++ [t])) ∧ (m.onTradeReceived t).2 = none ∧
      (m.step t).closedPosition = m.closedPosition := by
  have hz := not_isZero_signedVolume hv
  have hr := onTradeReceived_grow (t := t) h.opened
    (by rw [OpenedPosition.onTrade_of_grows hg hz])
  have hc : (m.step t).closedPosition = m.closedPosition := by rw [step, hr]
  refine ⟨⟨_, by rw [step, hr], ?_, ?_⟩, by rw [hr], hc⟩
  · have hb := h.balanced.step (OpenedPosition.book_step_of_grows t.price t.fee _ _ hg hz
      (Or.inr (by rwa [h.volume, ← netVolume_concat])))
    rw [List.map_append, realisedPnl, paidFees, hc]
    exact hb
  · exact abs_pos.mp (dustVolume_pos.trans hd)

theorem Tracks.step_reduce (h : m.Tracks pos ts) (hg : ¬ pos.Grows t.signedVolume)
    (hd : netVolume (ts ++ [t]) = 0 ∨ dustVolume < |netVolume (ts ++ [t])|) :
    ∃ res, (m.onTradeReceived t).2 = some res ∧ Reported (m.step t) (ts ++ [t]) res := by
  have hz := not_isZero_signedVolume hv
  rw [netVolume_concat, ← h.volume] at hd
  obtain ⟨c, hc, hstep⟩ := OpenedPosition.book_step_of_not_grows t.price t.fee m.realisedPnl
    m.paidFees hg hz hd
  have hb := h.balanced.step hstep
  rw [← accumulate_rpnl, ← accumulate_entryAndCloseFee] at hb
  obtain ⟨pos', hpos'⟩ : ∃ pos', pos' = (pos.onTrade t.price t.signedVolume t.fee).1 := ⟨_, rfl⟩
  rw [← hpos'] at hb
  have hvol : pos'.absoluteVolume.value = netVolume (ts ++ [t]) := by
    rw [netVolume_concat, ← h.volume, hpos']
    exact OpenedPosition.onTrade_volume t.price t.fee hz hd
  have hr := onTradeReceived_reduce (t := t) h.opened
    (Prod.ext hpos'.symm hc)
  by_cases hn : netVolume (ts ++ [t]) = 0
  · rw [if_pos (SignedVolume.isZero_iff.mpr (hvol.trans hn))] at hr
    have hfee : pos'.totalEntryFee = 0 := by
      rw [hpos']
      exact OpenedPosition.onTrade_whole_fee hg hz (by rw [h.volume, ← netVolume_concat, hn])
    refine ⟨_, by rw [hr], Or.inr ⟨⟨by rw [step, hr], by rw [step, hr]⟩, hn, rfl, ?_, ?_⟩⟩
    · have := hb.realisedPnl_eq
      simpa [OpenedPosition.book, hvol, hn, hfee, cashFlow, totalFees, Trade.fill,
        partialResult] using this
    · have := hb.paidFee_eq
      simpa [OpenedPosition.book, hfee, totalFees, Trade.fill, partialResult] using this
  · rw [if_neg (fun hz' => hn (hvol.symm.trans (SignedVolume.isZero_iff.mp hz')))] at hr
    refine ⟨_, by rw [hr], Or.inl ⟨rfl, ⟨pos', by rw [step, hr], ?_, hn⟩, ?_, ?_⟩⟩
    · rw [step, hr, List.map_append]
      exact hb
    · rw [step, hr]
      rfl
    · rw [step, hr]
      rfl

end Step

structure Accounts (m : PositionManager) (ts : List Trade) : Prop where
  state : m.Flat ∧ netVolume ts = 0 ∨ ∃ pos, m.Tracks pos ts
  unreduced : (∀ x ∈ ts, ∀ y ∈ ts, x.side = y.side) → m.closedPosition = none

theorem init_accounts : init.Accounts [] := ⟨Or.inl ⟨⟨rfl, rfl⟩, rfl⟩, fun _ => rfl⟩

/-- One trade keeps the books, and its result, if any, reports them. -/
theorem Accounts.step (h : m.Accounts ts) (hv : t.unsignedVolume.value ≠ 0)
    (hd : netVolume (extendPosition ts t) = 0 ∨
      dustVolume < |netVolume (extendPosition ts t)|) :
    (m.step t).Accounts (extendPosition ts t) ∧
      (∀ res, (m.onTradeReceived t).2 = some res →
        Reported (m.step t) (extendPosition ts t) res) ∧
      ((m.onTradeReceived t).2 = none → ∃ pos, (m.step t).Tracks pos (extendPosition ts t)) := by
  obtain ⟨hflat | ⟨pos, htr⟩, hun⟩ := h
  · have hext : extendPosition ts t = [t] := if_pos hflat.2
    have hne := SignedVolume.isZero_iff.not.mp (not_isZero_signedVolume hv)
    have hsum : netVolume [t] = t.signedVolume.value := by simp [netVolume, position, Trade.fill]
    rw [hext, hsum] at hd
    obtain ⟨htr, hres, hc⟩ := hflat.1.step_tracks hv (hd.resolve_left hne)
    rw [hext]
    exact ⟨⟨Or.inr htr, fun _ => hc⟩, by simp [hres], fun _ => htr⟩
  · have hext : extendPosition ts t = ts ++ [t] := if_neg htr.volume_ne_zero
    rw [hext] at hd ⊢
    by_cases hg : pos.Grows t.signedVolume
    · have hsum := hg.sum_ne_zero (not_isZero_signedVolume hv)
      rw [htr.volume, ← netVolume_concat] at hsum
      obtain ⟨htr', hres, hc⟩ := htr.step_grow hv hg (hd.resolve_left hsum)
      refine ⟨⟨Or.inr htr', fun hs => ?_⟩, by simp [hres], fun _ => htr'⟩
      rw [hc]
      exact hun fun x hx y hy =>
        hs x (List.mem_append_left _ hx) y (List.mem_append_left _ hy)
    · obtain ⟨res, hres, hrep⟩ := htr.step_reduce hv hg hd
      have hstate : (m.step t).Flat ∧ netVolume (ts ++ [t]) = 0 ∨
          ∃ pos, (m.step t).Tracks pos (ts ++ [t]) := by
        rcases hrep with ⟨_, htr', _⟩ | ⟨hflat, hn, _⟩
        · exact Or.inr htr'
        · exact Or.inl ⟨hflat, hn⟩
      refine ⟨⟨hstate, fun hs => (hg ?_).elim⟩, ?_, by simp [hres]⟩
      · have hside := fun x hx => hs x (List.mem_append_left _ hx) t (by simp)
        exact htr.grows_of_side hv hside
      · intro r hr
        rw [hres] at hr
        exact Option.some.inj hr ▸ hrep

theorem run_accounts (h : CleanTrades ts) : (after step init ts).Accounts (sinceOpened ts) := by
  induction ts using List.reverseRecOn with
  | nil => exact init_accounts
  | append_singleton ts t ih =>
    have hd := h.no_dust _ List.prefix_rfl
    rw [sinceOpened_concat] at hd ⊢
    rw [after_concat]
    exact ((ih h.of_concat).step (h.volume_ne_zero t (by simp)) hd).1

/--
Realised profit and paid fees are the cash flow and the fees of the trades since the
position was opened, apart from the part still held at its average price; the final
result of a position is its whole cash flow less all its fees.
-/
theorem realised_eq_cash_less_fees (ts : List Trade) (t : Trade) (h : CleanTrades (ts ++ [t])) :
    let m := after step init ts
    let m' := m.step t
    let since := sinceOpened (ts ++ [t])
    (∀ pos, m'.openedPosition = some pos →
      pos.absoluteVolume.value = netVolume since ∧
      m'.realisedPnl = cashFlow since + pos.avgEntryPrice * netVolume since -
        (totalFees since - pos.totalEntryFee) ∧
      m'.paidFees = totalFees since - pos.totalEntryFee) ∧
    ((∀ x ∈ since, x.side = t.side) → m'.realisedPnl = 0 ∧ m'.paidFees = 0) ∧
    (m'.openedPosition = none →
      ∃ res, (m.onTradeReceived t).2 = some res ∧ res.closeTs.isSome) ∧
    (∀ res, (m.onTradeReceived t).2 = some res →
      if res.closeTs.isSome then
        m'.openedPosition = none ∧ res.pnlWithFee = cashFlow since - totalFees since ∧
          res.feesPaid = totalFees since
      else
        m'.openedPosition.isSome ∧ res.pnlWithFee = m'.realisedPnl ∧
          res.feesPaid = m'.paidFees) := by
  intro m m' since
  have hd := h.no_dust _ List.prefix_rfl
  rw [sinceOpened_concat] at hd
  obtain ⟨hacc, hrep, hnone⟩ :=
    (run_accounts h.of_concat).step (h.volume_ne_zero t (by simp)) hd
  rw [← sinceOpened_concat] at hacc hrep hnone
  refine ⟨fun pos hpos => ?_, fun hs => ?_, fun hopen => ?_, fun res hres => ?_⟩
  · obtain ⟨hflat, -⟩ | ⟨pos', htr⟩ := hacc.state
    · exact absurd (hflat.opened.symm.trans hpos) (by simp)
    · obtain rfl : pos = pos' := Option.some.inj (hpos.symm.trans htr.opened)
      have hv := htr.volume
      exact ⟨hv, hv ▸ htr.balanced.realisedPnl_eq, htr.balanced.paidFee_eq⟩
  · have hc : m'.closedPosition = none :=
      hacc.unreduced fun x hx y hy => (hs x hx).trans (hs y hy).symm
    exact ⟨by simp [realisedPnl, hc], by simp [paidFees, hc]⟩
  · cases hr : (m.onTradeReceived t).2 with
    | none =>
      obtain ⟨pos, htr⟩ := hnone hr
      exact absurd (hopen.symm.trans htr.opened) (by simp)
    | some res =>
      refine ⟨res, rfl, ?_⟩
      obtain ⟨_, ⟨pos, htr⟩, _⟩ | ⟨_, _, hset⟩ := hrep res hr
      · exact absurd (hopen.symm.trans htr.opened) (by simp)
      · exact hset.closed
  · obtain ⟨hts, ⟨pos, htr⟩, hpnl, hfees⟩ | ⟨hflat, _, hset⟩ := hrep res hres
    · rw [if_neg (by simp [hts])]
      have hopen : m'.openedPosition = some pos := htr.opened
      exact ⟨by simp [hopen], hpnl, hfees⟩
    · rw [if_pos hset.closed]
      exact ⟨hflat.opened, hset.pnl, hset.fees⟩

/-- Two buys, a sale that flips the position and a buy that closes it. -/
theorem realised_eq_cash_less_fees_flip :
    let buy (ts : Milliseconds) (price : ℚ) (vol : UnsignedVolume) : Trade :=
      ⟨ts, "BTCUSDT", 1, price, vol, .buy, 1⟩
    let sell (ts : Milliseconds) (price : ℚ) (vol : UnsignedVolume) : Trade :=
      ⟨ts, "BTCUSDT", 2, price, vol, .sell, 2⟩
    let ts := [buy 1 100 ⟨2, zero_le_two⟩, buy 2 110 ⟨1, zero_le_one⟩,
      sell 3 120 ⟨4, zero_le_four⟩]
    let t := buy 4 90 ⟨1, zero_le_one⟩
    CleanTrades (ts ++ [t]) ∧
      ∃ res, ((after step init ts).onTradeReceived t).2 = some res ∧ res.closeTs.isSome := by
  intro buy sell ts t
  have h : CleanTrades (ts ++ [t]) := by decide +kernel
  have hclosed : ((after step init ts).step t).openedPosition = none := by decide +kernel
  exact ⟨h, (realised_eq_cash_less_fees ts t h).2.2.1 hclosed⟩

end PositionManager

end CryptoTrading

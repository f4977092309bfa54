import CryptoTrading.Primitives.Position
import CryptoTrading.Lib.Runs

/-! # The position manager

Trades open, increase, reduce and flip a position. The closed pieces of a position
are accumulated, so each result is the total of the position so far.
-/

namespace CryptoTrading

structure PositionResult where
  guid : Guid
  feesPaid : ℚ
  pnlWithFee : ℚ
  openTs : Milliseconds
  closeTs : Option Milliseconds
  deriving DecidableEq

def PositionResult.openedTime (r : PositionResult) : Option Milliseconds :=
  r.closeTs.map (· - r.openTs)

structure PositionManager where
  openedPosition : Option OpenedPosition
  closedPosition : Option ClosedPosition
  /-- What the next `xg::newGuid` returns. -/
  nextGuid : Guid
  deriving DecidableEq

namespace PositionManager

def init : PositionManager := ⟨none, none, Guid.first⟩

def accumulate (m : PositionManager) (closed : ClosedPosition) : ClosedPosition :=
  match m.closedPosition with
  | some c => c.addAssign closed
  | none => closed

def onTradeReceived (m : PositionManager) (trade : Trade) :
    PositionManager × Option PositionResult :=
  match m.openedPosition with
  | none =>
    ({ m with
      openedPosition := some (.ofTrade m.nextGuid trade)
      nextGuid := m.nextGuid + 1 }, none)
  | some opened =>
    let (pos, closedPosOpt) := opened.onTrade trade.price trade.signedVolume trade.fee
    match closedPosOpt with
    | none => ({ m with openedPosition := some pos }, none)
    | some closed =>
      let closedPos := m.accumulate closed
      let res : PositionResult := {
        guid := pos.guid
        feesPaid := closedPos.entryAndCloseFee
        pnlWithFee := closedPos.rpnl
        openTs := pos.openTs
        closeTs := none }
      if pos.absoluteVolume.IsZero then
        ({ m with openedPosition := none, closedPosition := none },
          some { res with closeTs := some trade.ts })
      else
        ({ m with openedPosition := some pos, closedPosition := some closedPos }, some res)

def step (m : PositionManager) (trade : Trade) : PositionManager := (m.onTradeReceived trade).1

def result (m : PositionManager) (trade : Trade) : List PositionResult :=
  (m.onTradeReceived trade).2.toList

/-- The profit realised by the position so far, fees included. -/
def realisedPnl (m : PositionManager) : ℚ := (m.closedPosition.map ClosedPosition.rpnl).getD 0

def paidFees (m : PositionManager) : ℚ :=
  (m.closedPosition.map ClosedPosition.entryAndCloseFee).getD 0

variable {m : PositionManager} {t : Trade} {pos : OpenedPosition} {c : ClosedPosition}

theorem onTradeReceived_open (h : m.openedPosition = none) :
    m.onTradeReceived t =
      ({ m with
        openedPosition := some (.ofTrade m.nextGuid t)
        nextGuid := m.nextGuid + 1 }, none) := by
  simp only [onTradeReceived, h]

theorem onTradeReceived_grow (h : m.openedPosition = some pos)
    (hc : (pos.onTrade t.price t.signedVolume t.fee).2 = none) :
    m.onTradeReceived t =
      ({ m with
        openedPosition := some (pos.onTrade t.price t.signedVolume t.fee).1 },
        none) := by
  simp only [onTradeReceived, h]
  rw [hc]

def partialResult (m : PositionManager) (pos : OpenedPosition) (c : ClosedPosition) :
    PositionResult where
  guid := pos.guid
  feesPaid := (m.accumulate c).entryAndCloseFee
  pnlWithFee := (m.accumulate c).rpnl
  openTs := pos.openTs
  closeTs := none

theorem onTradeReceived_reduce {pos' : OpenedPosition} (h : m.openedPosition = some pos)
    (hc : pos.onTrade t.price t.signedVolume t.fee = (pos', some c)) :
    m.onTradeReceived t =
      if pos'.absoluteVolume.IsZero then
        ({ m with openedPosition := none, closedPosition := none },
          some { m.partialResult pos' c with closeTs := some t.ts })
      else
        ({ m with openedPosition := some pos', closedPosition := some (m.accumulate c) },
          some (m.partialResult pos' c)) := by
  simp only [onTradeReceived, h]
  rw [hc]
  rfl

theorem step_against (h : m.openedPosition = some pos) (hg : ¬ pos.Grows t.signedVolume)
    (hv : ¬ t.signedVolume.IsZero)
    (hd : pos.absoluteVolume.value + t.signedVolume.value = 0 ∨
      dustVolume < |pos.absoluteVolume.value + t.signedVolume.value|) :
    pos.absoluteVolume.value + t.signedVolume.value = 0 ∧ (m.step t).openedPosition = none ∨
      pos.absoluteVolume.value + t.signedVolume.value ≠ 0 ∧ ∃ pos',
        (m.step t).openedPosition = some pos' ∧
        pos'.absoluteVolume.value = pos.absoluteVolume.value + t.signedVolume.value := by
  have hvol := OpenedPosition.onTrade_volume t.price t.fee hv hd
  have htrade := pos.onTrade_of_not_grows t.price t.fee hg hv
  rw [htrade] at hvol
  have hr := onTradeReceived_reduce (t := t) h htrade
  by_cases hz : pos.absoluteVolume.value + t.signedVolume.value = 0
  · rw [if_pos (SignedVolume.isZero_iff.mpr (hvol.trans hz))] at hr
    exact .inl ⟨hz, by rw [step, hr]⟩
  · rw [if_neg fun hz' => hz (hvol.symm.trans (SignedVolume.isZero_iff.mp hz'))] at hr
    exact .inr ⟨hz, _, by rw [step, hr], hvol⟩

theorem step_closing (h : m.openedPosition = some pos)
    (hsum : t.signedVolume.value = -pos.absoluteVolume.value) (hv : ¬ t.signedVolume.IsZero) :
    (m.step t).openedPosition = none := by
  have hzero : pos.absoluteVolume.value + t.signedVolume.value = 0 := by
    rw [hsum, add_neg_cancel]
  have hg : ¬ pos.Grows t.signedVolume := fun hg => hg.sum_ne_zero hv hzero
  rcases step_against h hg hv (.inl hzero) with ⟨-, hnone⟩ | ⟨hne, -⟩
  · exact hnone
  · exact absurd hzero hne

theorem accumulate_rpnl (m : PositionManager) (c : ClosedPosition) :
    (m.accumulate c).rpnl = m.realisedPnl + c.rpnl := by
  unfold accumulate realisedPnl
  cases m.closedPosition <;> simp [ClosedPosition.addAssign]

theorem accumulate_entryAndCloseFee (m : PositionManager) (c : ClosedPosition) :
    (m.accumulate c).entryAndCloseFee = m.paidFees + c.entryAndCloseFee := by
  unfold accumulate paidFees
  cases m.closedPosition <;> simp [ClosedPosition.addAssign]

end PositionManager

end CryptoTrading

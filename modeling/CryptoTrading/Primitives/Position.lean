import CryptoTrading.Primitives.Trade
import CryptoTrading.Lib.CostBasis
import Mathlib.Tactic.FieldSimp

/-! # Opened and closed positions

An opened position averages its entry price while it grows and hands out a closed
piece, with its share of the entry fee, when a trade goes against it.
-/

namespace CryptoTrading

open CostBasis (Fill Book)

/-- Division of doubles that may fail to give a number. -/
def divide (a b : ℚ) : Option ℚ := if b = 0 then none else some (a / b)

structure ClosedPosition where
  closedVolume : SignedVolume
  /-- `none` once it is not a number. -/
  avgClosedPrice : Option ℚ
  /-- Close fee included. -/
  rpnl : ℚ
  entryAndCloseFee : ℚ
  deriving DecidableEq

/-- `ClosedPosition::operator+=`, in the order of its statements. -/
def ClosedPosition.addAssign (c other : ClosedPosition) : ClosedPosition :=
  let closedVolume := c.closedVolume + other.closedVolume
  let avgClosedPrice := do
    let currentAmount := closedVolume.value * (← c.avgClosedPrice)
    let otherAmount := other.closedVolume.value * (← other.avgClosedPrice)
    divide (currentAmount + otherAmount) (closedVolume.value + other.closedVolume.value)
  { closedVolume, avgClosedPrice
    rpnl := c.rpnl + other.rpnl
    entryAndCloseFee := c.entryAndCloseFee + other.entryAndCloseFee }

structure OpenedPosition where
  guid : Guid
  absoluteVolume : SignedVolume
  avgEntryPrice : ℚ
  /-- For the whole current opened volume. -/
  totalEntryFee : ℚ
  openTs : Milliseconds
  deriving DecidableEq

namespace OpenedPosition

/-- The fee extracted for a volume, and the position without it. -/
def extractFee (pos : OpenedPosition) (vol : UnsignedVolume) : ℚ × OpenedPosition :=
  let feePerOneVol := pos.totalEntryFee / pos.absoluteVolume.unsigned.value
  let extractedFee := vol.value * feePerOneVol
  (extractedFee, { pos with totalEntryFee := pos.totalEntryFee - extractedFee })

/-- The update run on leaving `on_trade`: dust counts as a closed position. -/
def addVolume (pos : OpenedPosition) (vol : SignedVolume) : OpenedPosition :=
  let absoluteVolume := pos.absoluteVolume + vol
  { pos with
    absoluteVolume := if |absoluteVolume.value| ≤ dustVolume then .zero else absoluteVolume }

/-- Whether a trade of this volume opens or increases the position. -/
def Grows (pos : OpenedPosition) (vol : SignedVolume) : Prop :=
  pos.absoluteVolume.IsZero ∨ vol.sign = pos.absoluteVolume.sign

instance (pos : OpenedPosition) (vol : SignedVolume) : Decidable (pos.Grows vol) :=
  inferInstanceAs (Decidable (_ ∨ _))

def onTrade (pos : OpenedPosition) (price : ℚ) (vol : SignedVolume) (fee : ℚ) :
    OpenedPosition × Option ClosedPosition :=
  if vol.IsZero then (pos, none)
  else if pos.Grows vol then
    let amountBeforeTrade := pos.avgEntryPrice * pos.absoluteVolume.value
    let tradeAmount := price * vol.value
    let pos' := { pos with
      avgEntryPrice :=
        (amountBeforeTrade + tradeAmount) / (pos.absoluteVolume.value + vol.value)
      totalEntryFee := pos.totalEntryFee + fee }
    (pos'.addVolume vol, none)
  else
    let (extractedFee, pos') := pos.extractFee vol.unsigned
    let entryAndCloseFee := fee + extractedFee
    let rawProfitOnClose := (price - pos.avgEntryPrice) * -vol.value
    (pos'.addVolume vol,
      some {
        closedVolume := vol
        avgClosedPrice := some price
        rpnl := rawProfitOnClose - entryAndCloseFee
        entryAndCloseFee })

/-- The constructor, given the guid that `xg::newGuid` returned. -/
def ofTrade (guid : Guid) (trade : Trade) : OpenedPosition :=
  let pos : OpenedPosition := {
    guid
    absoluteVolume := .zero
    avgEntryPrice := 0
    totalEntryFee := 0
    openTs := trade.ts }
  (pos.onTrade trade.price trade.signedVolume trade.fee).1

@[simp] theorem addVolume_totalEntryFee (pos : OpenedPosition) (vol : SignedVolume) :
    (pos.addVolume vol).totalEntryFee = pos.totalEntryFee := rfl

theorem addVolume_value {pos : OpenedPosition} {vol : SignedVolume}
    (h : pos.absoluteVolume.value + vol.value = 0 ∨
      dustVolume < |pos.absoluteVolume.value + vol.value|) :
    (pos.addVolume vol).absoluteVolume.value = pos.absoluteVolume.value + vol.value := by
  unfold addVolume
  rcases h with h | h
  · simp [h, dustVolume_pos.le]
  · simp [not_le.mpr h]

variable {pos : OpenedPosition} {price fee : ℚ} {vol : SignedVolume}

/-- A position that grows does not divide by zero. -/
theorem Grows.sum_ne_zero (h : pos.Grows vol) (hv : ¬ vol.IsZero) :
    pos.absoluteVolume.value + vol.value ≠ 0 := by
  by_cases hz : pos.absoluteVolume.IsZero
  · have : pos.absoluteVolume.value = 0 := hz
    rwa [this, zero_add]
  · have hs := (SignedVolume.sign_eq_iff hv hz).mp (h.resolve_left hz)
    intro hsum
    have : vol.value = -pos.absoluteVolume.value := by linarith
    rw [this] at hs
    nlinarith [mul_self_nonneg pos.absoluteVolume.value]

theorem not_isZero_of_not_grows (h : ¬ pos.Grows vol) : ¬ pos.absoluteVolume.IsZero :=
  fun hz => h (Or.inl hz)

theorem onTrade_of_grows (h : pos.Grows vol) (hv : ¬ vol.IsZero) :
    pos.onTrade price vol fee =
      ({ pos with
        avgEntryPrice := (pos.avgEntryPrice * pos.absoluteVolume.value + price * vol.value) /
          (pos.absoluteVolume.value + vol.value)
        totalEntryFee := pos.totalEntryFee + fee }.addVolume vol, none) := by
  rw [onTrade, if_neg hv, if_pos h]

theorem onTrade_of_not_grows (pos : OpenedPosition) (price fee : ℚ) (h : ¬ pos.Grows vol)
    (hv : ¬ vol.IsZero) :
    pos.onTrade price vol fee =
      ((pos.extractFee vol.unsigned).2.addVolume vol,
        some {
          closedVolume := vol
          avgClosedPrice := some price
          rpnl := (price - pos.avgEntryPrice) * -vol.value -
            (fee + (pos.extractFee vol.unsigned).1)
          entryAndCloseFee := fee + (pos.extractFee vol.unsigned).1 }) := by
  rw [onTrade, if_neg hv, if_neg h]

/-- The book of a position that has realised `pnl` and paid `paid` so far. -/
def book (pos : OpenedPosition) (pnl paid : ℚ) : Book ℚ where
  volume := pos.absoluteVolume.value
  avgPrice := pos.avgEntryPrice
  heldFee := pos.totalEntryFee
  realisedPnl := pnl
  paidFee := paid

variable {pos' : OpenedPosition} {c : ClosedPosition} {pnl paid : ℚ}

theorem onTrade_volume (price fee : ℚ) (hv : ¬ vol.IsZero)
    (hd : pos.absoluteVolume.value + vol.value = 0 ∨
      dustVolume < |pos.absoluteVolume.value + vol.value|) :
    (pos.onTrade price vol fee).1.absoluteVolume.value =
      pos.absoluteVolume.value + vol.value := by
  by_cases hg : pos.Grows vol
  · rw [onTrade_of_grows hg hv]
    exact addVolume_value hd
  · rw [onTrade_of_not_grows pos _ _ hg hv]
    have hold : (pos.extractFee vol.unsigned).2.absoluteVolume = pos.absoluteVolume := rfl
    exact (addVolume_value (hold ▸ hd)).trans (by rw [hold])

/-- A trade that opens or increases the position is entered in its book at cost. -/
theorem book_step_of_grows (price fee pnl paid : ℚ) (hg : pos.Grows vol) (hv : ¬ vol.IsZero)
    (hd : pos.absoluteVolume.value + vol.value = 0 ∨
      dustVolume < |pos.absoluteVolume.value + vol.value|) :
    Book.Step (⟨price, vol.value, fee⟩ : Fill ℚ) (pos.book pnl paid)
      ((pos.onTrade price vol fee).1.book pnl paid) := by
  have hbook : (pos.onTrade price vol fee).1.book pnl paid =
      { pos.book pnl paid with
        volume := pos.absoluteVolume.value + vol.value
        avgPrice := (pos.avgEntryPrice * pos.absoluteVolume.value + price * vol.value) /
          (pos.absoluteVolume.value + vol.value)
        heldFee := pos.totalEntryFee + fee } := by
    simp only [book, onTrade_volume price fee hv hd]
    rw [onTrade_of_grows hg hv]
    rfl
  rw [hbook]
  exact .add (div_mul_cancel₀ _ (hg.sum_ne_zero hv))

/-- A trade against the position hands out a closed piece, which the book realises. -/
theorem book_step_of_not_grows (price fee pnl paid : ℚ) (hg : ¬ pos.Grows vol) (hv : ¬ vol.IsZero)
    (hd : pos.absoluteVolume.value + vol.value = 0 ∨
      dustVolume < |pos.absoluteVolume.value + vol.value|) :
    ∃ c, (pos.onTrade price vol fee).2 = some c ∧
      Book.Step (⟨price, vol.value, fee⟩ : Fill ℚ) (pos.book pnl paid)
        ((pos.onTrade price vol fee).1.book (pnl + c.rpnl) (paid + c.entryAndCloseFee)) := by
  have hvol := onTrade_volume price fee hv hd
  rw [onTrade_of_not_grows pos _ _ hg hv] at hvol ⊢
  refine ⟨_, rfl, ?_⟩
  simp only [book]
  rw [hvol]
  exact .reduce (b := pos.book pnl paid) (pos.extractFee vol.unsigned).1

theorem onTrade_whole_fee (hg : ¬ pos.Grows vol) (hv : ¬ vol.IsZero)
    (hsum : pos.absoluteVolume.value + vol.value = 0) :
    (pos.onTrade price vol fee).1.totalEntryFee = 0 := by
  have hne : |pos.absoluteVolume.value| ≠ 0 := abs_ne_zero.mpr (not_isZero_of_not_grows hg)
  have habs : |vol.value| = |pos.absoluteVolume.value| := by
    rw [eq_neg_of_add_eq_zero_right hsum, abs_neg]
  rw [onTrade_of_not_grows pos _ _ hg hv]
  simp only [addVolume_totalEntryFee, extractFee, SignedVolume.value_unsigned, habs]
  field_simp
  ring

@[simp] theorem onTrade_guid : (pos.onTrade price vol fee).1.guid = pos.guid := by
  unfold onTrade
  split_ifs <;> rfl

end OpenedPosition

end CryptoTrading

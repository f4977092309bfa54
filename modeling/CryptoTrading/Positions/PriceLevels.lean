import CryptoTrading.Primitives.Position
import Mathlib.Tactic.Positivity

/-! # The price levels of a position

The prices at which a position has made as much as its fees, nothing, or as little as
its fees. They are quotients by the volume, which is zero for a position of dust.
-/

namespace CryptoTrading

/-- A double that may be the quotient of a division by zero. -/
inductive PriceLevel
  | number (value : ℚ)
  | infinity (side : Side)
  | nan
  deriving DecidableEq

namespace PriceLevel

/-- The quotient of two numbers, of which the second is not `-0.0`. -/
def ofDivision (a b : ℚ) : PriceLevel :=
  if b ≠ 0 then .number (a / b)
  else if 0 < a then .infinity .buy
  else if a < 0 then .infinity .sell
  else .nan

def add (q : ℚ) : PriceLevel → PriceLevel
  | number value => number (value + q)
  | infinity side => infinity side
  | nan => nan

/-- `q - level`. -/
def subFrom (q : ℚ) : PriceLevel → PriceLevel
  | number value => number (q - value)
  | infinity side => infinity side.opposite
  | nan => nan

/-- `q / level`, of a level that is not `-0.0`. -/
def divFrom (q : ℚ) : PriceLevel → PriceLevel
  | number value => ofDivision q value
  | infinity _ => number 0
  | nan => nan

/-- `(price - level) * sign < 0` for the sign of a side. -/
def IsShortOf (price : ℚ) (side : Side) : PriceLevel → Prop
  | number value => (price - value) * (side.sign : ℚ) < 0
  | infinity s => s = side
  | nan => False

instance (price : ℚ) (side : Side) : (l : PriceLevel) → Decidable (l.IsShortOf price side)
  | number value => inferInstanceAs (Decidable ((price - value) * (side.sign : ℚ) < 0))
  | infinity s => inferInstanceAs (Decidable (s = side))
  | nan => isFalse id

/-- `level > q` on the side of buyers, `level < q` on that of sellers. -/
def Exceeds (q : ℚ) (side : Side) : PriceLevel → Prop
  | number value => if side = .buy then q < value else value < q
  | infinity s => s = side
  | nan => False

/-- `level >= q` on the side of buyers, `level <= q` on that of sellers. -/
def Reaches (q : ℚ) (side : Side) : PriceLevel → Prop
  | number value => if side = .buy then q ≤ value else value ≤ q
  | infinity s => s = side
  | nan => False

instance (q : ℚ) (side : Side) : (l : PriceLevel) → Decidable (l.Exceeds q side)
  | number value => inferInstanceAs (Decidable (if side = .buy then q < value else value < q))
  | infinity s => inferInstanceAs (Decidable (s = side))
  | nan => isFalse id

instance (q : ℚ) (side : Side) : (l : PriceLevel) → Decidable (l.Reaches q side)
  | number value => inferInstanceAs (Decidable (if side = .buy then q ≤ value else value ≤ q))
  | infinity s => inferInstanceAs (Decidable (s = side))
  | nan => isFalse id

end PriceLevel

structure ProfitPriceLevels where
  feeProfitPrice : PriceLevel
  noLossPrice : PriceLevel
  feeLossPrice : PriceLevel
  deriving DecidableEq

def ProfitPriceLevels.zero : ProfitPriceLevels := ⟨.number 0, .number 0, .number 0⟩

namespace OpenedPosition

variable (pos : OpenedPosition)

def expectedTotalFee : ℚ := pos.totalEntryFee * 2

def priceForUpnl (requiredUpnl : ℚ) : PriceLevel :=
  (PriceLevel.ofDivision (requiredUpnl + pos.expectedTotalFee) pos.absoluteVolume.value).add
    pos.avgEntryPrice

def priceLevels : ProfitPriceLevels where
  feeProfitPrice := pos.priceForUpnl pos.expectedTotalFee
  noLossPrice := pos.priceForUpnl 0
  feeLossPrice := pos.priceForUpnl (-pos.expectedTotalFee)

variable {t : Trade}

theorem ofTrade_of_dust_lt (guid : Guid) (h : dustVolume < t.unsignedVolume.value) :
    ofTrade guid t =
      { guid, absoluteVolume := t.signedVolume, avgEntryPrice := t.price,
        totalEntryFee := t.fee, openTs := t.ts } := by
  have habs : |t.signedVolume.value| = t.unsignedVolume.value := by
    rw [← SignedVolume.value_unsigned, Trade.signedVolume, SignedVolume.unsigned_ofUnsigned]
  have hpos := dustVolume_pos.trans h
  have hne : t.signedVolume.value ≠ 0 := not_isZero_signedVolume hpos.ne'
  simp only [ofTrade]
  rw [onTrade_of_grows (.inl SignedVolume.isZero_zero) hne, addVolume]
  have hzero : SignedVolume.zero + t.signedVolume = t.signedVolume := by
    ext
    simp
  simp [hzero, habs, not_le.mpr h, hne]

theorem noLossPrice_ofTrade (guid : Guid) (h : dustVolume < t.unsignedVolume.value)
    (hfee : 0 ≤ t.fee) :
    ∃ n, (ofTrade guid t).priceLevels.noLossPrice = .number n ∧
      t.price * (t.side.sign : ℚ) ≤ n * (t.side.sign : ℚ) := by
  have hpos := dustVolume_pos.trans h
  have hne : t.signedVolume.value ≠ 0 := not_isZero_signedVolume hpos.ne'
  rw [ofTrade_of_dust_lt guid h]
  refine ⟨t.fee * 2 / t.signedVolume.value + t.price, ?_, ?_⟩
  · simp [priceLevels, priceForUpnl, expectedTotalFee, PriceLevel.ofDivision, PriceLevel.add, hne]
  · have hdelta : 0 ≤ t.fee * 2 / t.unsignedVolume.value := by positivity
    rw [t.value_signedVolume]
    cases t.side with
    | buy => simpa using hdelta
    | sell => simpa [div_neg] using hdelta

end OpenedPosition

end CryptoTrading

import CryptoTrading.Primitives.Volume

/-! # Trades and symbols

Identifiers are natural numbers: `0` is the default-constructed all-zero guid and
`xg::newGuid` counts upwards, so that no two generated guids are equal.
-/

namespace CryptoTrading

abbrev Guid := ℕ

/-- The value of a default-constructed guid. -/
def Guid.default : Guid := 0

/-- The first value `xg::newGuid` returns. -/
def Guid.first : Guid := 1

abbrev Milliseconds := ℤ

/-- `duration_cast` to seconds, which drops the fraction. -/
def Milliseconds.toSeconds (t : Milliseconds) : ℤ := Int.tdiv t 1000

/-- `1e-8`, below which a position counts as closed. -/
def dustVolume : ℚ := 1 / 10 ^ 8

theorem dustVolume_pos : 0 < dustVolume := by norm_num [dustVolume]

structure Trade where
  ts : Milliseconds
  symbolName : String
  orderGuid : Guid
  price : ℚ
  unsignedVolume : UnsignedVolume
  side : Side
  fee : ℚ
  deriving DecidableEq

def Trade.signedVolume (t : Trade) : SignedVolume := .ofUnsigned t.unsignedVolume t.side

theorem Trade.value_signedVolume (t : Trade) :
    t.signedVolume.value = t.unsignedVolume.value * (t.side.sign : ℚ) := rfl

theorem not_isZero_signedVolume {t : Trade} (h : t.unsignedVolume.value ≠ 0) :
    ¬ t.signedVolume.IsZero := by
  intro hz
  rcases mul_eq_zero.mp (t.value_signedVolume.symm.trans hz) with h' | h'
  · exact h h'
  · cases hs : t.side <;> simp [hs] at h'

def tradedVolume (ts : List Trade) : ℚ := (ts.map (·.unsignedVolume.value)).sum

@[simp] theorem tradedVolume_nil : tradedVolume [] = 0 := rfl

@[simp] theorem tradedVolume_cons {t : Trade} {ts : List Trade} :
    tradedVolume (t :: ts) = t.unsignedVolume.value + tradedVolume ts := by simp [tradedVolume]

@[simp] theorem tradedVolume_append {ts ts' : List Trade} :
    tradedVolume (ts ++ ts') = tradedVolume ts + tradedVolume ts' := by simp [tradedVolume]

theorem tradedVolume_nonneg (ts : List Trade) : 0 ≤ tradedVolume ts := by
  induction ts with
  | nil => exact le_rfl
  | cons t ts ih => exact add_nonneg t.unsignedVolume.nonneg ih

structure LotSizeFilter where
  minQty : ℚ
  maxQty : ℚ
  qtyStep : ℚ
  deriving DecidableEq

structure Symbol where
  symbolName : String
  lotSizeFilter : LotSizeFilter
  deriving DecidableEq

/-- `std::round`: to the nearest integer, halves away from zero. -/
def stdRound (q : ℚ) : ℤ := if q < 0 then -⌊-q + 1 / 2⌋ else ⌊q + 1 / 2⌋

/-- The volume in whole quantity steps, with the sign of the requested one. -/
def Symbol.getQtyFloored (s : Symbol) (currentVolume : SignedVolume) : Option SignedVolume :=
  if s.lotSizeFilter.qtyStep = 0 then none
  else
    let absSteps := |currentVolume.value| / s.lotSizeFilter.qtyStep
    let flooredVol := (stdRound absSteps : ℚ) * s.lotSizeFilter.qtyStep
    -- `std::copysign`: the magnitude of the first argument, the sign of the second
    some ⟨if currentVolume.value < 0 then -|flooredVol| else |flooredVol|⟩

end CryptoTrading

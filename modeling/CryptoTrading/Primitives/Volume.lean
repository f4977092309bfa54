import Mathlib.Data.Rat.Floor
import Mathlib.Algebra.Order.Ring.Abs
import Mathlib.Tactic.Linarith
import Mathlib.Tactic.Ring
import Mathlib.Tactic.NormNum

/-! # Sides and volumes

Doubles are read as exact rationals. An unsigned volume carries the proof that it
is not negative, which its only constructors establish.
-/

namespace CryptoTrading

inductive Side | buy | sell
  deriving DecidableEq, Repr

namespace Side

def opposite : Side → Side
  | buy => sell
  | sell => buy

def sign : Side → ℤ
  | buy => 1
  | sell => -1

@[simp] theorem sign_buy : sign buy = 1 := rfl
@[simp] theorem sign_sell : sign sell = -1 := rfl

@[simp] theorem opposite_opposite (s : Side) : s.opposite.opposite = s := by cases s <;> rfl

theorem sign_mul_self (s : Side) : s.sign * s.sign = 1 := by cases s <;> rfl

end Side

/-- `std::numeric_limits<double>::epsilon()`. -/
def epsilon : ℚ := 1 / 2 ^ 52

structure UnsignedVolume where
  value : ℚ
  nonneg : 0 ≤ value
  deriving DecidableEq

namespace UnsignedVolume

def zero : UnsignedVolume := ⟨0, le_rfl⟩

/-- `UnsignedVolume::from`, which refuses negative values. -/
def from? (value : ℚ) : Option UnsignedVolume :=
  if h : value < 0 then none else some ⟨value, not_lt.mp h⟩

def add (a b : UnsignedVolume) : UnsignedVolume := ⟨a.value + b.value, add_nonneg a.nonneg b.nonneg⟩

instance : Add UnsignedVolume := ⟨add⟩

/-- `operator<`: exact comparison. -/
def lt (a b : UnsignedVolume) : Bool := decide (a.value < b.value)

/-- `operator==`: equality up to the double's epsilon. -/
def eq (a b : UnsignedVolume) : Bool := decide (|a.value - b.value| ≤ epsilon)

def le (a b : UnsignedVolume) : Bool := a.eq b || a.lt b

/-- `operator-=`: the volume is left as it was when the other one is larger. -/
def subAssign (a b : UnsignedVolume) : UnsignedVolume :=
  if h : a.value < b.value then a else ⟨a.value - b.value, sub_nonneg.mpr (not_lt.mp h)⟩

@[ext] theorem ext {a b : UnsignedVolume} (h : a.value = b.value) : a = b := by
  cases a; cases b; cases h; rfl

@[simp] theorem value_zero : zero.value = 0 := rfl

@[simp] theorem value_add (a b : UnsignedVolume) : (a + b).value = a.value + b.value := rfl

@[simp] theorem zero_subAssign (b : UnsignedVolume) : zero.subAssign b = zero := by
  unfold subAssign
  split
  case isTrue => rfl
  case isFalse h =>
    ext
    have := b.nonneg
    simp only [value_zero] at h ⊢
    linarith

@[simp] theorem subAssign_self (a : UnsignedVolume) : a.subAssign a = zero := by
  ext
  simp [subAssign]

@[simp] theorem lt_self (a : UnsignedVolume) : a.lt a = false := by simp [lt]

@[simp] theorem le_self (a : UnsignedVolume) : a.le a = true := by
  simp [le, eq, epsilon]

end UnsignedVolume

structure SignedVolume where
  value : ℚ
  deriving DecidableEq

namespace SignedVolume

def zero : SignedVolume := ⟨0⟩

def ofUnsigned (volume : UnsignedVolume) (side : Side) : SignedVolume :=
  ⟨volume.value * (side.sign : ℚ)⟩

def asUnsignedAndSide (v : SignedVolume) : UnsignedVolume × Side :=
  if h : v.value < 0 then (⟨-v.value, neg_nonneg.mpr h.le⟩, .sell)
  else (⟨v.value, not_lt.mp h⟩, .buy)

def unsigned (v : SignedVolume) : UnsignedVolume := v.asUnsignedAndSide.1

def side (v : SignedVolume) : Side := v.asUnsignedAndSide.2

def sign (v : SignedVolume) : ℤ :=
  if v.value < 0 then -1 else if 0 < v.value then 1 else 0

instance : Add SignedVolume := ⟨fun a b => ⟨a.value + b.value⟩⟩

def IsZero (v : SignedVolume) : Prop := v.value = 0

instance (v : SignedVolume) : Decidable v.IsZero := inferInstanceAs (Decidable (v.value = 0))

theorem isZero_iff {v : SignedVolume} : v.IsZero ↔ v.value = 0 := Iff.rfl

@[ext] theorem ext {a b : SignedVolume} (h : a.value = b.value) : a = b := by
  cases a; cases b; cases h; rfl

@[simp] theorem value_zero : zero.value = 0 := rfl

@[simp] theorem value_add (a b : SignedVolume) : (a + b).value = a.value + b.value := rfl

@[simp] theorem isZero_zero : zero.IsZero := rfl

@[simp] theorem value_ofUnsigned (v : UnsignedVolume) (s : Side) :
    (ofUnsigned v s).value = v.value * (s.sign : ℚ) := rfl

@[simp] theorem value_unsigned (v : SignedVolume) : v.unsigned.value = |v.value| := by
  unfold unsigned asUnsignedAndSide
  split
  case isTrue h => exact (abs_of_neg h).symm
  case isFalse h => exact (abs_of_nonneg (not_lt.mp h)).symm

theorem side_of_neg {v : SignedVolume} (h : v.value < 0) : v.side = .sell := by
  simp [side, asUnsignedAndSide, h]

theorem side_of_nonneg {v : SignedVolume} (h : 0 ≤ v.value) : v.side = .buy := by
  simp [side, asUnsignedAndSide, not_lt.mpr h]

theorem ofUnsigned_unsigned_side (v : SignedVolume) : ofUnsigned v.unsigned v.side = v := by
  ext
  rcases lt_or_ge v.value 0 with h | h
  · simp [side_of_neg h, abs_of_neg h]
  · simp [side_of_nonneg h, abs_of_nonneg h]

@[simp] theorem unsigned_ofUnsigned (u : UnsignedVolume) (s : Side) :
    (ofUnsigned u s).unsigned = u := by
  ext
  cases s <;> simp [abs_of_nonneg u.nonneg]

theorem side_ofUnsigned {u : UnsignedVolume} (h : 0 < u.value) (s : Side) :
    (ofUnsigned u s).side = s := by
  cases s with
  | buy => exact side_of_nonneg (by simpa using h.le)
  | sell => exact side_of_neg (by simpa using h)

theorem value_ofUnsigned_opposite (v : SignedVolume) :
    (ofUnsigned v.unsigned v.side.opposite).value = -v.value := by
  rcases lt_or_ge v.value 0 with h | h
  · simp [side_of_neg h, abs_of_neg h, Side.opposite]
  · simp [side_of_nonneg h, abs_of_nonneg h, Side.opposite]

theorem sign_eq_iff {a b : SignedVolume} (ha : ¬ a.IsZero) (hb : ¬ b.IsZero) :
    a.sign = b.sign ↔ 0 < a.value * b.value := by
  unfold IsZero at ha hb
  unfold sign
  rcases lt_or_gt_of_ne ha with h | h <;> rcases lt_or_gt_of_ne hb with h' | h'
  · simp [h, h', mul_pos_of_neg_of_neg h h']
  · simp [h, h', h.le, h'.not_gt]
  · simp [h, h', h'.le, h.not_gt]
  · simp [h, h', h.not_gt, h'.not_gt]

/-- Both volumes are on one side, and not zero. -/
def SameSide (v w : SignedVolume) : Prop := 0 < v.value * w.value

instance (v w : SignedVolume) : Decidable (v.SameSide w) :=
  inferInstanceAs (Decidable (0 < v.value * w.value))

theorem SameSide.side_eq {v w : SignedVolume} (h : v.SameSide w) :
    w.side = v.side := by
  rcases pos_and_pos_or_neg_and_neg_of_mul_pos h with ⟨hv, hw⟩ | ⟨hv, hw⟩
  · rw [side_of_nonneg hv.le, side_of_nonneg hw.le]
  · rw [side_of_neg hv, side_of_neg hw]

theorem SameSide.not_isZero {v w : SignedVolume} (h : v.SameSide w) : ¬ w.IsZero := by
  intro hw
  rw [SameSide, isZero_iff.mp hw, mul_zero] at h
  exact lt_irrefl _ h

end SignedVolume

end CryptoTrading

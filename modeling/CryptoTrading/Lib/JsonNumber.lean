import Mathlib.Algebra.Order.Floor.Ring
import Mathlib.Data.Rat.Floor

/-! # Numbers of JSON

A value is read into a machine type, where integers wrap around, and written from it. What was
read before is read again from what is written.
-/

namespace Json

inductive Number
  | integer (value : ℤ)
  | float (value : ℚ)
  deriving DecidableEq

/-- Towards zero. -/
def truncate (q : ℚ) : ℤ := if 0 ≤ q then ⌊q⌋ else ⌈q⌉

namespace Number

/-- Into a signed integer of 32 bits. Nothing is said of a float that does not fit. -/
def getInt : Number → Option ℤ
  | integer value => some (value.bmod (2 ^ 32))
  | float value =>
    if -2 ^ 31 ≤ truncate value ∧ truncate value < 2 ^ 31 then some (truncate value) else none

/-- Into an unsigned integer of 32 bits. -/
def getUnsigned : Number → Option UInt32
  | integer value => some (.ofInt value)
  | float value =>
    if 0 ≤ truncate value ∧ truncate value < 2 ^ 32 then some (.ofInt (truncate value)) else none

def getDouble : Number → ℚ
  | integer value => value
  | float value => value

variable {v : Number} {z : ℤ}

theorem getInt_range (h : v.getInt = some z) : -2 ^ 31 ≤ z ∧ z < 2 ^ 31 := by
  cases v with
  | integer value =>
    obtain rfl : value.bmod (2 ^ 32) = z := Option.some.inj h
    exact ⟨Int.le_bmod (by decide), Int.bmod_lt (by decide)⟩
  | float value =>
    rw [getInt] at h
    split_ifs at h with hrange
    obtain rfl := Option.some.inj h
    exact hrange

theorem getInt_integer (hlo : -2 ^ 31 ≤ z) (hhi : z < 2 ^ 31) : getInt (integer z) = some z :=
  congrArg some (Int.bmod_eq_of_le_mul_two (by omega) (by omega))

/-- A wrap to 64 bits before the one to 32 bits makes no difference. -/
theorem getInt_emod (hlo : -2 ^ 31 ≤ z) (hhi : z < 2 ^ 31) :
    getInt (integer (z % 2 ^ 64)) = some z := by
  have hmod : z % 2 ^ 64 % (2 ^ 32 : ℕ) = z % (2 ^ 32 : ℕ) := by omega
  rw [← getInt_integer hlo hhi, getInt, getInt, ← Int.emod_bmod (z % 2 ^ 64), hmod, Int.emod_bmod]

end Number

/-- What is read is read again from what is written. -/
structure Codec (α : Type*) where
  get : Number → Option α
  put : α → Number
  get_put : ∀ v x, get v = some x → get (put x) = some x

namespace Codec

variable {α : Type*}

/-- A missing value is the default. -/
def load (c : Codec α) (default : α) (v : Option Number) : Option α := v.elim (some default) c.get

theorem get_put_of_load {c : Codec α} {default x : α} {v : Option Number}
    (hdefault : c.get (c.put default) = some default) (h : c.load default v = some x) :
    c.get (c.put x) = some x := by
  cases v with
  | none =>
    obtain rfl := Option.some.inj h
    exact hdefault
  | some v => exact c.get_put v x h

/-- An integer that a wider unsigned type keeps. -/
def size : Codec ℕ where
  get v := v.getInt.map fun z => (z % 2 ^ 64).toNat
  put n := .integer n
  get_put v x h := by
    obtain ⟨z, hz, rfl⟩ := Option.map_eq_some_iff.mp h
    obtain ⟨hlo, hhi⟩ := Number.getInt_range hz
    rw [Int.toNat_of_nonneg (Int.emod_nonneg z (by decide)), Number.getInt_emod hlo hhi]
    rfl

def unsigned : Codec UInt32 where
  get v := v.getUnsigned
  put n := .integer n.toNat
  get_put _ n _ := by
    have hmod : ((n.toNat : ℤ) % 2 ^ 32).toNat = n.toNat := by
      have hlt := n.toNat_lt
      omega
    rw [Number.getUnsigned, UInt32.ofInt, hmod, UInt32.ofNat_toNat]

def double : Codec ℚ where
  get v := some v.getDouble
  put q := .float q
  get_put _ _ _ := rfl

def thousands : Codec ℤ where
  get v := v.getInt.map (· * 1000)
  put n := .integer (n.tdiv 1000)
  get_put v x h := by
    obtain ⟨z, hz, rfl⟩ := Option.map_eq_some_iff.mp h
    obtain ⟨hlo, hhi⟩ := Number.getInt_range hz
    rw [Int.mul_tdiv_cancel z (by decide), Number.getInt_integer hlo hhi]
    rfl

end Codec

end Json

import Mathlib.Algebra.BigOperators.Group.List.Basic
import Mathlib.Tactic.LinearCombination
import Mathlib.Tactic.Ring

/-! # Cost-basis books

A book splits the fills of a position into a realised part and a part still held
at an average price. Adding to a position keeps its cost and reducing it realises
the difference to the average price; whatever the fee taken over at a reduction,
the two parts always add up to the cash flow and the fees of all fills.
-/

namespace CostBasis

variable {K : Type*} [CommRing K]

/-- A signed quantity exchanged at a price, with the fee paid for it. -/
structure Fill (K : Type*) where
  price : K
  volume : K
  fee : K

/-- Money received for the fills: what was sold less what was bought. -/
def cash (fs : List (Fill K)) : K := -(fs.map fun f => f.price * f.volume).sum

def position (fs : List (Fill K)) : K := (fs.map Fill.volume).sum

def fees (fs : List (Fill K)) : K := (fs.map Fill.fee).sum

structure Book (K : Type*) where
  volume : K
  avgPrice : K
  heldFee : K
  realisedPnl : K
  paidFee : K

def Book.empty : Book K := ⟨0, 0, 0, 0, 0⟩

/-- What one fill may do to a book: raise the held part at its cost, or realise some of it. -/
inductive Book.Step (f : Fill K) : Book K → Book K → Prop
  | add {b : Book K} {avgPrice : K}
      (hcost : avgPrice * (b.volume + f.volume) = b.avgPrice * b.volume + f.price * f.volume) :
      Step f b { b with volume := b.volume + f.volume, avgPrice, heldFee := b.heldFee + f.fee }
  | reduce {b : Book K} (taken : K) :
      Step f b { b with
        volume := b.volume + f.volume
        heldFee := b.heldFee - taken
        realisedPnl := b.realisedPnl +
          ((f.price - b.avgPrice) * -f.volume - (f.fee + taken))
        paidFee := b.paidFee + (f.fee + taken) }

/-- The book accounts for all cash and all fees of the fills. -/
structure Book.Balanced (fs : List (Fill K)) (b : Book K) : Prop where
  volume : b.volume = position fs
  cash : b.realisedPnl + b.paidFee = CostBasis.cash fs + b.avgPrice * b.volume
  fees : b.paidFee + b.heldFee = CostBasis.fees fs

variable {fs : List (Fill K)} {f : Fill K} {b b' : Book K}

@[simp] theorem cash_concat : cash (fs ++ [f]) = cash fs - f.price * f.volume := by
  simp only [cash, List.map_append, List.map_cons, List.map_nil, List.sum_append,
    List.sum_cons, List.sum_nil]
  ring

@[simp] theorem position_concat : position (fs ++ [f]) = position fs + f.volume := by
  simp [position]

@[simp] theorem fees_concat : fees (fs ++ [f]) = fees fs + f.fee := by
  simp [fees]

theorem balanced_empty : Book.Balanced [] (.empty : Book K) :=
  ⟨rfl, by simp [Book.empty, cash], by simp [Book.empty, fees]⟩

/-- A fill keeps the book balanced, whichever of the two ways it is entered. -/
theorem Book.Balanced.step (h : b.Balanced fs) (hs : Book.Step f b b') :
    b'.Balanced (fs ++ [f]) := by
  obtain ⟨hv, hc, hf⟩ := h
  cases hs with
  | add hcost =>
    refine ⟨by simp [hv], ?_, ?_⟩
    · simp only [cash_concat]
      linear_combination hc - hcost
    · simp only [fees_concat]
      linear_combination hf
  | reduce taken =>
    refine ⟨by simp [hv], ?_, ?_⟩
    · simp only [cash_concat]
      linear_combination hc
    · simp only [fees_concat]
      linear_combination hf

theorem Book.Balanced.paidFee_eq (h : b.Balanced fs) :
    b.paidFee = CostBasis.fees fs - b.heldFee := by
  linear_combination h.fees

/-- The realised part is the cash flow plus the value held at cost, less the fees not held back. -/
theorem Book.Balanced.realisedPnl_eq (h : b.Balanced fs) :
    b.realisedPnl =
      CostBasis.cash fs + b.avgPrice * b.volume - (CostBasis.fees fs - b.heldFee) := by
  linear_combination h.cash - h.fees

end CostBasis

import Mathlib.Algebra.Order.Module.Defs
import Mathlib.Tactic.Abel

/-! # The integral of a step function

The function has the value of each of its points from the time of the point until that of
the next one, and the value of the last point until the final time.
-/

namespace StepIntegral

variable {τ α : Type*} {ps : List (τ × α)} {p : τ × α} {stop : τ} {c : α}

/-- The time of the first point, or the final time. -/
def start (ps : List (τ × α)) (stop : τ) : τ := ps.head?.elim stop Prod.fst

@[simp] theorem start_nil : start ([] : List (τ × α)) stop = stop := rfl

@[simp] theorem start_cons : start (p :: ps) stop = p.1 := rfl

theorem start_concat : start (ps ++ [p]) stop = start ps p.1 := by
  cases ps <;> rfl

/-- No point is later than the next one or the final time. -/
def InOrder [LE τ] : List (τ × α) → τ → Prop
  | [], _ => True
  | p :: ps, stop => p.1 ≤ start ps stop ∧ InOrder ps stop

theorem inOrder_concat [LE τ] : InOrder (ps ++ [p]) stop ↔ InOrder ps p.1 ∧ p.1 ≤ stop := by
  induction ps with
  | nil => exact and_comm
  | cons q ps ih => rw [List.cons_append, InOrder, InOrder, start_concat, ih, and_assoc]

variable [Ring τ] [AddCommGroup α] [Module τ α]

def integral : List (τ × α) → τ → α
  | [], _ => 0
  | p :: ps, stop => (start ps stop - p.1) • p.2 + integral ps stop

theorem integral_cons :
    integral (p :: ps) stop = (start ps stop - p.1) • p.2 + integral ps stop := rfl

theorem smul_start_cons :
    (stop - start (p :: ps) stop) • c =
      (start ps stop - p.1) • c + (stop - start ps stop) • c := by
  rw [← add_smul, start_cons]
  congr 1
  abel

variable [PartialOrder τ] [IsOrderedAddMonoid τ] [PartialOrder α] [IsOrderedAddMonoid α]
  [PosSMulMono τ α]

theorem le_integral (h : InOrder ps stop) (hc : ∀ p ∈ ps, c ≤ p.2) :
    (stop - start ps stop) • c ≤ integral ps stop := by
  induction ps with
  | nil => rw [start_nil, sub_self, zero_smul, integral]
  | cons p ps ih =>
    rw [smul_start_cons, integral_cons]
    have hp : c ≤ p.2 := hc p List.mem_cons_self
    have hps := ih h.2 fun q hq => hc q (List.mem_cons_of_mem p hq)
    exact add_le_add (smul_le_smul_of_nonneg_left hp (sub_nonneg.mpr h.1)) hps

theorem integral_le (h : InOrder ps stop) (hc : ∀ p ∈ ps, p.2 ≤ c) :
    integral ps stop ≤ (stop - start ps stop) • c := by
  induction ps with
  | nil => rw [start_nil, sub_self, zero_smul, integral]
  | cons p ps ih =>
    rw [smul_start_cons, integral_cons]
    have hp : p.2 ≤ c := hc p List.mem_cons_self
    have hps := ih h.2 fun q hq => hc q (List.mem_cons_of_mem p hq)
    exact add_le_add (smul_le_smul_of_nonneg_left hp (sub_nonneg.mpr h.1)) hps

end StepIntegral

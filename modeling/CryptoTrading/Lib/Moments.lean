import Mathlib.Algebra.BigOperators.Group.List.Basic
import Mathlib.Algebra.BigOperators.Ring.List
import Mathlib.Algebra.Order.BigOperators.Group.List
import Mathlib.Algebra.Order.Field.Basic
import Mathlib.Tactic.FieldSimp
import Mathlib.Tactic.Linarith
import Mathlib.Tactic.Ring

/-! # Mean and variance of a list

The mean of the squared distances from the mean is the mean of the squares without the square of
the mean. A weighted mean does not see a common factor of the weights, so these may be negative
as long as all of them are.
-/

namespace Moments

variable {α : Type*} [Field α] {xs : List α}

def mean (xs : List α) : α := xs.sum / xs.length

def spread (c : α) (xs : List α) : α := (xs.map fun x => (x - c) ^ 2).sum

def variance (xs : List α) : α := spread (mean xs) xs / xs.length

theorem spread_eq (c : α) (xs : List α) :
    spread c xs = (xs.map (· ^ 2)).sum - 2 * c * xs.sum + xs.length * c ^ 2 := by
  induction xs with
  | nil => simp [spread]
  | cons x xs ih =>
    have hcons : spread c (x :: xs) = (x - c) ^ 2 + spread c xs := List.sum_cons
    rw [hcons, ih, List.map_cons, List.sum_cons, List.sum_cons, List.length_cons]
    push_cast
    ring

section Ordered

variable [LinearOrder α] [IsStrictOrderedRing α]

theorem spread_nonneg (c : α) (xs : List α) : 0 ≤ spread c xs :=
  List.sum_nonneg (by simpa using fun x _ => sq_nonneg (x - c))

theorem variance_nonneg (xs : List α) : 0 ≤ variance xs :=
  div_nonneg (spread_nonneg _ _) (Nat.cast_nonneg _)

theorem mean_nonneg (h : ∀ x ∈ xs, 0 ≤ x) : 0 ≤ mean xs :=
  div_nonneg (List.sum_nonneg h) (Nat.cast_nonneg _)

theorem mean_eq_zero_iff (h : ∀ x ∈ xs, 0 ≤ x) : mean xs = 0 ↔ ∀ x ∈ xs, x = 0 := by
  constructor
  · intro hmean x hx
    rcases div_eq_zero_iff.mp hmean with hsum | hlength
    · exact List.all_zero_of_le_zero_le_of_sum_eq_zero h hsum hx
    · rw [Nat.cast_eq_zero, List.length_eq_zero_iff] at hlength
      exact absurd hx (hlength ▸ List.not_mem_nil)
  · intro hzero
    rw [mean, List.sum_eq_zero hzero, zero_div]

theorem mean_map_le_mean_map_iff {β : Type*} {ys : List β} {f g : β → α} (h : ys ≠ []) :
    mean (ys.map f) ≤ mean (ys.map g) ↔ (ys.map f).sum ≤ (ys.map g).sum := by
  have hpos : (0 : α) < ys.length := Nat.cast_pos.mpr (List.length_pos_iff.mpr h)
  rw [mean, mean, List.length_map, List.length_map, div_le_div_iff_of_pos_right hpos]

theorem mean_mem_Icc {lo hi : α} (hne : xs ≠ []) (h : ∀ x ∈ xs, x ∈ Set.Icc lo hi) :
    mean xs ∈ Set.Icc lo hi := by
  have hpos : (0 : α) < xs.length := Nat.cast_pos.mpr (List.length_pos_iff.mpr hne)
  have hlo := List.card_nsmul_le_sum xs lo fun x hx => (h x hx).1
  have hhi := List.sum_le_card_nsmul xs hi fun x hx => (h x hx).2
  rw [nsmul_eq_mul] at hlo hhi
  exact ⟨(le_div_iff₀' hpos).mpr hlo, (div_le_iff₀' hpos).mpr hhi⟩

end Ordered

variable [CharZero α]

theorem cast_length_ne_zero {β : Type*} {ys : List β} (h : ys ≠ []) : (ys.length : α) ≠ 0 :=
  Nat.cast_ne_zero.mpr (List.length_pos_iff.mpr h).ne'

theorem length_mul_mean (h : xs ≠ []) : xs.length * mean xs = xs.sum :=
  mul_div_cancel₀ _ (cast_length_ne_zero h)

theorem mean_of_forall_eq {c : α} (h : xs ≠ []) (hxs : ∀ x ∈ xs, x = c) : mean xs = c := by
  have hsum : xs.sum = xs.length * c := by
    rw [List.sum_eq_card_nsmul xs c hxs, nsmul_eq_mul]
  rw [mean, hsum, mul_div_cancel_left₀ _ (cast_length_ne_zero h)]

theorem variance_eq (h : xs ≠ []) :
    variance xs = (xs.map (· ^ 2)).sum / xs.length - mean xs * mean xs := by
  have hne := cast_length_ne_zero (α := α) h
  rw [variance, spread_eq, ← length_mul_mean h]
  field_simp
  ring

section Weighted

variable {α β : Type*} [Field α] {w x : β → α} {l l' : List β} {c : α}

def weightedMean (w x : β → α) (l : List β) : α :=
  (l.map fun b => w b * x b).sum / (l.map w).sum

theorem weightedMean_perm (h : l'.Perm l) : weightedMean w x l' = weightedMean w x l := by
  rw [weightedMean, weightedMean, (h.map _).sum_eq, (h.map w).sum_eq]

theorem weightedMean_of_forall_eq (hsum : (l.map w).sum ≠ 0) (h : ∀ b ∈ l, x b = c) :
    weightedMean w x l = c := by
  have hmap : (l.map fun b => w b * x b) = l.map fun b => w b * c :=
    List.map_congr_left fun b hb => by rw [h b hb]
  rw [weightedMean, hmap, List.sum_map_mul_right, mul_div_cancel_left₀ _ hsum]

theorem weightedMean_concat (b : β) (hsum : (l.map w).sum ≠ 0) :
    weightedMean w x (l ++ [b]) =
      ((l.map w).sum * weightedMean w x l + w b * x b) / ((l.map w).sum + w b) := by
  rw [weightedMean, weightedMean, mul_div_cancel₀ _ hsum]
  simp only [List.map_append, List.map_cons, List.map_nil, List.sum_append, List.sum_singleton]

variable [LinearOrder α] [IsStrictOrderedRing α] {s : α}

theorem sum_weights_pos (hne : l ≠ []) (h : ∀ b ∈ l, 0 < w b * s) : 0 < (l.map w).sum * s := by
  rw [← List.sum_map_mul_right]
  refine List.sum_pos _ ?_ (by simpa using hne)
  simpa using h

theorem sum_weights_ne_zero (hne : l ≠ []) (h : ∀ b ∈ l, 0 < w b * s) : (l.map w).sum ≠ 0 :=
  left_ne_zero_of_mul (sum_weights_pos hne h).ne'

theorem le_weightedMean (hne : l ≠ []) (h : ∀ b ∈ l, 0 < w b * s) (hc : ∀ b ∈ l, c ≤ x b) :
    c ≤ weightedMean w x l := by
  have hpos := sum_weights_pos hne h
  have hs : s ≠ 0 := right_ne_zero_of_mul hpos.ne'
  have hle : (l.map fun b => c * (w b * s)).sum ≤ (l.map fun b => w b * x b * s).sum := by
    refine List.sum_le_sum fun b hb => ?_
    have := mul_le_mul_of_nonneg_right (hc b hb) (h b hb).le
    linarith
  rw [List.sum_map_mul_left, List.sum_map_mul_right, List.sum_map_mul_right] at hle
  rwa [weightedMean, ← mul_div_mul_right _ _ hs, le_div_iff₀ hpos]

end Weighted

end Moments

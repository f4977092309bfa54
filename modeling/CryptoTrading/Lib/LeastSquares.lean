import CryptoTrading.Lib.Moments
import Mathlib.Tactic.LinearCombination

/-! # The least squares line

A line through points is the best one when the errors, and the errors weighted by the abscissas,
sum to zero. Any other line has greater errors unless all points have one abscissa.
-/

namespace LeastSquares

open Moments

variable {ι α : Type*} [Field α] {x y : ι → α} {k c : α} {ps : List ι} {p : ι}

def error (x y : ι → α) (k c : α) (ps : List ι) : α :=
  (ps.map fun p => (y p - (k * x p + c)) ^ 2).sum

structure Normal (x y : ι → α) (k c : α) (ps : List ι) : Prop where
  errors : (ps.map fun p => y p - (k * x p + c)).sum = 0
  moments : (ps.map fun p => x p * (y p - (k * x p + c))).sum = 0

def denominator (x : ι → α) (ps : List ι) : α :=
  ps.length * (ps.map fun p => x p * x p).sum - (ps.map x).sum * (ps.map x).sum

/-- The slope and the intercept that solve the normal equations. -/
def slope (x y : ι → α) (ps : List ι) : α :=
  (ps.length * (ps.map fun p => x p * y p).sum - (ps.map x).sum * (ps.map y).sum) /
    denominator x ps

def intercept (x y : ι → α) (ps : List ι) : α :=
  ((ps.map y).sum - slope x y ps * (ps.map x).sum) / ps.length

theorem error_cons : error x y k c (p :: ps) = (y p - (k * x p + c)) ^ 2 + error x y k c ps :=
  List.sum_cons

theorem sum_errors_eq : (ps.map fun p => y p - (k * x p + c)).sum =
    (ps.map y).sum - k * (ps.map x).sum - ps.length * c := by
  induction ps with
  | nil => simp
  | cons p ps ih =>
    simp only [List.map_cons, List.sum_cons, List.length_cons, ih]
    push_cast
    ring

theorem sum_moments_eq : (ps.map fun p => x p * (y p - (k * x p + c))).sum =
    (ps.map fun p => x p * y p).sum - k * (ps.map fun p => x p * x p).sum -
      c * (ps.map x).sum := by
  induction ps with
  | nil => simp
  | cons p ps ih =>
    simp only [List.map_cons, List.sum_cons, ih]
    ring

/-- Another line has the errors of this one, the distances of the lines and a mixed term. -/
theorem error_eq_add (k' c' : α) : error x y k' c' ps =
    error x y k c ps + (ps.map fun p => ((k - k') * x p + (c - c')) ^ 2).sum +
      2 * ((k - k') * (ps.map fun p => x p * (y p - (k * x p + c))).sum +
        (c - c') * (ps.map fun p => y p - (k * x p + c)).sum) := by
  induction ps with
  | nil => simp [error]
  | cons p ps ih =>
    simp only [error_cons, ih, List.map_cons, List.sum_cons]
    ring

theorem Normal.error_eq (h : Normal x y k c ps) (k' c' : α) :
    error x y k' c' ps =
      error x y k c ps + (ps.map fun p => ((k - k') * x p + (c - c')) ^ 2).sum := by
  rw [error_eq_add, h.errors, h.moments, mul_zero, mul_zero, add_zero, mul_zero, add_zero]

theorem normal_of_line (h : ∀ p ∈ ps, y p = k * x p + c) : Normal x y k c ps := by
  have hzero : ∀ p ∈ ps, y p - (k * x p + c) = 0 := fun p hp => sub_eq_zero.mpr (h p hp)
  constructor
  · exact List.sum_eq_zero (List.forall_mem_map.mpr hzero)
  · refine List.sum_eq_zero (List.forall_mem_map.mpr fun p hp => ?_)
    rw [hzero p hp, mul_zero]

section Ordered

variable [LinearOrder α] [IsStrictOrderedRing α]

theorem sum_sq_nonneg (f : ι → α) (ps : List ι) : 0 ≤ (ps.map fun p => f p ^ 2).sum :=
  List.sum_nonneg (List.forall_mem_map.mpr fun p _ => sq_nonneg (f p))

theorem sum_sq_eq_zero_iff {f : ι → α} :
    (ps.map fun p => f p ^ 2).sum = 0 ↔ ∀ p ∈ ps, f p = 0 := by
  constructor
  · intro hsum p hp
    have hnonneg : ∀ q ∈ ps.map fun p => f p ^ 2, 0 ≤ q :=
      List.forall_mem_map.mpr fun p _ => sq_nonneg (f p)
    exact pow_eq_zero_iff two_ne_zero |>.mp
      (List.all_zero_of_le_zero_le_of_sum_eq_zero hnonneg hsum (List.mem_map_of_mem hp))
  · intro hzero
    refine List.sum_eq_zero (List.forall_mem_map.mpr fun p hp => ?_)
    rw [hzero p hp, zero_pow two_ne_zero]

theorem error_eq_zero_iff : error x y k c ps = 0 ↔ ∀ p ∈ ps, y p = k * x p + c :=
  sum_sq_eq_zero_iff.trans (forall₂_congr fun _ _ => sub_eq_zero)

theorem Normal.error_le (h : Normal x y k c ps) (k' c' : α) :
    error x y k c ps ≤ error x y k' c' ps := by
  rw [h.error_eq k' c']
  exact le_add_of_nonneg_right (sum_sq_nonneg _ _)

theorem Normal.eq_of_error_le (h : Normal x y k c ps) (hx : ∃ p ∈ ps, ∃ q ∈ ps, x p ≠ x q)
    {k' c' : α} (hle : error x y k' c' ps ≤ error x y k c ps) : k' = k ∧ c' = c := by
  rw [h.error_eq k' c', add_le_iff_nonpos_right] at hle
  have hzero := sum_sq_eq_zero_iff.mp (hle.antisymm (sum_sq_nonneg _ _))
  obtain ⟨p, hp, q, hq, hne⟩ := hx
  have hk : (k - k') * (x p - x q) = 0 := by linear_combination hzero p hp - hzero q hq
  have hk' : k - k' = 0 := (mul_eq_zero.mp hk).resolve_right (sub_ne_zero.mpr hne)
  have hc' : c - c' = 0 := by simpa [hk'] using hzero p hp
  exact ⟨(sub_eq_zero.mp hk').symm, (sub_eq_zero.mp hc').symm⟩

theorem denominator_eq (hne : ps ≠ []) :
    denominator x ps = ps.length * spread (mean (ps.map x)) (ps.map x) := by
  have hne' : ps.map x ≠ [] := by simpa using hne
  have hmean := length_mul_mean hne'
  have hsq : ((ps.map x).map (· ^ 2)).sum = (ps.map fun p => x p * x p).sum := by
    rw [List.map_map]
    exact congrArg List.sum (List.map_congr_left fun p _ => sq (x p))
  rw [List.length_map] at hmean
  rw [denominator, spread_eq, hsq, ← hmean, List.length_map]
  ring

theorem denominator_ne_zero_iff : denominator x ps ≠ 0 ↔ ∃ p ∈ ps, ∃ q ∈ ps, x p ≠ x q := by
  rcases eq_or_ne ps [] with rfl | hne
  · simp [denominator]
  have hne' : ps.map x ≠ [] := by simpa using hne
  have hlength := cast_length_ne_zero (α := α) hne
  rw [denominator_eq hne, mul_ne_zero_iff, and_iff_right hlength, Ne, spread, sum_sq_eq_zero_iff]
  simp only [List.forall_mem_map, sub_eq_zero]
  push Not
  constructor
  · rintro ⟨p, hp, hmean⟩
    by_contra! hall
    exact hmean (mean_of_forall_eq hne' (List.forall_mem_map.mpr fun q hq => hall q hq p hp)).symm
  · rintro ⟨p, hp, q, hq, hpq⟩
    by_contra! hall
    exact hpq ((hall p hp).trans (hall q hq).symm)

end Ordered

variable [CharZero α]

theorem normal_slope_intercept (hne : ps ≠ []) (hdenominator : denominator x ps ≠ 0) :
    Normal x y (slope x y ps) (intercept x y ps) ps := by
  have hlength := cast_length_ne_zero (α := α) hne
  have hintercept : ps.length * intercept x y ps =
      (ps.map y).sum - slope x y ps * (ps.map x).sum := mul_div_cancel₀ _ hlength
  have hslope : slope x y ps * denominator x ps =
      ps.length * (ps.map fun p => x p * y p).sum - (ps.map x).sum * (ps.map y).sum :=
    div_mul_cancel₀ _ hdenominator
  rw [denominator] at hslope
  constructor
  · rw [sum_errors_eq]
    linear_combination -hintercept
  · rw [sum_moments_eq]
    refine (mul_eq_zero.mp ?_).resolve_left hlength
    linear_combination -hslope - (ps.map x).sum * hintercept

end LeastSquares

import CryptoTrading.Lib.LeastSquares
import CryptoTrading.Primitives.Position
import CryptoTrading.Primitives.SquareRoot
import CryptoTrading.Primitives.Trade

/-! # Ordinary least squares

The trend of a deposit is the least squares line through its points. The number of points is
kept in 32 bits, so of a longer list only the first points are fitted.
-/

namespace CryptoTrading

open LeastSquares SquareRoot

namespace OLS

structure Point where
  x : ℚ
  y : ℚ
  deriving DecidableEq

structure SimpleRegressionFunction where
  k : ℚ := 0
  c : ℚ := 0
  deriving DecidableEq

def SimpleRegressionFunction.apply (f : SimpleRegressionFunction) (x : ℚ) : ℚ := f.k * x + f.c

/-- A size converted to `unsigned`. -/
def unsignedSize (data : List Point) : ℕ := data.length % 2 ^ 32

/-- `none` where the slope is not a number. -/
def solve (d : List Point) : Option SimpleRegressionFunction :=
  let n := unsignedSize d
  if n < 2 then some {}
  else
    let d := d.take n
    let sumX := (d.map Point.x).sum
    let sumY := (d.map Point.y).sum
    let sumXy := (d.map fun p => p.x * p.y).sum
    let sumXx := (d.map fun p => p.x * p.x).sum
    (divide (n * sumXy - sumX * sumY) (n * sumXx - sumX * sumX)).map fun k =>
      { k, c := (sumY - k * sumX) / n }

variable (f : SimpleRegressionFunction)

def squaredErrors (data : List Point) : ℚ := (data.map fun p => (p.y - f.apply p.x) ^ 2).sum

theorem squaredErrors_nonneg (data : List Point) : 0 ≤ squaredErrors f data :=
  sum_sq_nonneg _ _

/-- `none` where it is infinite or not a number. -/
def deviation (data : List Point) : Option SquareRoot :=
  if data.length < 2 then some (.ofClamped 0)
  else if unsignedSize data = 0 then none
  else some ⟨squaredErrors f data / unsignedSize data,
    div_nonneg (squaredErrors_nonneg f data) (Nat.cast_nonneg _)⟩

def millisecondsInDay : ℚ := 24 * 60 * 60 * 1000

def daysFromBegin (firstTs ts : Milliseconds) : ℚ := (ts - firstTs : ℤ) / millisecondsInDay

/-- The prices are not empty. -/
def fromPrices (prices : List (Milliseconds × ℚ)) : List Point :=
  match prices with
  | [] => []
  | first :: _ => prices.map fun p => ⟨daysFromBegin first.1 p.1, p.2⟩

structure PriceRegressionFunction where
  k : ℚ
  c : ℚ
  deriving DecidableEq

namespace PriceRegressionFunction

def ofLine (f : SimpleRegressionFunction) (zeroTs : Milliseconds) : PriceRegressionFunction where
  k := f.k / millisecondsInDay
  c := f.c - f.k * zeroTs / millisecondsInDay

def apply (reg : PriceRegressionFunction) (x : Milliseconds) : ℚ := reg.k * x + reg.c

end PriceRegressionFunction

/-- The deviation is `none` where it is infinite or not a number. -/
def solvePrices (prices : List (Milliseconds × ℚ)) :
    Option (PriceRegressionFunction × Option SquareRoot) :=
  let points := fromPrices prices
  match prices, solve points with
  | first :: _, some f => some (.ofLine f first.1, deviation f points)
  | _, _ => none

def IsFit (points : List Point) : Prop :=
  (∀ g, squaredErrors f points ≤ squaredErrors g points) ∧
    ∀ g, squaredErrors g points ≤ squaredErrors f points → g = f

/-- The solution is the fitted line, and the square of its deviation the mean squared error. -/
def Fits (points : List Point) : Prop :=
  ∃ f, solve points = some f ∧ IsFit f points ∧ ∃ dev, deviation f points = some dev ∧
    dev.toReal ^ 2 = (squaredErrors f points / points.length : ℚ)

/-- In addition the function of the time is the fitted line at the days from the first price. -/
def FitsPrices (prices : List (Milliseconds × ℚ)) : Prop :=
  Fits (fromPrices prices) ∧ ∃ f reg dev, IsFit f (fromPrices prices) ∧
    solvePrices prices = some (reg, dev) ∧
    ∀ first ∈ prices.head?, ∀ ts, reg.apply ts = f.apply (daysFromBegin first.1 ts)

def TwoAbscissas (points : List Point) : Prop := ∃ p ∈ points, ∃ q ∈ points, p.x ≠ q.x

instance (points : List Point) : Decidable (TwoAbscissas points) :=
  inferInstanceAs (Decidable (∃ p ∈ points, ∃ q ∈ points, _))

/-- The number of points fits, or all points are on a line that the first of them determine. -/
def Exact (points : List Point) : Prop :=
  points.length < 2 ^ 32 ∨ ∃ f : SimpleRegressionFunction, (∀ p ∈ points, p.y = f.apply p.x) ∧
    (TwoAbscissas (points.take (unsignedSize points)) ∨ unsignedSize points = 1 ∧ f = {})

variable {f} {g : SimpleRegressionFunction} {points : List Point}

theorem solve_of_few (h : unsignedSize points < 2) : solve points = some {} := if_pos h

theorem unsignedSize_le (points : List Point) : unsignedSize points ≤ points.length :=
  Nat.mod_le _ _

theorem unsignedSize_eq (h : points.length < 2 ^ 32) : unsignedSize points = points.length :=
  Nat.mod_eq_of_lt h

theorem solve_of_many (h : ¬ unsignedSize points < 2) :
    solve points =
      let d := points.take (unsignedSize points)
      if denominator Point.x d = 0 then none
      else some ⟨LeastSquares.slope Point.x Point.y d, intercept Point.x Point.y d⟩ := by
  have hlength : (points.take (unsignedSize points)).length = unsignedSize points :=
    List.length_take_of_le (unsignedSize_le points)
  simp only [solve, if_neg h, LeastSquares.slope, intercept, denominator, hlength, divide]
  split_ifs <;> rfl

theorem isFit_of_normal (h : Normal Point.x Point.y f.k f.c points) (hx : TwoAbscissas points) :
    IsFit f points := by
  refine ⟨fun g => h.error_le g.k g.c, fun g hg => ?_⟩
  obtain ⟨hk, hc⟩ := h.eq_of_error_le hx hg
  cases f
  cases g
  congr

theorem TwoAbscissas.two_le_length (h : TwoAbscissas points) : 2 ≤ points.length := by
  obtain ⟨p, hp, q, hq, hne⟩ := h
  cases points with
  | nil => cases hp
  | cons first rest =>
    cases rest with
    | nil =>
      rw [List.mem_singleton] at hp hq
      exact absurd (congrArg Point.x (hp.trans hq.symm)) hne
    | cons second rest => simp

theorem solve_normal (h : TwoAbscissas (points.take (unsignedSize points))) :
    ∃ f, solve points = some f ∧
      Normal Point.x Point.y f.k f.c (points.take (unsignedSize points)) := by
  have hmany : ¬ unsignedSize points < 2 := by
    have hlength := h.two_le_length
    rw [List.length_take_of_le (unsignedSize_le points)] at hlength
    exact hlength.not_gt
  have hne : points.take (unsignedSize points) ≠ [] := by
    rw [← List.length_pos_iff]
    exact two_pos.trans_le h.two_le_length
  have hdenominator := denominator_ne_zero_iff.mpr h
  rw [solve_of_many hmany]
  exact ⟨_, if_neg hdenominator, normal_slope_intercept hne hdenominator⟩

theorem deviation_of_pos (hlength : 2 ≤ points.length) (hpos : unsignedSize points ≠ 0) :
    ∃ dev, deviation f points = some dev ∧
      dev.toReal ^ 2 = (squaredErrors f points / unsignedSize points : ℚ) := by
  rw [deviation, if_neg hlength.not_gt, if_neg hpos]
  exact ⟨_, rfl, toReal_sq⟩

theorem fits_of_lt (h : points.length < 2 ^ 32) (hx : TwoAbscissas points) : Fits points := by
  have hsize := unsignedSize_eq h
  have htake : points.take (unsignedSize points) = points := by rw [hsize, List.take_length]
  obtain ⟨f, hf, hnormal⟩ := solve_normal (htake.symm ▸ hx)
  rw [htake] at hnormal
  have hpos : unsignedSize points ≠ 0 := by
    rw [hsize]
    exact (two_pos.trans_le hx.two_le_length).ne'
  obtain ⟨dev, hdev, hsq⟩ := deviation_of_pos (f := f) hx.two_le_length hpos
  exact ⟨f, hf, isFit_of_normal hnormal hx, dev, hdev, hsize ▸ hsq⟩

/-- Beyond it the deviation is right where there is none. -/
theorem deviation_sq_iff (h : 2 ^ 32 ≤ points.length) :
    (∃ dev, deviation f points = some dev ∧
      dev.toReal ^ 2 = (squaredErrors f points / points.length : ℚ)) ↔
      unsignedSize points ≠ 0 ∧ squaredErrors f points = 0 := by
  have htwo : 2 ≤ points.length := le_trans (by norm_num) h
  by_cases hpos : unsignedSize points = 0
  · have hnone : deviation f points = none := by
      rw [deviation, if_neg htwo.not_gt, if_pos hpos]
    simp [hnone, hpos]
  · obtain ⟨dev, hdev, hsq⟩ := deviation_of_pos (f := f) htwo hpos
    have hsize : (unsignedSize points : ℚ) ≠ points.length :=
      Nat.cast_injective.ne ((Nat.mod_lt _ (by norm_num)).trans_le h).ne
    have hpos' : (unsignedSize points : ℚ) ≠ 0 := Nat.cast_ne_zero.mpr hpos
    have hlength : (points.length : ℚ) ≠ 0 := Nat.cast_ne_zero.mpr (two_pos.trans_le htwo).ne'
    simp only [hdev, Option.some.injEq, exists_eq_left', hsq, Rat.cast_inj, ne_eq, hpos,
      not_false_eq_true, true_and]
    rw [div_eq_div_iff hpos' hlength, mul_eq_mul_left_iff]
    exact or_iff_right hsize.symm

/-- A longer list has its line only by chance. -/
theorem fits_iff_of_ge (h : 2 ^ 32 ≤ points.length) (hx : TwoAbscissas points) :
    Fits points ↔ ∃ f : SimpleRegressionFunction, (∀ p ∈ points, p.y = f.apply p.x) ∧
      (TwoAbscissas (points.take (unsignedSize points)) ∨ unsignedSize points = 1 ∧ f = {}) := by
  constructor
  · rintro ⟨f, hf, -, hdev⟩
    obtain ⟨hpos, hzero⟩ := (deviation_sq_iff h).mp hdev
    refine ⟨f, error_eq_zero_iff.mp hzero, ?_⟩
    by_cases hfew : unsignedSize points < 2
    · rw [solve_of_few hfew, Option.some.injEq] at hf
      exact .inr ⟨by omega, hf.symm⟩
    · rw [solve_of_many hfew] at hf
      by_cases hdenominator : denominator Point.x (points.take (unsignedSize points)) = 0
      · simp [hdenominator] at hf
      · exact .inl (denominator_ne_zero_iff.mp hdenominator)
  · rintro ⟨f, hline, hfirst⟩
    have hnormal : Normal Point.x Point.y f.k f.c points := normal_of_line hline
    have hzero : squaredErrors f points = 0 := error_eq_zero_iff.mpr hline
    rcases hfirst with hfirst | ⟨hone, rfl⟩
    · obtain ⟨g, hg, hnormal'⟩ := solve_normal hfirst
      have hline' : Normal Point.x Point.y f.k f.c (points.take (unsignedSize points)) :=
        normal_of_line fun p hp => hline p (List.mem_of_mem_take hp)
      obtain rfl : f = g := (isFit_of_normal hnormal' hfirst).2 f (hline'.error_le _ _)
      have hpos : unsignedSize points ≠ 0 := by
        intro hzero
        obtain ⟨p, hp, -⟩ := hfirst
        simp [hzero] at hp
      exact ⟨f, hg, isFit_of_normal hnormal hx, (deviation_sq_iff h).mpr ⟨hpos, hzero⟩⟩
    · have hpos : unsignedSize points ≠ 0 := hone ▸ one_ne_zero
      have hsolve : solve points = some {} := solve_of_few (hone ▸ one_lt_two)
      exact ⟨{}, hsolve, isFit_of_normal hnormal hx, (deviation_sq_iff h).mpr ⟨hpos, hzero⟩⟩

theorem fits_iff_exact (hx : TwoAbscissas points) : Fits points ↔ Exact points := by
  rcases lt_or_ge points.length (2 ^ 32) with hlt | hge
  · exact iff_of_true (fits_of_lt hlt hx) (.inl hlt)
  · rw [fits_iff_of_ge hge hx, Exact, or_iff_right hge.not_gt]

variable {prices : List (Milliseconds × ℚ)}

theorem ofLine_apply (f : SimpleRegressionFunction) (zeroTs ts : Milliseconds) :
    (PriceRegressionFunction.ofLine f zeroTs).apply ts = f.apply (daysFromBegin zeroTs ts) := by
  have hday : millisecondsInDay ≠ 0 := by decide +kernel
  rw [PriceRegressionFunction.ofLine, PriceRegressionFunction.apply,
    SimpleRegressionFunction.apply, daysFromBegin]
  push_cast
  field_simp
  ring

theorem fitsPrices_iff (hne : prices ≠ []) : FitsPrices prices ↔ Fits (fromPrices prices) := by
  refine ⟨And.left, fun h => ⟨h, ?_⟩⟩
  obtain ⟨f, hf, hfit, -⟩ := h
  cases prices with
  | nil => exact absurd rfl hne
  | cons first rest =>
    refine ⟨f, .ofLine f first.1, deviation f (fromPrices (first :: rest)), hfit, ?_, ?_⟩
    · simp only [solvePrices, hf]
    · rintro _ ⟨⟩ ts
      exact ofLine_apply f first.1 ts

theorem twoAbscissas_fromPrices (h : ∃ p ∈ prices, ∃ q ∈ prices, p.1 ≠ q.1) :
    TwoAbscissas (fromPrices prices) := by
  obtain ⟨p, hp, q, hq, hne⟩ := h
  cases prices with
  | nil => cases hp
  | cons first rest =>
    refine ⟨_, List.mem_map_of_mem hp, _, List.mem_map_of_mem hq, fun heq => hne ?_⟩
    have hday : millisecondsInDay ≠ 0 := by decide +kernel
    rw [daysFromBegin, daysFromBegin, div_left_inj' hday, Int.cast_inj] at heq
    exact sub_left_injective heq

/--
For points of two abscissas at least, the solution is their only least squares line with its
deviation, and for prices at two times at least also the function of the time is that line, if
and only if the number of points fits into 32 bits, or all points are on a line that the first
of them determine.
-/
theorem fits_iff (hx : TwoAbscissas points) (htimes : ∃ p ∈ prices, ∃ q ∈ prices, p.1 ≠ q.1) :
    (Fits points ↔ Exact points) ∧ (FitsPrices prices ↔ Exact (fromPrices prices)) := by
  refine ⟨fits_iff_exact hx, ?_⟩
  have hne : prices ≠ [] := by
    obtain ⟨p, hp, -⟩ := htimes
    exact List.ne_nil_of_mem hp
  rw [fitsPrices_iff hne, fits_iff_exact (twoAbscissas_fromPrices htimes)]

/-- The prices 2 and 4 of two days. -/
theorem fits_iff_two :
    let points : List Point := [⟨1, 2⟩, ⟨2, 2⟩, ⟨3, 5⟩]
    let prices : List (Milliseconds × ℚ) := [(1000, 2), (86401000, 4)]
    Fits points ∧ FitsPrices prices := by
  intro points prices
  have hpoints : TwoAbscissas points := by decide +kernel
  have hprices : ∃ p ∈ prices, ∃ q ∈ prices, p.1 ≠ q.1 := by decide +kernel
  obtain ⟨hfits, hfitsPrices⟩ := fits_iff hpoints hprices
  exact ⟨hfits.mpr (.inl (by decide)), hfitsPrices.mpr (.inl (by decide))⟩

/-- Points at 0 and one at 1, of a number that is 1 in 32 bits. -/
def overflowing (n : ℕ) : List Point := List.replicate n ⟨0, 0⟩ ++ [⟨1, 1⟩]

theorem solve_overflowing {n : ℕ} (hn : n % 2 ^ 32 = 0) : solve (overflowing n) = some {} := by
  refine solve_of_few ?_
  rw [unsignedSize, overflowing, List.length_append, List.length_replicate, List.length_singleton,
    Nat.add_mod, hn]
  norm_num

theorem line_overflowing {n : ℕ} : ∀ p ∈ overflowing n, p.y = 1 * p.x + 0 := by
  intro p hp
  rcases List.mem_append.mp hp with hp | hp
  · rw [List.eq_of_mem_replicate hp, one_mul, add_zero]
  · rw [List.mem_singleton.mp hp, one_mul, add_zero]

theorem twoAbscissas_overflowing {n : ℕ} (hn : n ≠ 0) : TwoAbscissas (overflowing n) :=
  ⟨⟨0, 0⟩, List.mem_append_left _ (List.mem_replicate.mpr ⟨hn, rfl⟩), ⟨1, 1⟩,
    List.mem_append_right _ List.mem_cons_self, zero_ne_one⟩

theorem not_fits_overflowing {n : ℕ} (hn : n % 2 ^ 32 = 0) : ¬ Fits (overflowing n) := by
  rintro ⟨f, hf, hfit, -⟩
  rw [solve_overflowing hn, Option.some.injEq] at hf
  subst hf
  have hline : squaredErrors ⟨1, 0⟩ (overflowing n) = 0 := error_eq_zero_iff.mpr line_overflowing
  have hzero := (hline ▸ hfit.1 ⟨1, 0⟩).antisymm (squaredErrors_nonneg _ _)
  have hlast := error_eq_zero_iff.mp hzero ⟨1, 1⟩ (List.mem_append_right _ List.mem_cons_self)
  norm_num at hlast

/-- Beyond the largest size in 32 bits no point is fitted, though all are on the line y = x. -/
theorem not_fits_overflow :
    TwoAbscissas (overflowing (2 ^ 32)) ∧ solve (overflowing (2 ^ 32)) = some ⟨0, 0⟩ ∧
      (∀ p ∈ overflowing (2 ^ 32), p.y = 1 * p.x + 0) ∧ ¬ Fits (overflowing (2 ^ 32)) := by
  have hsize : 2 ^ 32 % 2 ^ 32 = 0 := Nat.mod_self _
  exact ⟨twoAbscissas_overflowing (by norm_num), solve_overflowing hsize, line_overflowing,
    not_fits_overflowing hsize⟩

end OLS

end CryptoTrading

import CryptoTrading.Lib.Moments
import CryptoTrading.Lib.Runs
import CryptoTrading.Lib.Window
import CryptoTrading.Primitives.SquareRoot
import CryptoTrading.Primitives.Trade

/-! # The standard deviation

The values of the last interval are kept, with their sum and that of their squares. The mean is
left as it was where there are too few of them.
-/

namespace CryptoTrading

open Moments Runs SquareRoot Window

structure StandardDeviation where
  values : List (Milliseconds × ℚ) := []
  interval : Milliseconds
  mean : ℚ := 0
  sum : ℚ := 0
  sqSum : ℚ := 0
  deriving DecidableEq

namespace StandardDeviation

def new (interval : Milliseconds) : StandardDeviation := { interval }

variable (m : StandardDeviation)

def dropOld (cutoffTs : Milliseconds) : List (Milliseconds × ℚ) → StandardDeviation →
    StandardDeviation
  | [], m => { m with values := [] }
  | q :: values, m =>
    if q.1 < cutoffTs then
      dropOld cutoffTs values { m with sum := m.sum - q.2, sqSum := m.sqSum - q.2 * q.2 }
    else { m with values := q :: values }

def add (ts : Milliseconds) (value : ℚ) : StandardDeviation :=
  dropOld (ts - m.interval) (m.values ++ [(ts, value)])
    { m with sum := m.sum + value, sqSum := m.sqSum + value * value }

def variance : ℚ := m.sqSum / m.values.length - m.mean * m.mean

def pushValue (ts : Milliseconds) (value : ℚ) : StandardDeviation × Option SquareRoot :=
  let m := m.add ts value
  let n := m.values.length
  if n < 2 then (m, none)
  else
    let m := { m with mean := m.sum / n }
    (m, some (.ofClamped m.variance))

def step (p : Milliseconds × ℚ) : StandardDeviation := (m.pushValue p.1 p.2).1

/-- The values of the last interval up to a time, its start included. -/
def window (interval t : Milliseconds) (pts : List (Milliseconds × ℚ)) :
    List (Milliseconds × ℚ) :=
  pts.filter fun q => t - interval ≤ q.1 ∧ q.1 ≤ t

structure Sums (values : List (Milliseconds × ℚ)) : Prop where
  sum : m.sum = (values.map Prod.snd).sum
  sqSum : m.sqSum = ((values.map Prod.snd).map (· ^ 2)).sum

structure Kept (interval : Milliseconds) (pre : List (Milliseconds × ℚ))
    (start : Milliseconds) : Prop where
  interval_eq : m.interval = interval
  values : m.values = since Prod.fst start pre
  sums : m.Sums m.values

variable {m} {interval start cutoffTs : Milliseconds}
  {values pre pts : List (Milliseconds × ℚ)} {p q : Milliseconds × ℚ}

theorem dropOld_values :
    (dropOld cutoffTs values m).values = values.dropWhile (·.1 < cutoffTs) := by
  fun_induction dropOld with
  | case1 => rfl
  | case2 q values m hold ih => rw [ih, List.dropWhile_cons_of_pos (by simpa using hold)]
  | case3 q values m hnew => rw [List.dropWhile_cons_of_neg (by simpa using hnew)]

theorem dropOld_rest :
    (dropOld cutoffTs values m).interval = m.interval ∧
      (dropOld cutoffTs values m).mean = m.mean := by
  fun_induction dropOld with
  | case1 => exact ⟨rfl, rfl⟩
  | case2 q values m hold ih => exact ih
  | case3 => exact ⟨rfl, rfl⟩

theorem Sums.concat (h : m.Sums values) :
    { m with sum := m.sum + p.2, sqSum := m.sqSum + p.2 * p.2 }.Sums (values ++ [p]) := by
  constructor
  · simp [h.sum]
  · simp [h.sqSum]
    ring

theorem Sums.tail (h : m.Sums (q :: values)) :
    { m with sum := m.sum - q.2, sqSum := m.sqSum - q.2 * q.2 }.Sums values := by
  constructor
  · simp [h.sum]
  · simp [h.sqSum]
    ring

theorem Sums.dropOld (h : m.Sums values) :
    (dropOld cutoffTs values m).Sums (dropOld cutoffTs values m).values := by
  fun_induction StandardDeviation.dropOld with
  | case1 => exact ⟨h.sum, h.sqSum⟩
  | case2 q values m hold ih => exact ih h.tail
  | case3 => exact ⟨h.sum, h.sqSum⟩

theorem Kept.new : (new interval).Kept interval [] start := ⟨rfl, rfl, rfl, rfl⟩

theorem Kept.add (h : m.Kept interval pre start) (hinterval : 0 ≤ interval)
    (hstart : start ≤ p.1 - interval) (hpts : (pre ++ [p]).Pairwise fun q q' => q.1 ≤ q'.1) :
    (m.add p.1 p.2).Kept interval (pre ++ [p]) (p.1 - interval) := by
  have hnew : start ≤ p.1 := hstart.trans (sub_le_self _ hinterval)
  have hvalues : m.values ++ [p] = since Prod.fst start (pre ++ [p]) := by
    rw [since_concat, if_pos hnew, h.values]
  refine ⟨dropOld_rest.1.trans h.interval_eq, ?_, h.sums.concat.dropOld⟩
  have hsorted : (since Prod.fst start (pre ++ [p])).Pairwise fun q q' => q.1 ≤ q'.1 :=
    hpts.sublist List.filter_sublist
  rw [StandardDeviation.add, dropOld_values, h.interval_eq, hvalues,
    dropWhile_eq_since hsorted, since_since hstart]

theorem step_values : (m.step p).values = (m.add p.1 p.2).values := by
  rw [step, pushValue]
  split_ifs <;> rfl

theorem Kept.step (h : (m.add p.1 p.2).Kept interval pre start) :
    (m.step p).Kept interval pre start := by
  rw [StandardDeviation.step, pushValue]
  split_ifs with hfew
  · exact h
  · exact ⟨h.interval_eq, h.values, h.sums.sum, h.sums.sqSum⟩

theorem kept_after (hinterval : 0 ≤ interval) {t : Milliseconds}
    (hpre : pre.Pairwise fun q q' => q.1 ≤ q'.1) (ht : ∀ q ∈ pre, q.1 ≤ t) :
    ∃ start ≤ t - interval, (after StandardDeviation.step (new interval) pre).Kept
      interval pre start := by
  induction pre using List.reverseRecOn generalizing t with
  | nil => exact ⟨t - interval, le_rfl, .new⟩
  | append_singleton pre p ih =>
    obtain ⟨hinit, -, hlast⟩ := List.pairwise_append.mp hpre
    obtain ⟨start, hstart, h⟩ := ih hinit fun q hq => hlast q hq p List.mem_cons_self
    have hp : p.1 ≤ t := ht p (List.mem_append_right pre List.mem_cons_self)
    rw [after_concat]
    exact ⟨p.1 - interval, Int.sub_le_sub_right hp _, (h.add hinterval hstart hpre).step⟩

theorem window_eq_since {t : Milliseconds} (hpts : ∀ q ∈ pts, q.1 ≤ t) :
    window interval t pts = since Prod.fst (t - interval) pts := by
  refine List.filter_congr fun q hq => ?_
  simp [hpts q hq]

theorem Sums.variance_eq (h : m.Sums m.values) (hne : m.values ≠ [])
    (hmean : m.mean = m.sum / m.values.length) :
    m.variance = Moments.variance (m.values.map Prod.snd) := by
  have hvalues : m.values.map Prod.snd ≠ [] := by simpa using hne
  have hmean' : m.mean = Moments.mean (m.values.map Prod.snd) := by
    rw [hmean, h.sum, Moments.mean, List.length_map]
  rw [variance, Moments.variance_eq hvalues, ← hmean', h.sqSum, List.length_map]

structure Pushed (m : StandardDeviation) (p : Milliseconds × ℚ)
    (values : List (Milliseconds × ℚ)) : Prop where
  retained : (m.step p).values = values
  isSome_iff : (m.pushValue p.1 p.2).2.isSome ↔ 2 ≤ values.length
  result_sq : ∀ result ∈ (m.pushValue p.1 p.2).2,
    result.toReal ^ 2 = (Moments.variance (values.map Prod.snd) : ℚ)
  mean_eq : (m.step p).mean =
    if 2 ≤ values.length then Moments.mean (values.map Prod.snd) else m.mean
  nonneg : 2 ≤ values.length → 0 ≤ (m.step p).variance

theorem Sums.pushed (h : (m.add p.1 p.2).Sums (m.add p.1 p.2).values) :
    m.Pushed p (m.add p.1 p.2).values := by
  have hmean : (m.add p.1 p.2).mean = m.mean := dropOld_rest.2
  by_cases hfew : (m.add p.1 p.2).values.length < 2
  · have hpush : m.pushValue p.1 p.2 = (m.add p.1 p.2, none) := if_pos hfew
    have hmany : ¬ 2 ≤ (m.add p.1 p.2).values.length := not_le.mpr hfew
    constructor <;> simp [step, hpush, hmany, hmean]
  · have hmany := not_lt.mp hfew
    have hpush : m.pushValue p.1 p.2 = (m.step p, some (.ofClamped (m.step p).variance)) := by
      simp only [step, pushValue, if_neg hfew]
    have hstep : m.step p =
        { m.add p.1 p.2 with mean := (m.add p.1 p.2).sum / (m.add p.1 p.2).values.length } := by
      simp only [step, pushValue, if_neg hfew]
    have hne : (m.add p.1 p.2).values ≠ [] := by
      rw [← List.length_pos_iff]
      exact two_pos.trans_le hmany
    have hsums : (m.step p).Sums (m.add p.1 p.2).values := by
      rw [hstep]
      exact ⟨h.sum, h.sqSum⟩
    have hvariance : (m.step p).variance =
        Moments.variance ((m.add p.1 p.2).values.map Prod.snd) := by
      rw [← step_values] at hsums hne ⊢
      exact hsums.variance_eq hne (by rw [hstep])
    have hnonneg : 0 ≤ (m.step p).variance := hvariance ▸ variance_nonneg _
    refine ⟨step_values, by simp [hpush, hmany], ?_, ?_, fun _ => hnonneg⟩
    · simp only [hpush, Option.mem_some_iff, forall_eq']
      rw [toReal_sq, ofClamped_radicand hnonneg, hvariance]
    · rw [if_pos hmany, hstep, Moments.mean, h.sum, List.length_map]

/-- The retained values are those of the last interval, and a result is their deviation. -/
theorem pushed_window (hinterval : 0 ≤ interval) (pre : List (Milliseconds × ℚ))
    (p : Milliseconds × ℚ) (hpts : (pre ++ [p]).Pairwise fun q q' => q.1 ≤ q'.1) :
    (after step (new interval) pre).Pushed p (window interval p.1 (pre ++ [p])) := by
  obtain ⟨hpre, -, hlast⟩ := List.pairwise_append.mp hpts
  have hle : ∀ q ∈ pre, q.1 ≤ p.1 := fun q hq => hlast q hq p List.mem_cons_self
  have hle' : ∀ q ∈ pre ++ [p], q.1 ≤ p.1 := by
    rw [List.forall_mem_append, List.forall_mem_singleton]
    exact ⟨hle, le_rfl⟩
  obtain ⟨start, hstart, hkept⟩ := kept_after hinterval hpre hle
  have hadd := hkept.add hinterval hstart hpts
  rw [window_eq_since hle', ← hadd.values]
  exact hadd.sums.pushed

/-- Three values, of which the first is older than the interval. -/
theorem pushed_window_three :
    let pre : List (Milliseconds × ℚ) := [(0, 10), (1000, 20)]
    (after step (new 2000) pre).Pushed (3000, 40) [(1000, 20), (3000, 40)] := by
  have h := @pushed_window 2000 (by decide) [(0, 10), (1000, 20)] (3000, 40) (by decide)
  rwa [show window 2000 3000 _ = [(1000, 20), (3000, 40)] by decide +kernel] at h

/-- There is no result for a single value, and the mean is not set. -/
theorem mean_of_single :
    let m := new 2000
    (m.pushValue 0 5).2 = none ∧ (m.step (0, 5)).mean = 0 ∧
      Moments.mean ((window 2000 0 [(0, 5)]).map Prod.snd) = 5 := by
  decide +kernel

end StandardDeviation

end CryptoTrading

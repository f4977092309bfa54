import CryptoTrading.Lib.Moments
import CryptoTrading.Lib.Runs
import CryptoTrading.Primitives.Position

/-! # The simple moving average

A value is the average of the points that are kept. At most one point is dropped for a new one,
so points older than the interval stay when several get too old at once.
-/

namespace CryptoTrading

open Moments Runs

structure SimpleMovingAverage where
  data : List (Milliseconds × ℚ) := []
  interval : Milliseconds
  sum : ℚ := 0
  deriving DecidableEq

namespace SimpleMovingAverage

def new (interval : Milliseconds) : SimpleMovingAverage := { interval }

variable (m : SimpleMovingAverage)

/-- The returned value is `some none` where it is not a number. -/
def pushValue (tsAndPrice : Milliseconds × ℚ) : SimpleMovingAverage × Option (Option ℚ) :=
  let m := { m with data := m.data ++ [tsAndPrice], sum := m.sum + tsAndPrice.2 }
  let front := m.data.headD tsAndPrice
  if tsAndPrice.1 - front.1 < m.interval then (m, none)
  else
    let m := { m with data := m.data.tail, sum := m.sum - front.2 }
    (m, some (divide m.sum m.data.length))

def step (p : Milliseconds × ℚ) : SimpleMovingAverage := (m.pushValue p).1

/-- The points of the last interval up to a time, its start excluded. -/
def window (interval t : Milliseconds) (pts : List (Milliseconds × ℚ)) :
    List (Milliseconds × ℚ) :=
  pts.filter fun q => t - interval < q.1 ∧ q.1 ≤ t

/-- A value is the average of the window, and just its points are kept. -/
def AveragesWindow (interval : Milliseconds) (pre : List (Milliseconds × ℚ))
    (p : Milliseconds × ℚ) : Prop :=
  let m := after step (new interval) pre
  let points := window interval p.1 (pre ++ [p])
  ∀ value ∈ (m.pushValue p).2,
    value = some (mean (points.map Prod.snd)) ∧ (m.step p).data = points

/-- No point but the oldest kept one is an interval old. -/
def DropsOne (interval : Milliseconds) (pre : List (Milliseconds × ℚ))
    (p : Milliseconds × ℚ) : Prop :=
  ∀ q ∈ (after step (new interval) pre).data.tail, p.1 - interval < q.1

instance (interval : Milliseconds) (pre : List (Milliseconds × ℚ)) (p : Milliseconds × ℚ) :
    Decidable (DropsOne interval pre p) := inferInstanceAs (Decidable (∀ q ∈ _, _))

structure Kept (m : SimpleMovingAverage) (interval : Milliseconds)
    (pre : List (Milliseconds × ℚ)) (t : Milliseconds) : Prop where
  interval_eq : m.interval = interval
  sum : m.sum = (m.data.map Prod.snd).sum
  dropped : ∃ past, pre = past ++ m.data ∧ ∀ q ∈ past, q.1 + interval ≤ t

variable {m} {interval : Milliseconds} {pre pts rest : List (Milliseconds × ℚ)}
  {p front : Milliseconds × ℚ}

theorem pushValue_nil (h : m.data = []) (hinterval : 0 < m.interval) :
    m.pushValue p = ({ m with data := [p], sum := m.sum + p.2 }, none) := by
  simp [pushValue, h, hinterval]

theorem pushValue_cons (h : m.data = front :: rest) :
    m.pushValue p =
      if p.1 - front.1 < m.interval then
        ({ m with data := front :: rest ++ [p], sum := m.sum + p.2 }, none)
      else
        ({ m with data := rest ++ [p], sum := m.sum + p.2 - front.2 },
          some (divide (m.sum + p.2 - front.2) (rest ++ [p]).length)) := by
  simp [pushValue, h]

theorem Kept.new (interval t : Milliseconds) : Kept (new interval) interval [] t :=
  ⟨rfl, rfl, [], rfl, nofun⟩

theorem Kept.mono {t t' : Milliseconds} (h : m.Kept interval pre t) (ht : t ≤ t') :
    m.Kept interval pre t' := by
  obtain ⟨past, hpre, hpast⟩ := h.dropped
  exact ⟨h.interval_eq, h.sum, past, hpre, fun q hq => (hpast q hq).trans ht⟩

theorem Kept.step (h : m.Kept interval pre p.1) (hinterval : 0 < interval) :
    (m.step p).Kept interval (pre ++ [p]) p.1 := by
  obtain ⟨past, hpre, hpast⟩ := h.dropped
  obtain rfl := h.interval_eq
  have hsum := h.sum
  cases hdata : m.data with
  | nil =>
    rw [hdata] at hpre hsum
    rw [SimpleMovingAverage.step, pushValue_nil hdata hinterval]
    refine ⟨rfl, ?_, past, ?_, hpast⟩
    · simp [hsum]
    · rw [hpre, List.append_nil]
  | cons front rest =>
    rw [hdata] at hpre hsum
    rw [SimpleMovingAverage.step, pushValue_cons hdata]
    split_ifs with hyoung
    · refine ⟨rfl, ?_, past, ?_, hpast⟩
      · simp [hsum]
        ring
      · rw [hpre, List.append_assoc]
    · refine ⟨rfl, ?_, past ++ [front], ?_, ?_⟩
      · simp [hsum]
        ring
      · rw [hpre]
        simp
      · rw [List.forall_mem_append, List.forall_mem_singleton]
        exact ⟨hpast, by linarith⟩

theorem kept_after (hinterval : 0 < interval) {t : Milliseconds}
    (hpre : pre.Pairwise fun q q' => q.1 ≤ q'.1) (ht : ∀ q ∈ pre, q.1 ≤ t) :
    (after SimpleMovingAverage.step (new interval) pre).Kept interval pre t := by
  induction pre using List.reverseRecOn generalizing t with
  | nil => exact .new interval t
  | append_singleton pre p ih =>
    obtain ⟨hinit, -, hlast⟩ := List.pairwise_append.mp hpre
    rw [after_concat]
    exact ((ih hinit fun q hq => hlast q hq p List.mem_cons_self).step hinterval).mono
      (ht p (List.mem_append_right pre List.mem_cons_self))

/-- The window is in what is left when points are dropped that are an interval old. -/
theorem window_eq {past : List (Milliseconds × ℚ)} (hinterval : 0 < interval)
    (hpast : ∀ q ∈ past, q.1 + interval ≤ p.1) (hrest : ∀ q ∈ rest, q.1 ≤ p.1) :
    window interval p.1 (past ++ rest ++ [p]) =
      rest.filter (p.1 - interval < ·.1) ++ [p] := by
  have hold : window interval p.1 past = [] := by
    rw [window, List.filter_eq_nil_iff]
    intro q hq hin
    have hq' := hpast q hq
    have hyoung := (of_decide_eq_true hin).1
    linarith
  have hkeep : window interval p.1 rest = rest.filter (p.1 - interval < ·.1) := by
    refine List.filter_congr fun q hq => ?_
    simp [hrest q hq]
  have hnew : window interval p.1 [p] = [p] := by simp [window, hinterval]
  rw [window, List.filter_append, List.filter_append, ← window, ← window, ← window, hold, hkeep,
    hnew, List.nil_append]

theorem value_of_old (hsum : m.sum = ((front :: rest).map Prod.snd).sum) :
    divide (m.sum + p.2 - front.2) (rest ++ [p]).length =
      some (mean ((rest ++ [p]).map Prod.snd)) := by
  have hkept : m.sum + p.2 - front.2 = ((rest ++ [p]).map Prod.snd).sum := by
    simp [hsum]
    ring
  have hne : ((rest ++ [p]).length : ℚ) ≠ 0 := by
    rw [List.length_append, List.length_singleton]
    positivity
  rw [divide, if_neg hne, hkept, mean, List.length_map]

theorem averagesWindow_iff (hinterval : 0 < interval)
    (hpts : (pre ++ [p]).Pairwise fun q q' => q.1 ≤ q'.1) :
    AveragesWindow interval pre p ↔ DropsOne interval pre p := by
  obtain ⟨hpre, -, hlast⟩ := List.pairwise_append.mp hpts
  have hle : ∀ q ∈ pre, q.1 ≤ p.1 := fun q hq => hlast q hq p List.mem_cons_self
  have h := kept_after hinterval hpre hle
  unfold AveragesWindow DropsOne
  generalize after step (new interval) pre = m at h ⊢
  obtain ⟨past, hsplit, hpast⟩ := h.dropped
  obtain rfl := h.interval_eq
  cases hdata : m.data with
  | nil => simp [pushValue_nil hdata hinterval]
  | cons front rest =>
    have hsum := h.sum
    rw [hdata] at hsplit hsum
    have hrest : ∀ q ∈ rest, q.1 ≤ p.1 := fun q hq => hle q (by simp [hsplit, hq])
    simp only [List.tail_cons, step, pushValue_cons hdata]
    split_ifs with hyoung
    · refine iff_of_true nofun fun q hq => ?_
      rw [hsplit] at hpre
      have hfront := (List.pairwise_cons.mp (List.pairwise_append.mp hpre).2.1).1 q hq
      linarith
    · have hold : ∀ q ∈ past ++ [front], q.1 + m.interval ≤ p.1 := by
        rw [List.forall_mem_append, List.forall_mem_singleton]
        exact ⟨hpast, by linarith⟩
      have hwindow := window_eq hinterval hold hrest
      rw [List.append_assoc past, List.singleton_append, ← hsplit] at hwindow
      rw [hwindow, value_of_old hsum]
      have hiff : rest.filter (p.1 - m.interval < ·.1) = rest ↔
          ∀ q ∈ rest, p.1 - m.interval < q.1 := by
        rw [List.filter_eq_self]
        simp
      rw [← hiff]
      constructor
      · intro hvalue
        exact (List.append_cancel_right (hvalue _ rfl).2).symm
      · rintro hfilter _ ⟨⟩
        rw [hfilter]
        exact ⟨rfl, rfl⟩

/--
In a run, each value is the average of the points of the last interval, and just these are kept,
if and only if never two of the kept points get an interval old at once.
-/
theorem averages_window_iff (hinterval : 0 < interval) (pts : List (Milliseconds × ℚ))
    (hpts : pts.Pairwise fun q q' => q.1 ≤ q'.1) :
    (∀ pre p, pre ++ [p] <+: pts → AveragesWindow interval pre p) ↔
      ∀ pre p, pre ++ [p] <+: pts → DropsOne interval pre p := by
  refine forall₃_congr fun pre p hinit => ?_
  exact averagesWindow_iff hinterval (hpts.sublist hinit.sublist)

/-- A value a second, over two seconds. -/
theorem averages_window_iff_regular :
    let pts : List (Milliseconds × ℚ) := [(0, 10), (1000, 20), (2000, 30)]
    ∀ pre p, pre ++ [p] <+: pts → AveragesWindow 2000 pre p := by
  intro pts
  have h := @averages_window_iff 2000 (by decide) pts (by decide)
  exact h.mpr (forall_prefix_concat_iff.mpr (by decide +kernel))

/-- After a gap a point of ten seconds ago is averaged with the new one. -/
theorem stale_point_after_gap :
    let pre : List (Milliseconds × ℚ) := [(0, 10), (1000, 20)]
    ((after step (new 2000) pre).pushValue (10000, 60)).2 = some (some 40) ∧
      window 2000 10000 (pre ++ [(10000, 60)]) = [(10000, 60)] ∧
      mean ((window 2000 10000 (pre ++ [(10000, 60)])).map Prod.snd) = 60 := by
  decide +kernel

end SimpleMovingAverage

end CryptoTrading

import CryptoTrading.Lib.Moments
import CryptoTrading.Lib.Runs
import CryptoTrading.Lib.StepIntegral
import CryptoTrading.Lib.Window
import CryptoTrading.Primitives.Trade
import Mathlib.Algebra.Order.Floor.Semiring
import Mathlib.Algebra.Order.Module.Basic
import Mathlib.Data.List.Chain
import Mathlib.Tactic.FieldSimp
import Mathlib.Tactic.Linarith

/-! # The time-weighted moving average

Each point has the weight of the time until the next one, in intervals. A value is the
average of the points that are kept, and the oldest of these goes with it.
-/

namespace CryptoTrading

open Runs StepIntegral

structure TimeWeightedMovingAverage.Data where
  timestamp : Milliseconds
  value : ℚ
  weight : ℚ
  deriving DecidableEq

structure TimeWeightedMovingAverage where
  data : List TimeWeightedMovingAverage.Data
  interval : Milliseconds
  sum : ℚ
  totalWeight : ℚ
  deriving DecidableEq

namespace TimeWeightedMovingAverage

def new (interval : Milliseconds) : TimeWeightedMovingAverage where
  data := []
  interval := interval
  sum := 0
  totalWeight := 0

variable (m : TimeWeightedMovingAverage)

def calcWeight (current : Milliseconds) : ℚ :=
  match m.data.getLast? with
  | none => 0
  | some prev => (current - prev.timestamp : ℤ) / (m.interval : ℚ)

/-- Done when `push_value` returns: the current point has no weight yet. -/
def pushPoint (timestamp : Milliseconds) (value : ℚ) : TimeWeightedMovingAverage :=
  { m with data := m.data ++ [⟨timestamp, value, 0⟩] }

/-- No value until the whole interval is filled. -/
def pushValue (timestamp : Milliseconds) (value : ℚ) : Option ℚ × TimeWeightedMovingAverage :=
  match m.data.getLast? with
  | none => (none, m.pushPoint timestamp value)
  | some prevPoint =>
    if timestamp < prevPoint.timestamp then (none, m.pushPoint timestamp value)
    else
      let weight := m.calcWeight timestamp
      let m := { m with
        data := m.data.dropLast ++ [{ prevPoint with weight }]
        sum := m.sum + prevPoint.value * weight
        totalWeight := m.totalWeight + weight }
      match m.data with
      | [] => (none, m.pushPoint timestamp value)
      | front :: data =>
        if timestamp < front.timestamp + m.interval then (none, m.pushPoint timestamp value)
        else
          let res := m.sum / m.totalWeight
          (some res, { m with
            data
            sum := m.sum - front.value * front.weight
            totalWeight := m.totalWeight - front.weight }.pushPoint timestamp value)

def Data.point (d : Data) : Milliseconds × ℚ := (d.timestamp, d.value)

def points : List (Milliseconds × ℚ) := m.data.map Data.point

def step (p : Milliseconds × ℚ) : TimeWeightedMovingAverage := (m.pushValue p.1 p.2).2

def weightedSum (ds : List Data) : ℚ := (ds.map fun d => d.value * d.weight).sum

def weightSum (ds : List Data) : ℚ := (ds.map (·.weight)).sum

/-- Each weight is the time until the next point or the final time, in intervals. -/
def WeighedTo (interval : Milliseconds) : List Data → Milliseconds → Prop
  | [], _ => True
  | d :: ds, t =>
    d.weight = (start (ds.map Data.point) t - d.timestamp : ℤ) / (interval : ℚ) ∧
      WeighedTo interval ds t

variable {m} {interval t : Milliseconds} {v : ℚ} {ds init : List Data} {d last front : Data}

theorem weighedTo_concat :
    WeighedTo interval (ds ++ [d]) t ↔
      WeighedTo interval ds d.timestamp ∧
        d.weight = (t - d.timestamp : ℤ) / (interval : ℚ) := by
  induction ds with
  | nil => exact and_comm
  | cons d' ds ih =>
    rw [List.cons_append, WeighedTo, WeighedTo, ih, List.map_append, List.map_singleton,
      start_concat, and_assoc]
    rfl

/-- The weighted sum is the integral of the values, in intervals. -/
theorem weightedSum_eq (h : WeighedTo interval ds t) :
    weightedSum ds = integral (ds.map Data.point) t / interval := by
  induction ds with
  | nil => exact (zero_div _).symm
  | cons d ds ih =>
    have hds : weightedSum (d :: ds) = d.value * d.weight + weightedSum ds := List.sum_cons
    rw [hds, ih h.2, h.1, List.map_cons, integral_cons, zsmul_eq_mul, add_div]
    simp only [Data.point]
    ring

theorem weightSum_eq (h : WeighedTo interval ds t) :
    weightSum ds = (t - start (ds.map Data.point) t : ℤ) / (interval : ℚ) := by
  induction ds with
  | nil => simp [weightSum]
  | cons d ds ih =>
    have hds : weightSum (d :: ds) = d.weight + weightSum ds := List.sum_cons
    rw [hds, ih h.2, h.1, ← add_div, List.map_cons, start_cons]
    push_cast [Data.point]
    ring

/-- The points before the last one have their weights, and the sums are theirs. -/
structure Weighed (m : TimeWeightedMovingAverage) (init : List Data) (last : Data) : Prop where
  data : m.data = init ++ [last]
  inOrder : InOrder (init.map Data.point) last.timestamp
  weights : WeighedTo m.interval init last.timestamp
  sum : m.sum = weightedSum init
  totalWeight : m.totalWeight = weightSum init

def closed (interval : Milliseconds) (init : List Data) (last : Data) (t : Milliseconds) :
    List Data :=
  init ++ [{ last with weight := (t - last.timestamp : ℤ) / (interval : ℚ) }]

theorem closed_points : (closed interval init last t).map Data.point =
    (init ++ [last]).map Data.point := by
  simp [closed, Data.point]

theorem Weighed.points_eq (h : m.Weighed init last) :
    m.points = (closed m.interval init last t).map Data.point := by
  rw [closed_points, points, h.data]

theorem Weighed.closed_inOrder (h : m.Weighed init last) (ht : last.timestamp ≤ t) :
    InOrder ((closed m.interval init last t).map Data.point) t := by
  rw [closed_points, List.map_append]
  exact inOrder_concat.mpr ⟨h.inOrder, ht⟩

theorem Weighed.closed_weights (h : m.Weighed init last) :
    WeighedTo m.interval (closed m.interval init last t) t :=
  weighedTo_concat.mpr ⟨h.weights, rfl⟩

theorem weightedSum_concat : weightedSum (ds ++ [d]) = weightedSum ds + d.value * d.weight := by
  simp [weightedSum]

theorem weightSum_concat : weightSum (ds ++ [d]) = weightSum ds + d.weight := by
  simp [weightSum]

theorem Weighed.pushValue_eq (h : m.Weighed init last) (ht : last.timestamp ≤ t)
    (hclosed : closed m.interval init last t = front :: ds) :
    m.pushValue t v =
      if t < front.timestamp + m.interval then
        (none, { m with
          data := (front :: ds) ++ [⟨t, v, 0⟩]
          sum := weightedSum (front :: ds)
          totalWeight := weightSum (front :: ds) })
      else
        (some (weightedSum (front :: ds) / weightSum (front :: ds)), { m with
          data := ds ++ [⟨t, v, 0⟩]
          sum := weightedSum ds
          totalWeight := weightSum ds }) := by
  have hlast : m.data.getLast? = some last := by rw [h.data, List.getLast?_concat]
  have hinit : m.data.dropLast = init := by rw [h.data, List.dropLast_concat]
  have hsum : m.sum + last.value * m.calcWeight t = weightedSum (front :: ds) := by
    rw [← hclosed, closed, weightedSum_concat, h.sum, calcWeight, hlast]
  have htotal : m.totalWeight + m.calcWeight t = weightSum (front :: ds) := by
    rw [← hclosed, closed, weightSum_concat, h.totalWeight, calcWeight, hlast]
  have hdata : m.data.dropLast ++ [{ last with weight := m.calcWeight t }] = front :: ds := by
    rw [← hclosed, closed, hinit, calcWeight, hlast]
  have hrest : weightedSum (front :: ds) - front.value * front.weight = weightedSum ds :=
    add_sub_cancel_left _ _
  have hrest' : weightSum (front :: ds) - front.weight = weightSum ds :=
    add_sub_cancel_left _ _
  simp only [pushValue, hlast, if_neg ht.not_gt, hdata, hsum, htotal, pushPoint, hrest, hrest']

theorem closed_eq_cons (interval : Milliseconds) (init : List Data) (last : Data)
    (t : Milliseconds) : ∃ front ds, closed interval init last t = front :: ds :=
  List.exists_cons_of_ne_nil (List.append_ne_nil_of_right_ne_nil _ (List.cons_ne_nil _ _))

theorem Weighed.step (h : m.Weighed init last) (ht : last.timestamp ≤ t) {p : Milliseconds × ℚ}
    {ps : List (Milliseconds × ℚ)} (hp : m.points = p :: ps) :
    (∃ init', (m.step (t, v)).Weighed init' ⟨t, v, 0⟩) ∧
      (m.step (t, v)).interval = m.interval ∧
      (m.step (t, v)).points =
        (if t < p.1 + m.interval then p :: ps else ps) ++ [(t, v)] := by
  obtain ⟨front, ds, hclosed⟩ := closed_eq_cons m.interval init last t
  have hpoints := h.points_eq (t := t)
  rw [hp, hclosed, List.map_cons, List.cons.injEq] at hpoints
  obtain ⟨rfl, rfl⟩ := hpoints
  have hinOrder := h.closed_inOrder ht
  have hweights := h.closed_weights (t := t)
  rw [hclosed] at hinOrder hweights
  rw [TimeWeightedMovingAverage.step, h.pushValue_eq ht hclosed]
  by_cases hnew : t < front.timestamp + m.interval
  · have hnew' : t < front.point.1 + m.interval := hnew
    rw [if_pos hnew, if_pos hnew']
    exact ⟨⟨front :: ds, rfl, hinOrder, hweights, rfl, rfl⟩, rfl, by simp [points, Data.point]⟩
  · have hnew' : ¬ t < front.point.1 + m.interval := hnew
    rw [if_neg hnew, if_neg hnew']
    exact ⟨⟨ds, rfl, hinOrder.2, hweights.2, rfl, rfl⟩, rfl, by simp [points, Data.point]⟩

/-- A value is the average of the kept points over the time from the oldest of them. -/
theorem Weighed.value (h : m.Weighed init last) (ht : last.timestamp ≤ t)
    (hinterval : 0 < m.interval) {res : ℚ} (hres : (m.pushValue t v).1 = some res) :
    ∃ p ps, m.points = p :: ps ∧ m.interval ≤ t - p.1 ∧ InOrder m.points t ∧
      res = integral m.points t / (t - p.1 : ℤ) := by
  obtain ⟨front, ds, hclosed⟩ := closed_eq_cons m.interval init last t
  have hpoints := h.points_eq (t := t)
  have hinOrder := h.closed_inOrder ht
  have hweights := h.closed_weights (t := t)
  rw [hclosed] at hpoints hinOrder hweights
  rw [h.pushValue_eq ht hclosed] at hres
  split at hres
  · cases hres
  · rename_i hold
    have hne : (m.interval : ℚ) ≠ 0 := Int.cast_ne_zero.mpr hinterval.ne'
    obtain rfl := Option.some.inj hres
    refine ⟨front.point, ds.map Data.point, hpoints, ?_, by rwa [hpoints], ?_⟩
    · exact le_sub_iff_add_le'.mpr (not_lt.mp hold)
    · rw [weightedSum_eq hweights, weightSum_eq hweights, div_div_div_cancel_right₀ hne, hpoints]
      rfl

structure Kept (m : TimeWeightedMovingAverage) (interval : Milliseconds)
    (pre : List (Milliseconds × ℚ)) : Prop where
  interval : m.interval = interval
  suffix : m.points <:+ pre
  weighed : pre = [] ∧ m.data = [] ∧ m.sum = 0 ∧ m.totalWeight = 0 ∨
    ∃ init last, m.Weighed init last ∧ last.point ∈ pre.getLast?

variable {pre : List (Milliseconds × ℚ)}

theorem Weighed.points_ne_nil (h : m.Weighed init last) : ∃ p ps, m.points = p :: ps := by
  apply List.exists_cons_of_ne_nil
  rw [points, h.data, List.map_append]
  exact List.append_ne_nil_of_right_ne_nil _ (List.cons_ne_nil _ _)

theorem Kept.step (h : m.Kept interval pre) (ht : ∀ p ∈ pre.getLast?, p.1 ≤ t) :
    (m.step (t, v)).Kept interval (pre ++ [(t, v)]) := by
  rcases h.weighed with ⟨rfl, hdata, hsum, htotal⟩ | ⟨init, last, hweighed, hlast⟩
  · have hstep : m.step (t, v) = m.pushPoint t v := by
      simp only [TimeWeightedMovingAverage.step, pushValue, hdata, List.getLast?_nil]
    rw [hstep]
    refine ⟨h.interval, ?_, .inr ⟨[], ⟨t, v, 0⟩, ?_, rfl⟩⟩
    · simp [points, pushPoint, hdata, Data.point]
    · exact ⟨by rw [pushPoint, hdata], trivial, trivial, hsum, htotal⟩
  · obtain ⟨p, ps, hp⟩ := hweighed.points_ne_nil
    obtain ⟨⟨init', hweighed'⟩, hinterval, hpoints⟩ :=
      hweighed.step (v := v) (ht last.point hlast) hp
    refine ⟨hinterval.trans h.interval, ?_, .inr ⟨init', _, hweighed', List.getLast?_concat⟩⟩
    obtain ⟨past, hpast⟩ := h.suffix
    rw [hpoints]
    split
    · exact ⟨past, by rw [← List.append_assoc, ← hp, hpast]⟩
    · exact ⟨past ++ [p], by rw [← hpast, hp]; simp⟩

theorem start_of_isChain {p : Milliseconds × ℚ} {ps : List (Milliseconds × ℚ)}
    {gap : Milliseconds} (hps : (p :: ps ++ [(t, v)]).IsChain fun p q => q.1 = p.1 + gap) :
    start ps t = p.1 + gap := by
  cases ps with
  | nil => exact (List.isChain_cons_cons.mp hps).1
  | cons q ps => exact (List.isChain_cons_cons.mp hps).1

def Within (m : TimeWeightedMovingAverage) (interval gap t : Milliseconds) : Prop :=
  gap ∣ t - start m.points t ∧ t - start m.points t < interval

theorem Within.add_le {gap : Milliseconds} (h : m.Within interval gap t)
    (hgap : gap ∣ interval) :
    t + gap - start m.points t ≤ interval := by
  have hdvd : gap ∣ interval - (t - start m.points t) := Int.dvd_sub hgap h.1
  have hle := Int.le_of_dvd (sub_pos.mpr h.2) hdvd
  linarith

theorem Kept.within_step {gap : Milliseconds} (h : m.Kept interval pre)
    (hinterval : 0 < interval) (hpos : 0 < gap) (hgap : gap ∣ interval)
    (hpre : (pre ++ [(t, v)]).IsChain fun p q => q.1 = p.1 + gap)
    (hwithin : ∀ q ∈ pre.getLast?, m.Within interval gap q.1) :
    (m.step (t, v)).Within interval gap t := by
  rcases h.weighed with ⟨rfl, hdata, -, -⟩ | ⟨init, last, hweighed, hlast⟩
  · have hpoints : (m.step (t, v)).points = [(t, v)] := by
      simp [TimeWeightedMovingAverage.step, pushValue, points, pushPoint, hdata, Data.point]
    rw [Within, hpoints, start_cons, sub_self]
    exact ⟨dvd_zero _, hinterval⟩
  · have hold := hwithin _ hlast
    obtain ⟨p, ps, hp⟩ := hweighed.points_ne_nil
    have ht : t = last.timestamp + gap := (List.isChain_append.mp hpre).2.2 _ hlast _ rfl
    have hlast : last.timestamp ≤ t := by linarith
    obtain ⟨-, -, hpoints⟩ := hweighed.step (v := v) hlast hp
    have hle := hold.add_le hgap
    have hdvd := hold.1
    obtain ⟨past, hpast⟩ := h.suffix
    have hchain : (p :: ps ++ [(t, v)]).IsChain fun p q => q.1 = p.1 + gap := by
      rw [← hpast, hp, List.append_assoc] at hpre
      exact (List.isChain_append.mp hpre).2.1
    rw [hp, start_cons] at hle hdvd
    rw [Data.point] at hle hdvd
    rw [Within, hpoints, h.interval]
    split
    · rename_i hnew
      have hstart : start (p :: ps ++ [(t, v)]) t = p.1 := rfl
      rw [hstart]
      constructor
      · rw [ht, add_sub_right_comm]
        exact (Int.dvd_add_right hdvd).mpr (dvd_refl gap)
      · linarith
    · have hstart : start (ps ++ [(t, v)]) t = p.1 + gap := by
        rw [start_concat, start_of_isChain hchain]
      rw [hstart]
      constructor
      · rw [ht, add_sub_add_right_eq_sub]
        exact hdvd
      · linarith

theorem kept_after (interval : Milliseconds) (hpre : pre.Pairwise fun p q => p.1 ≤ q.1) :
    (after step (new interval) pre).Kept interval pre := by
  induction pre using List.reverseRecOn with
  | nil => exact ⟨rfl, List.nil_suffix, .inl ⟨rfl, rfl, rfl, rfl⟩⟩
  | append_singleton pre p ih =>
    obtain ⟨hinit, -, hlast⟩ := List.pairwise_append.mp hpre
    rw [after_concat]
    exact (ih hinit).step fun q hq =>
      hlast q (List.mem_of_mem_getLast? hq) p (List.mem_singleton_self p)

theorem within_after {gap : Milliseconds} (hinterval : 0 < interval) (hpos : 0 < gap)
    (hgap : gap ∣ interval) (hpre : pre.Pairwise fun p q => p.1 ≤ q.1)
    (hspaced : pre.IsChain fun p q => q.1 = p.1 + gap) :
    ∀ q ∈ pre.getLast?, (after step (new interval) pre).Within interval gap q.1 := by
  induction pre using List.reverseRecOn with
  | nil => rintro q ⟨⟩
  | append_singleton pre p ih =>
    have hinit := (List.pairwise_append.mp hpre).1
    have hwithin := ih hinit (List.isChain_append.mp hspaced).1
    rw [List.getLast?_concat]
    rintro q ⟨⟩
    rw [after_concat]
    exact (kept_after interval hinit).within_step hinterval hpos hgap hspaced hwithin

theorem first_le_of_suffix {p first : Milliseconds × ℚ} {ps : List (Milliseconds × ℚ)}
    (hpre : pre.Pairwise fun p q => p.1 ≤ q.1) (hsuffix : p :: ps <:+ pre)
    (hfirst : first ∈ pre.head?) : first.1 ≤ p.1 := by
  obtain ⟨past, rfl⟩ := hsuffix
  cases past with
  | nil =>
    obtain rfl := Option.some.inj hfirst
    exact le_rfl
  | cons q past =>
    obtain rfl := Option.some.inj hfirst
    exact (List.pairwise_cons.mp hpre).1 p (List.mem_append_right past List.mem_cons_self)

/--
A value is the integral of the kept points up to its time, divided by the time since the
oldest of them, which is an interval ago at least. It lies between their values, and no value
comes before the first point is an interval old. With points that are spaced evenly by a
divisor of the interval, the oldest kept point is just an interval old.
-/
theorem average_of_kept (interval : Milliseconds) (hinterval : 0 < interval)
    (pre : List (Milliseconds × ℚ)) (t : Milliseconds) (v : ℚ)
    (hpts : (pre ++ [(t, v)]).Pairwise fun p q => p.1 ≤ q.1) :
    let m := after step (new interval) pre
    m.points <:+ pre ∧ ∀ res, (m.pushValue t v).1 = some res →
      ∃ p ps, m.points = p :: ps ∧ interval ≤ t - p.1 ∧
        res = integral m.points t / (t - p.1 : ℤ) ∧
        (∀ lo hi, (∀ q ∈ m.points, lo ≤ q.2 ∧ q.2 ≤ hi) → lo ≤ res ∧ res ≤ hi) ∧
        (∀ first ∈ pre.head?, interval ≤ t - first.1) ∧
        ∀ gap, 0 < gap → gap ∣ interval →
          ((pre ++ [(t, v)]).IsChain fun p q => q.1 = p.1 + gap) → p.1 = t - interval := by
  intro m
  obtain ⟨hpre, -, hlater⟩ := List.pairwise_append.mp hpts
  have hkept : m.Kept interval pre := kept_after interval hpre
  refine ⟨hkept.suffix, fun res hres => ?_⟩
  rcases hkept.weighed with ⟨-, hdata, -, -⟩ | ⟨init, last, hweighed, hlast⟩
  · simp [pushValue, hdata] at hres
  · have ht : last.timestamp ≤ t :=
      hlater _ (List.mem_of_mem_getLast? hlast) _ (List.mem_singleton_self _)
    have hpos : 0 < m.interval := by rwa [hkept.interval]
    obtain ⟨p, ps, hp, hold, hinOrder, hvalue⟩ := hweighed.value ht hpos hres
    have hage : (0 : ℚ) < (t - p.1 : ℤ) := Int.cast_pos.mpr (hpos.trans_le hold)
    have hstart (x : Milliseconds) : start m.points x = p.1 := by rw [hp, start_cons]
    rw [hkept.interval] at hold
    refine ⟨p, ps, hp, hold, hvalue, ?_, ?_, ?_⟩
    · intro lo hi hbounds
      have hlo := le_integral hinOrder fun q hq => (hbounds q hq).1
      have hhi := integral_le hinOrder fun q hq => (hbounds q hq).2
      rw [hstart, zsmul_eq_mul] at hlo hhi
      rw [hvalue, le_div_iff₀' hage, div_le_iff₀' hage]
      exact ⟨hlo, hhi⟩
    · intro first hfirst
      have hle : first.1 ≤ p.1 := first_le_of_suffix hpre (hp ▸ hkept.suffix) hfirst
      exact hold.trans (sub_le_sub_left hle t)
    · intro gap hgap hdvd hspaced
      obtain ⟨hbefore, -, hnext⟩ := List.isChain_append.mp hspaced
      have hwithin := within_after hinterval hgap hdvd hpre hbefore _ hlast
      have hle := hwithin.add_le hdvd
      have ht' : t = last.point.1 + gap := hnext _ hlast _ rfl
      rw [hstart, ← ht'] at hle
      linarith

/-- The values 10 and 20, a second each, over two seconds. -/
theorem average_of_kept_two :
    let m := after step (new 2000) [(0, 10), (1000, 20)]
    (m.pushValue 2000 40).1 = some 15 ∧ (15 : ℚ) = integral m.points 2000 / (2000 : ℤ) := by
  intro m
  have hvalue : (m.pushValue 2000 40).1 = some 15 := by decide +kernel
  obtain ⟨p, ps, hp, -, hres, -⟩ :=
    (average_of_kept 2000 (by decide) [(0, 10), (1000, 20)] 2000 40 (by decide)).2 15 hvalue
  obtain rfl : p = (0, 10) := by
    have hhead : m.points.head? = some (0, 10) := by decide +kernel
    rw [hp] at hhead
    exact Option.some.inj hhead
  exact ⟨hvalue, hres⟩

section EvenlySpaced

open Moments Window

variable {gap : Milliseconds} {p : Milliseconds × ℚ} {ps : List (Milliseconds × ℚ)}

/-- The number of steps in an interval, the last one begun. -/
def stepsIn (interval gap : Milliseconds) : ℕ := ⌈(interval : ℚ) / gap⌉₊

theorem lt_stepsIn_iff (hgap : 0 < gap) {k : ℕ} :
    k < stepsIn interval gap ↔ k * gap < interval := by
  have hgap' : (0 : ℚ) < gap := Int.cast_pos.mpr hgap
  rw [stepsIn, Nat.lt_ceil, lt_div_iff₀ hgap']
  norm_cast

theorem stepsIn_pos (hinterval : 0 < interval) (hgap : 0 < gap) : 0 < stepsIn interval gap := by
  rw [lt_stepsIn_iff hgap]
  simpa using hinterval

theorem time_of_isChain (h : (p :: ps ++ [(t, v)]).IsChain fun p q => q.1 = p.1 + gap) :
    t = p.1 + (p :: ps).length * gap := by
  induction ps generalizing p with
  | nil => simpa using h
  | cons q ps ih =>
    obtain ⟨hq, hps⟩ := List.isChain_cons_cons.mp h
    rw [ih hps, hq]
    push_cast [List.length_cons]
    ring

theorem integral_of_isChain (h : (ps ++ [(t, v)]).IsChain fun p q => q.1 = p.1 + gap) :
    integral ps t = gap * (ps.map Prod.snd).sum := by
  induction ps with
  | nil => simp [integral]
  | cons p ps ih =>
    rw [integral_cons, start_of_isChain h, ih (List.IsChain.tail h), List.map_cons, List.sum_cons,
      add_sub_cancel_left, zsmul_eq_mul, mul_add]

theorem integral_div_of_isChain (hgap : 0 < gap)
    (h : (p :: ps ++ [(t, v)]).IsChain fun p q => q.1 = p.1 + gap) :
    integral (p :: ps) t / (t - p.1 : ℤ) = mean ((p :: ps).map Prod.snd) := by
  have hgap' : (gap : ℚ) ≠ 0 := Int.cast_ne_zero.mpr hgap.ne'
  have htime : ((t - p.1 : ℤ) : ℚ) = gap * (p :: ps).length := by
    rw [sub_eq_of_eq_add' (time_of_isChain h)]
    push_cast
    ring
  rw [integral_of_isChain h, htime, mul_div_mul_left _ _ hgap', mean, List.length_map]

theorem pairwise_of_isChain (hgap : 0 < gap) (h : pre.IsChain fun p q => q.1 = p.1 + gap) :
    pre.Pairwise fun p q => p.1 ≤ q.1 := by
  have hle : pre.IsChain fun p q => p.1 ≤ q.1 := h.imp fun p q hq => by linarith
  have : IsTrans (Milliseconds × ℚ) fun p q => p.1 ≤ q.1 := ⟨fun _ _ _ => le_trans⟩
  exact hle.pairwise

theorem isChain_of_suffix (hsuffix : ps <:+ pre)
    (hpts : (pre ++ [(t, v)]).IsChain fun p q => q.1 = p.1 + gap) :
    (ps ++ [(t, v)]).IsChain fun p q => q.1 = p.1 + gap := by
  obtain ⟨past, rfl⟩ := hsuffix
  rw [List.append_assoc] at hpts
  exact (List.isChain_append.mp hpts).2.1

theorem last_le_of_isChain (hgap : 0 < gap) (hlast : p ∈ pre.getLast?)
    (hpts : (pre ++ [(t, v)]).IsChain fun p q => q.1 = p.1 + gap) : p.1 ≤ t := by
  have hnext : t = p.1 + gap := (List.isChain_append.mp hpts).2.2 _ hlast _ rfl
  rw [hnext]
  exact le_add_of_nonneg_right hgap.le

theorem lt_add_iff_of_rtake (hgap : 0 < gap) (hlast : pre.rtake (stepsIn interval gap) = p :: ps)
    (hpts : (pre ++ [(t, v)]).IsChain fun p q => q.1 = p.1 + gap) :
    t < p.1 + interval ↔ pre.length < stepsIn interval gap := by
  have hlength := congrArg List.length hlast
  rw [length_rtake] at hlength
  have hchain := isChain_of_suffix (hlast ▸ rtake_suffix) hpts
  rw [time_of_isChain hchain, ← hlength, add_lt_add_iff_left, ← lt_stepsIn_iff hgap]
  omega

theorem points_after (hinterval : 0 < interval) (hgap : 0 < gap)
    (hpts : pre.IsChain fun p q => q.1 = p.1 + gap) :
    (after step (new interval) pre).points = pre.rtake (stepsIn interval gap) := by
  induction pre using List.reverseRecOn with
  | nil => exact (List.rtake_nil _).symm
  | append_singleton pre last ih =>
    obtain ⟨t, v⟩ := last
    have hpre := (List.isChain_append.mp hpts).1
    have hkept := kept_after interval (pairwise_of_isChain hgap hpre)
    have hpoints := ih hpre
    have hone : 1 ≤ stepsIn interval gap := stepsIn_pos hinterval hgap
    rw [after_concat, ← rtake_rtake_concat, ← hpoints]
    generalize after step (new interval) pre = m at hpoints hkept ⊢
    rcases hkept.weighed with ⟨rfl, hdata, -, -⟩ | ⟨init, last, hweighed, hlast⟩
    · have hnil : m.points = [] := by rw [points, hdata, List.map_nil]
      have hstep : (m.step (t, v)).points = [(t, v)] := by
        simp [step, pushValue, points, pushPoint, hdata, Data.point]
      rw [hstep, hnil, List.nil_append, rtake_eq_self hone]
    · obtain ⟨p, ps, hp⟩ := hweighed.points_ne_nil
      rw [hp] at hpoints
      have hyoung := lt_add_iff_of_rtake hgap hpoints.symm hpts
      have hlength := congrArg List.length hpoints
      rw [length_rtake] at hlength
      rw [(hweighed.step (last_le_of_isChain hgap hlast hpts) hp).2.2, hkept.interval, hp]
      by_cases hfew : pre.length < stepsIn interval gap
      · rw [if_pos (hyoung.mpr hfew), rtake_eq_self]
        rw [List.length_append, List.length_singleton, hlength]
        omega
      · rw [if_neg (mt hyoung.mp hfew), List.rtake, List.length_append, List.length_singleton,
          hlength, min_eq_left (not_lt.mp hfew), Nat.add_sub_cancel_left]
        rfl

/-- With points that are spaced evenly, a value is the mean of those of an interval. -/
theorem pushValue_of_isChain (hinterval : 0 < interval) (hgap : 0 < gap)
    (hpts : (pre ++ [(t, v)]).IsChain fun p q => q.1 = p.1 + gap) :
    ((after step (new interval) pre).pushValue t v).1 =
      if pre.length < stepsIn interval gap then none
      else some (mean ((pre.rtake (stepsIn interval gap)).map Prod.snd)) := by
  have hpre := (List.isChain_append.mp hpts).1
  have hkept := kept_after interval (pairwise_of_isChain hgap hpre)
  have hpoints := points_after hinterval hgap hpre
  generalize after step (new interval) pre = m at hpoints hkept ⊢
  obtain rfl := hkept.interval
  rcases hkept.weighed with ⟨rfl, hdata, -, -⟩ | ⟨init, last, hweighed, hlast⟩
  · simp [pushValue, hdata, stepsIn_pos hinterval hgap]
  · have hlast' : last.timestamp ≤ t := last_le_of_isChain hgap hlast hpts
    obtain ⟨front, ds, hclosed⟩ := closed_eq_cons m.interval init last t
    have hp := hweighed.points_eq (t := t)
    rw [hclosed, List.map_cons] at hp
    have hyoung := lt_add_iff_of_rtake hgap (hpoints.symm.trans hp) hpts
    by_cases hfew : pre.length < stepsIn m.interval gap
    · rw [hweighed.pushValue_eq hlast' hclosed, if_pos hfew]
      exact congrArg Prod.fst (if_pos (hyoung.mpr hfew))
    · obtain ⟨res, hres⟩ : ∃ res, (m.pushValue t v).1 = some res := by
        rw [hweighed.pushValue_eq hlast' hclosed]
        exact ⟨_, congrArg Prod.fst (if_neg (mt hyoung.mp hfew))⟩
      obtain ⟨p, ps, hp', -, -, hvalue⟩ := hweighed.value hlast' hinterval hres
      have hchain := isChain_of_suffix (hp' ▸ hkept.suffix) hpts
      rw [hp', integral_div_of_isChain hgap hchain, ← hp', hpoints] at hvalue
      rw [hres, hvalue, if_neg hfew]

end EvenlySpaced

end TimeWeightedMovingAverage

end CryptoTrading

import CryptoTrading.Lib.Changes
import CryptoTrading.Lib.Pipeline
import CryptoTrading.Strategy.Base
import CryptoTrading.Ta.SimpleMovingAverage
import CryptoTrading.Ta.TimeWeightedMovingAverage

/-! # The strategies of two averages

One of them trades where two simple averages cross, so that its sides alternate. The other one
trades while two time-weighted averages are far apart. Neither of them depends on the unit of the
prices.
-/

namespace CryptoTrading

open Changes Moments Runs

structure SlowAndFastAverage where
  slowAvg : SimpleMovingAverage
  fastAvg : SimpleMovingAverage
  deriving DecidableEq

namespace SlowAndFastAverage

def new (slowInterval fastInterval : Milliseconds) : SlowAndFastAverage where
  slowAvg := .new slowInterval
  fastAvg := .new fastInterval

variable (m : SlowAndFastAverage)

def step (p : Milliseconds × ℚ) : SlowAndFastAverage := ⟨m.slowAvg.step p, m.fastAvg.step p⟩

def value (p : Milliseconds × ℚ) : Option (Option ℚ × Option ℚ) :=
  (m.fastAvg.pushValue p).2.bind fun fast => (m.slowAvg.pushValue p).2.map fun slow => (slow, fast)

/-- The comparison is false if one of them is not a number. -/
def slowAboveFast (averages : Option ℚ × Option ℚ) : Bool :=
  averages.1.any fun slow => averages.2.any fun fast => fast < slow

def compared (p : Milliseconds × ℚ) : Option ((Milliseconds × ℚ) × Bool) :=
  (m.value p).map fun averages => (p, slowAboveFast averages)

end SlowAndFastAverage

open SlowAndFastAverage

structure DoubleSmaStrategyConfig where
  slowInterval : Milliseconds := 0
  fastInterval : Milliseconds := 0
  deriving DecidableEq

structure DoubleSmaStrategy where
  averages : SlowAndFastAverage
  prevSlowAvg : Option (Option ℚ) := none
  prevFastAvg : Option (Option ℚ) := none
  deriving DecidableEq

namespace DoubleSmaStrategy

def new (config : DoubleSmaStrategyConfig) : DoubleSmaStrategy where
  averages := .new config.slowInterval config.fastInterval

variable (s : DoubleSmaStrategy)

/-- The arguments of `try_send_order`, where it is called. -/
def pushPrice (p : Milliseconds × ℚ) : DoubleSmaStrategy × Option EntrySignal :=
  let (fastAvg, fast) := s.averages.fastAvg.pushValue p
  let (slowAvg, slow) := s.averages.slowAvg.pushValue p
  let s := { s with averages := ⟨slowAvg, fastAvg⟩ }
  match fast with
  | none => (s, none)
  | some fast =>
    match slow with
    | none => (s, none)
    | some slow =>
      let s' := { s with prevSlowAvg := some slow, prevFastAvg := some fast }
      match s.prevSlowAvg with
      | none => (s', none)
      | some prevSlow =>
        match s.prevFastAvg with
        | none => (s', none)
        | some prevFast =>
          let currentSlowAboveFast := slowAboveFast (slow, fast)
          let prevSlowAboveFast := slowAboveFast (prevSlow, prevFast)
          if currentSlowAboveFast = prevSlowAboveFast then (s', none)
          else (s', some ⟨if currentSlowAboveFast then .sell else .buy, p.2, p.1⟩)

def step (p : Milliseconds × ℚ) : DoubleSmaStrategy := (s.pushPrice p).1

def signals (config : DoubleSmaStrategyConfig) (pts : List (Milliseconds × ℚ)) :
    List EntrySignal :=
  outputs step (fun s p => (s.pushPrice p).2.toList) (new config) pts

/-- The points at which both averages have a value, each with their comparison. -/
def comparisons (config : DoubleSmaStrategyConfig) (pts : List (Milliseconds × ℚ)) :
    List ((Milliseconds × ℚ) × Bool) :=
  outputs SlowAndFastAverage.step (fun m p => (m.compared p).toList)
    (.new config.slowInterval config.fastInterval) pts

def signalOf (x : (Milliseconds × ℚ) × Bool) : EntrySignal :=
  ⟨if x.2 then .sell else .buy, x.1.2, x.1.1⟩

def last : Option Bool :=
  s.prevSlowAvg.bind fun slow => s.prevFastAvg.map fun fast => slowAboveFast (slow, fast)

variable {s} {p : Milliseconds × ℚ}

theorem step_averages : (s.step p).averages = s.averages.step p := by
  simp only [step, pushPrice, SlowAndFastAverage.step, SimpleMovingAverage.step]
  rcases s.averages.fastAvg.pushValue p with ⟨fastAvg, _ | fast⟩
  · rfl
  · rcases s.averages.slowAvg.pushValue p with ⟨slowAvg, _ | slow⟩
    · rfl
    · cases s.prevSlowAvg with
      | none => rfl
      | some prevSlow =>
        cases s.prevFastAvg with
        | none => rfl
        | some prevFast =>
          dsimp only
          split_ifs <;> rfl

theorem step_last : (s.step p).last = ((s.averages.compared p).map Prod.snd).or s.last := by
  simp only [step, pushPrice, compared, value]
  rcases s.averages.fastAvg.pushValue p with ⟨fastAvg, _ | fast⟩
  · rfl
  · rcases s.averages.slowAvg.pushValue p with ⟨slowAvg, _ | slow⟩
    · rfl
    · cases s.prevSlowAvg with
      | none => rfl
      | some prevSlow =>
        cases s.prevFastAvg with
        | none => rfl
        | some prevFast =>
          dsimp only
          split_ifs <;> rfl

theorem pushPrice_snd : (s.pushPrice p).2 =
    ((s.averages.compared p).bind (report Prod.snd s.last)).map signalOf := by
  simp only [pushPrice, compared, value, last]
  rcases s.averages.fastAvg.pushValue p with ⟨fastAvg, _ | fast⟩
  · rfl
  · rcases s.averages.slowAvg.pushValue p with ⟨slowAvg, _ | slow⟩
    · rfl
    · cases s.prevSlowAvg with
      | none => rfl
      | some prevSlow =>
        cases s.prevFastAvg with
        | none => rfl
        | some prevFast =>
          simp only [Option.bind_some, Option.map_some, report,
            eq_comm (a := slowAboveFast (prevSlow, prevFast))]
          split_ifs with hsame habove
          · rfl
          · simp [signalOf, habove]
          · simp [signalOf, habove]

theorem signals_eq_reports (config : DoubleSmaStrategyConfig) (pts : List (Milliseconds × ℚ)) :
    signals config pts = (reports Prod.snd none (comparisons config pts)).map signalOf := by
  have hreports : outputs step
      (fun s p => ((s.averages.compared p).bind (report Prod.snd s.last)).toList) (new config) pts =
      reports Prod.snd none
        (outputs step (fun s p => (s.averages.compared p).toList) (new config) pts) :=
    outputs_eq_reports Prod.snd last (fun _ _ => step_last) (new config) pts
  have hparts : outputs step (fun s p => (s.averages.compared p).toList) (new config) pts =
      comparisons config pts :=
    outputs_part (fun m p => (compared m p).toList) averages (fun _ _ => step_averages) _ pts
  rw [← hparts, ← hreports, ← map_outputs]
  simp only [signals, pushPrice_snd, Option.toList_map]

/--
An order is tried at each point where the comparison of the averages is not the one of the last
point at which both had a value. So the sides of the orders alternate.
-/
theorem signals_eq (config : DoubleSmaStrategyConfig) (pts : List (Milliseconds × ℚ)) :
    signals config pts =
        (((comparisons config pts).destutter (Differ Prod.snd)).tail).map signalOf ∧
      (signals config pts).IsChain fun a b => a.side ≠ b.side := by
  rw [signals_eq_reports]
  refine ⟨by rw [reports_none], ?_⟩
  rw [List.isChain_map]
  refine (isChain_reports_none _).imp fun x y hxy => ?_
  have hxy : x.2 ≠ y.2 := hxy
  cases hx : x.2 <;> cases hy : y.2 <;> simp_all [signalOf]

end DoubleSmaStrategy

structure DSMADiffStrategyConfig where
  slowInterval : Milliseconds := 0
  fastInterval : Milliseconds := 0
  diffThresholdPercent : ℚ := 0
  deriving DecidableEq

/-- The quotient of `push_value` is a number. With an interval of zero no weight is one, and
without any weight the quotient is zero by zero. -/
def TimeWeightedMovingAverage.IsNumber (m : TimeWeightedMovingAverage) (t : Milliseconds) : Prop :=
  m.interval ≠ 0 ∧ m.totalWeight + m.calcWeight t ≠ 0

instance (m : TimeWeightedMovingAverage) (t : Milliseconds) : Decidable (m.IsNumber t) :=
  inferInstanceAs (Decidable (_ ∧ _))

structure DSMADiffStrategy where
  slowAvg : TimeWeightedMovingAverage
  fastAvg : TimeWeightedMovingAverage
  diffThreshold : ℚ
  deriving DecidableEq

namespace DSMADiffStrategy

def new (config : DSMADiffStrategyConfig) : DSMADiffStrategy where
  slowAvg := .new config.slowInterval
  fastAvg := .new config.fastInterval
  diffThreshold := config.diffThresholdPercent / 100

/-- The side on which the difference is beyond the threshold. A quotient by zero is infinite. -/
def sideOf (diffThreshold slow fast : ℚ) : Option Side :=
  let diff := fast - slow
  if if slow = 0 then 0 < diff else diffThreshold < diff / slow then some .buy
  else if if slow = 0 then diff < 0 else diff / slow < -diffThreshold then some .sell
  else none

variable (s : DSMADiffStrategy)

/-- The arguments of `try_send_order`, where it is called. -/
def pushPrice (p : Milliseconds × ℚ) : DSMADiffStrategy × Option EntrySignal :=
  let (fast, fastAvg) := s.fastAvg.pushValue p.1 p.2
  let (slow, slowAvg) := s.slowAvg.pushValue p.1 p.2
  let s' := { s with slowAvg, fastAvg }
  match fast with
  | none => (s', none)
  | some fast =>
    match slow with
    | none => (s', none)
    | some slow =>
      -- No comparison holds if one of them is not a number.
      if s.fastAvg.IsNumber p.1 ∧ s.slowAvg.IsNumber p.1 then
        (s', (sideOf s.diffThreshold slow fast).map fun side => ⟨side, p.2, p.1⟩)
      else (s', none)

def step (p : Milliseconds × ℚ) : DSMADiffStrategy := (s.pushPrice p).1

def signals (config : DSMADiffStrategyConfig) (pts : List (Milliseconds × ℚ)) :
    List EntrySignal :=
  outputs step (fun s p => (s.pushPrice p).2.toList) (new config) pts

end DSMADiffStrategy

section Scale

def scalePoint (k : ℚ) (p : Milliseconds × ℚ) : Milliseconds × ℚ := (p.1, k * p.2)

def EntrySignal.scale (k : ℚ) (signal : EntrySignal) : EntrySignal :=
  { signal with price := k * signal.price }

def SimpleMovingAverage.scale (k : ℚ) (m : SimpleMovingAverage) : SimpleMovingAverage :=
  { m with data := m.data.map (scalePoint k), sum := k * m.sum }

def TimeWeightedMovingAverage.Data.scale (k : ℚ) (d : Data) : Data :=
  { d with value := k * d.value }

def TimeWeightedMovingAverage.scale (k : ℚ) (m : TimeWeightedMovingAverage) :
    TimeWeightedMovingAverage :=
  { m with data := m.data.map (Data.scale k), sum := k * m.sum }

def SlowAndFastAverage.scale (k : ℚ) (m : SlowAndFastAverage) : SlowAndFastAverage where
  slowAvg := m.slowAvg.scale k
  fastAvg := m.fastAvg.scale k

variable {k : ℚ} {p : Milliseconds × ℚ}

theorem divide_scale (k sum : ℚ) (n : ℚ) :
    divide (k * sum) n = (divide sum n).map (k * ·) := by
  unfold divide
  split_ifs
  · rfl
  · rw [Option.map_some, mul_div_assoc]

theorem SimpleMovingAverage.pushValue_scale (m : SimpleMovingAverage) :
    (m.scale k).pushValue (scalePoint k p) =
      ((m.pushValue p).1.scale k, (m.pushValue p).2.map (Option.map (k * ·))) := by
  have hfront : ((m.data ++ [p]).map (scalePoint k)).headD (scalePoint k p) =
      scalePoint k ((m.data ++ [p]).headD p) := by
    cases m.data <;> rfl
  have hdata : (m.scale k).data ++ [scalePoint k p] = (m.data ++ [p]).map (scalePoint k) := by
    simp [SimpleMovingAverage.scale]
  have hsum (price : ℚ) : k * m.sum + k * p.2 - k * price = k * (m.sum + p.2 - price) := by ring
  have hyoung : (scalePoint k p).1 - (scalePoint k ((m.data ++ [p]).headD p)).1 <
      (m.scale k).interval ↔ p.1 - ((m.data ++ [p]).headD p).1 < m.interval := Iff.rfl
  simp only [pushValue, hdata, hfront, hyoung]
  split_ifs
  · simp [SimpleMovingAverage.scale, scalePoint, mul_add]
  · simp [SimpleMovingAverage.scale, scalePoint, hsum, divide_scale]

namespace TimeWeightedMovingAverage

variable {t : Milliseconds} {v : ℚ}

theorem calcWeight_scale (m : TimeWeightedMovingAverage) :
    (m.scale k).calcWeight t = m.calcWeight t := by
  simp only [calcWeight, scale, List.getLast?_map]
  cases m.data.getLast? <;> rfl

theorem isNumber_scale (m : TimeWeightedMovingAverage) : (m.scale k).IsNumber t ↔ m.IsNumber t := by
  rw [IsNumber, calcWeight_scale]
  rfl

theorem pushPoint_scale (m : TimeWeightedMovingAverage) :
    (m.scale k).pushPoint t (k * v) = (m.pushPoint t v).scale k := by
  simp [pushPoint, scale, Data.scale]

theorem pushValue_scale (m : TimeWeightedMovingAverage) :
    (m.scale k).pushValue t (k * v) =
      ((m.pushValue t v).1.map (k * ·), (m.pushValue t v).2.scale k) := by
  rcases List.eq_nil_or_concat m.data with hdata | ⟨init, prev, hdata⟩
  · have hdata' : (m.scale k).data = [] := by rw [scale, hdata, List.map_nil]
    simp only [pushValue, hdata, hdata', List.getLast?_nil, Option.map_none, pushPoint_scale]
  · have hdata' : (m.scale k).data = init.map (Data.scale k) ++ [prev.scale k] := by
      rw [scale, hdata, List.concat_eq_append, List.map_append, List.map_singleton]
    have hsum : (m.scale k).sum + k * prev.value * m.calcWeight t =
        k * (m.sum + prev.value * m.calcWeight t) := by
      rw [scale]
      ring
    rw [List.concat_eq_append] at hdata
    simp only [pushValue, hdata, hdata', List.getLast?_concat, List.dropLast_concat,
      calcWeight_scale, Data.scale, hsum]
    split_ifs with hearly
    · rw [pushPoint_scale, Option.map_none]
    · cases init with
      | nil =>
        simp only [List.map_nil, List.nil_append, scale]
        split_ifs
        · simp [pushPoint, Data.scale]
        · simp only [mul_div_assoc, pushPoint, Option.map_some, List.nil_append,
            List.map_singleton, Data.scale, Prod.mk.injEq, mk.injEq, true_and, and_true]
          ring
      | cons front ds =>
        simp only [List.map_cons, List.cons_append, scale, Data.scale]
        split_ifs
        · simp [pushPoint, Data.scale]
        · simp [pushPoint, Data.scale, mul_div_assoc, mul_sub, mul_assoc]

end TimeWeightedMovingAverage

theorem slowAboveFast_scale (hk : 0 < k) (averages : Option ℚ × Option ℚ) :
    slowAboveFast (averages.1.map (k * ·), averages.2.map (k * ·)) = slowAboveFast averages := by
  rcases averages with ⟨_ | slow, _ | fast⟩
  · rfl
  · rfl
  · rfl
  · simp [slowAboveFast, mul_lt_mul_iff_right₀ hk]

theorem DSMADiffStrategy.sideOf_scale (hk : 0 < k) (diffThreshold slow fast : ℚ) :
    sideOf diffThreshold (k * slow) (k * fast) = sideOf diffThreshold slow fast := by
  simp only [sideOf, ← mul_sub, mul_eq_zero, hk.ne', false_or, mul_div_mul_left _ _ hk.ne',
    mul_pos_iff_of_pos_left hk, mul_neg_iff, hk, hk.not_gt, true_and, false_and, or_false]

/-- The states of the one strategy in two units. -/
def DoubleSmaStrategy.scale (k : ℚ) (s : DoubleSmaStrategy) : DoubleSmaStrategy where
  averages := s.averages.scale k
  prevSlowAvg := s.prevSlowAvg.map (Option.map (k * ·))
  prevFastAvg := s.prevFastAvg.map (Option.map (k * ·))

def DSMADiffStrategy.scale (k : ℚ) (s : DSMADiffStrategy) : DSMADiffStrategy :=
  { s with slowAvg := s.slowAvg.scale k, fastAvg := s.fastAvg.scale k }

theorem DoubleSmaStrategy.pushPrice_scale (hk : 0 < k) (s : DoubleSmaStrategy) :
    (s.scale k).pushPrice (scalePoint k p) =
      ((s.pushPrice p).1.scale k, (s.pushPrice p).2.map (EntrySignal.scale k)) := by
  simp only [pushPrice, DoubleSmaStrategy.scale, SlowAndFastAverage.scale,
    SimpleMovingAverage.pushValue_scale]
  rcases s.averages.fastAvg.pushValue p with ⟨fastAvg, _ | fast⟩
  · rfl
  · rcases s.averages.slowAvg.pushValue p with ⟨slowAvg, _ | slow⟩
    · rfl
    · cases s.prevSlowAvg with
      | none => rfl
      | some prevSlow =>
        cases s.prevFastAvg with
        | none => rfl
        | some prevFast =>
          have hcurrent := slowAboveFast_scale hk (slow, fast)
          have hprev := slowAboveFast_scale hk (prevSlow, prevFast)
          simp only [Option.map_some, hcurrent, hprev]
          split_ifs <;> rfl

theorem DSMADiffStrategy.pushPrice_scale (hk : 0 < k) (s : DSMADiffStrategy) :
    (s.scale k).pushPrice (scalePoint k p) =
      ((s.pushPrice p).1.scale k, (s.pushPrice p).2.map (EntrySignal.scale k)) := by
  simp only [pushPrice, DSMADiffStrategy.scale, scalePoint,
    TimeWeightedMovingAverage.pushValue_scale, TimeWeightedMovingAverage.isNumber_scale]
  rcases s.fastAvg.pushValue p.1 p.2 with ⟨_ | fast, fastAvg⟩
  · rfl
  · rcases s.slowAvg.pushValue p.1 p.2 with ⟨_ | slow, slowAvg⟩
    · rfl
    · simp only [Option.map_some, sideOf_scale hk]
      split_ifs
      · rw [Option.map_map]
        rfl
      · rfl

theorem SlowAndFastAverage.scale_new (k : ℚ) (slowInterval fastInterval : Milliseconds) :
    (new slowInterval fastInterval).scale k = new slowInterval fastInterval := by
  simp [SlowAndFastAverage.scale, SlowAndFastAverage.new, SimpleMovingAverage.scale,
    SimpleMovingAverage.new]

theorem DoubleSmaStrategy.signals_scale (hk : 0 < k) (config : DoubleSmaStrategyConfig)
    (pts : List (Milliseconds × ℚ)) :
    signals config (pts.map (scalePoint k)) = (signals config pts).map (EntrySignal.scale k) := by
  have hnew : (new config).scale k = new config := by
    simp only [DoubleSmaStrategy.scale, new, scale_new, Option.map_none]
  rw [signals, ← hnew]
  refine outputs_map _ _ _ (fun s p => ?_) (fun s p => ?_) (new config) pts
  · rw [step, pushPrice_scale hk]
    rfl
  · rw [pushPrice_scale hk, Option.toList_map]

theorem DSMADiffStrategy.signals_scale (hk : 0 < k) (config : DSMADiffStrategyConfig)
    (pts : List (Milliseconds × ℚ)) :
    signals config (pts.map (scalePoint k)) = (signals config pts).map (EntrySignal.scale k) := by
  have hnew : (new config).scale k = new config := by
    simp [DSMADiffStrategy.scale, new, TimeWeightedMovingAverage.scale,
      TimeWeightedMovingAverage.new]
  rw [signals, ← hnew]
  refine outputs_map _ _ _ (fun s p => ?_) (fun s p => ?_) (new config) pts
  · rw [step, pushPrice_scale hk]
    rfl
  · rw [pushPrice_scale hk, Option.toList_map]

end Scale

/-- With prices in another unit both strategies try the same orders, at the prices in this unit. -/
theorem signals_of_scaled (doubleSma : DoubleSmaStrategyConfig) (diff : DSMADiffStrategyConfig)
    (pts : List (Milliseconds × ℚ)) (k : ℚ) (hk : 0 < k) :
    DoubleSmaStrategy.signals doubleSma (pts.map (scalePoint k)) =
        (DoubleSmaStrategy.signals doubleSma pts).map (EntrySignal.scale k) ∧
      DSMADiffStrategy.signals diff (pts.map (scalePoint k)) =
        (DSMADiffStrategy.signals diff pts).map (EntrySignal.scale k) :=
  ⟨DoubleSmaStrategy.signals_scale hk doubleSma pts, DSMADiffStrategy.signals_scale hk diff pts⟩

/-- A price that falls and rises again, in a hundredth of the unit. -/
theorem signals_of_scaled_cents :
    let pts : List (Milliseconds × ℚ) :=
      [(0, 10), (1, 11), (2, 12), (3, 13), (4, 9), (5, 8), (6, 7), (7, 12), (8, 15)]
    DoubleSmaStrategy.signals ⟨2, 1⟩ (pts.map (scalePoint 100)) =
        [⟨.sell, 900, 4⟩, ⟨.buy, 1200, 7⟩] ∧
      DSMADiffStrategy.signals ⟨2, 1, 10⟩ (pts.map (scalePoint 100)) =
        [⟨.sell, 800, 5⟩, ⟨.buy, 1500, 8⟩] := by
  intro pts
  obtain ⟨hdouble, hdiff⟩ := signals_of_scaled ⟨2, 1⟩ ⟨2, 1, 10⟩ pts 100 (by norm_num)
  exact ⟨hdouble.trans (by decide +kernel), hdiff.trans (by decide +kernel)⟩

end CryptoTrading

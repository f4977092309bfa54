import CryptoTrading.Optimizer.Collector
import CryptoTrading.Lib.KeyedSum

/-! # The worker threads of the optimizer

Each thread claims the next config with an atomic counter, runs it and pushes the result
under the lock of the collector. Whatever the order of their steps, every config is run
once and the collector ends with the best result.
-/

namespace CryptoTrading

open Runs

/-- Where a thread is in the loop of `thread_callback`. -/
inductive Worker (Config : Type*)
  /-- Before `input_iter.fetch_add(1)`. -/
  | claiming
  | claimed (i : ℕ)
  | running (i : ℕ) (config : Config)
  | evaluated (i : ℕ) (config : Config) (result : StrategyResult)
  | locked (i : ℕ) (config : Config) (result : StrategyResult)
  | pushed
  | reported
  | finished
  deriving DecidableEq

structure Optimizer (Config : Type*) (threads : ℕ) where
  inputIter : ℕ := 0
  outputIter : ℕ := 0
  collector : OptimizerCollector Config
  /-- The thread that holds the lock of the collector. -/
  lockedBy : Option (Fin threads) := none
  workers : Fin threads → Worker Config := fun _ => .claiming
  /-- The configs run so far, by number. -/
  evaluatedLog : List ℕ := []
  pushedLog : List ℕ := []
  /-- The calls of `m_on_passed_check` by the threads. -/
  passedChecks : List ℕ := []

namespace Optimizer

variable {Config : Type*} {threads : ℕ}

def init (criteria : StrategyResult → ℚ) (filters : List (StrategyResult → Bool)) :
    Optimizer Config threads where
  collector := { criteria, filters }

def setWorker (s : Optimizer Config threads) (k : Fin threads) (w : Worker Config) :
    Optimizer Config threads :=
  { s with workers := Function.update s.workers k w }

variable (configs : List Config) (run : Config → StrategyResult)

/-- One atomic step of a thread, which may have to wait for the lock. -/
def step (s : Optimizer Config threads) (k : Fin threads) : Optimizer Config threads :=
  match s.workers k with
  | .claiming => { s.setWorker k (.claimed s.inputIter) with inputIter := s.inputIter + 1 }
  | .claimed i =>
    match configs[i]? with
    | some config => s.setWorker k (.running i config)
    | none => s.setWorker k .finished
  | .running i config =>
    { s.setWorker k (.evaluated i config (run config)) with
      evaluatedLog := s.evaluatedLog ++ [i] }
  | .evaluated i config result =>
    if s.lockedBy = none then
      { s.setWorker k (.locked i config result) with lockedBy := some k }
    else s
  | .locked i config result =>
    { s.setWorker k .pushed with
      collector := (s.collector.push config result).1
      pushedLog := s.pushedLog ++ [i] }
  | .pushed =>
    { s.setWorker k .reported with
      outputIter := s.outputIter + 1
      passedChecks := s.passedChecks ++ [s.outputIter] }
  | .reported => { s.setWorker k .claiming with lockedBy := none }
  | .finished => s

/-- The threads that `optimize` joins have all returned. -/
def Finished (s : Optimizer Config threads) : Prop := ∀ k, s.workers k = .finished

def toRun : Worker Config → Multiset ℕ
  | .claimed i => if i < configs.length then {i} else 0
  | .running i _ => {i}
  | _ => 0

def toPush : Worker Config → Multiset ℕ
  | .evaluated i _ _ => {i}
  | .locked i _ _ => {i}
  | _ => 0

def Working (inputIter : ℕ) : Worker Config → Prop
  | .claimed i => i < inputIter
  | .running i config => configs[i]? = some config
  | .evaluated i config result => configs[i]? = some config ∧ result = run config
  | .locked i config result => configs[i]? = some config ∧ result = run config
  | .finished => configs.length < inputIter
  | _ => True

/-- The thread is between `collector.lock()` and the end of the loop's body. -/
def HasLock : Worker Config → Prop
  | .locked _ _ _ => True
  | .pushed => True
  | .reported => True
  | _ => False

def results (is : List ℕ) : List (Config × StrategyResult) :=
  is.filterMap fun i => configs[i]?.map fun config => (config, run config)

/-- Every number handed out is on its way, or its result is pushed. -/
structure Accounted (s : Optimizer Config threads) : Prop where
  working : ∀ k, Working configs run s.inputIter (s.workers k)
  runs : (s.evaluatedLog : Multiset ℕ) + ∑ k, toRun configs (s.workers k) =
    Multiset.range (min s.inputIter configs.length)
  pushes : (s.pushedLog : Multiset ℕ) + ∑ k, toPush (s.workers k) = (s.evaluatedLog : Multiset ℕ)
  best : s.collector.HoldsBest (results configs run s.pushedLog)

/-- One thread at most is inside the critical section, and reports in order. -/
structure Exclusive (s : Optimizer Config threads) : Prop where
  lock : ∀ k, HasLock (s.workers k) ↔ s.lockedBy = some k
  passed : s.passedChecks = List.range s.outputIter

variable {configs run} {s : Optimizer Config threads} {k : Fin threads} {w : Worker Config}
  {criteria : StrategyResult → ℚ} {filters : List (StrategyResult → Bool)}

theorem workers_setWorker_self : (s.setWorker k w).workers k = w := Function.update_self ..

theorem workers_setWorker_of_ne {j : Fin threads} (h : j ≠ k) :
    (s.setWorker k w).workers j = s.workers j := Function.update_of_ne h ..

section Sum

variable {M : Type*} [AddCancelCommMonoid M] {g : Worker Config → M} {a b : M}
  (h : a + ∑ j, g (s.workers j) = b)

include h

theorem sum_setWorker (w : Worker Config) :
    a + ∑ j, g ((s.setWorker k w).workers j) + g (s.workers k) = b + g w := by
  rw [add_assoc, setWorker, KeyedSum.sum_update_add s.workers g k w, ← add_assoc, h]

theorem sum_keeps {c : M} (hold : g (s.workers k) = c) (hnew : g w = c) :
    a + ∑ j, g ((s.setWorker k w).workers j) = b :=
  add_right_cancel ((sum_setWorker h w).trans (by rw [hold, hnew]))

theorem sum_takes {c : M} (hold : g (s.workers k) = 0) (hnew : g w = c) :
    a + ∑ j, g ((s.setWorker k w).workers j) = b + c := by
  rw [← hnew, ← sum_setWorker (k := k) h w, hold, add_zero]

theorem sum_gives {c : M} (hold : g (s.workers k) = c) (hnew : g w = 0) :
    a + c + ∑ j, g ((s.setWorker k w).workers j) = b := by
  rw [add_right_comm, ← hold, sum_setWorker h w, hnew, add_zero]

end Sum

theorem forall_setWorker {P : Worker Config → Prop} (h : ∀ j, P (s.workers j)) (hw : P w) :
    ∀ j, P ((s.setWorker k w).workers j) := by
  intro j
  by_cases hj : j = k
  · rw [hj, workers_setWorker_self]
    exact hw
  · rw [workers_setWorker_of_ne hj]
    exact h j

theorem Working.mono {n m : ℕ} (h : Working configs run n w) (hle : n ≤ m) :
    Working configs run m w := by
  cases w with
  | claimed i => exact Nat.lt_of_lt_of_le h hle
  | finished => exact Nat.lt_of_lt_of_le h hle
  | claiming => trivial
  | pushed => trivial
  | reported => trivial
  | running i config => exact h
  | evaluated i config result => exact h
  | locked i config result => exact h

theorem init_accounted :
    (init criteria filters : Optimizer Config threads).Accounted configs run := by
  refine ⟨fun _ => trivial, ?_, ?_, OptimizerCollector.holdsBest_nil criteria filters⟩
  · simp [init, toRun]
  · simp [init, toPush]

theorem init_exclusive : (init criteria filters : Optimizer Config threads).Exclusive :=
  ⟨fun _ => by simp [init, HasLock], rfl⟩

theorem results_concat {is : List ℕ} {i : ℕ} {config : Config} (h : configs[i]? = some config) :
    results configs run (is ++ [i]) = results configs run is ++ [(config, run config)] := by
  simp [results, h]

theorem range_claim (i : ℕ) :
    Multiset.range (min i configs.length) + toRun configs (.claimed i : Worker Config) =
      Multiset.range (min (i + 1) configs.length) := by
  simp only [toRun]
  split_ifs with h
  · rw [min_eq_left h.le, min_eq_left h, Multiset.range_succ, add_comm, Multiset.singleton_add]
  · rw [min_eq_right (not_lt.mp h), min_eq_right (by omega), add_zero]

theorem coe_concat (is : List ℕ) (i : ℕ) :
    ((is ++ [i] : List ℕ) : Multiset ℕ) = (is : Multiset ℕ) + {i} := by
  rw [← Multiset.coe_add, Multiset.coe_singleton]

theorem Accounted.step (h : s.Accounted configs run) (k : Fin threads) :
    (s.step configs run k).Accounted configs run := by
  obtain ⟨hwork, hruns, hpushes, hbest⟩ := h
  have hk := hwork k
  -- what the thread holds before and after, by the phase it is in
  have hold (g : Worker Config → Multiset ℕ) {w : Worker Config} (hw : s.workers k = w) :
      g (s.workers k) = g w := congrArg g hw
  cases hw : s.workers k with (simp only [Optimizer.step, hw]; rw [hw] at hk)
  | claiming =>
    refine ⟨?_, ?_, sum_keeps hpushes (hold _ hw) rfl, hbest⟩
    · exact forall_setWorker (fun j => (hwork j).mono (Nat.le_succ _)) (Nat.lt_succ_self _)
    · exact (sum_takes hruns (hold _ hw) rfl).trans (range_claim _)
  | claimed i =>
    split
    case h_1 config hconfig =>
      have hlt := (List.getElem?_eq_some_iff.mp hconfig).1
      exact ⟨forall_setWorker hwork hconfig,
        sum_keeps hruns ((hold _ hw).trans (if_pos hlt)) rfl,
        sum_keeps hpushes (hold _ hw) rfl, hbest⟩
    case h_2 hnone =>
      have hge := List.getElem?_eq_none_iff.mp hnone
      exact ⟨forall_setWorker hwork (lt_of_le_of_lt hge hk),
        sum_keeps hruns ((hold _ hw).trans (if_neg hge.not_gt)) rfl,
        sum_keeps hpushes (hold _ hw) rfl, hbest⟩
  | running i config =>
    refine ⟨forall_setWorker hwork ⟨hk, rfl⟩, ?_, ?_, hbest⟩
    · rw [coe_concat]
      exact sum_gives hruns (hold _ hw) rfl
    · rw [coe_concat]
      exact sum_takes hpushes (hold _ hw) rfl
  | evaluated i config result =>
    split
    case isTrue =>
      exact ⟨forall_setWorker hwork hk, sum_keeps hruns (hold _ hw) rfl,
        sum_keeps hpushes (hold _ hw) rfl, hbest⟩
    case isFalse => exact ⟨hwork, hruns, hpushes, hbest⟩
  | locked i config result =>
    obtain ⟨hconfig, rfl⟩ := hk
    refine ⟨forall_setWorker hwork trivial, sum_keeps hruns (hold _ hw) rfl, ?_, ?_⟩
    · rw [coe_concat]
      exact sum_gives hpushes (hold _ hw) rfl
    · rw [results_concat hconfig]
      exact hbest.push
  | pushed =>
    exact ⟨forall_setWorker hwork trivial, sum_keeps hruns (hold _ hw) rfl,
      sum_keeps hpushes (hold _ hw) rfl, hbest⟩
  | reported =>
    exact ⟨forall_setWorker hwork trivial, sum_keeps hruns (hold _ hw) rfl,
      sum_keeps hpushes (hold _ hw) rfl, hbest⟩
  | finished => exact ⟨hwork, hruns, hpushes, hbest⟩

theorem lock_setWorker {L : Option (Fin threads)} (h : ∀ j, HasLock (s.workers j) ↔ L = some j)
    (hw : HasLock w ↔ HasLock (s.workers k)) :
    ∀ j, HasLock ((s.setWorker k w).workers j) ↔ L = some j := by
  intro j
  by_cases hj : j = k
  · rw [hj, workers_setWorker_self, hw]
    exact h k
  · rw [workers_setWorker_of_ne hj]
    exact h j

theorem Exclusive.step (h : s.Exclusive) (k : Fin threads) : (s.step configs run k).Exclusive := by
  obtain ⟨hlock, hpassed⟩ := h
  have hold {w w' : Worker Config} (hw : s.workers k = w) (he : HasLock w' ↔ HasLock w) :
      ∀ j, HasLock ((s.setWorker k w').workers j) ↔ s.lockedBy = some j :=
    lock_setWorker hlock (by rw [hw, he])
  cases hw : s.workers k with simp only [Optimizer.step, hw]
  | claiming => exact ⟨hold hw Iff.rfl, hpassed⟩
  | claimed i =>
    split
    case h_1 => exact ⟨hold hw Iff.rfl, hpassed⟩
    case h_2 => exact ⟨hold hw Iff.rfl, hpassed⟩
  | running i config => exact ⟨hold hw Iff.rfl, hpassed⟩
  | evaluated i config result =>
    split
    case isTrue hnone =>
      refine ⟨fun j => ?_, hpassed⟩
      by_cases hj : j = k
      · simp [hj, workers_setWorker_self, HasLock]
      · have := hlock j
        simpa [hnone, workers_setWorker_of_ne hj, Ne.symm hj] using this
    case isFalse => exact ⟨hlock, hpassed⟩
  | locked i config result => exact ⟨hold hw Iff.rfl, hpassed⟩
  | pushed =>
    refine ⟨hold hw Iff.rfl, ?_⟩
    simp only [hpassed, List.range_succ]
  | reported =>
    have hk : s.lockedBy = some k := (hlock k).mp (by rw [hw]; trivial)
    refine ⟨fun j => ?_, hpassed⟩
    by_cases hj : j = k
    · simp [hj, workers_setWorker_self, HasLock]
    · have := hlock j
      simpa [hk, workers_setWorker_of_ne hj, Ne.symm hj] using this
  | finished => exact ⟨hlock, hpassed⟩

/-- The steps that a thread takes at most until it claims the next number or returns. -/
def weight (configs : List Config) : Worker Config → ℕ
  | .claiming => 2
  | .claimed i => if i < configs.length then 9 else 1
  | .running _ _ => 8
  | .evaluated _ _ _ => 7
  | .locked _ _ _ => 6
  | .pushed => 5
  | .reported => 4
  | .finished => 0

/-- What is left to do: the numbers not claimed yet and the steps of the threads. -/
def measure (configs : List Config) (s : Optimizer Config threads) : ℕ :=
  8 * (configs.length - s.inputIter) + ∑ k, weight configs (s.workers k)

def Waits (s : Optimizer Config threads) (k : Fin threads) : Prop :=
  (∃ i config result, s.workers k = .evaluated i config result) ∧ s.lockedBy ≠ none

theorem sum_weight (configs : List Config) (s : Optimizer Config threads) (k : Fin threads)
    (w : Worker Config) :
    ∑ j, weight configs ((s.setWorker k w).workers j) + weight configs (s.workers k) =
      ∑ j, weight configs (s.workers j) + weight configs w := by
  rw [← zero_add (∑ j, weight configs ((s.setWorker k w).workers j))]
  exact sum_setWorker (zero_add _) w

theorem measure_setWorker_lt (h : weight configs w < weight configs (s.workers k)) :
    (s.setWorker k w).measure configs < s.measure configs := by
  have hsum := sum_weight configs s k w
  have hiter : (s.setWorker k w).inputIter = s.inputIter := rfl
  unfold measure
  omega

/-- Every step of a thread that does not wait and has not returned leaves less to do. -/
theorem step_measure_lt (hne : s.workers k ≠ .finished) (hwait : ¬ s.Waits k) :
    (s.step configs run k).measure configs < s.measure configs := by
  have hlt {w w' : Worker Config} (hw : s.workers k = w)
      (h : weight configs w' < weight configs w) :
      (s.setWorker k w').measure configs < s.measure configs :=
    measure_setWorker_lt (by rwa [hw])
  cases hw : s.workers k with simp only [Optimizer.step, hw]
  | claiming =>
    have hsum := sum_weight configs s k (.claimed s.inputIter)
    have hk : weight configs (s.workers k) = 2 := by rw [hw, weight]
    have hnew : weight configs (.claimed s.inputIter : Worker Config) =
        if s.inputIter < configs.length then 9 else 1 := rfl
    change 8 * (configs.length - (s.inputIter + 1)) +
      ∑ j, weight configs ((s.setWorker k (.claimed s.inputIter)).workers j) <
        8 * (configs.length - s.inputIter) + ∑ j, weight configs (s.workers j)
    split_ifs at hnew <;> omega
  | claimed i =>
    split
    case h_1 config hconfig =>
      refine hlt hw ?_
      simp [weight, (List.getElem?_eq_some_iff.mp hconfig).1]
    case h_2 hnone =>
      refine hlt hw ?_
      simp [weight, (List.getElem?_eq_none_iff.mp hnone).not_gt]
  | running i config => exact hlt hw (by simp [weight])
  | evaluated i config result =>
    split
    case isTrue => exact hlt hw (by simp [weight])
    case isFalse hlock => exact absurd ⟨⟨i, config, result, hw⟩, hlock⟩ hwait
  | locked i config result => exact hlt hw (by simp [weight])
  | pushed => exact hlt hw (by simp [weight])
  | reported => exact hlt hw (by simp [weight])
  | finished => exact absurd hw hne

/-- Some thread can go on until all have returned: the one that holds the lock, or any other. -/
theorem Exclusive.exists_step (h : s.Exclusive) (configs : List Config)
    (run : Config → StrategyResult) (hn : ¬ s.Finished) :
    ∃ k, (s.step configs run k).measure configs < s.measure configs := by
  cases hlock : s.lockedBy with
  | some k =>
    have hk : HasLock (s.workers k) := (h.lock k).mpr hlock
    refine ⟨k, step_measure_lt ?_ ?_⟩
    · intro hw
      rw [hw] at hk
      exact hk
    · rintro ⟨⟨i, config, result, hw⟩, -⟩
      rw [hw] at hk
      exact hk
  | none =>
    obtain ⟨k, hk⟩ := not_forall.mp hn
    exact ⟨k, step_measure_lt hk fun hwait => hwait.2 hlock⟩

theorem Exclusive.exists_finished (s : Optimizer Config threads) (h : s.Exclusive) :
    ∃ rest, (after (Optimizer.step configs run) s rest).Finished := by
  induction hm : s.measure configs using Nat.strong_induction_on generalizing s with
  | _ m ih =>
    by_cases hn : s.Finished
    · exact ⟨[], hn⟩
    · obtain ⟨k, hlt⟩ := h.exists_step configs run hn
      obtain ⟨rest, hrest⟩ := ih _ (hm ▸ hlt) _ (h.step k) rfl
      exact ⟨k :: rest, hrest⟩

@[simp] theorem step_criteria :
    (s.step configs run k).collector.criteria = s.collector.criteria := by
  unfold step
  split <;> (try split) <;> simp [setWorker]

@[simp] theorem step_filters :
    (s.step configs run k).collector.filters = s.collector.filters := by
  unfold step
  split <;> (try split) <;> simp [setWorker]

theorem run_invariant (configs : List Config) (run : Config → StrategyResult)
    (criteria : StrategyResult → ℚ) (filters : List (StrategyResult → Bool))
    (schedule : List (Fin threads)) :
    let s := after (step configs run) (init criteria filters) schedule
    s.Accounted configs run ∧ s.Exclusive ∧ s.collector.criteria = criteria ∧
      s.collector.filters = filters := by
  induction schedule using List.reverseRecOn with
  | nil => exact ⟨init_accounted, init_exclusive, rfl, rfl⟩
  | append_singleton ks k ih =>
    obtain ⟨ha, he, hc, hf⟩ := ih
    rw [after_concat]
    exact ⟨ha.step k, he.step k, step_criteria.trans hc, step_filters.trans hf⟩

theorem Accounted.finished (h : s.Accounted configs run) (hf : s.Finished) (ht : 1 ≤ threads) :
    s.evaluatedLog.Perm (List.range configs.length) ∧ s.pushedLog.Perm s.evaluatedLog := by
  have hiter : configs.length < s.inputIter := by
    have := h.working ⟨0, ht⟩
    rwa [hf] at this
  have hruns := h.runs
  have hpushes := h.pushes
  simp only [hf _, toRun, toPush, Finset.sum_const_zero, add_zero] at hruns hpushes
  rw [min_eq_right hiter.le] at hruns
  exact ⟨Multiset.coe_eq_coe.mp hruns, Multiset.coe_eq_coe.mp hpushes⟩

theorem mem_results {is : List ℕ} (h : is.Perm (List.range configs.length))
    (x : Config × StrategyResult) :
    x ∈ results configs run is ↔ ∃ config ∈ configs, (config, run config) = x := by
  unfold results
  simp only [List.mem_filterMap, Option.map_eq_some_iff, h.mem_iff, List.mem_range]
  constructor
  · rintro ⟨i, -, config, hconfig, hx⟩
    exact ⟨config, List.mem_of_getElem? hconfig, hx⟩
  · rintro ⟨config, hmem, hx⟩
    obtain ⟨i, hi⟩ := List.mem_iff_getElem?.mp hmem
    exact ⟨i, (List.getElem?_eq_some_iff.mp hi).1, config, hi, hx⟩

/--
Whatever the order of the threads' steps, they can all return, and once they have every config
was run just once and the best one is a config of the highest score among the acceptable
results, or none if there is no such result.
-/
theorem optimize_best (configs : List Config) (run : Config → StrategyResult)
    (criteria : StrategyResult → ℚ) (filters : List (StrategyResult → Bool)) (threads : ℕ)
    (ht : 1 ≤ threads) (schedule : List (Fin threads)) :
    let s := after (step configs run) (init criteria filters) schedule
    (∃ rest, (after (step configs run) s rest).Finished) ∧
    (s.Finished →
      s.evaluatedLog.Perm (List.range configs.length) ∧
      (s.collector.best = none ↔ ∀ config ∈ configs, ¬ Acceptable criteria filters (run config)) ∧
      ∀ best, s.collector.best = some best →
        best ∈ configs ∧ Acceptable criteria filters (run best) ∧
        ∀ config ∈ configs, Acceptable criteria filters (run config) →
          criteria (run config) ≤ criteria (run best)) := by
  intro s
  obtain ⟨ha, he, hcriteria, hfilters⟩ := run_invariant configs run criteria filters schedule
  refine ⟨he.exists_finished, fun hf => ?_⟩
  obtain ⟨hruns, hpushes⟩ := ha.finished hf ht
  have hmem : ∀ x, x ∈ results configs run s.pushedLog ↔ _ :=
    mem_results (hpushes.trans hruns)
  have hbest := ha.best
  refine ⟨hruns, ?_, fun best hsome => ?_⟩
  · rw [hbest.best_eq_none_iff, hcriteria, hfilters]
    constructor
    · intro h config hconfig
      exact h _ ((hmem _).mpr ⟨config, hconfig, rfl⟩)
    · intro h x hx
      obtain ⟨config, hconfig, rfl⟩ := (hmem x).mp hx
      exact h config hconfig
  · obtain ⟨x, hx, rfl, hacc, hscore⟩ := hbest.some best hsome
    obtain ⟨config, hconfig, rfl⟩ := (hmem _).mp hx
    rw [hcriteria, hfilters] at hacc
    refine ⟨hconfig, hacc, fun config' hconfig' hacc' => ?_⟩
    have := hbest.score _ ((hmem _).mpr ⟨config', hconfig', rfl⟩) (by rwa [hcriteria, hfilters])
    rwa [← hscore, hcriteria] at this

/-- Two threads that take turns; the second waits once for the lock. -/
theorem optimize_best_two_threads :
    let run (config : ℚ) : StrategyResult := { finalProfit := config }
    let schedule : List (Fin 2) :=
      [0, 1, 0, 1, 0, 1, 0, 1, 0, 0, 0, 1, 1, 1, 1, 0, 0, 1, 1]
    1 ≤ 2 ∧ (after (step [3, 7] run) (init bestProfitCriteria []) schedule).evaluatedLog.Perm
        (List.range 2) ∧
      (after (step [3, 7] run) (init bestProfitCriteria []) schedule).collector.best = some 7 := by
  intro run schedule
  have ht : 1 ≤ 2 := one_le_two
  have hf : (after (step [3, 7] run) (init bestProfitCriteria []) schedule).Finished := by
    have hworkers : ∀ k, (after (step [3, 7] run) (init bestProfitCriteria []) schedule).workers k =
        .finished := by decide +kernel
    exact hworkers
  have hspec := optimize_best [3, 7] run bestProfitCriteria [] 2 ht schedule
  exact ⟨ht, (hspec.2 hf).1, by decide +kernel⟩

end Optimizer

end CryptoTrading

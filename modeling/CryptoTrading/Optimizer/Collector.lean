import CryptoTrading.Instance.Results

/-! # The collector of the optimizer

It keeps the config of the best result pushed so far. A result with a negative score or
one that a filter rejects never counts, and an equal score does not replace the best.
-/

namespace CryptoTrading

/-- The criteria and the filters are interfaces; the optimizer never looks into a config. -/
structure OptimizerCollector (Config : Type*) where
  criteria : StrategyResult → ℚ
  filters : List (StrategyResult → Bool)
  bestScore : ℚ := -1
  best : Option Config := none

def bestProfitCriteria (result : StrategyResult) : ℚ := result.finalProfit

def Acceptable (criteria : StrategyResult → ℚ) (filters : List (StrategyResult → Bool))
    (result : StrategyResult) : Prop :=
  0 ≤ criteria result ∧ ∀ filter ∈ filters, filter result

namespace OptimizerCollector

variable {Config : Type*}

def push (c : OptimizerCollector Config) (config : Config) (result : StrategyResult) :
    OptimizerCollector Config × Bool :=
  let score := c.criteria result
  if score < 0 then (c, false)
  else if ¬ c.filters.all (· result) then (c, false)
  else if score ≤ c.bestScore then (c, false)
  else ({ c with bestScore := score, best := some config }, true)

variable {c : OptimizerCollector Config} {config : Config} {result : StrategyResult}
  {xs : List (Config × StrategyResult)}

@[simp] theorem push_criteria : (c.push config result).1.criteria = c.criteria := by
  unfold push
  simp only
  split_ifs <;> rfl

@[simp] theorem push_filters : (c.push config result).1.filters = c.filters := by
  unfold push
  simp only
  split_ifs <;> rfl

/-- The collector holds an acceptable result of the best score, and none only without any. -/
structure HoldsBest (c : OptimizerCollector Config) (xs : List (Config × StrategyResult)) :
    Prop where
  score : ∀ x ∈ xs, Acceptable c.criteria c.filters x.2 → c.criteria x.2 ≤ c.bestScore
  none : c.best = none → c.bestScore = -1
  some : ∀ config, c.best = some config →
    ∃ x ∈ xs, x.1 = config ∧ Acceptable c.criteria c.filters x.2 ∧
      c.criteria x.2 = c.bestScore

theorem holdsBest_nil (criteria : StrategyResult → ℚ) (filters : List (StrategyResult → Bool)) :
    (⟨criteria, filters, -1, .none⟩ : OptimizerCollector Config).HoldsBest [] :=
  ⟨by simp, fun _ => rfl, by simp⟩

theorem push_cases (c : OptimizerCollector Config) (config : Config) (result : StrategyResult) :
    ((c.push config result).1 = c ∧
      (Acceptable c.criteria c.filters result → c.criteria result ≤ c.bestScore)) ∨
    ((c.push config result).1 =
        { c with bestScore := c.criteria result, best := .some config } ∧
      Acceptable c.criteria c.filters result ∧ c.bestScore < c.criteria result) := by
  unfold push
  by_cases hneg : c.criteria result < 0
  · refine .inl ⟨by simp [hneg], fun ha => absurd hneg ha.1.not_gt⟩
  by_cases hfilters : c.filters.all (· result)
  · by_cases hle : c.criteria result ≤ c.bestScore
    · exact .inl ⟨by simp [hneg, hfilters, hle], fun _ => hle⟩
    · refine .inr ⟨by simp [hneg, hfilters, hle], ⟨not_lt.mp hneg, ?_⟩, not_le.mp hle⟩
      simpa using hfilters
  · refine .inl ⟨by simp [hneg, hfilters], fun ha => absurd ?_ hfilters⟩
    simpa using ha.2

theorem HoldsBest.push (h : c.HoldsBest xs) :
    (c.push config result).1.HoldsBest (xs ++ [(config, result)]) := by
  obtain ⟨heq, hle⟩ | ⟨heq, ha, hlt⟩ := c.push_cases config result
  · rw [heq]
    refine ⟨fun x hx hax => ?_, h.none, fun best hbest => ?_⟩
    · rcases List.mem_append.mp hx with hx | hx
      · exact h.score x hx hax
      · obtain rfl := List.mem_singleton.mp hx
        exact hle hax
    · obtain ⟨x, hx, hspec⟩ := h.some best hbest
      exact ⟨x, List.mem_append_left _ hx, hspec⟩
  · rw [heq]
    refine ⟨fun x hx hax => ?_, by simp, fun best hbest => ?_⟩
    · rcases List.mem_append.mp hx with hx | hx
      · exact (h.score x hx hax).trans hlt.le
      · obtain rfl := List.mem_singleton.mp hx
        exact le_rfl
    · obtain rfl := Option.some.inj hbest
      exact ⟨(config, result), by simp, rfl, ha, rfl⟩

theorem HoldsBest.best_eq_none_iff (h : c.HoldsBest xs) :
    c.best = .none ↔ ∀ x ∈ xs, ¬ Acceptable c.criteria c.filters x.2 := by
  constructor
  · intro hnone x hx ha
    have := h.score x hx ha
    rw [h.none hnone] at this
    linarith [ha.1]
  · intro hno
    rw [Option.eq_none_iff_forall_not_mem]
    intro config hbest
    obtain ⟨x, hx, -, ha, -⟩ := h.some config hbest
    exact hno x hx ha

end OptimizerCollector

end CryptoTrading

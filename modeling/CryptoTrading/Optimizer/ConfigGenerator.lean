import CryptoTrading.Lib.Odometer
import CryptoTrading.Lib.OrderedMap
import Mathlib.Algebra.Order.Floor.Semiring
import Mathlib.Data.Rat.Floor
import Mathlib.Data.String.Basic
import Mathlib.Tactic.Linarith

/-! # The configs of the optimizer

The values of the parameters turn like the wheels of an odometer, in the order of their names.
A parameter that is not optimized has a step to its limit.
-/

namespace CryptoTrading

open Odometer OrderedMap

structure ParameterMeta where
  name : String
  minValue : ℚ
  maxValue : ℚ
  step : ℚ
  deriving DecidableEq

/-- The object of the config, whose values are numbers. -/
abbrev JsonStrategyConfig := List (String × ℚ)

structure StrategyOptimizerInputs where
  parameters : List ParameterMeta
  currentConfig : JsonStrategyConfig
  optimizableParameters : List String

structure ParameterLimits where
  min : ℚ
  step : ℚ
  max : ℚ
  deriving DecidableEq

namespace OptimizerParser

/-- `limits_map` and `current_values_map`. -/
structure Maps where
  limits : List (String × ParameterLimits) := []
  currentValues : List (String × ℚ) := []
  deriving DecidableEq

variable (inputs : StrategyOptimizerInputs)

/-- `none` where the current config has no number of the name. -/
def limitsOf (param : ParameterMeta) : Option ParameterLimits :=
  if param.name ∈ inputs.optimizableParameters then
    some ⟨param.minValue, param.step, param.maxValue⟩
  else
    (inputs.currentConfig.lookup param.name).map fun minValue =>
      ⟨minValue, param.step, minValue + param.step⟩

def addParam (maps : Maps) (param : ParameterMeta) : Option Maps :=
  (limitsOf inputs param).map fun limits => {
    limits := insertOrAssign param.name limits maps.limits
    currentValues := insertOrAssign param.name limits.min maps.currentValues }

/-- The flag and the values after it. A name without limits gets zeros. -/
def incrementCurrentParam (limits : List (String × ParameterLimits)) :
    List (String × ℚ) → Bool × List (String × ℚ)
  | [] => (false, [])
  | (name, value) :: values =>
    let limit := (limits.lookup name).getD ⟨0, 0, 0⟩
    let value := value + limit.step
    if value < limit.max then (true, (name, value) :: values)
    else
      let rest := incrementCurrentParam limits values
      (rest.1, (name, limit.min) :: rest.2)

def collect (limits : List (String × ParameterLimits)) :
    ℕ → List (String × ℚ) → Option (List JsonStrategyConfig)
  | 0, _ => none
  | fuel + 1, currentValues =>
    let next := incrementCurrentParam limits currentValues
    if next.1 then (collect limits fuel next.2).map (currentValues :: ·)
    else some [currentValues]

def getPossibleConfigs (fuel : ℕ) : Option (List JsonStrategyConfig) := do
  let maps ← inputs.parameters.foldlM (addParam inputs) {}
  collect maps.limits fuel maps.currentValues

def IsValue (param : ParameterMeta) (value : ℚ) : Prop :=
  if param.name ∈ inputs.optimizableParameters then
    value = param.minValue ∨
      ∃ k : ℕ, 1 ≤ k ∧ value = param.minValue + k * param.step ∧ value < param.maxValue
  else inputs.currentConfig.lookup param.name = some value

/-- A config with a value of each parameter, in the order of the names. -/
structure IsChoice (config : JsonStrategyConfig) : Prop where
  ordered : Ordered config
  names : ∀ name, name ∈ config.map Prod.fst ↔ name ∈ inputs.parameters.map ParameterMeta.name
  values : ∀ param ∈ inputs.parameters, ∀ value, (param.name, value) ∈ config →
    IsValue inputs param value

def stepCount (limits : ParameterLimits) : ℕ := ⌈(limits.max - limits.min) / limits.step⌉₊ - 1

def valuesOf (limits : ParameterLimits) : List ℚ :=
  (List.range (stepCount limits + 1)).map fun k : ℕ => limits.min + k * limits.step

/-- A parameter as a wheel, whose positions are its name with the values. -/
def wheel (entry : String × ParameterLimits) : Wheel (String × ℚ) where
  first := (entry.1, entry.2.min)
  next p := if p.2 + entry.2.step < entry.2.max then some (p.1, p.2 + entry.2.step) else none

def positions (entry : String × ParameterLimits) : List (String × ℚ) :=
  (valuesOf entry.2).map fun value => (entry.1, value)

variable {inputs} {limits : ParameterLimits} {param : ParameterMeta} {value : ℚ}
  {entry : String × ParameterLimits} {entries limitsMap : List (String × ParameterLimits)}
  {current : List (String × ℚ)} {k : ℕ}

theorem le_stepCount_iff (hstep : 0 < limits.step) :
    k ≤ stepCount limits ↔ k = 0 ∨ limits.min + k * limits.step < limits.max := by
  rw [← lt_sub_iff_add_lt', ← lt_div_iff₀ hstep, ← Nat.lt_ceil, stepCount]
  omega

theorem mem_valuesOf_iff (hstep : 0 < limits.step) : value ∈ valuesOf limits ↔
    value = limits.min ∨ ∃ k : ℕ, 1 ≤ k ∧ value = limits.min + k * limits.step ∧
      value < limits.max := by
  simp only [valuesOf, List.mem_map, List.mem_range, Nat.lt_succ_iff, le_stepCount_iff hstep]
  constructor
  · rintro ⟨k, hk, rfl⟩
    rcases eq_or_ne k 0 with rfl | hne
    · exact .inl (by simp)
    · exact .inr ⟨k, Nat.one_le_iff_ne_zero.mpr hne, rfl, hk.resolve_left hne⟩
  · rintro (rfl | ⟨k, -, rfl, hk⟩)
    · exact ⟨0, .inl rfl, by simp⟩
    · exact ⟨k, .inr hk, rfl⟩

theorem nodup_valuesOf (hstep : 0 < limits.step) : (valuesOf limits).Nodup := by
  refine List.nodup_range.map fun k k' hvalue => ?_
  have hmul : (k : ℚ) * limits.step = k' * limits.step := add_left_cancel hvalue
  exact Nat.cast_injective (mul_right_cancel₀ hstep.ne' hmul)

theorem shows_wheel (hstep : 0 < entry.2.step) : (wheel entry).Shows (positions entry) := by
  have hvalue (k : ℕ) : entry.2.min + k * entry.2.step + entry.2.step =
      entry.2.min + (k + 1 : ℕ) * entry.2.step := by
    push_cast
    ring
  rw [positions, valuesOf, List.map_map]
  refine ⟨by simp [List.range_succ_eq_map, wheel], traverses_map_range ?_ ?_⟩
  · intro k hk
    have hbelow := ((le_stepCount_iff hstep).mp hk).resolve_left k.succ_ne_zero
    simp only [wheel, Function.comp_apply, hvalue]
    exact if_pos hbelow
  · have hend := mt (le_stepCount_iff hstep).mpr (Nat.lt_irrefl (stepCount entry.2))
    rw [not_or] at hend
    simp only [wheel, Function.comp_apply, hvalue]
    exact if_neg hend.2

/-- The flag is set unless the odometer is at its end, where it starts again. -/
theorem incrementCurrentParam_eq
    (hlimits : ∀ entry ∈ entries, limitsMap.lookup entry.1 = some entry.2)
    (hnames : current.map Prod.fst = entries.map Prod.fst) :
    incrementCurrentParam limitsMap current =
      match advance (entries.map wheel) current with
      | some next => (true, next)
      | none => (false, (entries.map wheel).map Wheel.first) := by
  induction entries generalizing current with
  | nil =>
    rw [List.map_nil, List.map_eq_nil_iff] at hnames
    rw [hnames]
    rfl
  | cons entry entries ih =>
    cases current with
    | nil => cases hnames
    | cons p current =>
      rw [List.map_cons, List.map_cons, List.cons.injEq] at hnames
      obtain ⟨hentry, hentries⟩ := List.forall_mem_cons.mp hlimits
      have hlookup : limitsMap.lookup p.1 = some entry.2 := by rw [hnames.1, hentry]
      rw [incrementCurrentParam, hlookup]
      simp only [Option.getD_some, List.map_cons, advance, ih hentries hnames.2, wheel, hnames.1]
      by_cases hbelow : p.2 + entry.2.step < entry.2.max
      · simp only [if_pos hbelow]
      · simp only [if_neg hbelow]
        cases advance (entries.map wheel) current <;> rfl

theorem advance_names (hnames : current.map Prod.fst = entries.map Prod.fst) :
    ∀ next ∈ advance (entries.map wheel) current, next.map Prod.fst = entries.map Prod.fst := by
  induction entries generalizing current with
  | nil => exact nofun
  | cons entry entries ih =>
    cases current with
    | nil => exact nofun
    | cons p current =>
      rw [List.map_cons, List.map_cons, List.cons.injEq] at hnames
      simp only [List.map_cons, advance, wheel]
      split_ifs with hbelow
      · rintro _ ⟨⟩
        rw [List.map_cons, hnames.1, hnames.2]
      · intro next hnext
        obtain ⟨rest, hrest, rfl⟩ := Option.map_eq_some_iff.mp hnext
        rw [List.map_cons, ih hnames.2 rest hrest]

theorem collect_eq (hlimits : ∀ entry ∈ limitsMap, limitsMap.lookup entry.1 = some entry.2)
    (hnames : current.map Prod.fst = limitsMap.map Prod.fst) (fuel : ℕ) :
    collect limitsMap fuel current = run (advance (limitsMap.map wheel)) fuel current := by
  induction fuel generalizing current with
  | zero => rfl
  | succ fuel ih =>
    rw [collect, run, incrementCurrentParam_eq hlimits hnames]
    cases hnext : advance (limitsMap.map wheel) current with
    | none => rfl
    | some next =>
      simp only [if_true]
      rw [ih (advance_names hnames next hnext)]

theorem collect_sections (hm : Ordered limitsMap) (hsteps : ∀ entry ∈ limitsMap, 0 < entry.2.step)
    {fuel : ℕ} (hfuel : ((limitsMap.map positions).sections).length ≤ fuel) :
    collect limitsMap fuel (limitsMap.map fun entry => (entry.1, entry.2.min)) =
      some (limitsMap.map positions).sections := by
  have hshows : List.Forall₂ Wheel.Shows (limitsMap.map wheel) (limitsMap.map positions) := by
    rw [List.forall₂_map_left_iff, List.forall₂_map_right_iff, List.forall₂_same]
    exact fun entry hentry => shows_wheel (hsteps entry hentry)
  obtain ⟨hhead, htraverses⟩ := traverses_sections hshows
  have hfirst : (limitsMap.map wheel).map Wheel.first =
      limitsMap.map fun entry => (entry.1, entry.2.min) := by
    rw [List.map_map]
    rfl
  have hnames : (limitsMap.map fun entry => (entry.1, entry.2.min)).map Prod.fst =
      limitsMap.map Prod.fst := by
    rw [List.map_map]
    rfl
  rw [collect_eq (fun entry hentry => hm.lookup_eq_some hentry) hnames, ← hfirst]
  cases hsections : (limitsMap.map positions).sections with
  | nil => simp [hsections] at hhead
  | cons r rs =>
    rw [hsections] at hhead htraverses hfuel
    obtain rfl := Option.some.inj hhead
    exact htraverses.run_eq hfuel

/-- The maps have an entry of each parameter read, in the order of the names. -/
structure Reads (inputs : StrategyOptimizerInputs) (params : List ParameterMeta) (maps : Maps) :
    Prop where
  ordered : Ordered maps.limits
  mem_iff : ∀ entry, entry ∈ maps.limits ↔
    ∃ param ∈ params, param.name = entry.1 ∧ limitsOf inputs param = some entry.2
  currentValues : maps.currentValues = maps.limits.map fun entry => (entry.1, entry.2.min)

theorem insertOrAssign_map {m : List (String × ParameterLimits)} {name : String} :
    insertOrAssign name limits.min (m.map fun entry => (entry.1, entry.2.min)) =
      (insertOrAssign name limits m).map fun entry => (entry.1, entry.2.min) := by
  induction m with
  | nil => rfl
  | cons first m ih =>
    rw [List.map_cons, insertOrAssign, insertOrAssign]
    split_ifs
    · rfl
    · rfl
    · rw [ih, List.map_cons]

theorem Reads.concat {params : List ParameterMeta} {maps : Maps} (h : Reads inputs params maps)
    (hnew : param.name ∉ params.map ParameterMeta.name)
    (hlimits : limitsOf inputs param = some limits) :
    ∃ maps', addParam inputs maps param = some maps' ∧
      Reads inputs (params ++ [param]) maps' := by
  have hkey : param.name ∉ maps.limits.map Prod.fst := by
    intro hkey
    obtain ⟨entry, hentry, hname⟩ := List.mem_map.mp hkey
    obtain ⟨q, hq, hq', -⟩ := (h.mem_iff entry).mp hentry
    exact hnew (List.mem_map.mpr ⟨q, hq, hq'.trans hname⟩)
  refine ⟨_, by rw [addParam, hlimits, Option.map_some], ordered_insertOrAssign h.ordered, ?_, ?_⟩
  · rintro ⟨name, limits'⟩
    rw [mem_insertOrAssign hkey, h.mem_iff, Prod.mk.injEq]
    simp only [List.mem_append, List.mem_singleton, or_and_right, exists_or, exists_eq_left,
      hlimits, Option.some.injEq]
    rw [or_comm, eq_comm (a := name), eq_comm (a := limits')]
  · rw [h.currentValues, insertOrAssign_map]

theorem exists_reads {params : List ParameterMeta} (hnames : (params.map ParameterMeta.name).Nodup)
    (hcurrent : ∀ param ∈ params, ∃ limits, limitsOf inputs param = some limits) :
    ∃ maps, params.foldlM (addParam inputs) {} = some maps ∧ Reads inputs params maps := by
  induction params using List.reverseRecOn with
  | nil => exact ⟨{}, rfl, List.Pairwise.nil, by simp, rfl⟩
  | append_singleton params param ih =>
    rw [List.map_append, List.map_singleton, List.nodup_append_comm, List.singleton_append,
      List.nodup_cons] at hnames
    rw [List.forall_mem_append, List.forall_mem_singleton] at hcurrent
    obtain ⟨maps, hmaps, hreads⟩ := ih hnames.2 hcurrent.1
    obtain ⟨limits, hlimits⟩ := hcurrent.2
    obtain ⟨maps', hmaps', hreads'⟩ := hreads.concat hnames.1 hlimits
    refine ⟨maps', ?_, hreads'⟩
    rw [List.foldlM_append, hmaps]
    simp [hmaps']

theorem limitsOf_step (h : limitsOf inputs param = some limits) : limits.step = param.step := by
  rw [limitsOf] at h
  split_ifs at h
  · obtain rfl := Option.some.inj h
    rfl
  · obtain ⟨value, -, rfl⟩ := Option.map_eq_some_iff.mp h
    rfl

theorem isValue_iff (hstep : 0 < param.step) (hlimits : limitsOf inputs param = some limits) :
    IsValue inputs param value ↔ value ∈ valuesOf limits := by
  rw [mem_valuesOf_iff (limitsOf_step hlimits ▸ hstep), IsValue]
  rw [limitsOf] at hlimits
  split_ifs at hlimits ⊢
  · obtain rfl := Option.some.inj hlimits
    rfl
  · obtain ⟨minValue, hvalue, rfl⟩ := Option.map_eq_some_iff.mp hlimits
    have hbeyond : ¬ ∃ k : ℕ, 1 ≤ k ∧ value = minValue + k * param.step ∧
        value < minValue + param.step := by
      rintro ⟨k, hk, rfl, hlt⟩
      have hk' : (1 : ℚ) ≤ k := Nat.one_le_cast.mpr hk
      have hmul := mul_le_mul_of_nonneg_right hk' hstep.le
      linarith
    rw [hvalue, Option.some.injEq, or_iff_left hbeyond, eq_comm]

theorem mem_sections_iff {maps : Maps} (hreads : Reads inputs inputs.parameters maps)
    (hsteps : ∀ param ∈ inputs.parameters, 0 < param.step)
    (hcurrent : ∀ param ∈ inputs.parameters, ∃ limits, limitsOf inputs param = some limits)
    (config : JsonStrategyConfig) :
    config ∈ (maps.limits.map positions).sections ↔ IsChoice inputs config := by
  have hkeys (name : String) : name ∈ maps.limits.map Prod.fst ↔
      name ∈ inputs.parameters.map ParameterMeta.name := by
    simp only [List.mem_map, hreads.mem_iff]
    constructor
    · rintro ⟨entry, ⟨param, hparam, hname, -⟩, rfl⟩
      exact ⟨param, hparam, hname⟩
    · rintro ⟨param, hparam, rfl⟩
      obtain ⟨limits, hlimits⟩ := hcurrent param hparam
      exact ⟨(param.name, limits), ⟨param, hparam, rfl, hlimits⟩, rfl⟩
  have hpositions (p : String × ℚ) (entry : String × ParameterLimits) :
      p ∈ positions entry ↔ p.1 = entry.1 ∧ p.2 ∈ valuesOf entry.2 := by
    rw [positions, List.mem_map]
    constructor
    · rintro ⟨value, hvalue, rfl⟩
      exact ⟨rfl, hvalue⟩
    · rintro ⟨hname, hvalue⟩
      exact ⟨p.2, hvalue, Prod.ext hname.symm rfl⟩
  rw [List.mem_sections, List.forall₂_map_right_iff]
  simp only [hpositions]
  rw [hreads.ordered.forall₂_iff (P := fun value limits => value ∈ valuesOf limits)]
  constructor
  · rintro ⟨hnames, hvalues⟩
    refine ⟨?_, fun name => hnames ▸ hkeys name, fun param hparam value hvalue => ?_⟩
    · have hordered := List.pairwise_map.mpr hreads.ordered
      rw [← hnames] at hordered
      exact List.pairwise_map.mp hordered
    · obtain ⟨limits, hlimits⟩ := hcurrent param hparam
      rw [isValue_iff (hsteps param hparam) hlimits]
      have hentry := (hreads.mem_iff (param.name, limits)).mpr ⟨param, hparam, rfl, hlimits⟩
      exact hvalues _ hvalue _ hentry rfl
  · rintro ⟨hordered, hnames, hvalues⟩
    refine ⟨hordered.keys_eq hreads.ordered fun name => (hnames name).trans (hkeys name).symm, ?_⟩
    rintro ⟨name, value⟩ hp entry hentry hname
    obtain ⟨param, hparam, hname', hlimits⟩ := (hreads.mem_iff entry).mp hentry
    have hname : name = param.name := hname.trans hname'.symm
    exact (isValue_iff (hsteps param hparam) hlimits).mp (hvalues param hparam value (hname ▸ hp))

/--
With distinct names and positive steps the loop ends, and the configs are the choices of a value
of each parameter, each of them once.
-/
theorem getPossibleConfigs_eq (inputs : StrategyOptimizerInputs)
    (hnames : (inputs.parameters.map ParameterMeta.name).Nodup)
    (hsteps : ∀ param ∈ inputs.parameters, 0 < param.step)
    (hcurrent : ∀ param ∈ inputs.parameters, param.name ∉ inputs.optimizableParameters →
      (inputs.currentConfig.lookup param.name).isSome) :
    ∃ configs : List JsonStrategyConfig,
      (∀ fuel, configs.length ≤ fuel → getPossibleConfigs inputs fuel = some configs) ∧
      configs.Nodup ∧ ∀ config, config ∈ configs ↔ IsChoice inputs config := by
  have hlimits : ∀ param ∈ inputs.parameters, ∃ limits, limitsOf inputs param = some limits := by
    intro param hparam
    rw [limitsOf]
    split_ifs with hoptimizable
    · exact ⟨_, rfl⟩
    · obtain ⟨value, hvalue⟩ := Option.isSome_iff_exists.mp (hcurrent param hparam hoptimizable)
      exact ⟨_, by rw [hvalue, Option.map_some]⟩
  obtain ⟨maps, hmaps, hreads⟩ := exists_reads hnames hlimits
  have hsteps' : ∀ entry ∈ maps.limits, 0 < entry.2.step := by
    intro entry hentry
    obtain ⟨param, hparam, -, hlimits⟩ := (hreads.mem_iff entry).mp hentry
    exact limitsOf_step hlimits ▸ hsteps param hparam
  refine ⟨(maps.limits.map positions).sections, fun fuel hfuel => ?_, ?_,
    mem_sections_iff hreads hsteps hlimits⟩
  · rw [getPossibleConfigs, hmaps, ← collect_sections hreads.ordered hsteps' hfuel,
      ← hreads.currentValues]
    rfl
  · refine nodup_sections (List.forall_mem_map.mpr fun entry hentry => ?_)
    exact (nodup_valuesOf (hsteps' entry hentry)).map fun _ _ heq => congrArg Prod.snd heq

/-- Two values of one parameter, and the current value of the other. -/
theorem getPossibleConfigs_eq_two :
    let inputs : StrategyOptimizerInputs := {
      parameters := [⟨"risk", 1, 2, 1 / 2⟩, ⟨"margin", 0, 10, 1⟩]
      currentConfig := [("margin", 3)]
      optimizableParameters := ["risk"] }
    getPossibleConfigs inputs 2 =
        some [[("margin", 3), ("risk", 1)], [("margin", 3), ("risk", 3 / 2)]] ∧
      ∃ configs : List JsonStrategyConfig,
        (∀ fuel, configs.length ≤ fuel → getPossibleConfigs inputs fuel = some configs) ∧
        configs.Nodup ∧ ∀ config, config ∈ configs ↔ IsChoice inputs config := by
  intro inputs
  exact ⟨by decide +kernel,
    getPossibleConfigs_eq inputs (by decide) (by decide +kernel) (by decide +kernel)⟩

end OptimizerParser

end CryptoTrading

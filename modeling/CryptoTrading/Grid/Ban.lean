import CryptoTrading.Grid.Hedge
import CryptoTrading.Strategy.DynamicGridAdx

/-! # The grid with a ban

A banned candle moves the trend and asks for no order. The levels that are there go on through
their stages, whatever the ban is made of.
-/

namespace CryptoTrading

open Runs

namespace GridSystem

variable {s s₀ : GridSystem}

/-- A candle of which only the trend learns. -/
def moveTrend (s : GridSystem) (ts : Milliseconds) (candle : Candle) : GridSystem :=
  { s with strategy := (s.strategy.pushTrend ts candle.close).1 }

def KeepsWidth (s : GridSystem) (ts : Milliseconds) (candle : Candle) : Prop :=
  (s.strategy.pushTrend ts candle.close).2 = true →
    0 < (s.strategy.pushTrend ts candle.close).1.levelWidth

instance (s : GridSystem) (ts : Milliseconds) (candle : Candle) :
    Decidable (s.KeepsWidth ts candle) := inferInstanceAs (Decidable (_ → _))

theorem Sound.moveTrend {ts : Milliseconds} {candle : Candle} (h : s.Sound none)
    (hpop : s.Pops s₀ (.candle ts candle)) (hwidth : s₀.KeepsWidth ts candle) :
    (s₀.moveTrend ts candle).Sound none := by
  refine h.restage_idle (restages_of_views h.tracked ?_ ?_ ?_ ?_ fun g => ?_) ?_
  · rw [GridSystem.moveTrend, DynamicGridStrategy.pushTrend_ordersByLevels, hpop.rest]
  · rw [GridSystem.moveTrend, hpop.rest]
  · intro hpos
    cases hvalue : (s₀.strategy.pushTrend ts candle.close).2 with
    | false =>
      rw [GridSystem.moveTrend, DynamicGridStrategy.pushTrend_levelWidth hvalue, hpop.rest]
      exact hpos
    | true => exact hwidth hvalue
  · rw [GridSystem.moveTrend, hpop.rest]
  · exact hpop.view_of_ne (by simp [GridEvent.guid?])
  · rw [GridSystem.moveTrend, hpop.rest]
    exact ⟨rfl, rfl, rfl, fun _ => hpop.sorted, rfl, id,
      DynamicGridStrategy.pushTrend_config ts candle.close, rfl, rfl, fun _ => id⟩

end GridSystem

/-- The grid, with what `is_banned` looks at. -/
structure DynamicGridWithBan (β : Type*) where
  grid : GridSystem
  ban : β

namespace DynamicGridWithBan

variable {β : Type*}

def init (symbol : Symbol) (config : DynamicGridStrategyConfig) (ban : β) :
    DynamicGridWithBan β where
  grid := .init symbol config
  ban := ban

variable (isBanned : β → Milliseconds → Candle → β × Bool) (s : DynamicGridWithBan β)

def pushCandle (ts : Milliseconds) (candle : Candle) : DynamicGridWithBan β :=
  let (ban, newBannedState) := isBanned s.ban ts candle
  if newBannedState then ⟨s.grid.moveTrend ts candle, ban⟩
  else ⟨s.grid.pushCandle ts candle, ban⟩

def handleEvent (candles : List (Milliseconds × Candle)) (e : GridEvent) : DynamicGridWithBan β :=
  match e.candle? with
  | some (ts, candle) => s.pushCandle isBanned ts candle
  | none => { s with grid := s.grid.handleEvent candles e }

def advance : GridStep → DynamicGridWithBan β
  | .price ts price => { s with grid := s.grid.push (.price ts price) }
  | .run candles =>
    match s.grid.next? with
    | some (e, grid) => handleEvent isBanned { s with grid } candles e
    | none => s

def step (x : GridStep) : DynamicGridWithBan β := if s.grid.failed then s else s.advance isBanned x

def candle? (x : GridStep) : Option (Milliseconds × Candle) :=
  (s.grid.handling? x).bind GridEvent.candle?

/-- The levels keep a positive width, and the order of a candle that is not banned has a size of
at least one step. -/
def ProperCandle (c : Milliseconds × Candle) : Prop :=
  s.grid.KeepsWidth c.1 c.2 ∧
    ((isBanned s.ban c.1 c.2).2 = false → s.grid.ProperCandle c.1 c.2)

instance (c : Milliseconds × Candle) : Decidable (s.ProperCandle isBanned c) :=
  inferInstanceAs (Decidable (_ ∧ (_ → _)))

def Proper (x : GridStep) : Prop := ∀ c ∈ s.candle? x, s.ProperCandle isBanned c

instance (x : GridStep) : Decidable (s.Proper isBanned x) :=
  inferInstanceAs (Decidable (∀ c ∈ _, _))

variable {isBanned} {s} {x : GridStep}

theorem step_cases (isBanned : β → Milliseconds → Candle → β × Bool) (s : DynamicGridWithBan β)
    (x : GridStep) :
    (∃ c grid, s.candle? x = some c ∧ (isBanned s.ban c.1 c.2).2 = true ∧
      s.grid.next? = some (.candle c.1 c.2, grid) ∧
      (s.step isBanned x).grid = grid.moveTrend c.1 c.2) ∨
    (∀ c ∈ s.candle? x, (isBanned s.ban c.1 c.2).2 = false) ∧
      (s.step isBanned x).grid = s.grid.step x := by
  unfold step GridSystem.step candle? GridSystem.handling?
  cases hfailed : s.grid.failed with
  | true =>
    right
    cases x <;> simp
  | false =>
    cases x with
    | price ts price =>
      right
      simp [advance, GridSystem.advance]
    | run candles =>
      cases hnext : s.grid.next? with
      | none =>
        right
        simp [advance, GridSystem.advance, hnext]
      | some r =>
        obtain ⟨e, grid⟩ := r
        simp only [advance, GridSystem.advance, hnext]
        cases e with
        | candle ts candle =>
          cases hban : (isBanned s.ban ts candle).2 with
          | true =>
            left
            refine ⟨(ts, candle), grid, rfl, hban, rfl, ?_⟩
            simp [handleEvent, GridEvent.candle?, pushCandle, hban]
          | false =>
            right
            simp [handleEvent, GridEvent.candle?, pushCandle, hban, GridSystem.handleEvent]
        | price ts price =>
          right
          simp [handleEvent, GridEvent.candle?]
        | gateway ge =>
          right
          simp [handleEvent, GridEvent.candle?]
        | update role g level =>
          right
          simp [handleEvent, GridEvent.candle?]

def handled (isBanned : β → Milliseconds → Candle → β × Bool) (s : DynamicGridWithBan β)
    (xs : List GridStep) : List (Milliseconds × Candle) :=
  outputs (step isBanned) (fun s x => (s.candle? x).toList) s xs

theorem sound_step (h : s.grid.Sound none) (hproper : s.Proper isBanned x) :
    (s.step isBanned x).grid.Sound none := by
  rcases step_cases isBanned s x with ⟨c, grid, hc, hban, hnext, hstep⟩ | ⟨hban, hstep⟩
  · rw [hstep]
    have hpop := GridSystem.pops_of_next? h.running.sorted hnext rfl
    refine h.moveTrend hpop ?_
    rw [hpop.rest]
    exact (hproper c hc).1
  · rw [hstep]
    exact h.step fun c hc => (hproper c hc).2 (hban c hc)

theorem run_sound (symbol : Symbol) (config : DynamicGridStrategyConfig) (ban : β)
    (xs : List GridStep)
    (h : Meets (step isBanned) (Proper isBanned) (init symbol config ban) xs) :
    (after (step isBanned) (init symbol config ban) xs).grid.Sound none :=
  h.invariant (I := fun s => s.grid.Sound none) (fun _ _ hs hx => sound_step hs hx)
    (GridSystem.sound_init symbol config)

/-- A level gets its next market order after an exit of the last one has traded. -/
def OneAtATime (isBanned : β → Milliseconds → Candle → β × Bool) (s : DynamicGridWithBan β) :
    Prop :=
  ∀ x, ∀ b ∈ (s.step isBanned x).grid.sent, b ∈ s.grid.sent ∨
    ∀ a ∈ s.grid.sent, a.1 = b.1 → s.grid.ExitTraded a.2

theorem oneAtATime (h : s.grid.Sound none) : s.OneAtATime isBanned := by
  intro x b hb
  rcases step_cases isBanned s x with ⟨c, grid, -, -, hnext, hstep⟩ | ⟨-, hstep⟩
  · obtain ⟨⟨e, q⟩, -, heq⟩ := Option.map_eq_some_iff.mp hnext
    obtain ⟨rfl, rfl⟩ := Prod.mk.inj heq
    rw [hstep] at hb
    exact .inl hb
  · rw [hstep] at hb
    exact h.oneAtATime.next x b hb

/--
Whatever candles are banned: in every run with levels of positive width and orders of at least one
step, a level gets its next market order after an exit of the last one has traded. Whenever no
events are left, the position is that of the levels, and the gateway has the two exits of each
level and no other orders.
-/
theorem hedged_run (isBanned : β → Milliseconds → Candle → β × Bool) (symbol : Symbol)
    (config : DynamicGridStrategyConfig) (ban : β) (xs : List GridStep)
    (h : Meets (step isBanned) (Proper isBanned) (init symbol config ban) xs) :
    ((after (step isBanned) (init symbol config ban) xs).grid.levels.map (·.levelNum)).Nodup ∧
      (after (step isBanned) (init symbol config ban) xs).OneAtATime isBanned ∧
      ((after (step isBanned) (init symbol config ban) xs).grid.queue.normal = [] →
        (after (step isBanned) (init symbol config ban) xs).grid.Hedged) := by
  have hsound := run_sound symbol config ban xs h
  exact ⟨hsound.levelNum_nodup, oneAtATime hsound, hsound.hedged⟩

/-- The first fall is banned, as there is no index yet, and the second one is not. -/
theorem hedged_run_falls :
    let symbol : Symbol := ⟨"BTCUSDT", ⟨1 / 1000, 100, 1 / 1000⟩⟩
    let config : DynamicGridAdxStrategyConfig := ⟨1, 1, 4, 20, 1, 50⟩
    let candle (ts : ℤ) (price : ℚ) : List GridStep :=
      [.price ts price, .run [(ts, ⟨1, ts, price, price, price, price, 0, 0, 0⟩)], .run []]
    let xs := candle 1 100 ++ candle 2 90 ++ candle 3 90 ++ candle 4 90 ++ candle 5 81 ++
      [.run [], .run [], .run [], .run [], .run [], .run [], .run []]
    (after (step DynamicGridAdxStrategy.isBanned) (init symbol config.grid (.new config))
        xs).grid.levels.map (·.levelNum) = [-2] ∧
      (after (step DynamicGridAdxStrategy.isBanned) (init symbol config.grid (.new config))
        xs).grid.Hedged := by
  intro symbol config candle xs
  have h : Meets (step DynamicGridAdxStrategy.isBanned) (Proper DynamicGridAdxStrategy.isBanned)
      (init symbol config.grid (.new config)) xs := by decide +kernel
  have hdrained : (after (step DynamicGridAdxStrategy.isBanned)
      (init symbol config.grid (.new config)) xs).grid.queue.normal = [] := by decide +kernel
  obtain ⟨-, -, hhedged⟩ :=
    hedged_run DynamicGridAdxStrategy.isBanned symbol config.grid (.new config) xs h
  exact ⟨by decide +kernel, hhedged hdrained⟩

end DynamicGridWithBan

namespace DynamicGridAdxStrategy

abbrev System := DynamicGridWithBan DynamicGridAdxStrategy

namespace System

variable (symbol : Symbol) (config : DynamicGridAdxStrategyConfig)

def init : System := DynamicGridWithBan.init symbol config.grid (.new config)

def step (s : System) (x : GridStep) : System := DynamicGridWithBan.step isBanned s x

def handled (xs : List GridStep) : List (Milliseconds × Candle) :=
  DynamicGridWithBan.handled isBanned (init symbol config) xs

end System

end DynamicGridAdxStrategy

end CryptoTrading

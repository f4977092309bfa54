import CryptoTrading.Gateway.Conditionals

/-! # Exits of the full position

The take profit and stop loss and the trailing stop of the backtest gateway close the
position they were armed for, as long as nothing else closes or flips it before: the
gateway disarms an exit only when that exit itself trades.
-/

namespace CryptoTrading

open Runs

namespace BacktestTradingGateway

def TpslHit (g : BacktestTradingGateway) (price : ℚ) : Prop :=
  ∃ tpsl ∈ g.tpsl, (tpslTradePrice tpsl g.posVolume.side price).isSome

/-- The price crosses the armed trailing stop and does not pull it up. -/
def TrailingStopHit (g : BacktestTradingGateway) (price : ℚ) : Prop :=
  ∃ t ∈ g.trailingStop,
    t.trailingStop.calcNewStopLoss price (some t.currentStopLoss) = none ∧
      t.triggered g.posVolume.side price

def Armed (g : BacktestTradingGateway) : Prop := g.tpsl.isSome ∨ g.trailingStop.isSome

def volumeAfterConditionals (g : BacktestTradingGateway) (price : ℚ) : SignedVolume :=
  addTriggered g.posVolume (g.triggered .stopLoss price ++ g.triggered .takeProfit price)

def ConditionalsKeepSide (g : BacktestTradingGateway) (price : ℚ) : Prop :=
  g.posVolume.SameSide (g.volumeAfterConditionals price)

instance (g : BacktestTradingGateway) (price : ℚ) : Decidable (g.TpslHit price) :=
  inferInstanceAs (Decidable (∃ tpsl ∈ g.tpsl, _))

instance (g : BacktestTradingGateway) (price : ℚ) : Decidable (g.TrailingStopHit price) :=
  inferInstanceAs (Decidable (∃ t ∈ g.trailingStop, _))

instance (g : BacktestTradingGateway) : Decidable g.Armed :=
  inferInstanceAs (Decidable (_ ∨ _))

instance (g : BacktestTradingGateway) (price : ℚ) : Decidable (g.ConditionalsKeepSide price) :=
  inferInstanceAs (Decidable (SignedVolume.SameSide _ _))

/-- Nothing but an armed exit itself closes or flips the position, a trailing stop is only
requested for an open position, and no exit trades while the other one is armed. -/
def KeepsExits (g : BacktestTradingGateway) : GatewayCall → Prop
  | .newPrice _ price =>
    (g.TpslHit price → g.trailingStop = none) ∧
    (g.TrailingStopHit price → g.tpsl = none) ∧
    (g.Armed → ¬ g.TpslHit price → ¬ g.TrailingStopHit price → g.ConditionalsKeepSide price)
  | .request (.order o) => g.Armed → g.posVolume.SameSide (g.posVolume + o.signedVolume)
  | .request (.trailingStop _) => ¬ g.posVolume.IsZero
  | .request (.stopLoss o) =>
    g.Armed →
      { g with stopLosses := g.stopLosses ++ [o] }.ConditionalsKeepSide g.lastPrice
  | .request (.takeProfit o) =>
    g.Armed →
      { g with takeProfits := g.takeProfits ++ [o] }.ConditionalsKeepSide g.lastPrice
  | _ => True

instance (g : BacktestTradingGateway) (c : GatewayCall) : Decidable (g.KeepsExits c) := by
  unfold KeepsExits
  split <;> infer_instance

variable {g : BacktestTradingGateway} {ts : Milliseconds} {price : ℚ}

theorem checkTpsl_of_not_hit (h : ¬ g.TpslHit price) : g.checkTpsl ts price = (g, []) := by
  have hnone : g.tryTradeTpsl ts price = none := by
    unfold tryTradeTpsl
    cases ht : g.tpsl with
    | none => rfl
    | some tpsl =>
      cases hp : tpslTradePrice tpsl g.posVolume.side price with
      | none => simp [hp]
      | some p => exact absurd ⟨tpsl, ht, by rw [hp]; rfl⟩ h
  rw [checkTpsl, hnone]

theorem checkTpsl_of_hit (ts : Milliseconds) (h : g.TpslHit price) :
    (g.checkTpsl ts price).1 = { g with posVolume := .zero, tpsl := none } ∧
      ∃ trade, (g.checkTpsl ts price).2.filterMap GatewayEvent.trade? = [trade] ∧
        trade.unsignedVolume = g.posVolume.unsigned ∧ trade.side = g.posVolume.side.opposite := by
  obtain ⟨tpsl, ht, hp⟩ := h
  obtain ⟨tradePrice, hp⟩ := Option.isSome_iff_exists.mp hp
  have ht := Option.mem_def.mp ht
  unfold checkTpsl tryTradeTpsl
  simp only [ht, hp, Option.bind_eq_bind, Option.bind_some]
  exact ⟨rfl, _, rfl, rfl, rfl⟩

theorem checkTrailingStop_of_not_hit (ts : Milliseconds) (h : ¬ g.TrailingStopHit price) :
    (g.checkTrailingStop ts price).2.filterMap GatewayEvent.trade? = [] ∧
      (g.checkTrailingStop ts price).1.trailingStop.isSome = g.trailingStop.isSome ∧
      (g.checkTrailingStop ts price).1.posVolume = g.posVolume := by
  unfold checkTrailingStop
  cases ht : g.trailingStop with
  | none => exact ⟨rfl, by rw [ht], rfl⟩
  | some t =>
    cases hn : t.trailingStop.calcNewStopLoss price (some t.currentStopLoss) with
    | some sl =>
      simp only [BacktestTrailingStopLoss.onPriceUpdated_pulled hn]
      exact ⟨rfl, rfl, trivial⟩
    | none =>
      have htr : ¬ t.triggered g.posVolume.side price := fun htr => h ⟨t, ht, hn, htr⟩
      simp only [BacktestTrailingStopLoss.onPriceUpdated_idle hn htr]
      exact ⟨rfl, trivial, trivial⟩

theorem checkTrailingStop_of_hit (ts : Milliseconds) (h : g.TrailingStopHit price) :
    (g.checkTrailingStop ts price).1 = { g with trailingStop := none, posVolume := .zero } ∧
      ∃ trade, (g.checkTrailingStop ts price).2.filterMap GatewayEvent.trade? = [trade] ∧
        trade.unsignedVolume = g.posVolume.unsigned ∧ trade.side = g.posVolume.side.opposite := by
  obtain ⟨t, ht, hn, htr⟩ := h
  have ht := Option.mem_def.mp ht
  obtain ⟨trade, htrade, hvol, hside⟩ :=
    BacktestTrailingStopLoss.onPriceUpdated_trade ts hn htr
  unfold checkTrailingStop
  simp only [ht, htrade]
  exact ⟨trivial, trade, rfl, hvol, hside⟩

theorem beforeConditionals_of_hit (ts : Milliseconds)
    (hit : g.TpslHit price ∨ g.TrailingStopHit price)
    (htpsl : g.TpslHit price → g.trailingStop = none)
    (htrailing : g.TrailingStopHit price → g.tpsl = none) :
    ¬ (g.beforeConditionals ts price).1.Armed := by
  rcases hit with hit | hit
  · have hcheck := (checkTpsl_of_hit (g := g.setPrice ts price) ts hit).1
    have hnone := htpsl hit
    simp [beforeConditionals, hcheck, checkTrailingStop, hnone, Armed]
  · have hnone := htrailing hit
    have hnot : ¬ (g.setPrice ts price).TpslHit price := by
      rintro ⟨tpsl, ht, _⟩
      simp [hnone] at ht
    have hcheck := (checkTrailingStop_of_hit (g := g.setPrice ts price) ts hit).1
    simp [beforeConditionals, checkTpsl_of_not_hit hnot, hcheck, hnone, Armed]

theorem beforeConditionals_of_not_hit (ts : Milliseconds) (htpsl : ¬ g.TpslHit price)
    (htrailing : ¬ g.TrailingStopHit price) :
    (g.beforeConditionals ts price).1.tpsl = g.tpsl ∧
      (g.beforeConditionals ts price).1.trailingStop.isSome = g.trailingStop.isSome ∧
      (g.beforeConditionals ts price).1.posVolume = g.posVolume := by
  have htpsl' : ¬ (g.setPrice ts price).TpslHit price := htpsl
  obtain ⟨_, harmed, hvol⟩ :=
    checkTrailingStop_of_not_hit (g := g.setPrice ts price) ts htrailing
  simp only [beforeConditionals, checkTpsl_of_not_hit htpsl']
  exact ⟨checkTrailingStop_tpsl, harmed, hvol⟩

theorem addTriggered_append (v : SignedVolume) (os os' : List ConditionalMarketOrder) :
    addTriggered v (os ++ os') = addTriggered (addTriggered v os) os' :=
  List.foldl_append ..

theorem tryTriggerConditionals_posVolume :
    (g.tryTriggerConditionals ts price).1.posVolume = g.volumeAfterConditionals price := by
  rw [volumeAfterConditionals, addTriggered_append]
  rfl

end BacktestTradingGateway

/-- The gateway, with the side of the position each exit was armed for. -/
structure WatchedGateway where
  gateway : BacktestTradingGateway
  tpslFor : Option Side
  trailingStopFor : Option Side
  deriving DecidableEq

namespace WatchedGateway

open BacktestTradingGateway

def init : WatchedGateway := ⟨.init, none, none⟩

def step (w : WatchedGateway) (c : GatewayCall) : WatchedGateway where
  gateway := w.gateway.step c
  tpslFor :=
    match c with
    | .request (.tpsl _) =>
      if w.gateway.posVolume.IsZero then w.tpslFor else some w.gateway.posVolume.side
    | _ => w.tpslFor
  trailingStopFor :=
    match c with
    | .request (.trailingStop _) => some w.gateway.posVolume.side
    | _ => w.trailingStopFor

def KeepsExits (w : WatchedGateway) (c : GatewayCall) : Prop := w.gateway.KeepsExits c

instance (w : WatchedGateway) (c : GatewayCall) : Decidable (w.KeepsExits c) :=
  inferInstanceAs (Decidable (w.gateway.KeepsExits c))

/-- An exit armed for this side closes an open position of that side. -/
def ArmedFor (posVolume : SignedVolume) (armed : Bool) (side : Option Side) : Prop :=
  armed → ¬ posVolume.IsZero ∧ side = some posVolume.side

structure Guarded (g : BacktestTradingGateway) (tpslFor trailingStopFor : Option Side) :
    Prop where
  tpsl : ArmedFor g.posVolume g.tpsl.isSome tpslFor
  trailingStop : ArmedFor g.posVolume g.trailingStop.isSome trailingStopFor

variable {g g' : BacktestTradingGateway} {s s' : Option Side} {w : WatchedGateway}
  {ts : Milliseconds} {price : ℚ} {c : GatewayCall} {cs : List GatewayCall}

theorem init_guarded : Guarded init.gateway init.tpslFor init.trailingStopFor :=
  ⟨fun h => by simp [init, BacktestTradingGateway.init] at h,
    fun h => by simp [init, BacktestTradingGateway.init] at h⟩

theorem ArmedFor.of_sameSide {v v' : SignedVolume} {armed armed' : Bool}
    (h : ArmedFor v armed s) (harmed : armed' = armed) (hside : armed → v.SameSide v') :
    ArmedFor v' armed' s := by
  subst harmed
  intro ha
  have hsame := hside ha
  exact ⟨hsame.not_isZero, by rw [hsame.side_eq, (h ha).2]⟩

theorem Guarded.of_sameSide (h : Guarded g s s')
    (htpsl : g'.tpsl.isSome = g.tpsl.isSome)
    (htrailing : g'.trailingStop.isSome = g.trailingStop.isSome)
    (hside : g.Armed → g.posVolume.SameSide g'.posVolume) : Guarded g' s s' :=
  ⟨h.tpsl.of_sameSide htpsl fun ha => hside (Or.inl ha),
    h.trailingStop.of_sameSide htrailing fun ha => hside (Or.inr ha)⟩

theorem guarded_of_not_armed (h : ¬ g.Armed) : Guarded g s s' :=
  ⟨fun ha => absurd (Or.inl ha) h, fun ha => absurd (Or.inr ha) h⟩

theorem sameSide_self (h : Guarded g s s') (ha : g.Armed) : g.posVolume.SameSide g.posVolume := by
  have hne : ¬ g.posVolume.IsZero := by
    rcases ha with ha | ha
    · exact (h.tpsl ha).1
    · exact (h.trailingStop ha).1
  exact mul_self_pos.mpr (SignedVolume.isZero_iff.not.mp hne)

theorem Guarded.tryTriggerConditionals (ts : Milliseconds) (h : Guarded g s s')
    (hkeep : g.Armed → g.ConditionalsKeepSide price) :
    Guarded (g.tryTriggerConditionals ts price).1 s s' := by
  refine h.of_sameSide rfl rfl fun ha => ?_
  rw [tryTriggerConditionals_posVolume]
  exact hkeep ha

theorem Guarded.onNewPrice (h : Guarded g s s') (hc : g.KeepsExits (.newPrice ts price)) :
    Guarded (g.onNewPrice ts price).1 s s' := by
  obtain ⟨htpsl, htrailing, hkeep⟩ := hc
  by_cases hit : g.TpslHit price ∨ g.TrailingStopHit price
  · have hnot : ¬ (g.onNewPrice ts price).1.Armed :=
      beforeConditionals_of_hit ts hit htpsl htrailing
    exact guarded_of_not_armed hnot
  · obtain ⟨hnt, hns⟩ := not_or.mp hit
    obtain ⟨hsame, harmed, hvol⟩ := beforeConditionals_of_not_hit ts hnt hns
    refine h.of_sameSide (by rw [← hsame]; rfl) harmed fun ha => ?_
    have hafter : (g.onNewPrice ts price).1.posVolume = g.volumeAfterConditionals price := by
      rw [BacktestTradingGateway.onNewPrice, tryTriggerConditionals_posVolume]
      simp only [volumeAfterConditionals, triggered, pending, hvol,
        beforeConditionals_stopLosses, beforeConditionals_takeProfits]
    rw [hafter]
    exact hkeep ha hnt hns

/-- One call that keeps the exits in order keeps them guarded. -/
theorem Guarded.step (h : Guarded w.gateway w.tpslFor w.trailingStopFor) (hc : w.KeepsExits c) :
    Guarded (w.step c).gateway (w.step c).tpslFor (w.step c).trailingStopFor := by
  cases c with
  | newPrice ts price => exact h.onNewPrice hc
  | request r =>
    cases r with
    | order o => exact h.of_sameSide rfl rfl hc
    | tpsl ev =>
      by_cases hz : w.gateway.posVolume.IsZero
      · have hstep : w.gateway.step (.request (.tpsl ev)) = w.gateway := by
          simp [BacktestTradingGateway.step, handle, pushRequest, pushTpslRequest,
            SignedVolume.isZero_iff.mp hz]
        simp only [WatchedGateway.step, if_pos hz, hstep]
        exact h
      · have hstep : w.gateway.step (.request (.tpsl ev)) = { w.gateway with tpsl := some ev } := by
          simp [BacktestTradingGateway.step, handle, pushRequest, pushTpslRequest,
            SignedVolume.isZero_iff.not.mp hz]
        simp only [WatchedGateway.step, if_neg hz, hstep]
        exact ⟨fun _ => ⟨hz, rfl⟩, h.trailingStop⟩
    | trailingStop ev => exact ⟨h.tpsl, fun _ => ⟨hc, rfl⟩⟩
    | stopLoss o =>
      have h' : Guarded { w.gateway with stopLosses := w.gateway.stopLosses ++ [o] }
        w.tpslFor w.trailingStopFor := ⟨h.tpsl, h.trailingStop⟩
      exact h'.tryTriggerConditionals o.signalTs hc
    | takeProfit o =>
      have h' : Guarded { w.gateway with takeProfits := w.gateway.takeProfits ++ [o] }
        w.tpslFor w.trailingStopFor := ⟨h.tpsl, h.trailingStop⟩
      exact h'.tryTriggerConditionals o.signalTs hc
    | cancelStopLoss k =>
      refine h.of_sameSide ?_ ?_ fun ha => ?_ <;>
        simp only [WatchedGateway.step, BacktestTradingGateway.step, handle, pushRequest,
          cancelStopLossRequest] <;> split
      all_goals first | rfl | exact sameSide_self h ha
    | cancelTakeProfit k =>
      refine h.of_sameSide ?_ ?_ fun ha => ?_ <;>
        simp only [WatchedGateway.step, BacktestTradingGateway.step, handle, pushRequest,
          cancelTakeProfitRequest] <;> split
      all_goals first | rfl | exact sameSide_self h ha

theorem run_guarded (h : Meets step KeepsExits init cs) :
    Guarded (after step init cs).gateway (after step init cs).tpslFor
      (after step init cs).trailingStopFor :=
  h.invariant (I := fun w => Guarded w.gateway w.tpslFor w.trailingStopFor)
    (fun _ _ => Guarded.step) init_guarded

def Closes (t : Trade) (armedFor : Option Side) (posVolume : SignedVolume) : Prop :=
  0 < t.unsignedVolume.value ∧ armedFor = some t.side.opposite ∧ posVolume.IsZero

theorem ArmedFor.closes {v v' : SignedVolume} {armed : Bool} {t : Trade} (h : ArmedFor v armed s)
    (harmed : armed) (hvol : t.unsignedVolume = v.unsigned) (hside : t.side = v.side.opposite)
    (hzero : v'.IsZero) : Closes t s v' := by
  obtain ⟨hne, hs⟩ := h harmed
  refine ⟨?_, ?_, hzero⟩
  · rw [hvol, SignedVolume.value_unsigned]
    exact abs_pos.mpr (SignedVolume.isZero_iff.not.mp hne)
  · rw [hside, Side.opposite_opposite, hs]

theorem Guarded.tpsl_closes (h : Guarded g s s') :
    ∀ t ∈ (g.checkTpsl ts price).2.filterMap GatewayEvent.trade?,
      Closes t s (g.checkTpsl ts price).1.posVolume := by
  intro t ht
  by_cases hit : g.TpslHit price
  · obtain ⟨hg, trade, htrade, hvol, hside⟩ := checkTpsl_of_hit ts hit
    rw [htrade, List.mem_singleton] at ht
    subst ht
    obtain ⟨tpsl, htpsl, _⟩ := hit
    apply h.tpsl.closes (Option.isSome_of_mem htpsl) hvol hside
    rw [hg]
    exact SignedVolume.isZero_zero
  · rw [checkTpsl_of_not_hit hit] at ht
    simp at ht

theorem Guarded.trailingStop_closes (h : Guarded g s s') :
    ∀ t ∈ (g.checkTrailingStop ts price).2.filterMap GatewayEvent.trade?,
      Closes t s' (g.checkTrailingStop ts price).1.posVolume := by
  intro t ht
  by_cases hit : g.TrailingStopHit price
  · obtain ⟨hg, trade, htrade, hvol, hside⟩ := checkTrailingStop_of_hit ts hit
    rw [htrade, List.mem_singleton] at ht
    subst ht
    obtain ⟨tsl, htsl, _⟩ := hit
    apply h.trailingStop.closes (Option.isSome_of_mem htsl) hvol hside
    rw [hg]
    exact SignedVolume.isZero_zero
  · rw [(checkTrailingStop_of_not_hit ts hit).1] at ht
    simp at ht

theorem Guarded.checkTpsl (h : Guarded g s s') (hc : g.TpslHit price → g.trailingStop = none) :
    Guarded (g.checkTpsl ts price).1 s s' := by
  by_cases hit : g.TpslHit price
  · rw [(checkTpsl_of_hit ts hit).1]
    exact ⟨fun ha => by simp at ha, fun ha => by simp [hc hit] at ha⟩
  · rw [checkTpsl_of_not_hit hit]
    exact h

/--
In a run that keeps the exits in order, no exit is armed while the position is zero, and
every trade of an exit has volume, is on the side opposite to the position the exit was
armed for, and takes the position to zero.
-/
theorem exits_closed_with_position (cs : List GatewayCall) (h : Meets step KeepsExits init cs) :
    ((after step init cs).gateway.posVolume.IsZero →
      (after step init cs).gateway.tpsl = none ∧
        (after step init cs).gateway.trailingStop = none) ∧
    ∀ pre ts price post, cs = pre ++ .newPrice ts price :: post →
      let w := after step init pre
      let g := w.gateway.setPrice ts price
      let g' := (g.checkTpsl ts price).1
      (∀ t ∈ (g.checkTpsl ts price).2.filterMap GatewayEvent.trade?,
        Closes t w.tpslFor g'.posVolume) ∧
      (∀ t ∈ (g'.checkTrailingStop ts price).2.filterMap GatewayEvent.trade?,
        Closes t w.trailingStopFor (g'.checkTrailingStop ts price).1.posVolume) := by
  refine ⟨fun hz => ?_, ?_⟩
  · have hg := run_guarded h
    constructor
    · exact Option.not_isSome_iff_eq_none.mp fun ha => (hg.tpsl ha).1 hz
    · exact Option.not_isSome_iff_eq_none.mp fun ha => (hg.trailingStop ha).1 hz
  · rintro pre ts price post rfl w g g'
    obtain ⟨hpre, hc, _⟩ := meets_append.mp h
    have hw := run_guarded hpre
    have hg : Guarded g w.tpslFor w.trailingStopFor := ⟨hw.tpsl, hw.trailingStop⟩
    exact ⟨hg.tpsl_closes, (hg.checkTpsl hc.1).trailingStop_closes⟩

/-- A bought unit with a take profit at 130, which the price reaches. -/
theorem exits_closed_with_position_take_profit :
    let cs : List GatewayCall := [
      .newPrice 1 100,
      .request (.order (.ofSigned 1 "BTCUSDT" 100 ⟨1⟩ 1)),
      .request (.tpsl ⟨⟨"BTCUSDT", ⟨1, 10, 1⟩⟩, 130, 50, 2⟩),
      .newPrice 2 135]
    Meets step KeepsExits init cs ∧ (after step init cs).gateway.tpsl = none := by
  intro cs
  have hmeets : Meets step KeepsExits init cs := by decide +kernel
  have hzero : (after step init cs).gateway.posVolume.IsZero := by decide +kernel
  exact ⟨hmeets, ((exits_closed_with_position cs hmeets).1 hzero).1⟩

/-- A sale that closes the position leaves the take profit armed, which then trades nothing. -/
theorem exit_armed_at_zero :
    let g := after BacktestTradingGateway.step .init [
      .newPrice 1 100,
      .request (.order (.ofSigned 1 "BTCUSDT" 100 ⟨1⟩ 1)),
      .request (.tpsl ⟨⟨"BTCUSDT", ⟨1, 10, 1⟩⟩, 130, 50, 2⟩),
      .request (.order (.ofSigned 3 "BTCUSDT" 100 ⟨-1⟩ 2))]
    g.posVolume.IsZero ∧ g.tpsl.isSome ∧
      ((g.handle (.newPrice 3 135)).2.filterMap GatewayEvent.trade?).map
        (·.unsignedVolume.value) = [0] := by
  decide +kernel

end WatchedGateway

end CryptoTrading

import CryptoTrading.Instance.System

/-! # Closing orders

Every stop cause that is handled sends an order for the whole open position, whatever
is still on its way. One such order closes the position; a second one, sent before the
first has traded, opens another on the other side.
-/

namespace CryptoTrading

open Runs

namespace InstanceSystem

variable (s : InstanceSystem)

/-- The volume of the closing orders, without the trades that the instance has handled. -/
def closingInFlight : ℚ :=
  (s.closings.map (·.targetVolume.value)).sum - tradedVolume s.handled

def openVolume : ℚ := (s.opened.map fun pos => |pos.absoluteVolume.value|).getD 0

/-- The gateway trades closing orders only, each up to its volume. -/
def TradesClosings : InstanceStep → Prop
  | .beginTrade t =>
    ∃ o ∈ s.closings, o.guid = t.orderGuid ∧ t.side = o.side ∧ 0 < t.unsignedVolume.value ∧
      tradedVolume (s.traded.filter (·.orderGuid = o.guid)) + t.unsignedVolume.value ≤
        o.targetVolume.value
  | _ => True

/-- A stop finds no closing order on its way and a volume in whole quantity steps; a trade
leaves nothing, or more than dust. -/
def Clean (e : InstanceEvent) (pos : OpenedPosition) : Prop :=
  (e.stops → s.closingInFlight = 0 ∧
    s.om.adjustedVolume (closingVolume pos) = .ok (closingVolume pos)) ∧
  ∀ t ∈ e.instanceTrade?, pos.absoluteVolume.value + t.signedVolume.value = 0 ∨
    dustVolume < |pos.absoluteVolume.value + t.signedVolume.value|

def ClosesCleanly : InstanceStep → Prop
  | .run => ∀ e ∈ s.next?.map Prod.fst, ∀ pos ∈ s.opened, s.Clean e pos
  | _ => True

instance (c : InstanceStep) : Decidable (s.TradesClosings c) := by
  unfold TradesClosings
  split <;> infer_instance

instance (e : InstanceEvent) (pos : OpenedPosition) : Decidable (s.Clean e pos) :=
  inferInstanceAs (Decidable (_ ∧ _))

instance (c : InstanceStep) : Decidable (s.ClosesCleanly c) := by
  unfold ClosesCleanly
  split <;> infer_instance

structure Closing (pos₀ : OpenedPosition) (o : MarketOrder) : Prop where
  closings : s.closings = [o]
  volume : pos₀.absoluteVolume.value = -o.signedVolume.value
  fills : ∀ t ∈ s.traded, t.orderGuid = o.guid ∧ t.side = o.side ∧ 0 < t.unsignedVolume.value
  bounded : tradedVolume s.traded ≤ o.targetVolume.value
  position : s.closingInFlight = 0 ∧ s.opened = none ∨
    0 < s.closingInFlight ∧ ∃ pos, s.opened = some pos ∧
      pos.absoluteVolume.value = -(s.closingInFlight * (o.side.sign : ℚ))

/-- The position is untouched, or one closing order is on its way or done. -/
def OneClosing (opened₀ : Option OpenedPosition) : Prop :=
  s.closings = [] ∧ s.traded = [] ∧ s.opened = opened₀ ∨
    ∃ pos₀ o, opened₀ = some pos₀ ∧ s.Closing pos₀ o

variable {s} {s' : InstanceSystem} {e : InstanceEvent} {t : Trade} {o : MarketOrder}
  {pos pos₀ : OpenedPosition} {opened₀ : Option OpenedPosition} {pm₀ : PositionManager}
  {c : InstanceStep} {queue : ThreadSafePriorityQueue InstanceEvent}

theorem Closing.congr (h : s.Closing pos₀ o) (hclosings : s'.closings = s.closings)
    (htraded : s'.traded = s.traded) (hhandled : s'.handled = s.handled)
    (hopened : s'.opened = s.opened) : s'.Closing pos₀ o := by
  have hflight : s'.closingInFlight = s.closingInFlight := by
    rw [closingInFlight, hclosings, hhandled]
    rfl
  exact ⟨hclosings.trans h.closings, h.volume, htraded ▸ h.fills, htraded ▸ h.bounded,
    by rw [hflight, hopened]; exact h.position⟩

theorem OneClosing.congr (h : s.OneClosing opened₀) (hclosings : s'.closings = s.closings)
    (htraded : s'.traded = s.traded) (hhandled : s'.handled = s.handled)
    (hopened : s'.opened = s.opened) : s'.OneClosing opened₀ := by
  rcases h with ⟨hnone, hnothing, hsame⟩ | ⟨pos₀, o, hpos₀, hclosing⟩
  · exact .inl ⟨hclosings.trans hnone, htraded.trans hnothing, hopened.trans hsame⟩
  · exact .inr ⟨pos₀, o, hpos₀, hclosing.congr hclosings htraded hhandled hopened⟩

theorem adjustedVolume_ne_zero {om : OrderManager} {vol adjusted : SignedVolume}
    (h : om.adjustedVolume vol = .ok adjusted) : adjusted.value ≠ 0 := by
  unfold OrderManager.adjustedVolume at h
  split at h
  · cases h
  · split at h
    · cases h
    · cases h
      assumption

theorem value_closingVolume (pos : OpenedPosition) :
    (closingVolume pos).value = -pos.absoluteVolume.value :=
  SignedVolume.value_ofUnsigned_opposite _

theorem Closing.inFlight (h : s.Closing pos₀ o) :
    s.closingInFlight = o.targetVolume.value - tradedVolume s.handled := by
  simp [closingInFlight, h.closings]

theorem closing_of_send {om : OrderManager} (hopened : s.opened = some pos₀)
    (hnone : s.closings = []) (htraded : s.traded = []) (hhandled : s.handled = [])
    (hvol : o.signedVolume = closingVolume pos₀) (hne : o.signedVolume.value ≠ 0) :
    ({ s with om, closings := s.closings ++ [o] } : InstanceSystem).Closing pos₀ o := by
  have hvalue : pos₀.absoluteVolume.value = -o.signedVolume.value := by
    rw [hvol, value_closingVolume, neg_neg]
  have hflight : ({ s with om, closings := s.closings ++ [o] } : InstanceSystem).closingInFlight =
      o.targetVolume.value := by
    simp [closingInFlight, hnone, hhandled]
  have hpos : 0 < o.targetVolume.value := by
    refine lt_of_le_of_ne o.targetVolume.nonneg fun hzero => hne ?_
    rw [MarketOrder.signedVolume, SignedVolume.value_ofUnsigned, ← hzero, zero_mul]
  refine ⟨by rw [hnone]; rfl, hvalue, ?_, ?_, .inr ⟨?_, pos₀, hopened, ?_⟩⟩
  · simp [htraded]
  · simpa [htraded] using hpos.le
  · rwa [hflight]
  · rw [hflight, hvalue]
    rfl

theorem OneClosing.closing {om : OrderManager} (hs : s.OneClosing opened₀)
    (hhandled : s.traded = [] → s.handled = []) (he : e.stops) (hopened : s.opened = some pos)
    (hvol : s.om.adjustedVolume (closingVolume pos) = .ok o.signedVolume) (hclean : s.Clean e pos) :
    ({ s with om, closings := s.closings ++ [o] } : InstanceSystem).OneClosing opened₀ := by
  obtain ⟨hnothing, hwhole⟩ := hclean.1 he
  rcases hs with ⟨hnone, htraded, hopened₀⟩ | ⟨pos₀, o', _, hclosing⟩
  · refine .inr ⟨pos, o, hopened₀ ▸ hopened, ?_⟩
    have hvolume : o.signedVolume = closingVolume pos :=
      Except.ok.inj (hvol.symm.trans hwhole)
    exact closing_of_send hopened hnone htraded (hhandled htraded) hvolume
      (adjustedVolume_ne_zero hvol)
  · rcases hclosing.position with ⟨_, hclosed⟩ | ⟨hflight, _⟩
    · rw [hclosed] at hopened
      cases hopened
    · exact absurd hnothing hflight.ne'

theorem Closing.fill (hs : s.Closing pos₀ o) {rest : List Trade}
    (hledger : s.traded = s.handled ++ t :: rest) (hclean : ∀ pos ∈ s.opened, s.Clean
      (.instanceTrade t) pos) : (s.handleTrade t).Closing pos₀ o := by
  have hmem : t ∈ s.traded := hledger ▸ List.mem_append_right _ List.mem_cons_self
  obtain ⟨hguid, hside, hpositive⟩ := hs.fills t hmem
  have hbounded := hs.bounded
  have hrest := tradedVolume_nonneg rest
  have hflight := hs.inFlight
  have hflight' : (s.handleTrade t).closingInFlight =
      s.closingInFlight - t.unsignedVolume.value := by
    simp [closingInFlight, handleTrade]
    ring
  have hle : t.unsignedVolume.value ≤ s.closingInFlight := by
    rw [hledger] at hbounded
    rw [tradedVolume_append, tradedVolume_cons] at hbounded
    linarith
  refine ⟨hs.closings, hs.volume, hs.fills, hs.bounded, ?_⟩
  rcases hs.position with ⟨hzero, _⟩ | ⟨hleft, pos, hopened, hpos⟩
  · linarith
  have hsign : (o.side.sign : ℚ) * o.side.sign = 1 := by exact_mod_cast o.side.sign_mul_self
  have hne : (o.side.sign : ℚ) ≠ 0 := fun hzero => by rw [hzero] at hsign; simp at hsign
  have htrade : t.signedVolume.value = t.unsignedVolume.value * (o.side.sign : ℚ) := by
    rw [Trade.value_signedVolume, hside]
  have hposne : ¬ pos.absoluteVolume.IsZero := by
    rw [SignedVolume.isZero_iff, hpos]
    exact neg_ne_zero.mpr (mul_ne_zero hleft.ne' hne)
  have htradene : ¬ t.signedVolume.IsZero := by
    rw [SignedVolume.isZero_iff, htrade]
    exact mul_ne_zero hpositive.ne' hne
  have hagainst : ¬ pos.Grows t.signedVolume := by
    rintro (hz | hsame)
    · exact hposne hz
    · have hprod := (SignedVolume.sign_eq_iff htradene hposne).mp hsame
      rw [htrade, hpos] at hprod
      nlinarith [mul_pos hpositive hleft]
  have hsum : pos.absoluteVolume.value + t.signedVolume.value =
      -((s.closingInFlight - t.unsignedVolume.value) * (o.side.sign : ℚ)) := by
    rw [hpos, htrade]
    ring
  have hopened' : (s.handleTrade t).opened =
      (s.results.positionManager.step t).openedPosition := by
    simp only [opened, handleTrade, InstanceResults.handleTrade_positionManager]
  rw [hflight', hopened']
  rcases PositionManager.step_against hopened hagainst htradene ((hclean pos hopened).2 t rfl) with
    ⟨hzero, hclosed⟩ | ⟨hnonzero, pos', hpos', hvalue⟩
  · rw [hsum, neg_eq_zero, mul_eq_zero] at hzero
    exact .inl ⟨hzero.resolve_right hne, hclosed⟩
  · refine .inr ⟨?_, pos', hpos', hvalue.trans hsum⟩
    refine lt_of_le_of_ne (sub_nonneg.mpr hle) fun hzero => hnonzero ?_
    rw [hsum, ← hzero, zero_mul, neg_zero]

theorem OneClosing.tradeBegun (hs : s.OneClosing opened₀) (h : s.TradesClosings (.beginTrade t)) :
    ({ s.push (.orderTrade t) with
      pushing := some t, traded := s.traded ++ [t] } : InstanceSystem).OneClosing opened₀ := by
  obtain ⟨o', ho', hguid, hside, hpositive, hbound⟩ := h
  rcases hs with ⟨hnone, _⟩ | ⟨pos₀, o, hpos₀, hclosing⟩
  · rw [hnone] at ho'
    cases ho'
  rw [hclosing.closings] at ho'
  obtain rfl := List.mem_singleton.mp ho'
  have hall : s.traded.filter (·.orderGuid = o'.guid) = s.traded :=
    List.filter_eq_self.mpr fun x hx => decide_eq_true (hclosing.fills x hx).1
  rw [hall] at hbound
  refine .inr ⟨pos₀, o', hpos₀, hclosing.closings, hclosing.volume, ?_, ?_, hclosing.position⟩
  · intro x hx
    rcases List.mem_append.mp hx with hx | hx
    · exact hclosing.fills x hx
    · obtain rfl := List.mem_singleton.mp hx
      exact ⟨hguid.symm, hside, hpositive⟩
  · simpa using hbound

theorem OneClosing.run (hs : s.OneClosing opened₀) (hcoherent : s.Coherent pm₀)
    (hclean : s.ClosesCleanly .run) : (s.step .run).OneClosing opened₀ := by
  rcases run_cases (s := s) with h | ⟨e, queue, hout, hpop, h⟩
  · rwa [h]
  have htaken : ({ s with queue } : InstanceSystem).OneClosing opened₀ :=
    hs.congr rfl rfl rfl rfl
  have hclean' (pos : OpenedPosition) (hpos : pos ∈ s.opened) : s.Clean e pos :=
    hclean e (by simp [next?, hout, hpop]) pos hpos
  generalize s.step .run = s' at h ⊢
  cases h with
  | closing hstops hopened _ hvol =>
    exact htaken.closing hcoherent.handled_eq_nil hstops hopened hvol (hclean' _ hopened)
  | instanceTrade t =>
    have hledger := hcoherent.ledger
    rw [(hcoherent.take hpop).2] at hledger
    rcases htaken with ⟨_, hnothing, _⟩ | ⟨pos₀, o, hpos₀, hclosing⟩
    · rw [show s.traded = [] from hnothing] at hledger
      simp [InstanceEvent.instanceTrade?] at hledger
    · exact .inr ⟨pos₀, o, hpos₀, hclosing.fill hledger hclean'⟩
  | _ => exact htaken.congr rfl rfl rfl rfl

theorem OneClosing.step (hs : s.OneClosing opened₀) (hcoherent : s.Coherent pm₀)
    (h : s.TradesClosings c) (hclean : s.ClosesCleanly c) : (s.step c).OneClosing opened₀ := by
  cases c with
  | beginTrade t =>
    simp only [InstanceSystem.step]
    cases s.pushing with
    | some t' => exact hs
    | none => exact hs.tradeBegun h
  | endTrade =>
    simp only [InstanceSystem.step]
    cases s.pushing with
    | some t => exact hs.congr rfl rfl rfl rfl
    | none => exact hs
  | mdStatus status =>
    simp only [InstanceSystem.step]
    split
    · exact hs
    · exact hs.congr rfl rfl rfl rfl
  | flush =>
    simp only [InstanceSystem.step]
    cases s.outbox with
    | nil => exact hs
    | cons e outbox => exact hs.congr rfl rfl rfl rfl
  | run => exact hs.run hcoherent hclean
  | _ => exact hs.congr rfl rfl rfl rfl

/-- The closing orders never exceed the position. -/
theorem OneClosing.inFlight_le (hs : s.OneClosing opened₀)
    (hhandled : s.traded = [] → s.handled = []) : s.closingInFlight ≤ s.openVolume := by
  rcases hs with ⟨hnone, htraded, _⟩ | ⟨pos₀, o, _, hclosing⟩
  · have hzero : s.closingInFlight = 0 := by
      simp [closingInFlight, hnone, hhandled htraded]
    rw [hzero, openVolume]
    cases s.opened with
    | none => exact le_rfl
    | some pos => exact abs_nonneg _
  · rcases hclosing.position with ⟨hzero, hclosed⟩ | ⟨hleft, pos, hopened, hpos⟩
    · rw [hzero, openVolume, hclosed]
      exact le_rfl
    · have habs : |pos.absoluteVolume.value| = s.closingInFlight := by
        rw [hpos, abs_neg, abs_mul, abs_of_pos hleft]
        cases o.side <;> simp
      rw [openVolume, hopened, Option.map_some, Option.getD_some, habs]

theorem OneClosing.side_eq (hs : s.OneClosing opened₀) (hopened : s.opened = some pos) :
    ∃ pos₀, opened₀ = some pos₀ ∧ pos.absoluteVolume.side = pos₀.absoluteVolume.side := by
  rcases hs with ⟨_, _, hsame⟩ | ⟨pos₀, o, hpos₀, hclosing⟩
  · exact ⟨pos, hsame.symm.trans hopened, rfl⟩
  · refine ⟨pos₀, hpos₀, ?_⟩
    rcases hclosing.position with ⟨_, hclosed⟩ | ⟨hleft, pos', hopened', hpos⟩
    · rw [hclosed] at hopened
      cases hopened
    obtain rfl : pos' = pos := Option.some.inj (hopened'.symm.trans hopened)
    have htarget : 0 < o.targetVolume.value := by
      have hinFlight := hclosing.inFlight
      have hhandled := tradedVolume_nonneg s.handled
      linarith
    have hsign : (o.side.sign : ℚ) * o.side.sign = 1 := by exact_mod_cast o.side.sign_mul_self
    apply SignedVolume.SameSide.side_eq
    rw [SignedVolume.SameSide, hpos, hclosing.volume, MarketOrder.signedVolume,
      SignedVolume.value_ofUnsigned]
    calc 0 < o.targetVolume.value * s.closingInFlight := mul_pos htarget hleft
      _ = o.targetVolume.value * s.closingInFlight * (o.side.sign * o.side.sign) := by
        rw [hsign, mul_one]
      _ = -(o.targetVolume.value * o.side.sign) * -(s.closingInFlight * o.side.sign) := by ring

theorem OneClosing.opened_eq_none (hs : s.OneClosing opened₀) (hsent : s.closings ≠ [])
    (hdone : s.closingInFlight = 0) : s.opened = none := by
  rcases hs with ⟨hnone, _⟩ | ⟨pos₀, o, _, hclosing⟩
  · exact absurd hnone hsent
  · rcases hclosing.position with ⟨_, hclosed⟩ | ⟨hleft, _⟩
    · exact hclosed
    · exact absurd hdone hleft.ne'

theorem start_oneClosing (om : OrderManager) (strategy : StrategyBase) (results : InstanceResults)
    (last : Milliseconds × ℚ) (historical : Bool) :
    (start om strategy results last historical).OneClosing
      results.positionManager.openedPosition :=
  .inl ⟨rfl, rfl, rfl⟩

/--
In every run in which each stop that finds a position finds no closing order on its way, and
the volumes are in whole quantity steps, the closing orders on their way never exceed the
position, which is closed when they have traded and never on the other side.
-/
theorem closings_within_position (om : OrderManager) (strategy : StrategyBase)
    (results : InstanceResults) (last : Milliseconds × ℚ) (historical : Bool)
    (cs : List InstanceStep)
    (htrades : Meets step TradesClosings (start om strategy results last historical) cs)
    (hclean : Meets step ClosesCleanly (start om strategy results last historical) cs) :
    let s := after step (start om strategy results last historical) cs
    s.closingInFlight ≤ s.openVolume ∧
      (s.closings ≠ [] → s.closingInFlight = 0 → s.opened = none) ∧
      ∀ pos, s.opened = some pos → ∃ pos₀, results.positionManager.openedPosition = some pos₀ ∧
        pos.absoluteVolume.side = pos₀.absoluteVolume.side := by
  intro s
  have hboth : Meets step (fun s c => s.TradesClosings c ∧ s.ClosesCleanly c)
      (start om strategy results last historical) cs := htrades.and hclean
  obtain ⟨hcoherent, hclosing⟩ := hboth.invariant
    (I := fun s => s.Coherent results.positionManager ∧
      s.OneClosing results.positionManager.openedPosition)
    (fun s c hs h => ⟨hs.1.step, hs.2.step hs.1 h.1 h.2⟩)
    ⟨start_coherent .., start_oneClosing ..⟩
  exact ⟨hclosing.inFlight_le hcoherent.handled_eq_nil, hclosing.opened_eq_none,
    fun pos hopened => hclosing.side_eq hopened⟩

/-- Two trades close a position of two, and the stop behind them finds none. -/
theorem closings_within_position_two :
    let buy : Trade := ⟨1, "BTCUSDT", 1, 100, ⟨2, zero_le_two⟩, .buy, 0⟩
    let sell (ts : Milliseconds) : Trade := ⟨ts, "BTCUSDT", 1, 100, ⟨1, zero_le_one⟩, .sell, 0⟩
    let s := start (.init ⟨"BTCUSDT", ⟨1, 100, 1⟩⟩) {} (InstanceResults.init.handleTrade buy)
      (1, 100) false
    let cs : List InstanceStep := [.stopAsync, .run, .beginTrade (sell 2), .endTrade, .run, .run,
      .flush, .run, .beginTrade (sell 3), .endTrade, .mdStatus .stopped, .run, .run, .flush, .run]
    (Meets step TradesClosings s cs ∧ Meets step ClosesCleanly s cs) ∧
      (after step s cs).closings ≠ [] ∧ (after step s cs).opened = none := by
  intro buy sell s cs
  have htrades : Meets step TradesClosings s cs := by decide +kernel
  have hclean : Meets step ClosesCleanly s cs := by decide +kernel
  have hdone : (after step s cs).closings ≠ [] ∧ (after step s cs).closingInFlight = 0 := by
    decide +kernel
  exact ⟨⟨htrades, hclean⟩, hdone.1,
    (closings_within_position _ _ _ _ _ cs htrades hclean).2.1 hdone.1 hdone.2⟩

/-- Two stops before the first trade sell the position twice. -/
theorem closings_exceed_position :
    let buy : Trade := ⟨1, "BTCUSDT", 1, 100, ⟨1, zero_le_one⟩, .buy, 0⟩
    let sell (guid : Guid) : Trade := ⟨2, "BTCUSDT", guid, 100, ⟨1, zero_le_one⟩, .sell, 0⟩
    let s := start (.init ⟨"BTCUSDT", ⟨1, 100, 1⟩⟩) {} (InstanceResults.init.handleTrade buy)
      (1, 100) false
    let stops : List InstanceStep := [.stopAsync, .stopAsync, .run, .run]
    let trades : List InstanceStep := [.beginTrade (sell 1), .endTrade, .run, .run, .flush,
      .beginTrade (sell 2), .endTrade, .run, .run, .run, .flush]
    Meets step TradesClosings s (stops ++ trades) ∧
      (after step s stops).closingInFlight = 2 ∧ (after step s stops).openVolume = 1 ∧
      (after step s (stops ++ trades)).closingInFlight = 0 ∧
      ((after step s (stops ++ trades)).opened.map fun pos => pos.absoluteVolume.value) =
        some (-1) := by
  decide +kernel

end InstanceSystem

end CryptoTrading

import CryptoTrading.Grid.Stages
import CryptoTrading.Lib.KeyedSum

/-! # All levels in their stages

Every level is in one of its stages, the orders of the levels are different, and nothing
refers to any other order.
-/

namespace CryptoTrading

open AddSubgroup

namespace GridSystem

def level? (s : GridSystem) (n : ℤ) : Option Level := s.strategy.ordersByLevels.lookup n

def Owned (s : GridSystem) (g : Guid) : Prop := ∃ n l, s.level? n = some l ∧ l.Owns g

def InStage (s : GridSystem) (busy : Option ℤ) (n : ℤ) (l : Level) : Prop :=
  ∃ o, Stage s.view s.gateway.lastPrice busy n l o ∧ o.targetVolume.value ∈ zmultiples s.om.qtyStep

structure Tracked (s : GridSystem) (busy : Option ℤ) : Prop where
  levelNum : ∀ n l, s.level? n = some l → l.levelNum = n
  stage : ∀ n l, s.level? n = some l → s.InStage busy n l
  owner : ∀ n l n' l' g, s.level? n = some l → s.level? n' = some l' → l.Owns g → l'.Owns g →
    n = n'
  idle : ∀ g, ¬ s.Owned g → (s.view g).Idle
  fresh : ∀ g, s.om.nextGuid ≤ g → ¬ s.Owned g ∧ (s.view g).events = []
  width : ∀ n l, s.level? n = some l → 0 < s.strategy.levelWidth

def entryVolume (s : GridSystem) (l : Level) : ℚ :=
  (s.view l.marketOrder).entry.order.elim 0 (·.signedVolume.value)

variable {s s' s₀ : GridSystem} {busy busy' : Option ℤ} {n : ℤ} {l : Level} {g : Guid}
  {o : MarketOrder}

theorem entryVolume_of_stage (h : Stage s.view s.gateway.lastPrice busy n l o) :
    s.entryVolume l = o.signedVolume.value := by
  rw [entryVolume, h.marketOf.order]
  rfl

section Frames

/-- The levels are the same, each has gone on in its own stage. -/
structure Restages (s s' : GridSystem) (busy busy' : Option ℤ) : Prop where
  levels : s'.strategy.ordersByLevels = s.strategy.ordersByLevels
  qtyStep : s'.om.qtyStep = s.om.qtyStep
  nextGuid : s'.om.nextGuid = s.om.nextGuid
  width : 0 < s.strategy.levelWidth → 0 < s'.strategy.levelWidth
  stage : ∀ n l o, s.level? n = some l → Stage s.view s.gateway.lastPrice busy n l o →
    ∃ o', o.SameRequest o' ∧ Stage s'.view s'.gateway.lastPrice busy' n l o'
  idle : ∀ g, ¬ s.Owned g → (s'.view g).Idle
  fresh : ∀ g, s.om.nextGuid ≤ g → (s'.view g).events = []

theorem Restages.level?_eq (h : Restages s s' busy busy') (n : ℤ) : s'.level? n = s.level? n := by
  rw [level?, h.levels]
  rfl

theorem Restages.owned_iff (h : Restages s s' busy busy') : s'.Owned g ↔ s.Owned g := by
  simp only [Owned, h.level?_eq]

theorem Tracked.restage (ht : s.Tracked busy) (h : Restages s s' busy busy') :
    s'.Tracked busy' := by
  constructor
  · intro n l hl
    exact ht.levelNum n l (h.level?_eq n ▸ hl)
  · intro n l hl
    rw [h.level?_eq] at hl
    obtain ⟨o, hstage, hsteps⟩ := ht.stage n l hl
    obtain ⟨o', hsame, hstage'⟩ := h.stage n l o hl hstage
    refine ⟨o', hstage', ?_⟩
    rw [hsame.targetVolume, h.qtyStep]
    exact hsteps
  · intro n l n' l' g hl hl'
    rw [h.level?_eq] at hl hl'
    exact ht.owner n l n' l' g hl hl'
  · intro g hg
    exact h.idle g fun howned => hg (h.owned_iff.mpr howned)
  · intro g hg
    rw [h.nextGuid] at hg
    exact ⟨fun howned => (ht.fresh g hg).1 (h.owned_iff.mp howned), h.fresh g hg⟩
  · intro n l hl
    rw [h.level?_eq] at hl
    exact h.width (ht.width n l hl)

theorem Restages.entryVolume_eq (ht : s.Tracked busy) (h : Restages s s' busy busy')
    (hl : s.level? n = some l) : s'.entryVolume l = s.entryVolume l := by
  obtain ⟨o, hstage, -⟩ := ht.stage n l hl
  obtain ⟨o', hsame, hstage'⟩ := h.stage n l o hl hstage
  rw [entryVolume_of_stage hstage, entryVolume_of_stage hstage', MarketOrder.signedVolume,
    MarketOrder.signedVolume, hsame.targetVolume, hsame.side]

theorem restages_of_views (ht : s.Tracked busy)
    (hlevels : s'.strategy.ordersByLevels = s.strategy.ordersByLevels) (hom : s'.om = s.om)
    (hwidth : 0 < s.strategy.levelWidth → 0 < s'.strategy.levelWidth)
    (hgateway : s'.gateway = s.gateway) (hviews : ∀ g, s'.view g = s.view g) :
    Restages s s' busy busy := by
  have hviews' : s'.view = s.view := funext hviews
  refine ⟨hlevels, by rw [hom], by rw [hom], hwidth, fun n l o hl hstage => ?_, fun g hg => ?_,
    fun g hg => ?_⟩
  · rw [hviews', hgateway]
    exact ⟨o, .refl o, hstage⟩
  · rw [hviews]
    exact ht.idle g hg
  · rw [hviews]
    exact (ht.fresh g hg).2

end Frames

section Events

/-- An idle order stays idle whatever the gateway says. -/
theorem idle_onGatewayEvent {ge : GatewayEvent} (h : (s.view g).Idle)
    (hpop : s.Pops s₀ (.gateway ge)) (hge : ge.guid? = some g) :
    ((s₀.onGatewayEvent ge).view g).Idle := by
  obtain ⟨hentry, hquiet⟩ := OrderManager.step_idle h.channel h.exit hge
  obtain ⟨rest, hhead, hview⟩ := hpop.view_quiet hge hquiet
  rw [hview, hentry]
  refine ⟨h.channel, h.exit, h.pending, h.subscription, fun e he => h.events e ?_⟩
  rw [hhead]
  exact .tail _ he

theorem restages_onGatewayEvent {ge : GatewayEvent} (ht : s.Tracked none)
    (hpop : s.Pops s₀ (.gateway ge)) : Restages s (s₀.onGatewayEvent ge) none none := by
  have hrest : s₀.onGatewayEvent ge = { s with
      om := s.om.step ge
      queue := (s₀.onGatewayEvent ge).queue } := by
    rw [onGatewayEvent_rest, hpop.rest]
  have hprice : (s₀.onGatewayEvent ge).gateway.lastPrice = s.gateway.lastPrice := by rw [hrest]
  have hne : ∀ g, ge.guid? ≠ some g → (s₀.onGatewayEvent ge).view g = s.view g := by
    intro g hg
    rw [view_onGatewayEvent_of_ne hg, hpop.view_of_ne hg]
  refine ⟨by rw [hrest], ?_, ?_, ?_, fun n l o hl hstage => ?_, fun g hg => ?_, fun g hg => ?_⟩
  · rw [hrest]
    exact congrArg (·.lotSizeFilter.qtyStep) (OrderManager.symbol_step s.om ge)
  · rw [hrest]
    exact (OrderManager.step_cases s.om ge).nextGuid
  · rw [hrest]
    exact id
  · rw [hprice]
    by_cases howns : ∃ g, ge.guid? = some g ∧ l.Owns g
    · obtain ⟨g, hge, hg⟩ := howns
      exact hstage.gateway hpop hge hg
    · refine ⟨o, .refl o, hstage.congr fun g hg => hne g fun hge => howns ⟨g, hge, hg⟩⟩
  · by_cases hge : ge.guid? = some g
    · exact idle_onGatewayEvent (ht.idle g hg) hpop hge
    · rw [hne g hge]
      exact ht.idle g hg
  · obtain ⟨-, hevents⟩ := ht.fresh g hg
    have hge : ge.guid? ≠ some g := by
      intro hge
      obtain ⟨rest, hhead⟩ := hpop.head hge
      rw [hevents] at hhead
      cases hhead
    rw [hne g hge, hevents]

theorem restages_of_pops {role : OrderRole} {level : ℤ} (ht : s.Tracked none)
    (hpop : s.Pops s₀ (.update role g level)) (hl : s.level? n = some l) (hg : l.Owns g)
    (hold : Stage s.view s.gateway.lastPrice none n l o)
    (hnew : Stage s₀.view s.gateway.lastPrice busy' n l o) (hbusy : ∀ n' ≠ n, busy' ≠ some n') :
    Restages s s₀ none busy' := by
  have hne : ∀ g' ≠ g, s₀.view g' = s.view g' :=
    fun g' hg' => hpop.view_of_ne fun heq => hg' (Option.some.inj heq).symm
  have hnot : ∀ g', ¬ s.Owned g' → g' ≠ g := by
    rintro g' hg' rfl
    exact hg' ⟨n, l, hl, hg⟩
  refine ⟨by rw [hpop.rest], by rw [hpop.rest], by rw [hpop.rest], by rw [hpop.rest]; exact id,
    fun n' l' o' hl' hstage => ?_, fun g' hg' => ?_, fun g' hg' => ?_⟩
  · have hprice : s₀.gateway.lastPrice = s.gateway.lastPrice := by rw [hpop.rest]
    rw [hprice]
    by_cases hn : n' = n
    · subst hn
      obtain rfl : l = l' := Option.some.inj (hl.symm.trans hl')
      obtain rfl := hold.order_unique hstage
      exact ⟨o', .refl o', hnew⟩
    · refine ⟨o', .refl o', (hstage.congr fun g' hg' => hne g' ?_).of_not_busy (by simp)⟩
      rintro rfl
      exact hn (ht.owner n' l' n l g' hl' hl hg' hg)
  · rw [hne g' (hnot g' hg')]
    exact ht.idle g' hg'
  · obtain ⟨hown, hevents⟩ := ht.fresh g' hg'
    rw [hne g' (hnot g' hown), hevents]

theorem restages_trigger (ts : Milliseconds) (ht : s.Tracked busy) :
    Restages s (s.trigger ts) busy busy := by
  have hprice : (s.trigger ts).gateway.lastPrice = s.gateway.lastPrice := by
    rw [trigger, emit_eq]
    rfl
  have hidle : ∀ g, ¬ s.Owned g → (s.trigger ts).view g = s.view g :=
    fun g hg => view_trigger_of_idle ts (ht.idle g hg).pending
  refine ⟨?_, ?_, ?_, ?_, fun n l o hl hstage => ?_, fun g hg => ?_, fun g hg => ?_⟩
  · rw [trigger, emit_eq]
  · rw [trigger, emit_eq]
  · rw [trigger, emit_eq]
  · rw [trigger, emit_eq]
    exact id
  · rw [hprice]
    exact ⟨o, .refl o, hstage.trigger ts⟩
  · rw [hidle g hg]
    exact ht.idle g hg
  · obtain ⟨hg, hevents⟩ := ht.fresh g hg
    rw [hidle g hg, hevents]

theorem restages_setPrice (ts : Milliseconds) (price : ℚ) (ht : s.Tracked none)
    (hnormal : s.queue.normal = []) :
    Restages s { s with gateway := s.gateway.setPrice ts price } none none := by
  have hviews : ∀ g, ({ s with gateway := s.gateway.setPrice ts price } : GridSystem).view g =
      s.view g := fun g => rfl
  refine ⟨rfl, rfl, rfl, id, fun n l o hl hstage => ?_, fun g hg => ?_, fun g hg => ?_⟩
  · refine ⟨o, .refl o, hstage.setPrice fun g hg => ?_⟩
    simp [view, hnormal]
  · exact ht.idle g hg
  · exact (ht.fresh g hg).2

end Events

section Local

/-- Only one level changes, whose orders are old or new ones. -/
structure Reworks (s s' : GridSystem) (busy' : Option ℤ) (n : ℤ) : Prop where
  levels : ∀ n' ≠ n, s'.level? n' = s.level? n'
  views : ∀ n' ≠ n, ∀ l, s.level? n' = some l → ∀ g, l.Owns g → s'.view g = s.view g
  lastPrice : s'.gateway.lastPrice = s.gateway.lastPrice
  qtyStep : s'.om.qtyStep = s.om.qtyStep
  levelNum : ∀ l', s'.level? n = some l' → l'.levelNum = n
  stage : ∀ l', s'.level? n = some l' → s'.InStage busy' n l'
  owner : ∀ l', s'.level? n = some l' → ∀ g, l'.Owns g →
    (∃ l, s.level? n = some l ∧ l.Owns g) ∨ s.om.nextGuid ≤ g
  idle : ∀ g, ¬ s'.Owned g → (s'.view g).Idle
  fresh : ∀ g, s'.om.nextGuid ≤ g → ¬ s'.Owned g ∧ (s'.view g).events = []
  width : ∀ n l, s'.level? n = some l → 0 < s'.strategy.levelWidth

theorem Tracked.rework (ht : s.Tracked busy) (hbusy : ∀ n' ≠ n, busy ≠ some n')
    (h : Reworks s s' busy' n) : s'.Tracked busy' := by
  -- No other level owns an order of the changed one.
  have hother : ∀ n' ≠ n, ∀ l l' g, s'.level? n = some l → s'.level? n' = some l' →
      l.Owns g → ¬ l'.Owns g := by
    intro n' hn' l l' g hl hl' hg hg'
    rw [h.levels n' hn'] at hl'
    rcases h.owner l hl g hg with ⟨l₀, hl₀, hg₀⟩ | hfresh
    · exact hn' (ht.owner n l₀ n' l' g hl₀ hl' hg₀ hg').symm
    · exact (ht.fresh g hfresh).1 ⟨n', l', hl', hg'⟩
  refine ⟨fun n' l' hl' => ?_, fun n' l' hl' => ?_, fun m l m' l' g hl hl' hg hg' => ?_, h.idle,
    h.fresh, h.width⟩
  · by_cases hn' : n' = n
    · subst hn'
      exact h.levelNum l' hl'
    · rw [h.levels n' hn'] at hl'
      exact ht.levelNum n' l' hl'
  · by_cases hn' : n' = n
    · subst hn'
      exact h.stage l' hl'
    · rw [h.levels n' hn'] at hl'
      obtain ⟨o, hstage, hsteps⟩ := ht.stage n' l' hl'
      refine ⟨o, ?_, h.qtyStep ▸ hsteps⟩
      rw [h.lastPrice]
      exact (hstage.of_not_busy (hbusy n' hn')).congr (h.views n' hn' l' hl')
  · by_cases hm : m = n
    · by_cases hm' : m' = n
      · rw [hm, hm']
      · subst hm
        exact absurd hg' (hother m' hm' l l' g hl hl' hg)
    · by_cases hm' : m' = n
      · subst hm'
        exact absurd hg (hother m hm l' l g hl' hl hg')
      · rw [h.levels m hm] at hl
        rw [h.levels m' hm'] at hl'
        exact ht.owner m l m' l' g hl hl' hg hg'

structure Gains (s s' : GridSystem) (n : ℤ) (l' : Level) (g : Guid) : Prop where
  self : s'.level? n = some l'
  of_ne : ∀ n' ≠ n, s'.level? n' = s.level? n'
  levelNum : l'.levelNum = n
  owns : ∀ g', l'.Owns g' ↔ (∃ l, s.level? n = some l ∧ l.Owns g') ∨ g' = g
  views : ∀ g' ≠ g, s'.view g' = s.view g'
  fresh : g = s.om.nextGuid
  nextGuid : s'.om.nextGuid = s.om.nextGuid + 1
  symbol : s'.om.symbol = s.om.symbol
  lastPrice : s'.gateway.lastPrice = s.gateway.lastPrice
  width : s'.strategy.levelWidth = s.strategy.levelWidth

theorem Gains.owned_iff {l' : Level} (h : s.Gains s' n l' g) {g' : Guid} :
    s'.Owned g' ↔ s.Owned g' ∨ g' = g := by
  constructor
  · rintro ⟨n', l₁, hl₁, hg'⟩
    by_cases hn' : n' = n
    · subst hn'
      rw [h.self] at hl₁
      rcases (h.owns g').mp (Option.some.inj hl₁ ▸ hg') with ⟨l, hl, hg'⟩ | hg'
      · exact .inl ⟨n', l, hl, hg'⟩
      · exact .inr hg'
    · rw [h.of_ne n' hn'] at hl₁
      exact .inl ⟨n', l₁, hl₁, hg'⟩
  · rintro (⟨n', l, hl, hg'⟩ | rfl)
    · by_cases hn' : n' = n
      · subst hn'
        exact ⟨n', l', h.self, (h.owns g').mpr (.inl ⟨l, hl, hg'⟩)⟩
      · exact ⟨n', l, (h.of_ne n' hn').trans hl, hg'⟩
    · exact ⟨n, l', h.self, (h.owns g').mpr (.inr rfl)⟩

theorem Gains.reworks {l' : Level} (h : s.Gains s' n l' g) (ht : s.Tracked busy)
    (hwidth : 0 < s.strategy.levelWidth) (hstage : s'.InStage busy' n l') :
    Reworks s s' busy' n := by
  have hfresh : ¬ s.Owned g := (ht.fresh g h.fresh.ge).1
  refine ⟨h.of_ne, fun n' hn' l hl g' hg' => ?_, h.lastPrice, ?_, fun l₁ hl₁ => ?_,
    fun l₁ hl₁ => ?_, fun l₁ hl₁ g' hg' => ?_, fun g' hg' => ?_, fun g' hg' => ?_,
    fun n' l hl => ?_⟩
  · apply h.views
    rintro rfl
    exact hfresh ⟨n', l, hl, hg'⟩
  · exact congrArg (·.lotSizeFilter.qtyStep) h.symbol
  · rw [h.self] at hl₁
    exact Option.some.inj hl₁ ▸ h.levelNum
  · rw [h.self] at hl₁
    exact Option.some.inj hl₁ ▸ hstage
  · rw [h.self] at hl₁
    rcases (h.owns g').mp (Option.some.inj hl₁ ▸ hg') with hold | rfl
    · exact .inl hold
    · exact .inr h.fresh.ge
  · rw [h.owned_iff, not_or] at hg'
    rw [h.views g' hg'.2]
    exact ht.idle g' hg'.1
  · rw [h.nextGuid] at hg'
    have hlt : s.om.nextGuid < g' := hg'
    have hne : g' ≠ g := by
      rw [h.fresh]
      exact hlt.ne'
    obtain ⟨hnot, hevents⟩ := ht.fresh g' hlt.le
    rw [h.views g' hne, h.owned_iff]
    exact ⟨not_or.mpr ⟨hnot, hne⟩, hevents⟩
  · rw [h.width]
    exact hwidth

end Local

section Exit

variable {om : OrderManager} {kind : ConditionalType} {x : ConditionalMarketOrder}

theorem view_withExit : (s.withExit om kind x l).view g =
    { s.view g with
      entry := om.entry g
      subscription := (s.subscriptions.insert x.guid l.levelNum).lookup g }.emit
        ((s.gateway.addPending kind x).pendingOf g)
        ([kind.updatedEvent ⟨x.guid, true⟩].filter (·.guid? = some g)) := by
  rw [withExit, view_emit]
  rfl

theorem view_withExit_of_ne {e : OrderEntry} (henters : s.om.Enters om x.guid e)
    (hg : g ≠ x.guid) : (s.withExit om kind x l).view g = s.view g := by
  have hfilter : [kind.updatedEvent ⟨x.guid, true⟩].filter (·.guid? = some g) = [] := by
    simp [hg.symm]
  rw [view_withExit, hfilter, BacktestTradingGateway.pendingOf_addPending_of_ne hg]
  ext1
  · exact henters.of_ne g hg
  · rfl
  · exact AList.lookup_insert_ne hg
  · exact List.append_nil _
  · exact Bool.or_false _

theorem live_withExit {symbol : String} {ts : Milliseconds}
    (henters : s.om.Enters om x.guid ((s.om.entry x.guid).setExit kind (some ⟨x, 1⟩)))
    (hnew : x = .new x.guid symbol x.triggerPrice o.targetVolume o.side.opposite kind ts)
    (hidle : (s.view x.guid).Idle) (hevents : (s.view x.guid).events = []) :
    ((s.withExit om kind x l).view x.guid).Live x.guid kind l.levelNum o x := by
  have hside : x.side = o.side.opposite := by
    rw [hnew]
    rfl
  have hvolume : x.targetVolume = o.targetVolume := by
    rw [hnew]
    rfl
  have hfilter : [kind.updatedEvent ⟨x.guid, true⟩].filter (·.guid? = some x.guid) =
      [kind.updatedEvent ⟨x.guid, true⟩] := by simp
  rw [view_withExit, hfilter, henters.self]
  refine ⟨⟨⟨x, 1⟩, ?_, ?_⟩, ?_, hside, hvolume, .inr (.inl ?_)⟩
  · refine ⟨hidle.channel, OrderEntry.exit_setExit, ?_, ?_, AList.lookup_insert _, one_ne_zero,
      ?_, ?_, hvolume, .inl ?_⟩
    · exact OrderEntry.exit_setExit_other.trans (hidle.exit kind.other)
    · exact BacktestTradingGateway.pendingOf_addPending_other.trans (hidle.pending kind.other)
    · rw [hnew]
      rfl
    · rw [hnew]
      rfl
    · rw [hnew]
      rfl
  · rw [hnew]
    rfl
  · have hnone : s.gateway.pendingOf x.guid kind = [] := hidle.pending kind
    exact BacktestTradingGateway.pendingOf_addPending_self.trans (by rw [hnone, List.nil_append])
  · simp [OrderView.emit, hevents]

theorem owns_setExit (hnone : l.exit kind = none) :
    (l.setExit kind x.guid).Owns g ↔ l.Owns g ∨ g = x.guid := by
  constructor
  · rintro (hg | ⟨k, hk⟩)
    · refine .inl (.inl ?_)
      cases kind <;> exact hg
    · rcases kind.eq_or_eq_other k with rfl | rfl
      · right
        cases k <;> exact (Option.some.inj hk).symm
      · refine .inl (.inr ⟨kind.other, ?_⟩)
        cases kind <;> exact hk
  · rintro ((hg | ⟨k, hk⟩) | rfl)
    · left
      cases kind <;> exact hg
    · rcases kind.eq_or_eq_other k with rfl | rfl
      · rw [hnone] at hk
        cases hk
      · refine .inr ⟨kind.other, ?_⟩
        cases kind <;> exact hk
    · refine .inr ⟨kind, ?_⟩
      cases kind <;> rfl

theorem gains_withExit {e : OrderEntry} (ht : s.Tracked busy) (hl : s.level? n = some l)
    (hnone : l.exit kind = none) (henters : s.om.Enters om x.guid e) :
    s.Gains (s.withExit om kind x l) n (l.setExit kind x.guid) x.guid := by
  have hnum := ht.levelNum n l hl
  refine ⟨?_, fun n' hn' => ?_, ?_, fun g => ?_, fun g hg => view_withExit_of_ne henters hg,
    henters.fresh, ?_, ?_, ?_, ?_⟩
  · rw [level?, withExit, emit_eq, ← hnum]
    exact AList.lookup_insert _
  · rw [level?, withExit, emit_eq]
    exact AList.lookup_insert_ne (hnum ▸ hn')
  · cases kind <;> exact hnum
  · simp [owns_setExit hnone, hl]
  · rw [withExit, emit_eq]
    exact henters.nextGuid
  · rw [withExit, emit_eq]
    exact henters.symbol
  · rw [withExit, emit_eq]
    exact BacktestTradingGateway.sameMarket_addPending.lastPrice
  · rw [withExit, emit_eq]
    rfl

end Exit

section Entry

variable {om : OrderManager} {gw : BacktestTradingGateway} {t : Trade} {symbolName : String}

def tradeEvents (o : MarketOrder) (t : Trade) : List GatewayEvent :=
  [.orderResponse { symbolName := o.symbol, requestGuid := o.guid }, .trade t]

def withTrade (s : GridSystem) (om : OrderManager) (o : MarketOrder) (n : ℤ)
    (gw : BacktestTradingGateway) (t : Trade) : GridSystem :=
  (s.withEntry om o.guid n).emit gw (tradeEvents o t)

theorem view_withTrade (hpending : gw.pendingOf = s.gateway.pendingOf) :
    (s.withTrade om o n gw t).view g =
      { s.view g with
        entry := om.entry g
        subscription := (s.subscriptions.insert o.guid n).lookup g }.emit (s.view g).pending
          ((tradeEvents o t).filter (·.guid? = some g)) := by
  rw [withTrade, view_emit, hpending]
  rfl

theorem view_withTrade_of_ne {e : OrderEntry} (henters : s.om.Enters om o.guid e)
    (hpending : gw.pendingOf = s.gateway.pendingOf) (ht : t.orderGuid = o.guid)
    (hg : g ≠ o.guid) : (s.withTrade om o n gw t).view g = s.view g := by
  have hfilter : (tradeEvents o t).filter (·.guid? = some g) = [] := by
    simp [tradeEvents, GatewayEvent.guid?, ht, hg.symm]
  rw [view_withTrade hpending, hfilter]
  ext1
  · exact henters.of_ne g hg
  · rfl
  · exact AList.lookup_insert_ne hg
  · exact List.append_nil _
  · exact Bool.or_false _

theorem sent_withTrade {price : ℚ} (henters : s.om.Enters om o.guid
      { s.om.entry o.guid with channel := some { subscribers := 1 }, order := some o })
    (hpending : gw.pendingOf = s.gateway.pendingOf) (ht : t.orderGuid = o.guid)
    (hprice : t.price = price) (hvol : t.unsignedVolume = o.targetVolume)
    (haccepted : o.rejectReason = "") (hfilled : o.filledVolume = .zero)
    (hpos : 0 < o.targetVolume.value) (hidle : (s.view o.guid).Idle)
    (hevents : (s.view o.guid).events = []) :
    ((s.withTrade om o n gw t).view o.guid).Sent o.guid n price o := by
  have hfilter : (tradeEvents o t).filter (·.guid? = some o.guid) = tradeEvents o t := by
    simp [tradeEvents, GatewayEvent.guid?, ht]
  rw [view_withTrade hpending, hfilter, henters.self]
  refine ⟨⟨hidle.exit, hidle.pending, AList.lookup_insert _, rfl, haccepted, hpos⟩, hfilled,
    ⟨_, rfl, one_ne_zero, rfl⟩, t, ht, hprice, hvol,
    .inr ⟨{ symbolName := o.symbol, requestGuid := o.guid }, rfl, rfl, ?_⟩⟩
  simp [OrderView.emit, hevents, tradeEvents]

theorem gains_withTrade {e : OrderEntry} (hl : s.level? n = none)
    (henters : s.om.Enters om o.guid e) (hmarket : s.gateway.SameMarket gw)
    (hpending : gw.pendingOf = s.gateway.pendingOf) (htrade : t.orderGuid = o.guid) :
    s.Gains (s.withTrade om o n gw t) n { levelNum := n, marketOrder := o.guid } o.guid := by
  refine ⟨?_, fun n' hn' => ?_, rfl, fun g => ?_,
    fun g hg => view_withTrade_of_ne henters hpending htrade hg, henters.fresh, ?_, ?_, ?_, ?_⟩
  · rw [level?, withTrade, emit_eq]
    exact AList.lookup_insert _
  · rw [level?, withTrade, emit_eq]
    exact AList.lookup_insert_ne hn'
  · rw [hl]
    constructor
    · intro hg
      right
      exact hg.eq_marketOrder fun kind => by cases kind <;> rfl
    · rintro (⟨l, hnone, -⟩ | hg)
      · cases hnone
      · exact .inl hg
  · rw [withTrade, emit_eq]
    exact henters.nextGuid
  · rw [withTrade, emit_eq]
    exact henters.symbol
  · rw [withTrade, emit_eq]
    exact hmarket.lastPrice
  · rw [withTrade, emit_eq]
    rfl

end Entry

section Close

variable {kind : ConditionalType} {exits : ConditionalType → Guid} {x : ConditionalMarketOrder}
  {ch : ConditionalOrderChannel}

structure Closes (s s' : GridSystem) (n : ℤ) (l : Level) (vol : ℚ) : Prop where
  rest : s' = { s with
    om := s'.om
    gateway := s'.gateway
    subscriptions := s'.subscriptions
    queue := s'.queue
    strategy.ordersByLevels := s.strategy.ordersByLevels.erase n }
  nextGuid : s'.om.nextGuid = s.om.nextGuid
  symbol : s'.om.symbol = s.om.symbol
  market : s.gateway.SameMarket s'.gateway
  exposure : s'.gateway.exposure = s.gateway.exposure - vol
  sorted : s.queue.Sorted GridEvent.priority → s'.queue.Sorted GridEvent.priority
  of_not_owns : ∀ g, ¬ l.Owns g → s'.view g = s.view g
  idle : ∀ g, l.Owns g → (s'.view g).Idle

theorem closes_onExitTraded (hl : s.level? n = some l) (hnum : l.levelNum = n)
    (hexits : ∀ kind, l.exit kind = some (exits kind))
    (hmarket : (s.view l.marketOrder).Settled n o)
    (hexit : (s.view (exits kind)).ExitOf kind n o ch)
    (hpending : (s.view (exits kind)).pending kind = [])
    (hlive : (s.view (exits kind.other)).Live (exits kind.other) kind.other n o x) :
    s.Closes (s.onExitTraded kind n) n l x.signedVolume.value := by
  obtain ⟨ch', hexit', -⟩ := hlive.exitOf
  have hne : exits kind ≠ exits kind.other := Stage.ne_other hexit hexit'
  have hnem : exits kind ≠ l.marketOrder := Stage.ne_marketOrder hmarket.toMarketOf hexit.exit
  have hnem' : exits kind.other ≠ l.marketOrder :=
    Stage.ne_marketOrder hmarket.toMarketOf hexit'.exit
  have hcancels := cancels_cancelExit hexit'.exit hexit'.subscription hlive.pending
    hexit'.channel hexit'.other hexit'.pending
  obtain ⟨s₁, hs₁⟩ : ∃ s₁, s₁ = s.cancelExit kind.other (exits kind.other) := ⟨_, rfl⟩
  rw [← hs₁] at hcancels
  have hheldm : s₁.Held .market l.marketOrder := by
    have hheld : s.Held .market l.marketOrder :=
      ⟨fun h => absurd rfl h, fun kind _ => hmarket.exit kind, hmarket.pending⟩
    exact hheld.congr (hcancels.of_ne _ hnem'.symm)
  have hheldk : s₁.Held (.exit kind) (exits kind) := by
    have hheld : s.Held (.exit kind) (exits kind) := by
      refine ⟨fun _ => hexit.channel, fun k hk => ?_, fun k => ?_⟩
      · rcases kind.eq_or_eq_other k with rfl | rfl
        · exact absurd rfl hk
        · exact hexit.other
      · rcases kind.eq_or_eq_other k with rfl | rfl
        · exact hpending
        · exact hexit.pending
    exact hheld.congr (hcancels.of_ne _ hne)
  have hheld : ∀ k g, l.exit k = some g → s₁.Held (.exit k) g := by
    intro k g hg
    obtain rfl : exits k = g := Option.some.inj ((hexits k).symm.trans hg)
    rcases kind.eq_or_eq_other k with rfl | rfl
    · exact hheldk
    · exact hcancels.held
  have hdistinct : exits .takeProfit ≠ exits .stopLoss ∧ (∀ k, exits k ≠ l.marketOrder) := by
    constructor
    · cases kind
      · exact hne.symm
      · exact hne
    · intro k
      rcases kind.eq_or_eq_other k with rfl | rfl
      · exact hnem
      · exact hnem'
  have herases := erases_eraseLevel (hexits .takeProfit) (hexits .stopLoss) hheldm hheld
    hdistinct.1 (hdistinct.2 _) (hdistinct.2 _)
  have hhandler : s.onExitTraded kind n = s₁.eraseLevel l := by
    have hlookup : s.strategy.ordersByLevels.lookup n = some l := hl
    simp only [onExitTraded, hlookup, hexits kind.other, hs₁]
  rw [← hhandler] at herases
  have hgateway : (s.onExitTraded kind n).gateway = s₁.gateway := by rw [herases.rest]
  refine ⟨?_, ?_, ?_, ?_, ?_, fun h => herases.sorted (hcancels.sorted h), fun g hg => ?_,
    herases.idle⟩
  · rw [herases.rest, hcancels.rest, hnum]
  · rw [herases.nextGuid, hcancels.rest]
    exact OrderManager.nextGuid_cancelExit
  · rw [herases.symbol, hcancels.rest]
    exact OrderManager.symbol_cancelExit
  · rw [hgateway]
    exact hcancels.market
  · rw [hgateway]
    exact hcancels.exposure
  · rw [herases.of_not_owns g hg]
    apply hcancels.of_ne
    rintro rfl
    exact hg (.inr ⟨kind.other, hexits kind.other⟩)

theorem Closes.of_pops {vol : ℚ} {role : OrderRole} {level : ℤ} (h : s₀.Closes s' n l vol)
    (hpop : s.Pops s₀ (.update role g level)) (hg : l.Owns g) : s.Closes s' n l vol := by
  have hview : ∀ g', ¬ l.Owns g' → s₀.view g' = s.view g' := by
    intro g' hg'
    apply hpop.view_of_ne
    rintro heq
    exact hg' (Option.some.inj heq ▸ hg)
  refine ⟨?_, ?_, ?_, ?_, ?_, fun _ => h.sorted hpop.sorted,
    fun g' hg' => (h.of_not_owns g' hg').trans (hview g' hg'), h.idle⟩
  · rw [h.rest, hpop.rest]
  · rw [h.nextGuid, hpop.rest]
  · rw [h.symbol, hpop.rest]
  · have hmarket := h.market
    rw [hpop.rest] at hmarket
    exact hmarket
  · rw [h.exposure, hpop.rest]

theorem Closes.level?_self {vol : ℚ} (h : s.Closes s' n l vol) : s'.level? n = none := by
  rw [level?, h.rest]
  exact AList.lookup_erase _ _

theorem Closes.level?_of_ne {vol : ℚ} {n' : ℤ} (h : s.Closes s' n l vol) (hn' : n' ≠ n) :
    s'.level? n' = s.level? n' := by
  rw [level?, h.rest]
  exact AList.lookup_erase_ne hn'

theorem Closes.reworks {vol : ℚ} (h : s.Closes s' n l vol) (ht : s.Tracked busy)
    (hl : s.level? n = some l) : Reworks s s' busy' n := by
  have hnot : ∀ l', s'.level? n ≠ some l' := by
    intro l' hl'
    rw [h.level?_self] at hl'
    cases hl'
  refine ⟨fun n' hn' => h.level?_of_ne hn', fun n' hn' l' hl' g hg => ?_, h.market.lastPrice,
    ?_, fun l' hl' => absurd hl' (hnot l'), fun l' hl' => absurd hl' (hnot l'),
    fun l' hl' => absurd hl' (hnot l'), fun g hg => ?_, fun g hg => ?_, fun n' l' hl' => ?_⟩
  · exact h.of_not_owns g fun hg' => hn' (ht.owner n l n' l' g hl hl' hg' hg).symm
  · exact congrArg (·.lotSizeFilter.qtyStep) h.symbol
  · by_cases howns : l.Owns g
    · exact h.idle g howns
    · rw [h.of_not_owns g howns]
      refine ht.idle g ?_
      rintro ⟨n', l', hl', hg'⟩
      have hn' : n' ≠ n := by
        rintro rfl
        obtain rfl : l = l' := Option.some.inj (hl.symm.trans hl')
        exact howns hg'
      exact hg ⟨n', l', (h.level?_of_ne hn').trans hl', hg'⟩
  · rw [h.nextGuid] at hg
    obtain ⟨hfresh, hevents⟩ := ht.fresh g hg
    have howns : ¬ l.Owns g := fun howns => hfresh ⟨n, l, hl, howns⟩
    rw [h.of_not_owns g howns]
    refine ⟨?_, hevents⟩
    rintro ⟨n', l', hl', hg'⟩
    have hn' : n' ≠ n := by
      rintro rfl
      exact hnot l' hl'
    exact hfresh ⟨n', l', (h.level?_of_ne hn').symm.trans hl', hg'⟩
  · have hsame : s'.strategy.levelWidth = s.strategy.levelWidth := by
      rw [h.rest]
      rfl
    rw [hsame]
    exact ht.width n l hl

end Close

end GridSystem

end CryptoTrading

import CryptoTrading.Grid.Exposure

/-! # The hedge of the grid

In every run all levels go through their stages. When there are no more events, each of
them holds its volume in the position and both its exits in the gateway.
-/

namespace CryptoTrading

open AddSubgroup KeyedSum Runs

def GridEvent.candle? : GridEvent → Option (Milliseconds × Candle)
  | candle ts c => some (ts, c)
  | _ => none

namespace GridSystem

/-- If the trend has a value, the levels have a positive width and an order has a size of at
least one step. -/
def ProperCandle (s : GridSystem) (ts : Milliseconds) (candle : Candle) : Prop :=
  (s.strategy.pushTrend ts candle.close).2 = true →
    0 < (s.strategy.pushTrend ts candle.close).1.levelWidth ∧
      ∀ entry ∈ (s.strategy.pushTrend ts candle.close).1.entryFor candle.close,
        1 ≤ stdRound (entry.2.value / s.om.qtyStep)

instance (s : GridSystem) (ts : Milliseconds) (candle : Candle) :
    Decidable (s.ProperCandle ts candle) := inferInstanceAs (Decidable (_ → _ ∧ _))

def Proper (s : GridSystem) (x : GridStep) : Prop :=
  ∀ c ∈ (s.handling? x).bind GridEvent.candle?, s.ProperCandle c.1 c.2

instance (s : GridSystem) (x : GridStep) : Decidable (s.Proper x) :=
  inferInstanceAs (Decidable (∀ c ∈ _, _))

variable {s s₀ : GridSystem} {n : ℤ} {l : Level} {g : Guid} {o : MarketOrder} {x : GridStep}

section Steps

theorem Sound.onUpdate {role : OrderRole} {level : ℤ} (h : s.Sound none)
    (hpop : s.Pops s₀ (.update role g level)) : (s₀.onUpdate role g level).Sound none := by
  obtain ⟨rest, hhead⟩ := hpop.head rfl
  obtain ⟨n, l, hl, hg⟩ : s.Owned g := by
    by_contra hnot
    obtain ⟨ge, hge⟩ := (h.tracked.idle g hnot).events (.update role g level) (by simp [hhead])
    cases hge
  obtain ⟨o, hstage, hsteps⟩ := h.tracked.stage n l hl
  obtain ⟨rfl, hfound⟩ := hstage.update hpop hg
  have hl₀ : s₀.level? level = some l := by
    rw [hpop.rest]
    exact hl
  have hlast : s₀.gateway.lastPrice = s.gateway.lastPrice := by rw [hpop.rest]
  have hquiet : Quiet s s₀ := by
    rw [hpop.rest]
    exact ⟨rfl, rfl, rfl, fun _ => hpop.sorted, rfl, id, rfl, rfl, rfl, fun _ => id⟩
  cases hfound with
  | filled hexits hmarket hprice =>
    have hsound : s₀.Sound (some level) := by
      refine h.restage (restages_of_pops h.tracked hpop hl hg hstage ?_ ?_) hquiet (by simp)
      · exact .settled rfl hexits hmarket hprice
      · exact fun n' hn' heq => hn' (Option.some.inj heq).symm
    have horder : s₀.om.marketOrders.lookup l.marketOrder = some o := hmarket.order
    have hhandler : s₀.onUpdate .market l.marketOrder level = s₀.onOrderTraded o level := by
      simp only [GridSystem.onUpdate, horder, hmarket.status, if_true]
    rw [hhandler]
    refine hsound.onOrderTraded hl₀ hexits hmarket (hlast ▸ hprice) ?_
      (hquiet.stopsGone (h.stops rfl))
    rw [hpop.rest]
    exact hsteps
  | waiting kind _ ch hch hstatus hstage₀ =>
    have hlookup : (s₀.om.conditionals kind).lookup g = some ch := hch
    have hhandler : s₀.onUpdate (.exit kind) g level = s₀ := by
      simp only [GridSystem.onUpdate, hlookup, if_neg hstatus]
    rw [hhandler]
    exact h.restage_idle (restages_of_pops h.tracked hpop hl hg hstage hstage₀ (by simp)) hquiet
  | traded kind exits y ch hexits hmarket hexit hstatus hpending htraded hlive =>
    have hlookup : (s₀.om.conditionals kind).lookup (exits kind) = some ch := hexit.exit
    have hhandler : s₀.onUpdate (.exit kind) (exits kind) level =
        s₀.onExitTraded kind level := by
      simp only [GridSystem.onUpdate, hlookup, if_pos hstatus]
      cases kind <;> rfl
    rw [hhandler]
    have hcloses := (closes_onExitTraded hl₀ (h.tracked.levelNum level l hl) hexits hmarket hexit
      hpending hlive).of_pops hpop hg
    refine h.close hl hcloses ?_ ?_ (hexits kind) ?_
    · have htp : l.takeProfit = some (exits .takeProfit) := hexits .takeProfit
      have hsl : l.stopLoss = some (exits .stopLoss) := hexits .stopLoss
      rw [Level.exitCount, htp, hsl]
      norm_num
    · rw [entryVolume_of_stage hstage]
      exact MarketOrder.signedVolume_of_opposite hlive.volume hlive.side
    · rw [hpop.view_rest rfl hhead] at htraded
      exact htraded

theorem Sound.pushCandle {ts : Milliseconds} {candle : Candle} (h : s.Sound none)
    (hpop : s.Pops s₀ (.candle ts candle)) (hproper : s₀.ProperCandle ts candle) :
    (s₀.pushCandle ts candle).Sound none := by
  obtain ⟨strategy, hstrategy⟩ : ∃ strategy,
      strategy = (s₀.strategy.pushTrend ts candle.close).1 := ⟨_, rfl⟩
  have hlevels : strategy.ordersByLevels = s.strategy.ordersByLevels := by
    rw [hstrategy, DynamicGridStrategy.pushTrend_ordersByLevels, hpop.rest]
  have hwidth : 0 < s.strategy.levelWidth → 0 < strategy.levelWidth := by
    intro hpos
    cases hvalue : (s₀.strategy.pushTrend ts candle.close).2 with
    | false =>
      rw [hstrategy, DynamicGridStrategy.pushTrend_levelWidth hvalue, hpop.rest]
      exact hpos
    | true =>
      rw [hstrategy]
      exact (hproper hvalue).1
  have hconfig : strategy.config = s₀.strategy.config := by
    rw [hstrategy, DynamicGridStrategy.pushTrend_config]
  have hsound : ({ s₀ with strategy } : GridSystem).Sound none := by
    refine h.restage_idle (restages_of_views h.tracked hlevels ?_ hwidth ?_ fun g => ?_) ?_
    · rw [hpop.rest]
    · rw [hpop.rest]
    · exact hpop.view_of_ne (by simp [GridEvent.guid?])
    · rw [hpop.rest] at hconfig ⊢
      exact ⟨rfl, rfl, rfl, fun _ => hpop.sorted, rfl, id, hconfig, rfl, rfl, fun _ => id⟩
  cases hvalue : (s₀.strategy.pushTrend ts candle.close).2 with
  | false =>
    have hhandler : s₀.pushCandle ts candle = { s₀ with strategy } := by
      simp only [GridSystem.pushCandle, hvalue, hstrategy]
      rfl
    rw [hhandler]
    exact hsound
  | true =>
    obtain ⟨hpos, hsize⟩ := hproper hvalue
    rw [← hstrategy] at hpos hsize
    cases hentry : strategy.entryFor candle.close with
    | none =>
      have hhandler : s₀.pushCandle ts candle = { s₀ with strategy } := by
        simp only [GridSystem.pushCandle, hvalue, ← hstrategy, hentry, if_true]
      rw [hhandler]
      exact hsound
    | some entry =>
      obtain ⟨level, size⟩ := entry
      have hhandler : s₀.pushCandle ts candle = ({ s₀ with strategy } : GridSystem).sendEntry level
          candle.close (.ofUnsigned size (DynamicGridStrategy.entrySide level)) ts := by
        simp only [GridSystem.pushCandle, hvalue, ← hstrategy, hentry, if_true]
      rw [hhandler]
      have hfree : ({ s₀ with strategy } : GridSystem).level? level = none :=
        DynamicGridStrategy.lookup_of_entryFor hentry
      have hsteps : 1 ≤ stdRound (size.value / s₀.om.qtyStep) := hsize (level, size) hentry
      exact hsound.sendEntry candle.close (DynamicGridStrategy.entrySide level) ts hfree hpos hsteps

theorem Sound.step (h : s.Sound none) (hproper : s.Proper x) : (s.step x).Sound none := by
  rw [GridSystem.step, h.running.failed]
  cases x with
  | price ts price =>
    refine h.restage_idle (restages_of_views h.tracked rfl rfl id rfl fun g => view_push_price) ?_
    exact ⟨rfl, rfl, rfl, fun hs => hs.push (.price ts price), rfl, id, rfl, rfl, rfl, fun _ => id⟩
  | run candles =>
    cases hnext : s.next? with
    | none =>
      simp only [advance, hnext]
      exact h
    | some r =>
      obtain ⟨e, s₀⟩ := r
      simp only [advance, hnext]
      cases e with
      | price ts price =>
        obtain ⟨hrest, hsorted, hnormal, hnormal₀⟩ := next?_of_low h.running.sorted hnext rfl
        refine Sound.newPrice ts price candles ?_ hnormal₀
        refine h.restage_idle (restages_of_views h.tracked ?_ ?_ ?_ ?_ fun g => ?_) ?_
        · rw [hrest]
        · rw [hrest]
        · rw [hrest]
          exact id
        · rw [hrest]
        · rw [hrest]
          simp [view, hnormal, hnormal₀]
        · rw [hrest]
          exact ⟨rfl, rfl, rfl, fun _ => hsorted, rfl, id, rfl, rfl, rfl, fun _ => id⟩
      | candle ts candle =>
        have hpop := pops_of_next? h.running.sorted hnext rfl
        refine h.pushCandle hpop ?_
        have hc := hproper (ts, candle) (by simp [handling?, h.running.failed, hnext,
          GridEvent.candle?])
        rw [hpop.rest]
        exact hc
      | gateway ge => exact h.onGatewayEvent (pops_of_next? h.running.sorted hnext rfl)
      | update role g level => exact h.onUpdate (pops_of_next? h.running.sorted hnext rfl)

theorem sound_init (symbol : Symbol) (config : DynamicGridStrategyConfig) :
    (init symbol config).Sound none := by
  have hnone : ∀ n, (init symbol config).level? n = none := fun n => rfl
  have hlevel : ∀ n l, (init symbol config).level? n ≠ some l := by
    intro n l hl
    rw [hnone] at hl
    cases hl
  have hfree : ∀ g, ¬ (init symbol config).Owned g := by
    rintro g ⟨n, l, hl, -⟩
    exact hlevel n l hl
  refine ⟨⟨rfl, rfl, rfl, ThreadSafePriorityQueue.sorted_empty⟩, ?_, fun _ _ => rfl, ?_, ?_⟩
  · refine ⟨fun n l hl => absurd hl (hlevel n l), fun n l hl => absurd hl (hlevel n l),
      fun n l n' l' g hl => absurd hl (hlevel n l), fun g _ => ?_, fun g _ => ⟨hfree g, rfl⟩,
      fun n l hl => absurd hl (hlevel n l)⟩
    refine ⟨rfl, fun kind => ?_, fun kind => ?_, rfl, fun e he => by cases he⟩
    · cases kind <;> rfl
    · cases kind <;> rfl
  · simp [init, BacktestTradingGateway.exposure, BacktestTradingGateway.init,
      DynamicGridStrategy.init, overKeys]
  · exact ⟨List.Pairwise.nil, fun a ha => (by cases ha),
      fun n l kind g hl => absurd hl (hlevel n l)⟩

theorem run_sound (symbol : Symbol) (config : DynamicGridStrategyConfig) (xs : List GridStep)
    (h : Meets step Proper (init symbol config) xs) :
    (after step (init symbol config) xs).Sound none :=
  h.invariant (fun s _ (hs : s.Sound none) hx => hs.step hx) (sound_init symbol config)

end Steps

section Rest

def levels (s : GridSystem) : List Level := s.strategy.ordersByLevels.entries.map Sigma.snd

def filledVolume (s : GridSystem) (l : Level) : ℚ :=
  (s.om.marketOrders.lookup l.marketOrder).elim 0 fun o =>
    (SignedVolume.ofUnsigned o.filledVolume o.side).value

/-- The position is that of the levels, each of which has its two exits in the gateway, where
there are no others. -/
structure Hedged (s : GridSystem) : Prop where
  posVolume : s.gateway.posVolume.value = (s.levels.map s.filledVolume).sum
  exits : ∀ l ∈ s.levels, ∀ kind, ∃ o g x,
    s.om.marketOrders.lookup l.marketOrder = some o ∧ l.exit kind = some g ∧
      (s.gateway.pending kind).filter (·.guid = g) = [x] ∧
      x.side = o.side.opposite ∧ x.targetVolume = o.filledVolume
  pending : ∀ kind, ∀ x ∈ s.gateway.pending kind, ∃! l, l ∈ s.levels ∧ l.exit kind = some x.guid

theorem mem_levels : l ∈ s.levels ↔ ∃ n, s.level? n = some l := by
  constructor
  · intro hl
    obtain ⟨e, he, rfl⟩ := List.mem_map.mp hl
    exact ⟨e.1, AList.mem_lookup_iff.mpr he⟩
  · rintro ⟨n, hl⟩
    exact List.mem_map.mpr ⟨⟨n, l⟩, AList.mem_lookup_iff.mp hl, rfl⟩

structure AtRest (s : GridSystem) (n : ℤ) (l : Level) (o : MarketOrder)
    (exits : ConditionalType → Guid) (x : ConditionalType → ConditionalMarketOrder) : Prop where
  exit : ∀ kind, l.exit kind = some (exits kind)
  market : (s.view l.marketOrder).Settled n o
  live : ∀ kind,
    (s.view (exits kind)).Live (exits kind) kind n o (x kind)

theorem Sound.atRest (h : s.Sound none) (hnormal : s.queue.normal = [])
    (hl : s.level? n = some l) : ∃ o exits x, s.AtRest n l o exits x := by
  obtain ⟨o, hstage, -⟩ := h.tracked.stage n l hl
  have hevents : ∀ g, l.Owns g → (s.view g).events = [] := by
    intro g _
    simp [view, hnormal]
  obtain ⟨exits, x, hexit, hmarket, hlive, -⟩ := hstage.rest hevents
  exact ⟨o, exits, x, hexit, hmarket, hlive⟩

theorem Sound.owner_of_pending {kind : ConditionalType} {x : ConditionalMarketOrder}
    (h : s.Sound none) (hnormal : s.queue.normal = []) (hx : x ∈ s.gateway.pending kind) :
    ∃ n l, s.level? n = some l ∧ l.exit kind = some x.guid := by
  have hmem : x ∈ (s.view x.guid).pending kind := List.mem_filter.mpr ⟨hx, by simp⟩
  obtain ⟨n, l, hl, hg⟩ : s.Owned x.guid := by
    by_contra hnot
    rw [(h.tracked.idle _ hnot).pending kind] at hmem
    cases hmem
  obtain ⟨o, exits, y, hrest⟩ := h.atRest hnormal hl
  refine ⟨n, l, hl, ?_⟩
  rcases hg with hg | ⟨k, hk⟩
  · rw [hg, hrest.market.pending kind] at hmem
    cases hmem
  · rcases k.eq_or_eq_other kind with rfl | rfl
    · exact hk
    · have hguid : exits k = x.guid := Option.some.inj ((hrest.exit k).symm.trans hk)
      obtain ⟨ch, hexit, -⟩ := (hrest.live k).exitOf
      rw [← hguid, hexit.pending] at hmem
      cases hmem

theorem Sound.ordersVolume_pending (h : s.Sound none) (hnormal : s.queue.normal = [])
    (kind : ConditionalType) : ordersVolume (s.gateway.pending kind) =
      -overKeys s.strategy.ordersByLevels fun n => (s.level? n).elim 0 s.entryVolume := by
  have hkeys : ∀ x ∈ s.gateway.pending kind, ∃ n ∈ s.strategy.ordersByLevels.keys.toFinset,
      (s.level? n).bind (·.exit kind) = some x.guid ∧
        ∀ m ∈ s.strategy.ordersByLevels.keys.toFinset,
          (s.level? m).bind (·.exit kind) = some x.guid → m = n := by
    intro x hx
    obtain ⟨n, l, hl, hg⟩ := h.owner_of_pending hnormal hx
    refine ⟨n, mem_keys_toFinset.mpr (mem_levels_iff.mpr ⟨l, hl⟩), by simp [hl, hg], ?_⟩
    intro m _ hm
    obtain ⟨l', hl', hg'⟩ := Option.bind_eq_some_iff.mp hm
    exact h.tracked.owner m l' n l x.guid hl' hl (.inr ⟨kind, hg'⟩) (.inr ⟨kind, hg⟩)
  have hsum := sum_map_eq (f := fun x => x.signedVolume.value) hkeys
  rw [ordersVolume, hsum, overKeys, ← Finset.sum_neg_distrib]
  refine Finset.sum_congr rfl fun n hn => ?_
  obtain ⟨l, hl⟩ := mem_levels_iff.mp (mem_keys_toFinset.mp hn)
  obtain ⟨o, exits, x, hrest⟩ := h.atRest hnormal hl
  have hfilter : (s.gateway.pending kind).filter
      (fun y => (s.level? n).bind (·.exit kind) = some y.guid) = [x kind] := by
    rw [← (hrest.live kind).pending]
    refine List.filter_congr fun y _ => ?_
    simp [hl, hrest.exit kind, eq_comm]
  have hentry : s.entryVolume l = o.signedVolume.value := by
    rw [entryVolume, hrest.market.order]
    rfl
  rw [hfilter, hl, Option.elim_some, hentry]
  simp only [List.map_cons, List.map_nil, List.sum_cons, List.sum_nil, add_zero]
  exact MarketOrder.signedVolume_of_opposite (hrest.live kind).volume (hrest.live kind).side

theorem Sound.hedged (h : s.Sound none) (hnormal : s.queue.normal = []) : s.Hedged := by
  constructor
  · have hfilled : (s.levels.map s.filledVolume).sum = overKeys s.strategy.ordersByLevels
        fun n => (s.level? n).elim 0 s.entryVolume := by
      rw [levels, List.map_map]
      refine sum_entries fun e he => ?_
      have hl : s.level? e.1 = some e.2 := AList.mem_lookup_iff.mpr he
      obtain ⟨o, exits, x, hrest⟩ := h.atRest hnormal hl
      have horder : s.om.marketOrders.lookup e.2.marketOrder = some o := hrest.market.order
      have hentry : s.entryVolume e.2 = o.signedVolume.value := by
        rw [entryVolume, hrest.market.order]
        rfl
      rw [hl, Option.elim_some, hentry, Function.comp_apply, filledVolume, horder,
        Option.elim_some, hrest.market.filled]
      rfl
    have hhedge : overKeys s.strategy.ordersByLevels s.hedgeAt =
        -overKeys s.strategy.ordersByLevels fun n => (s.level? n).elim 0 s.entryVolume := by
      rw [overKeys, overKeys, ← Finset.sum_neg_distrib]
      refine Finset.sum_congr rfl fun n hn => ?_
      obtain ⟨l, hl⟩ := mem_levels_iff.mp (mem_keys_toFinset.mp hn)
      obtain ⟨o, exits, x, hrest⟩ := h.atRest hnormal hl
      have htp : l.takeProfit = some (exits .takeProfit) := hrest.exit .takeProfit
      have hsl : l.stopLoss = some (exits .stopLoss) := hrest.exit .stopLoss
      rw [hedgeAt_of_level hl, hl, Option.elim_some, hedge, Level.exitCount, htp, hsl,
        Option.elim_some, Option.elim_some]
      ring
    have hsl : ordersVolume s.gateway.stopLosses = _ := h.ordersVolume_pending hnormal .stopLoss
    have htp : ordersVolume s.gateway.takeProfits = _ :=
      h.ordersVolume_pending hnormal .takeProfit
    have hbalanced := h.balanced
    rw [BacktestTradingGateway.exposure, hsl, htp, hhedge] at hbalanced
    rw [hfilled]
    linarith
  · intro l hl kind
    obtain ⟨n, hl⟩ := mem_levels.mp hl
    obtain ⟨o, exits, x, hrest⟩ := h.atRest hnormal hl
    refine ⟨o, exits kind, x kind, hrest.market.order, hrest.exit kind,
      (hrest.live kind).pending, (hrest.live kind).side, ?_⟩
    rw [(hrest.live kind).volume, hrest.market.filled]
  · intro kind x hx
    obtain ⟨n, l, hl, hg⟩ := h.owner_of_pending hnormal hx
    refine ⟨l, ⟨mem_levels.mpr ⟨n, hl⟩, hg⟩, ?_⟩
    rintro l' ⟨hl', hg'⟩
    obtain ⟨n', hl'⟩ := mem_levels.mp hl'
    obtain rfl : n' = n :=
      h.tracked.owner n' l' n l x.guid hl' hl (.inr ⟨kind, hg'⟩) (.inr ⟨kind, hg⟩)
    exact Option.some.inj (hl'.symm.trans hl)

end Rest

section Sent

variable {role : OrderRole} {kind : ConditionalType}

@[simp] theorem sent_callGateway (c : GatewayCall) : (s.callGateway c).sent = s.sent := by
  rw [callGateway_eq, emit_eq]

@[simp] theorem sent_request (out : List OrderManagerOutput) : (s.request out).sent = s.sent := by
  induction out generalizing s with
  | nil => rfl
  | cons x out ih =>
    rw [request, List.foldl_cons]
    cases x with
    | request r => exact (ih (s := s.callGateway (.request r))).trans (sent_callGateway _)
    | error e => exact ih

@[simp] theorem sent_notify : (s.notify role g).sent = s.sent := by
  unfold notify
  split <;> rfl

@[simp] theorem sent_subscribe : (s.subscribe role g n).sent = s.sent := by
  cases role with
  | market => rfl
  | exit kind => simp [subscribe]

@[simp] theorem sent_unsubscribe : (s.unsubscribe role g).sent = s.sent := by
  cases role with
  | market => rfl
  | exit kind => simp [unsubscribe]

@[simp] theorem sent_eraseLevel : (s.eraseLevel l).sent = s.sent := by
  unfold eraseLevel
  cases l.stopLoss <;> cases l.takeProfit <;> simp

@[simp] theorem sent_cancelExit : (s.cancelExit kind g).sent = s.sent := by
  unfold cancelExit
  simp only [sent_request]
  split <;> simp

@[simp] theorem sent_onExitTraded : (s.onExitTraded kind n).sent = s.sent := by
  unfold onExitTraded
  split
  · rfl
  · split <;> simp

@[simp] theorem sent_sendExit {price : ℚ} {vol : SignedVolume} {ts : Milliseconds} :
    (s.sendExit kind l price vol ts).sent = s.sent := by
  unfold sendExit
  split <;> simp

@[simp] theorem sent_onOrderTraded : (s.onOrderTraded o n).sent = s.sent := by
  unfold onOrderTraded
  split
  · rfl
  · split
    · rfl
    · simp only
      split
      · simp
      · split <;> simp

@[simp] theorem sent_onUpdate : (s.onUpdate role g n).sent = s.sent := by
  unfold onUpdate
  cases role with
  | market =>
    simp only
    split
    · split <;> simp
    · rfl
  | exit kind =>
    simp only
    split
    · split
      · cases kind <;> simp [onTakeProfitTraded, onStopLossTraded]
      · rfl
    · rfl

theorem sent_pushCandle (ts : Milliseconds) (candle : Candle) :
    (s.pushCandle ts candle).sent = s.sent ∨ ∃ n g,
      (s.pushCandle ts candle).sent = s.sent ++ [(n, g)] ∧ s.level? n = none := by
  simp only [pushCandle]
  split
  · split
    case h_1 level size hentry =>
      have hfree := DynamicGridStrategy.lookup_of_entryFor hentry
      rw [DynamicGridStrategy.pushTrend_ordersByLevels] at hfree
      unfold sendEntry
      split
      case h_1 => exact .inl rfl
      case h_2 om out guid hsend => exact .inr ⟨level, guid, by simp, hfree⟩
    case h_2 => exact .inl rfl
  · exact .inl rfl

theorem sent_step (x : GridStep) :
    (s.step x).sent = s.sent ∨ ∃ n g, (s.step x).sent = s.sent ++ [(n, g)] ∧ s.level? n = none := by
  unfold step
  split
  · exact .inl rfl
  · cases x with
    | price ts price => exact .inl rfl
    | run candles =>
      cases hnext : s.next? with
      | none =>
        simp only [advance, hnext]
        exact .inl trivial
      | some r =>
        obtain ⟨e, s₀⟩ := r
        obtain ⟨⟨e', q⟩, -, heq⟩ := Option.map_eq_some_iff.mp hnext
        obtain ⟨rfl, rfl⟩ := Prod.mk.inj heq
        simp only [advance, hnext]
        cases e' with
        | price ts price =>
          left
          simp only [handleEvent, pushAll_eq]
          exact sent_callGateway _
        | candle ts candle => exact sent_pushCandle ts candle
        | gateway ge =>
          left
          simp only [handleEvent]
          rw [onGatewayEvent_rest]
        | update role g level => exact .inl sent_onUpdate

end Sent

/-- A level gets its next market order after an exit of the last one has traded. -/
structure OneAtATime (s : GridSystem) : Prop where
  sent : s.sent.Pairwise fun a b => a.1 = b.1 → s.ExitTraded a.2
  next : ∀ x, ∀ b ∈ (s.step x).sent, b ∈ s.sent ∨ ∀ a ∈ s.sent, a.1 = b.1 → s.ExitTraded a.2

theorem Sound.oneAtATime (h : s.Sound none) : s.OneAtATime := by
  refine ⟨h.history.sent, fun x b hb => ?_⟩
  rcases sent_step (s := s) x with hsame | ⟨n, g, hsent, hfree⟩
  · exact .inl (hsame ▸ hb)
  · rw [hsent, List.mem_append, List.mem_singleton] at hb
    rcases hb with hb | rfl
    · exact .inl hb
    · right
      intro a ha heq
      rcases h.history.current a ha with hm | ⟨l, hl, -⟩
      · exact hm
      · rw [heq, hfree] at hl
        cases hl

theorem Sound.levelNum_nodup (h : s.Sound none) : (s.levels.map (·.levelNum)).Nodup := by
  have hkeys : s.levels.map (·.levelNum) = s.strategy.ordersByLevels.keys := by
    rw [levels, List.map_map, AList.keys, List.keys]
    exact List.map_congr_left fun e he =>
      h.tracked.levelNum e.1 e.2 (AList.mem_lookup_iff.mpr he)
  rw [hkeys]
  exact AList.keys_nodup _

/--
In every run with levels of positive width and orders of at least one step, each level has one
entry and gets its next market order after an exit of the last one has traded. Whenever no events
are left, the position is that of the levels, and the gateway has the two exits of each level and
no other orders.
-/
theorem exposure_run (symbol : Symbol) (config : DynamicGridStrategyConfig) (xs : List GridStep)
    (h : Meets step Proper (init symbol config) xs) :
    ((after step (init symbol config) xs).levels.map (·.levelNum)).Nodup ∧
      (after step (init symbol config) xs).OneAtATime ∧
      ((after step (init symbol config) xs).queue.normal = [] →
        (after step (init symbol config) xs).Hedged) := by
  have hsound := run_sound symbol config xs h
  exact ⟨hsound.levelNum_nodup, hsound.oneAtATime, hsound.hedged⟩

/-- The price falls by two levels, and the order of the level that it reaches gets its exits. -/
theorem exposure_run_fall :
    let symbol : Symbol := ⟨"BTCUSDT", ⟨1 / 1000, 100, 1 / 1000⟩⟩
    let config : DynamicGridStrategyConfig := ⟨1, 1, 4, 20⟩
    let xs : List GridStep :=
      [.price 1 100, .run [(1, ⟨1, 1, 100, 100, 100, 100, 0, 0, 0⟩)], .run [],
        .price 2 90, .run [(2, ⟨1, 2, 100, 100, 90, 90, 0, 0, 0⟩)], .run [], .run [], .run [],
        .run [], .run [], .run [], .run [], .run []]
    Meets step Proper (init symbol config) xs ∧
      (after step (init symbol config) xs).levels.map (·.levelNum) = [-2] ∧
      (after step (init symbol config) xs).gateway.posVolume.value = 1111 / 1000 ∧
      (after step (init symbol config) xs).Hedged := by
  intro symbol config xs
  have h : Meets step Proper (init symbol config) xs := by decide +kernel
  have hdrained : (after step (init symbol config) xs).queue.normal = [] := by decide +kernel
  obtain ⟨-, -, hhedged⟩ := exposure_run symbol config xs h
  exact ⟨h, by decide +kernel, by decide +kernel, hhedged hdrained⟩

end GridSystem

end CryptoTrading

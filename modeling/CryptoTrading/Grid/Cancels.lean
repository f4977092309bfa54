import CryptoTrading.Grid.Orders

/-! # Cancels of exits

The order manager passes on every cancel of an exit that is in its maps, also of one that
is filled or cancelled already. The requests and the trades of the exits are logged beside
it.
-/

namespace CryptoTrading

open Runs

def OrderManagerOutput.exit? : OrderManagerOutput → Option ConditionalMarketOrder
  | request (.takeProfit order) => some order
  | request (.stopLoss order) => some order
  | _ => none

def OrderManagerOutput.cancel? : OrderManagerOutput → Option Guid
  | request (.cancelTakeProfit guid) => some guid
  | request (.cancelStopLoss guid) => some guid
  | _ => none

/-- The exit that the call cancels: explicitly, or since its last subscriber leaves. -/
def OrderManagerCall.cancels? : OrderManagerCall → Option (ConditionalType × Guid)
  | cancelTakeProfit guid => some (.takeProfit, guid)
  | cancelStopLoss guid => some (.stopLoss, guid)
  | setTakeProfitSubscribers guid count => if count = 0 then some (.takeProfit, guid) else none
  | setStopLossSubscribers guid count => if count = 0 then some (.stopLoss, guid) else none
  | _ => none

def GatewayEvent.volumeOf (guid : Guid) : GatewayEvent → ℚ
  | trade t => if t.orderGuid = guid then t.unsignedVolume.value else 0
  | _ => 0

structure CancelWatch where
  om : OrderManager
  /-- The target volumes of the exits that the gateway was asked for. -/
  sent : GuidMap UnsignedVolume
  traded : Guid → ℚ
  /-- The exits that the gateway was asked to cancel. -/
  cancelled : List Guid

namespace CancelWatch

def init (symbol : Symbol) : CancelWatch := ⟨.init symbol, ∅, fun _ => 0, []⟩

variable (s : CancelWatch)

def call (c : OrderManagerCall) : CancelWatch :=
  let (om, out) := s.om.call c
  { s with
    om
    sent := (out.filterMap OrderManagerOutput.exit?).foldl
      (fun m o => m.insert o.guid o.targetVolume) s.sent
    cancelled := s.cancelled ++ out.filterMap OrderManagerOutput.cancel? }

def event (e : GatewayEvent) : CancelWatch :=
  let (om, out) := s.om.onEvent e
  { s with
    om
    traded := fun guid => s.traded guid + if guid ∈ s.sent then e.volumeOf guid else 0
    cancelled := s.cancelled ++ out.filterMap OrderManagerOutput.cancel? }

def step : OrderManagerCall ⊕ GatewayEvent → CancelWatch
  | .inl c => s.call c
  | .inr e => s.event e

def cancels : OrderManagerCall ⊕ GatewayEvent → List Guid
  | .inl c => (s.om.call c).2.filterMap OrderManagerOutput.cancel?
  | .inr e => (s.om.onEvent e).2.filterMap OrderManagerOutput.cancel?

/-- The full volume of the sent exit has not traded yet. -/
def IsOpen (guid : Guid) : Prop := ∃ vol ∈ s.sent.lookup guid, s.traded guid < vol.value

instance (guid : Guid) : Decidable (s.IsOpen guid) :=
  inferInstanceAs (Decidable (∃ vol ∈ s.sent.lookup guid, _))

/-- The exit, if it is there, is not filled and was not cancelled before. -/
def CancelsOpen : OrderManagerCall ⊕ GatewayEvent → Prop
  | .inl c => ∀ x ∈ c.cancels?, ∀ ch ∈ (s.om.conditionals x.1).lookup x.2,
    ch.order.cancelRequested = false ∧ ch.order.filledVolume.value < ch.order.targetVolume.value
  | .inr _ => True

instance : (x : OrderManagerCall ⊕ GatewayEvent) → Decidable (s.CancelsOpen x)
  | .inl c => inferInstanceAs (Decidable (∀ x ∈ c.cancels?, _))
  | .inr _ => isTrue trivial

structure Matches (guid : Guid) (o : ConditionalMarketOrder) : Prop where
  sent : guid ∈ s.sent
  filled : o.filledVolume.value = s.traded guid
  cancelled : o.cancelRequested = true ↔ guid ∈ s.cancelled
  target : o.cancelRequested = false → s.sent.lookup guid = some o.targetVolume

end CancelWatch

namespace OrderManager

def Has (om : OrderManager) (guid : Guid) : OrderRole → Prop
  | .market => guid ∈ om.orders
  | .exit kind => guid ∈ om.conditionals kind

structure Separate (om : OrderManager) : Prop where
  fresh : ∀ guid role, om.Has guid role → guid < om.nextGuid
  single : ∀ guid role role', om.Has guid role → om.Has guid role' → role = role'

structure AddsNext (om om' : OrderManager) : Prop where
  nextGuid : om.nextGuid ≤ om'.nextGuid
  has : ∃ role₀, ∀ guid role, om'.Has guid role → om.Has guid role ∨
    guid = om.nextGuid ∧ role = role₀ ∧ om.nextGuid < om'.nextGuid

variable {om om' : OrderManager} {guid : Guid}

theorem Separate.next (h : om.Separate) (ha : om.AddsNext om') : om'.Separate := by
  obtain ⟨hnext, role₀, hhas⟩ := ha
  constructor
  · intro g role hg
    rcases hhas g role hg with hg | ⟨rfl, -, hlt⟩
    · exact (h.fresh g role hg).trans_le hnext
    · exact hlt
  · intro g role role' hg hg'
    rcases hhas g role hg with hg | ⟨rfl, rfl, -⟩
    · rcases hhas g role' hg' with hg' | ⟨rfl, -, -⟩
      · exact h.single g role role' hg hg'
      · exact absurd (h.fresh _ role hg) (lt_irrefl _)
    · rcases hhas _ role' hg' with hg' | ⟨-, rfl, -⟩
      · exact absurd (h.fresh _ role' hg') (lt_irrefl _)
      · rfl

inductive CallEffect (om om' : OrderManager) :
    Option (ConditionalType × Guid) → List ConditionalMarketOrder → List Guid → Prop
  | other (hexits : om'.conditionals = om.conditionals) (hadds : om.AddsNext om') :
    CallEffect om om' none [] []
  | send (kind : ConditionalType) (o : ConditionalMarketOrder) (hguid : o.guid = om.nextGuid)
    (hnew : o.cancelRequested = false ∧ o.filledVolume.value = 0)
    (hexits : om'.conditionals = Function.update om.conditionals kind
      ((om.conditionals kind).insert o.guid ⟨o, 0⟩))
    (hadds : om.AddsNext om') (hnext : om.nextGuid < om'.nextGuid) : CallEffect om om' none [o] []
  | subscribe (kind : ConditionalType) (guid : Guid) (count : ℕ)
    (hexits : om'.conditionals = Function.update om.conditionals kind
      ((om.conditionals kind).modify guid fun ch => { ch with subscribers := count }))
    (hadds : om.AddsNext om') : CallEffect om om' none [] []
  | cancel (kind : ConditionalType) (guid : Guid) (m : GuidMap ConditionalOrderChannel)
    (hexits : om'.conditionals = Function.update om.conditionals kind m)
    (hself : ∀ ch' ∈ m.lookup guid, ∃ ch ∈ (om.conditionals kind).lookup guid,
      ch'.order = ch.order.cancel)
    (hne : ∀ g ≠ guid, m.lookup g = (om.conditionals kind).lookup g) (hadds : om.AddsNext om') :
    CallEffect om om' (some (kind, guid)) []
      (if guid ∈ om.conditionals kind then [guid] else [])

theorem AddsNext.of_has (hhas : ∀ guid role, om'.Has guid role → om.Has guid role)
    (hnext : om.nextGuid ≤ om'.nextGuid) : om.AddsNext om' := by
  constructor
  · exact hnext
  · exact ⟨.market, fun g role hg => .inl (hhas g role hg)⟩

theorem AddsNext.of_update {kind : ConditionalType} {m : GuidMap ConditionalOrderChannel}
    (horders : om'.orders = om.orders)
    (hexits : om'.conditionals = Function.update om.conditionals kind m)
    (hm : ∀ g ∈ m, g ∈ om.conditionals kind) (hnext : om.nextGuid ≤ om'.nextGuid) :
    om.AddsNext om' := by
  apply AddsNext.of_has _ hnext
  rintro g (_ | k) hg
  · simp only [Has, horders] at hg ⊢
    exact hg
  · simp only [Has, hexits] at hg ⊢
    by_cases hk : k = kind
    · subst hk
      rw [Function.update_self] at hg
      exact hm g hg
    · rwa [Function.update_of_ne hk] at hg

theorem new_sendConditional {type : ConditionalType} {price : ℚ} {vol : SignedVolume}
    {ts : Milliseconds} {o : ConditionalMarketOrder}
    (h : om.sendConditional type price vol ts = .ok o) :
    o.cancelRequested = false ∧ o.filledVolume.value = 0 := by
  unfold sendConditional at h
  cases hadj : om.adjustedVolume vol with
  | error e => simp [hadj, Except.map] at h
  | ok adjusted =>
    simp only [hadj, Except.map, Except.ok.injEq] at h
    subst h
    exact ⟨rfl, rfl⟩

theorem sendMarketOrder_effect (om : OrderManager) (price : ℚ) (vol : SignedVolume)
    (ts : Milliseconds) :
    om.CallEffect (om.sendMarketOrder price vol ts).1 none
      ((om.sendMarketOrder price vol ts).2.1.filterMap OrderManagerOutput.exit?)
      ((om.sendMarketOrder price vol ts).2.1.filterMap OrderManagerOutput.cancel?) := by
  cases h : om.adjustedVolume vol with
  | error e =>
    rw [sendMarketOrder_error h]
    exact .other rfl (.of_has (fun _ _ => id) le_rfl)
  | ok adjusted =>
    rw [sendMarketOrder_ok h]
    refine .other (funext fun kind => by cases kind <;> rfl) ⟨Nat.le_succ _, .market, ?_⟩
    rintro g (_ | k) hg
    · rcases (AList.mem_insert _).mp hg with rfl | hg
      · exact .inr ⟨rfl, rfl, Nat.lt_succ_self _⟩
      · exact .inl hg
    · left
      cases k <;> exact hg

theorem AddsNext.of_insert {kind : ConditionalType} {o : ConditionalMarketOrder}
    (hguid : o.guid = om.nextGuid) (horders : om'.orders = om.orders)
    (hexits : om'.conditionals = Function.update om.conditionals kind
      ((om.conditionals kind).insert o.guid ⟨o, 0⟩))
    (hnext : om'.nextGuid = om.nextGuid + 1) : om.AddsNext om' := by
  refine ⟨hnext ▸ Nat.le_succ _, .exit kind, ?_⟩
  rintro g (_ | k) hg
  · simp only [Has, horders] at hg
    exact .inl hg
  · simp only [Has, hexits] at hg ⊢
    by_cases hk : k = kind
    · subst hk
      rw [Function.update_self] at hg
      rcases (AList.mem_insert _).mp hg with rfl | hg
      · exact .inr ⟨hguid, rfl, hnext ▸ Nat.lt_succ_self _⟩
      · exact .inl hg
    · rw [Function.update_of_ne hk] at hg
      exact .inl hg

variable {kind : ConditionalType} {m : GuidMap ConditionalOrderChannel}

theorem sendExit_effect (kind : ConditionalType) (price : ℚ) (vol : SignedVolume)
    (ts : Milliseconds) :
    om.CallEffect (om.sendExit kind price vol ts).1 none
      ((om.sendExit kind price vol ts).2.1.filterMap OrderManagerOutput.exit?)
      ((om.sendExit kind price vol ts).2.1.filterMap OrderManagerOutput.cancel?) := by
  cases h : om.sendConditional kind price vol ts with
  | error e =>
    rw [sendExit_error h]
    exact .other rfl (.of_has (fun _ _ => id) le_rfl)
  | ok o =>
    have hguid := guid_sendConditional h
    have hexits : (om.setConditionals kind
        ((om.conditionals kind).insert o.guid ⟨o, 0⟩)).conditionals = _ :=
      conditionals_setConditionals
    have hexit : [OrderManagerOutput.request (kind.requestOf o)].filterMap
        OrderManagerOutput.exit? = [o] := by cases kind <;> rfl
    have hcancel : [OrderManagerOutput.request (kind.requestOf o)].filterMap
        OrderManagerOutput.cancel? = [] := by cases kind <;> rfl
    rw [sendExit_ok h, hexit, hcancel]
    refine .send kind o hguid (new_sendConditional h) hexits ?_ (Nat.lt_succ_self _)
    exact .of_insert hguid orders_setConditionals hexits rfl

theorem cancel_effect {out : List OrderManagerOutput} (horders : om'.orders = om.orders)
    (hexits : om'.conditionals = Function.update om.conditionals kind m)
    (hself : ∀ ch' ∈ m.lookup guid, ch' ∈ (om.cancelled kind guid).lookup guid)
    (hne : ∀ g ≠ guid, m.lookup g = (om.conditionals kind).lookup g)
    (hnext : om'.nextGuid = om.nextGuid) (hout : out = (om.cancelExit kind guid).2) :
    om.CallEffect om' (some (kind, guid)) (out.filterMap OrderManagerOutput.exit?)
      (out.filterMap OrderManagerOutput.cancel?) := by
  have hexit : out.filterMap OrderManagerOutput.exit? = [] := by
    rw [hout, cancelExit_out]
    split
    · cases kind <;> rfl
    · rfl
  have hcancel : out.filterMap OrderManagerOutput.cancel? =
      if guid ∈ om.conditionals kind then [guid] else [] := by
    rw [hout, cancelExit_out]
    split
    · cases kind <;> rfl
    · rfl
  have hself' (ch' : ConditionalOrderChannel) (hch' : ch' ∈ m.lookup guid) :
      ∃ ch ∈ (om.conditionals kind).lookup guid, ch'.order = ch.order.cancel := by
    have hlookup := hself ch' hch'
    rw [cancelled, GuidMap.lookup_modify_self] at hlookup
    obtain ⟨ch, hch, rfl⟩ := Option.map_eq_some_iff.mp hlookup
    exact ⟨ch, hch, rfl⟩
  have hsub (g : Guid) (hg : g ∈ m) : g ∈ om.conditionals kind := by
    by_cases hguid : g = guid
    · subst hguid
      obtain ⟨ch', hch'⟩ := Option.isSome_iff_exists.mp (AList.lookup_isSome.mpr hg)
      obtain ⟨ch, hch, -⟩ := hself' ch' hch'
      exact mem_of_lookup hch
    · rw [← AList.lookup_isSome, hne g hguid] at hg
      exact AList.lookup_isSome.mp hg
  rw [hexit, hcancel]
  exact .cancel kind guid m hexits hself' hne (.of_update horders hexits hsub hnext.ge)

theorem cancelExit_effect (kind : ConditionalType) (guid : Guid) :
    om.CallEffect (om.cancelExit kind guid).1 (some (kind, guid))
      ((om.cancelExit kind guid).2.filterMap OrderManagerOutput.exit?)
      ((om.cancelExit kind guid).2.filterMap OrderManagerOutput.cancel?) := by
  rw [cancelExit_eq]
  exact cancel_effect orders_setConditionals conditionals_setConditionals (fun _ => id)
    (fun _ => GuidMap.lookup_modify_of_ne) nextGuid_setConditionals rfl

theorem setExitSubscribers_effect (kind : ConditionalType) (guid : Guid) (count : ℕ) :
    om.CallEffect (om.setExitSubscribers kind guid count).1
      (if count = 0 then some (kind, guid) else none)
      ((om.setExitSubscribers kind guid count).2.filterMap OrderManagerOutput.exit?)
      ((om.setExitSubscribers kind guid count).2.filterMap OrderManagerOutput.cancel?) := by
  by_cases hcount : count = 0
  · subst hcount
    rw [if_pos rfl, setExitSubscribers_zero]
    apply cancel_effect orders_setConditionals conditionals_setConditionals
    · intro ch' hch'
      rw [AList.lookup_erase] at hch'
      cases hch'
    · intro g hg
      rw [AList.lookup_erase_ne hg]
      exact GuidMap.lookup_modify_of_ne hg
    · exact nextGuid_setConditionals
    · exact setExitSubscribers_zero_out
  · rw [setExitSubscribers_of_pos hcount, if_neg hcount]
    refine .subscribe kind guid count conditionals_setConditionals ?_
    exact .of_update orders_setConditionals conditionals_setConditionals
      (fun _ => GuidMap.mem_modify.mp) nextGuid_setConditionals.ge

theorem call_effect (om : OrderManager) (c : OrderManagerCall) :
    om.CallEffect (om.call c).1 c.cancels?
      ((om.call c).2.filterMap OrderManagerOutput.exit?)
      ((om.call c).2.filterMap OrderManagerOutput.cancel?) := by
  cases c with
  | sendMarketOrder price vol ts => exact sendMarketOrder_effect om price vol ts
  | sendTakeProfit price vol ts => exact sendExit_effect .takeProfit price vol ts
  | sendStopLoss price vol ts => exact sendExit_effect .stopLoss price vol ts
  | cancelTakeProfit guid => exact cancelExit_effect .takeProfit guid
  | cancelStopLoss guid => exact cancelExit_effect .stopLoss guid
  | sendTrailingStop trailingStop => exact .other rfl (.of_has (fun _ _ => id) le_rfl)
  | sendTpsl takeProfitPrice stopLossPrice side ts =>
    exact .other rfl (.of_has (fun _ _ => id) (Nat.le_succ _))
  | setSubscribers guid count =>
    refine .other (funext fun kind => by cases kind <;> rfl) (.of_has ?_ le_rfl)
    rintro g (_ | k) hg
    · simp only [Has, call, setSubscribers] at hg
      split at hg
      · exact (AList.mem_erase.mp hg).2
      · exact GuidMap.mem_modify.mp hg
    · cases k <;> exact hg
  | setTakeProfitSubscribers guid count => exact setExitSubscribers_effect .takeProfit guid count
  | setStopLossSubscribers guid count => exact setExitSubscribers_effect .stopLoss guid count

theorem cancels_onEvent (om : OrderManager) (e : GatewayEvent) :
    (om.onEvent e).2.filterMap OrderManagerOutput.cancel? = [] := by
  cases e with
  | orderResponse r =>
    simp only [onEvent, onOrderResponse]
    split <;> rfl
  | trade t =>
    simp only [onEvent, onTrade]
    repeat' split
    all_goals rfl
  | tpslUpdated r =>
    simp only [onEvent, onTpslResponse]
    split
    · rfl
    · split <;> rfl
  | trailingStopUpdated r =>
    simp only [onEvent, onTrailingStopResponse]
    split
    · rfl
    · split <;> rfl
  | stopLossUpdated r =>
    simp only [onEvent, onStopLossResponse]
    split
    · rfl
    · split <;> rfl
  | takeProfitUpdated r =>
    simp only [onEvent, onTakeProfitResponse]
    split
    · rfl
    · split <;> rfl

theorem addsNext_step (om : OrderManager) (e : GatewayEvent) : om.AddsNext (om.step e) := by
  apply AddsNext.of_has _ (step_cases om e).nextGuid.ge
  rintro g (_ | k) hg
  · exact mem_of_mem_step hg
  · cases k with
    | stopLoss => exact (conditionals_step e).2 g hg
    | takeProfit => exact (conditionals_step e).1 g hg

structure ExitEffect (o o' : ConditionalMarketOrder) (vol : ℚ) : Prop where
  cancelRequested : o'.cancelRequested = o.cancelRequested
  targetVolume : o'.targetVolume = o.targetVolume
  filledVolume : o'.filledVolume.value = o.filledVolume.value + vol

theorem ExitEffect.refl (o : ConditionalMarketOrder) : ExitEffect o o 0 :=
  ⟨rfl, rfl, (add_zero _).symm⟩

variable {g : Guid} {e : GatewayEvent} {ch' : ConditionalOrderChannel}

theorem volumeOf_of_ne (h : e.guid? ≠ some g) : e.volumeOf g = 0 := by
  cases e with
  | trade t => exact if_neg fun hg => h (congrArg some hg)
  | orderResponse r | tpslUpdated r | trailingStopUpdated r | stopLossUpdated r
  | takeProfitUpdated r => rfl

theorem exit_step_updated {r : ConditionalOrderUpdateEvent} {k : ConditionalType}
    {ch : ConditionalOrderChannel} (hexit : (om.entry r.guid).exit kind = some ch)
    (hother : (om.entry r.guid).exit kind.other = none)
    (hch' : ((om.step (k.updatedEvent r)).entry r.guid).exit kind = some ch') :
    ExitEffect ch.order ch'.order 0 := by
  rcases kind.eq_or_eq_other k with rfl | rfl
  · rw [(step_updated hexit).1, OrderEntry.exit_setExit, Option.some.injEq] at hch'
    subst hch'
    exact ⟨rfl, rfl, (add_zero _).symm⟩
  · have hidle : om.step (kind.other.updatedEvent r) = om := by
      have hnot : r.guid ∉ om.conditionals kind.other := not_mem_of_lookup hother
      cases kind with
      | stopLoss => exact congrArg Prod.fst (if_neg hnot)
      | takeProfit => exact congrArg Prod.fst (if_neg hnot)
    rw [hidle, hexit, Option.some.injEq] at hch'
    rw [hch']
    exact .refl _

theorem exit_step (h : om.Separate) (e : GatewayEvent)
    (hch' : ((om.step e).entry g).exit kind = some ch') :
    ∃ ch, (om.entry g).exit kind = some ch ∧
      ExitEffect ch.order ch'.order (e.volumeOf g) := by
  have hmem : g ∈ om.conditionals kind := by
    have hmem' : g ∈ (om.step e).conditionals kind := mem_of_lookup hch'
    cases kind with
    | stopLoss => exact (conditionals_step e).2 g hmem'
    | takeProfit => exact (conditionals_step e).1 g hmem'
  obtain ⟨ch, hch⟩ := Option.isSome_iff_exists.mp (AList.lookup_isSome.mpr hmem)
  refine ⟨ch, hch, ?_⟩
  have hexit : (om.entry g).exit kind = some ch := hch
  by_cases he : e.guid? = some g
  · have hmarket : (om.entry g).channel = none := by
      apply AList.lookup_eq_none.mpr
      intro hg
      exact absurd (h.single g .market (.exit kind) hg hmem) (by simp)
    have hother : (om.entry g).exit kind.other = none := by
      apply AList.lookup_eq_none.mpr
      intro hg
      have heq := h.single g (.exit kind.other) (.exit kind) hg hmem
      exact kind.other_ne (OrderRole.exit.inj heq)
    cases e with
    | orderResponse r =>
      have hsame : (om.step (.orderResponse r)).conditionals = om.conditionals := by
        funext k
        simp only [step, onEvent, onOrderResponse]
        cases k <;> split <;> rfl
      have hexit' : ((om.step (.orderResponse r)).conditionals kind).lookup g = some ch' := hch'
      rw [hsame, hch, Option.some.injEq] at hexit'
      rw [hexit']
      exact .refl _
    | trade t =>
      obtain rfl := Option.some.inj he
      rw [entry_step_trade_exit hmarket hexit hother, OrderEntry.exit_setExit] at hch'
      split at hch'
      · cases hch'
      · rw [Option.some.injEq] at hch'
        subst hch'
        constructor
        · rfl
        · rfl
        · simp [GatewayEvent.volumeOf, ConditionalMarketOrder.onTrade, MarketOrder.onTrade]
    | tpslUpdated r | trailingStopUpdated r => cases he
    | stopLossUpdated r =>
      obtain rfl := Option.some.inj he
      exact exit_step_updated (k := .stopLoss) hexit hother hch'
    | takeProfitUpdated r =>
      obtain rfl := Option.some.inj he
      exact exit_step_updated (k := .takeProfit) hexit hother hch'
  · rw [entry_step_of_ne he, hexit, Option.some.injEq] at hch'
    rw [volumeOf_of_ne he, hch']
    exact .refl _

end OrderManager

namespace CancelWatch

variable {s s' : CancelWatch} {guid : Guid} {o o' : ConditionalMarketOrder}
  {target? : Option (ConditionalType × Guid)} {sent : List ConditionalMarketOrder}
  {cancels : List Guid}

/-- What holds of the log in any run. -/
structure Tracked (s : CancelWatch) : Prop where
  separate : s.om.Separate
  sent : ∀ g ∈ s.sent, g < s.om.nextGuid
  traded : ∀ g, g ∉ s.sent → s.traded g = 0
  cancelled : ∀ g ∈ s.cancelled, g ∈ s.sent
  exits : ∀ kind g, ∀ ch ∈ (s.om.conditionals kind).lookup g, s.Matches g ch.order

theorem Tracked.init (symbol : Symbol) : (init symbol).Tracked := by
  constructor
  · constructor
    · rintro g (_ | kind) hg
      · cases hg
      · cases kind <;> cases hg
    · rintro g (_ | kind) role' hg hg'
      · cases hg
      · cases kind <;> cases hg
  · rintro g ⟨⟩
  · exact fun _ _ => rfl
  · rintro g ⟨⟩
  · rintro (_ | _) g ch ⟨⟩

theorem Matches.congr (h : s.Matches guid o) (hsent : s'.sent.lookup guid = s.sent.lookup guid)
    (htraded : s'.traded guid = s.traded guid)
    (hcancelled : guid ∈ s'.cancelled ↔ guid ∈ s.cancelled) : s'.Matches guid o := by
  constructor
  · rw [← AList.lookup_isSome, hsent]
    exact AList.lookup_isSome.mpr h.sent
  · rw [htraded]
    exact h.filled
  · rw [hcancelled]
    exact h.cancelled
  · rw [hsent]
    exact h.target

theorem Tracked.ne_nextGuid (h : s.Tracked) {kind : ConditionalType}
    {ch : ConditionalOrderChannel} (hch : ch ∈ (s.om.conditionals kind).lookup guid) :
    guid ≠ s.om.nextGuid :=
  (h.separate.fresh guid (.exit kind) (OrderManager.mem_of_lookup hch)).ne

theorem Tracked.of_exits (h : s.Tracked) (hadds : s.om.AddsNext s'.om) (hsent : s'.sent = s.sent)
    (htraded : ∀ g, g ∉ s.sent → s'.traded g = s.traded g)
    (hcancelled : ∀ g ∈ s'.cancelled, g ∈ s.sent)
    (hexits : ∀ kind g, ∀ ch ∈ (s'.om.conditionals kind).lookup g, s'.Matches g ch.order) :
    s'.Tracked := by
  constructor
  · exact h.separate.next hadds
  · rw [hsent]
    exact fun g hg => (h.sent g hg).trans_le hadds.nextGuid
  · rw [hsent]
    exact fun g hg => (htraded g hg).trans (h.traded g hg)
  · rw [hsent]
    exact hcancelled
  · exact hexits

theorem Tracked.of_orders (h : s.Tracked) (hadds : s.om.AddsNext s'.om) (hsent : s'.sent = s.sent)
    (htraded : s'.traded = s.traded) (hcancelled : s'.cancelled = s.cancelled)
    (horders : ∀ kind g, ∀ ch' ∈ (s'.om.conditionals kind).lookup g,
      ∃ ch ∈ (s.om.conditionals kind).lookup g, ch'.order = ch.order) : s'.Tracked := by
  apply h.of_exits hadds hsent
  · exact fun g _ => congrFun htraded g
  · rw [hcancelled]
    exact h.cancelled
  · intro kind g ch' hch'
    obtain ⟨ch, hch, horder⟩ := horders kind g ch' hch'
    rw [horder]
    exact (h.exits kind g ch hch).congr (by rw [hsent]) (by rw [htraded]) (by rw [hcancelled])

theorem lookup_update {exits : ConditionalType → GuidMap ConditionalOrderChannel}
    {kind k : ConditionalType} {m : GuidMap ConditionalOrderChannel} {ch : ConditionalOrderChannel}
    (h : ch ∈ (Function.update exits kind m k).lookup guid) :
    k = kind ∧ ch ∈ m.lookup guid ∨ k ≠ kind ∧ ch ∈ (exits k).lookup guid := by
  by_cases hk : k = kind
  · subst hk
    rw [Function.update_self] at h
    exact .inl ⟨rfl, h⟩
  · rw [Function.update_of_ne hk] at h
    exact .inr ⟨hk, h⟩

theorem Tracked.of_send (h : s.Tracked) {kind : ConditionalType}
    (hguid : o.guid = s.om.nextGuid)
    (hnew : o.cancelRequested = false ∧ o.filledVolume.value = 0)
    (hexits : s'.om.conditionals = Function.update s.om.conditionals kind
      ((s.om.conditionals kind).insert o.guid ⟨o, 0⟩))
    (hadds : s.om.AddsNext s'.om) (hnext : s.om.nextGuid < s'.om.nextGuid)
    (hsent : s'.sent = s.sent.insert o.guid o.targetVolume) (htraded : s'.traded = s.traded)
    (hcancelled : s'.cancelled = s.cancelled) : s'.Tracked := by
  have hfresh : o.guid ∉ s.sent := fun hmem => (h.sent _ hmem).ne hguid
  constructor
  · exact h.separate.next hadds
  · intro g hg
    rw [hsent, AList.mem_insert, hguid] at hg
    rcases hg with rfl | hg
    · exact hnext
    · exact (h.sent g hg).trans hnext
  · intro g hg
    rw [hsent, AList.mem_insert, not_or] at hg
    rw [htraded]
    exact h.traded g hg.2
  · intro g hg
    rw [hcancelled] at hg
    rw [hsent, AList.mem_insert]
    exact .inr (h.cancelled g hg)
  · intro k g ch hch
    have hold (hch : ch ∈ (s.om.conditionals k).lookup g) : s'.Matches g ch.order := by
      have hne : g ≠ o.guid := hguid ▸ h.ne_nextGuid hch
      apply (h.exits k g ch hch).congr
      · rw [hsent, AList.lookup_insert_ne hne]
      · rw [htraded]
      · rw [hcancelled]
    rw [hexits] at hch
    rcases lookup_update hch with ⟨rfl, hlookup⟩ | ⟨-, hlookup⟩
    · by_cases hg : g = o.guid
      · subst hg
        rw [AList.lookup_insert, Option.mem_some_iff] at hlookup
        subst hlookup
        constructor
        · rw [hsent]
          exact (AList.mem_insert _).mpr (.inl rfl)
        · rw [htraded, h.traded _ hfresh]
          exact hnew.2
        · rw [hcancelled]
          exact iff_of_false (by simp [hnew.1]) fun hmem => hfresh (h.cancelled _ hmem)
        · intro _
          rw [hsent, AList.lookup_insert]
      · rw [AList.lookup_insert_ne hg] at hlookup
        exact hold hlookup
    · exact hold hlookup

theorem Tracked.of_cancel (h : s.Tracked) {kind : ConditionalType}
    {m : GuidMap ConditionalOrderChannel}
    (hexits : s'.om.conditionals = Function.update s.om.conditionals kind m)
    (hself : ∀ ch' ∈ m.lookup guid, ∃ ch ∈ (s.om.conditionals kind).lookup guid,
      ch'.order = ch.order.cancel)
    (hne : ∀ g ≠ guid, m.lookup g = (s.om.conditionals kind).lookup g)
    (hadds : s.om.AddsNext s'.om) (hsent : s'.sent = s.sent) (htraded : s'.traded = s.traded)
    (hcancelled : s'.cancelled =
      s.cancelled ++ if guid ∈ s.om.conditionals kind then [guid] else []) : s'.Tracked := by
  have hmem (g : Guid) :
      g ∈ s'.cancelled ↔ g ∈ s.cancelled ∨ g = guid ∧ guid ∈ s.om.conditionals kind := by
    rw [hcancelled, List.mem_append]
    split <;> simp_all
  apply h.of_exits hadds hsent
  · exact fun g _ => congrFun htraded g
  · intro g hg
    rcases (hmem g).mp hg with hg | ⟨rfl, hg⟩
    · exact h.cancelled g hg
    · obtain ⟨ch, hch⟩ := Option.isSome_iff_exists.mp (AList.lookup_isSome.mpr hg)
      exact (h.exits kind g ch hch).sent
  · intro k g ch' hch'
    have hold (hch : ch' ∈ (s.om.conditionals k).lookup g) (hother : ¬ (k = kind ∧ g = guid)) :
        s'.Matches g ch'.order := by
      apply (h.exits k g ch' hch).congr
      · rw [hsent]
      · rw [htraded]
      · rw [hmem, or_iff_left]
        rintro ⟨rfl, hg⟩
        have heq := h.separate.single g (.exit k) (.exit kind) (OrderManager.mem_of_lookup hch) hg
        exact hother ⟨OrderRole.exit.inj heq, rfl⟩
    rw [hexits] at hch'
    rcases lookup_update hch' with ⟨rfl, hlookup⟩ | ⟨hk, hlookup⟩
    · by_cases hg : g = guid
      · subst hg
        obtain ⟨ch, hch, horder⟩ := hself ch' hlookup
        have hmatches := h.exits k g ch hch
        rw [horder]
        constructor
        · rw [hsent]
          exact hmatches.sent
        · rw [htraded]
          exact hmatches.filled
        · exact iff_of_true rfl ((hmem g).mpr (.inr ⟨rfl, OrderManager.mem_of_lookup hch⟩))
        · rintro ⟨⟩
      · rw [hne g hg] at hlookup
        exact hold hlookup fun hboth => hg hboth.2
    · exact hold hlookup fun hboth => hk hboth.1

theorem Tracked.of_effect (h : s.Tracked) (heff : s.om.CallEffect s'.om target? sent cancels)
    (hsent : s'.sent = sent.foldl (fun m o => m.insert o.guid o.targetVolume) s.sent)
    (htraded : s'.traded = s.traded) (hcancelled : s'.cancelled = s.cancelled ++ cancels) :
    s'.Tracked := by
  cases heff with
  | other hexits hadds =>
    rw [List.append_nil] at hcancelled
    apply h.of_orders hadds hsent htraded hcancelled
    intro kind g ch' hch'
    rw [hexits] at hch'
    exact ⟨ch', hch', rfl⟩
  | send kind o hguid hnew hexits hadds hnext =>
    rw [List.append_nil] at hcancelled
    exact h.of_send hguid hnew hexits hadds hnext hsent htraded hcancelled
  | subscribe kind guid count hexits hadds =>
    rw [List.append_nil] at hcancelled
    apply h.of_orders hadds hsent htraded hcancelled
    intro k g ch' hch'
    rw [hexits] at hch'
    rcases lookup_update hch' with ⟨rfl, hlookup⟩ | ⟨-, hlookup⟩
    · by_cases hg : g = guid
      · subst hg
        rw [GuidMap.lookup_modify_self] at hlookup
        obtain ⟨ch, hch, rfl⟩ := Option.map_eq_some_iff.mp hlookup
        exact ⟨ch, hch, rfl⟩
      · rw [GuidMap.lookup_modify_of_ne hg] at hlookup
        exact ⟨ch', hlookup, rfl⟩
    · exact ⟨ch', hlookup, rfl⟩
  | cancel kind guid m hexits hself hne hadds =>
    exact h.of_cancel hexits hself hne hadds hsent htraded hcancelled

theorem Tracked.event (h : s.Tracked) (e : GatewayEvent) : (s.event e).Tracked := by
  have hcancelled : (s.event e).cancelled = s.cancelled := by
    simp only [CancelWatch.event, OrderManager.cancels_onEvent, List.append_nil]
  refine h.of_exits (OrderManager.addsNext_step s.om e) rfl ?_ ?_ ?_
  · intro g hg
    simp only [CancelWatch.event, if_neg hg, add_zero]
  · rw [hcancelled]
    exact h.cancelled
  · intro kind g ch' hch'
    obtain ⟨ch, hch, heffect⟩ := OrderManager.exit_step h.separate e hch'
    have hmatches := h.exits kind g ch hch
    constructor
    · exact hmatches.sent
    · simp only [CancelWatch.event, if_pos hmatches.sent]
      rw [heffect.filledVolume, hmatches.filled]
    · rw [hcancelled, heffect.cancelRequested]
      exact hmatches.cancelled
    · rw [heffect.cancelRequested, heffect.targetVolume]
      exact hmatches.target

theorem Tracked.step (h : s.Tracked) (x : OrderManagerCall ⊕ GatewayEvent) :
    (s.step x).Tracked := by
  cases x with
  | inl c => exact h.of_effect (s.om.call_effect c) rfl rfl rfl
  | inr e => exact h.event e

theorem cancelled_step (s : CancelWatch) (x : OrderManagerCall ⊕ GatewayEvent) :
    (s.step x).cancelled = s.cancelled ++ s.cancels x := by
  cases x with
  | inl c => rfl
  | inr e => rfl

theorem nodup_of_effect {om om' : OrderManager} (h : om.CallEffect om' target? sent cancels) :
    cancels.Nodup := by
  cases h with
  | cancel kind guid m =>
    split
    · exact List.nodup_singleton _
    · exact List.nodup_nil
  | _ => exact List.nodup_nil

theorem nodup_cancels (s : CancelWatch) (x : OrderManagerCall ⊕ GatewayEvent) :
    (s.cancels x).Nodup := by
  cases x with
  | inl c => exact nodup_of_effect (s.om.call_effect c)
  | inr e =>
    simp only [CancelWatch.cancels, OrderManager.cancels_onEvent]
    exact List.nodup_nil

theorem Matches.isOpen_iff (h : s.Matches guid o) :
    guid ∉ s.cancelled ∧ s.IsOpen guid ↔
      o.cancelRequested = false ∧ o.filledVolume.value < o.targetVolume.value := by
  rw [← h.cancelled, Bool.not_eq_true, h.filled]
  apply and_congr_right
  intro hnot
  rw [IsOpen, h.target hnot]
  simp

/-- The cancels that a call requests are right just when the exit is open. -/
theorem Tracked.cancels_iff {om' : OrderManager} (h : s.Tracked)
    (heff : s.om.CallEffect om' target? sent cancels) :
    (∀ g ∈ cancels, g ∉ s.cancelled ∧ s.IsOpen g) ↔
      ∀ x ∈ target?, ∀ ch ∈ (s.om.conditionals x.1).lookup x.2,
        ch.order.cancelRequested = false ∧
          ch.order.filledVolume.value < ch.order.targetVolume.value := by
  cases heff with
  | other hexits hadds => simp
  | send kind o hguid hnew hexits hadds hnext => simp
  | subscribe kind guid count hexits hadds => simp
  | cancel kind guid m hexits hself hne hadds =>
    simp only [Option.mem_some_iff, forall_eq']
    cases hlookup : (s.om.conditionals kind).lookup guid with
    | none =>
      rw [if_neg (OrderManager.not_mem_of_lookup hlookup)]
      simp
    | some ch =>
      rw [if_pos (OrderManager.mem_of_lookup hlookup)]
      simp only [List.mem_singleton, forall_eq, Option.mem_some_iff, forall_eq']
      exact (h.exits kind guid ch hlookup).isOpen_iff

theorem Tracked.cancelsOpen_iff (h : s.Tracked) (x : OrderManagerCall ⊕ GatewayEvent) :
    (∀ g ∈ s.cancels x, g ∉ s.cancelled ∧ s.IsOpen g) ↔ s.CancelsOpen x := by
  cases x with
  | inl c => exact h.cancels_iff (s.om.call_effect c)
  | inr e => simp [CancelWatch.cancels, OrderManager.cancels_onEvent, CancelsOpen]

/-- No exit is cancelled twice when none of the cancels is of a cancelled exit. -/
theorem nodup_cancelled_iff (s : CancelWatch) (h : s.cancelled = [])
    (xs : List (OrderManagerCall ⊕ GatewayEvent)) :
    (after step s xs).cancelled.Nodup ↔
      Meets step (fun s x => ∀ g ∈ s.cancels x, g ∉ s.cancelled) s xs := by
  induction xs using List.reverseRecOn with
  | nil => simp [h]
  | append_singleton xs x ih =>
    rw [after_concat, meets_concat, cancelled_step, List.nodup_append, ← ih]
    constructor
    · rintro ⟨hold, -, hdisjoint⟩
      exact ⟨hold, fun g hg hmem => hdisjoint g hmem g hg rfl⟩
    · rintro ⟨hold, hnew⟩
      refine ⟨hold, nodup_cancels _ x, ?_⟩
      rintro g hmem g' hg' rfl
      exact hnew g hg' hmem

/--
In a run the gateway gets no second cancel of an exit and none of one whose full volume has
traded just when every call that cancels an exit finds it neither cancelled nor filled.
-/
theorem cancels_right_iff (symbol : Symbol) (xs : List (OrderManagerCall ⊕ GatewayEvent)) :
    (after step (init symbol) xs).cancelled.Nodup ∧
        Meets step (fun s x => ∀ g ∈ s.cancels x, s.IsOpen g) (init symbol) xs ↔
      Meets step CancelsOpen (init symbol) xs := by
  rw [nodup_cancelled_iff _ rfl, ← meets_and]
  apply meets_congr_invariant (I := Tracked) (fun _ x h => h.step x) _ (.init symbol)
  intro s x h
  rw [← h.cancelsOpen_iff, ← forall₂_and]

/-- The take profit of a level has traded, and the level is cleaned up: its stop loss is
cancelled, and then the subscribers of both are destroyed. -/
theorem level_cancelled_twice :
    let xs : List (OrderManagerCall ⊕ GatewayEvent) :=
      [.inl (.sendTakeProfit 110 ⟨-2⟩ 1), .inl (.sendStopLoss 90 ⟨-2⟩ 1),
        .inl (.setTakeProfitSubscribers 1 1), .inl (.setStopLossSubscribers 2 1),
        .inr (.trade ⟨1, "BTCUSDT", 1, 110, ⟨2, zero_le_two⟩, .sell, 1⟩),
        .inl (.cancelStopLoss 2), .inl (.setStopLossSubscribers 2 0),
        .inl (.setTakeProfitSubscribers 1 0)]
    let s := after step (init ⟨"BTCUSDT", ⟨1, 100, 1⟩⟩) xs
    s.sent.lookup 1 = some ⟨2, zero_le_two⟩ ∧ s.traded 1 = 2 ∧ s.cancelled = [2, 2, 1] ∧
      ¬ (s.cancelled.Nodup ∧ Meets step (fun s x => ∀ g ∈ s.cancels x, s.IsOpen g)
        (init ⟨"BTCUSDT", ⟨1, 100, 1⟩⟩) xs) := by
  decide +kernel

end CancelWatch

end CryptoTrading

import CryptoTrading.Gateway.ByBitExecutions

/-! # Order messages of the live gateway

A message lists the orders that have changed. The two orders of a take profit and stop loss
come one after the other and make one event together; every other order makes an event of its
own.
-/

namespace CryptoTrading

structure OrderResponse where
  symbol : String
  orderLinkId : String
  side : String
  orderStatus : String
  createType : String
  cancelType : String
  rejectReason : String
  triggerPrice : Option ℚ
  stopOrderType : String
  updatedTime : String
  deriving DecidableEq

namespace OrderResponse

variable (response : OrderResponse)

def isTpsl : Bool := ["CreateByStopLoss", "CreateByTakeProfit"].contains response.createType

def isTrailingStop : Bool :=
  "CreateByTrailingStop" = response.createType ||
    ("CreateByStopOrder" = response.createType && "TrailingStop" = response.stopOrderType)

def resetStatuses : List String := ["Filled", "Deactivated", "Cancelled"]

/-- The default guid stands for the request. -/
def onTpslUpdate (updates : OrderResponse × OrderResponse) : Option TpslUpdatedEvent :=
  let response := updates.1
  some {
    symbolName := response.symbol
    guid := Guid.default
    setUp := response.cancelType = "UNKNOWN"
    triggered := false }

/-- `none` also where reading the time throws. -/
def onTrailingStopUpdate : Option TrailingStopLossUpdatedEvent := do
  let triggerPrice ← response.triggerPrice
  let side := if response.side = "Buy" then Side.buy else .sell
  let stopLoss :=
    if resetStatuses.contains response.orderStatus then none
    else some ⟨response.symbol, triggerPrice, side⟩
  let timestamp ← stoll response.updatedTime
  return { symbolName := response.symbol, stopLoss, timestamp }

def onOrderResponse (parseGuid : String → Guid) : Option OrderResponseEvent :=
  if response.rejectReason ≠ "EC_NoError" then
    some {
      symbolName := response.symbol
      requestGuid := parseGuid response.orderLinkId
      rejectReason := some response.rejectReason }
  else
    some { symbolName := response.symbol, requestGuid := parseGuid response.orderLinkId }

def event (parseGuid : String → Guid) : Option GatewayEvent :=
  if response.isTrailingStop then response.onTrailingStopUpdate.map .trailingStopUpdated
  else (response.onOrderResponse parseGuid).map .orderResponse

def Readable : Prop :=
  response.isTrailingStop → response.triggerPrice.isSome ∧ (stoll response.updatedTime).isSome

variable {response} {parseGuid : String → Guid}

theorem isSome_event : (response.event parseGuid).isSome ↔ response.Readable := by
  unfold event Readable
  split
  next htrailing =>
    rw [Option.isSome_map, onTrailingStopUpdate]
    cases response.triggerPrice <;> cases stoll response.updatedTime <;> simp [htrailing]
  next htrailing =>
    rw [Option.isSome_map, onOrderResponse]
    split <;> simp [htrailing]

end OrderResponse

/-- The local variables of `to_events`. -/
structure ToEvents where
  res : List GatewayEvent := []
  tpslUpdates : List OrderResponse := []
  deriving DecidableEq

namespace ToEvents

/-- The body of the loop; `none` where it returns nothing or throws. -/
def step (parseGuid : String → Guid) (acc : ToEvents) (response : OrderResponse) :
    Option ToEvents :=
  if response.isTpsl then
    let acc := { acc with tpslUpdates := acc.tpslUpdates ++ [response] }
    match acc.tpslUpdates with
    | first :: second :: _ => do
      let tpsl ← OrderResponse.onTpslUpdate (first, second)
      return { acc with res := acc.res ++ [.tpslUpdated tpsl] }
    | _ => some acc
  else do
    let ev ← response.event parseGuid
    return { acc with res := acc.res ++ [ev] }

end ToEvents

def toEvents (parseGuid : String → Guid) (orders : List OrderResponse) :
    Option (List GatewayEvent) :=
  (orders.foldlM (ToEvents.step parseGuid) {}).map ToEvents.res

inductive MessageItem
  | pair (first second : { r : OrderResponse // r.isTpsl = true })
  | other (r : { r : OrderResponse // r.isTpsl = false })

namespace MessageItem

def responses : MessageItem → List OrderResponse
  | pair first second => [first, second]
  | other r => [r.1]

def event (parseGuid : String → Guid) : MessageItem → Option GatewayEvent
  | pair first second => (OrderResponse.onTpslUpdate (first, second)).map .tpslUpdated
  | other r => r.1.event parseGuid

def isPair : MessageItem → Bool
  | pair .. => true
  | other _ => false

def Readable : MessageItem → Prop
  | pair .. => True
  | other r => r.1.Readable

theorem isSome_event (parseGuid : String → Guid) (item : MessageItem) :
    (item.event parseGuid).isSome ↔ item.Readable := by
  cases item with
  | pair first second => exact iff_of_true rfl trivial
  | other r => exact OrderResponse.isSome_event

end MessageItem

variable {parseGuid : String → Guid} {acc acc' : ToEvents} {response : OrderResponse}
  {orders : List OrderResponse} {items : List MessageItem}

namespace ToEvents

theorem step_of_other (h : response.isTpsl = false) :
    step parseGuid acc response =
      (response.event parseGuid).map fun ev => { acc with res := acc.res ++ [ev] } := by
  rw [step, if_neg (by rw [h]; exact Bool.false_ne_true)]
  cases response.event parseGuid <;> rfl

theorem step_first (first : { r : OrderResponse // r.isTpsl = true })
    (h : acc.tpslUpdates = []) :
    step parseGuid acc first = some { acc with tpslUpdates := [first.1] } := by
  rw [step, if_pos first.2, h]
  rfl

theorem step_second (first second : { r : OrderResponse // r.isTpsl = true })
    (h : acc.tpslUpdates = [first.1]) :
    step parseGuid acc second =
      (OrderResponse.onTpslUpdate (first, second)).map fun tpsl =>
        ⟨acc.res ++ [.tpslUpdated tpsl], [first.1, second.1]⟩ := by
  rw [step, if_pos second.2, h]
  rfl

/-- Each order of a take profit or stop loss after the first one makes an event. -/
theorem step_counts (h : step parseGuid acc response = some acc') :
    acc'.tpslUpdates.length =
        acc.tpslUpdates.length + (if response.isTpsl then 1 else 0) ∧
      acc'.res.length + (acc.tpslUpdates.length - 1) =
        acc.res.length + (acc'.tpslUpdates.length - 1) + (if response.isTpsl then 0 else 1) := by
  cases htpsl : response.isTpsl with
  | false =>
    rw [step_of_other htpsl, Option.map_eq_some_iff] at h
    obtain ⟨ev, -, rfl⟩ := h
    simp
    omega
  | true =>
    rw [step, if_pos htpsl] at h
    rcases hupdates : acc.tpslUpdates with _ | ⟨first, _ | ⟨second, rest⟩⟩
    · simp only [hupdates, List.nil_append, Option.some.injEq] at h
      subst h
      simp
    · simp only [hupdates, List.cons_append, List.nil_append] at h
      cases h
      simp
    · simp only [hupdates, List.cons_append] at h
      cases h
      simp
      omega

theorem foldlM_counts (h : orders.foldlM (step parseGuid) acc = some acc') :
    acc'.tpslUpdates.length = acc.tpslUpdates.length + orders.countP OrderResponse.isTpsl ∧
      acc'.res.length + (acc.tpslUpdates.length - 1) =
        acc.res.length + (acc'.tpslUpdates.length - 1) + orders.countP (! ·.isTpsl) := by
  induction orders generalizing acc with
  | nil =>
    cases h
    simp
  | cons response orders ih =>
    rw [List.foldlM_cons, Option.bind_eq_bind, Option.bind_eq_some_iff] at h
    obtain ⟨acc₁, hstep, hrest⟩ := h
    have hfirst := step_counts hstep
    have hlater := ih hrest
    rw [List.countP_cons, List.countP_cons]
    cases htpsl : response.isTpsl <;> simp [htpsl] at hfirst ⊢ <;> omega

theorem foldlM_item {item : MessageItem} (hread : item.Readable)
    (hpair : item.isPair = true → acc.tpslUpdates = []) :
    ∃ acc' ev, item.responses.foldlM (step parseGuid) acc = some acc' ∧
      item.event parseGuid = some ev ∧ acc'.res = acc.res ++ [ev] ∧
      (item.isPair = false → acc'.tpslUpdates = acc.tpslUpdates) := by
  cases item with
  | pair first second =>
    obtain ⟨tpsl, htpsl⟩ : ∃ tpsl, OrderResponse.onTpslUpdate (first, second) = some tpsl :=
      ⟨_, rfl⟩
    refine ⟨⟨acc.res ++ [.tpslUpdated tpsl], [first.1, second.1]⟩, .tpslUpdated tpsl, ?_, ?_, rfl,
      nofun⟩
    · rw [MessageItem.responses, List.foldlM_cons, step_first first (hpair rfl),
        Option.bind_eq_bind, Option.bind_some, List.foldlM_cons, step_second first second rfl,
        htpsl]
      rfl
    · rw [MessageItem.event, htpsl]
      rfl
  | other r =>
    obtain ⟨ev, hev⟩ := Option.isSome_iff_exists.mp (OrderResponse.isSome_event.mpr hread)
    refine ⟨{ acc with res := acc.res ++ [ev] }, ev, ?_, hev, rfl, fun _ => rfl⟩
    rw [MessageItem.responses, List.foldlM_cons, step_of_other r.2, hev]
    rfl

theorem foldlM_items (hread : ∀ item ∈ items, item.Readable)
    (hpairs : items.countP MessageItem.isPair = 0 ∨
      acc.tpslUpdates = [] ∧ items.countP MessageItem.isPair ≤ 1) :
    ∃ acc' events, (items.flatMap MessageItem.responses).foldlM (step parseGuid) acc = some acc' ∧
      acc'.res = acc.res ++ events ∧ events.map some = items.map (·.event parseGuid) := by
  induction items generalizing acc with
  | nil => exact ⟨acc, [], rfl, (List.append_nil _).symm, rfl⟩
  | cons item items ih =>
    rw [List.forall_mem_cons] at hread
    rw [List.countP_cons] at hpairs
    have hfirst : item.isPair = true → acc.tpslUpdates = [] := by
      intro hpair
      rw [if_pos hpair] at hpairs
      exact (hpairs.resolve_left (Nat.succ_ne_zero _)).1
    obtain ⟨acc₁, ev, hacc, hev, hres, hupdates⟩ :=
      @foldlM_item parseGuid acc item hread.1 hfirst
    have hrest : items.countP MessageItem.isPair = 0 ∨
        acc₁.tpslUpdates = [] ∧ items.countP MessageItem.isPair ≤ 1 := by
      cases hpair : item.isPair with
      | true =>
        rw [hpair, if_pos rfl] at hpairs
        omega
      | false =>
        rw [hpair, if_neg Bool.false_ne_true, Nat.add_zero] at hpairs
        rw [hupdates hpair]
        exact hpairs
    obtain ⟨acc₂, events, hacc₂, hres₂, hevents⟩ := ih hread.2 hrest
    refine ⟨acc₂, ev :: events, ?_, ?_, ?_⟩
    · rw [List.flatMap_cons, List.foldlM_append, hacc]
      exact hacc₂
    · rw [hres₂, hres, List.append_assoc]
      rfl
    · rw [List.map_cons, List.map_cons, hevents, hev]

end ToEvents

theorem countP_isTpsl_responses (items : List MessageItem) :
    (items.flatMap MessageItem.responses).countP OrderResponse.isTpsl =
      2 * items.countP MessageItem.isPair := by
  induction items with
  | nil => rfl
  | cons item items ih =>
    rw [List.flatMap_cons, List.countP_append, ih, List.countP_cons]
    cases item with
    | pair first second =>
      simp [MessageItem.responses, MessageItem.isPair, first.2, second.2]
      omega
    | other r => simp [MessageItem.responses, MessageItem.isPair, r.2]

theorem countP_not_isTpsl_responses (items : List MessageItem) :
    (items.flatMap MessageItem.responses).countP (! ·.isTpsl) +
      items.countP MessageItem.isPair = items.length := by
  induction items with
  | nil => rfl
  | cons item items ih =>
    rw [List.flatMap_cons, List.countP_append, List.countP_cons, List.length_cons, ← ih]
    cases item with
    | pair first second =>
      simp [MessageItem.responses, MessageItem.isPair, first.2, second.2]
      omega
    | other r =>
      simp [MessageItem.responses, MessageItem.isPair, r.2]
      omega

/-- Every item of a message makes its own event and no other just if each trailing stop has a
price and a time and there is one take profit and stop loss at most. -/
theorem toEvents_eq_iff (parseGuid : String → Guid) (items : List MessageItem) :
    (∃ events, toEvents parseGuid (items.flatMap MessageItem.responses) = some events ∧
        events.map some = items.map (·.event parseGuid)) ↔
      (∀ item ∈ items, item.Readable) ∧ items.countP MessageItem.isPair ≤ 1 := by
  constructor
  · rintro ⟨events, hevents, hitems⟩
    constructor
    · intro item hitem
      apply (MessageItem.isSome_event parseGuid item).mp
      have hmem : item.event parseGuid ∈ events.map some := by
        rw [hitems]
        exact List.mem_map_of_mem hitem
      obtain ⟨ev, -, hev⟩ := List.mem_map.mp hmem
      rw [← hev]
      rfl
    · obtain ⟨acc, hacc, rfl⟩ := Option.map_eq_some_iff.mp hevents
      have hcounts := ToEvents.foldlM_counts hacc
      have hlength := congrArg List.length hitems
      rw [List.length_map, List.length_map] at hlength
      have htpsl := countP_isTpsl_responses items
      have hother := countP_not_isTpsl_responses items
      simp only [List.length_nil] at hcounts
      omega
  · rintro ⟨hread, hpairs⟩
    obtain ⟨acc, events, hacc, hres, hitems⟩ :=
      @ToEvents.foldlM_items parseGuid {} items hread (.inr ⟨rfl, hpairs⟩)
    refine ⟨events, ?_, hitems⟩
    rw [toEvents, hacc, Option.map_some, hres, List.nil_append]

/-- The second pair makes two events, each out of the first pair. -/
theorem two_pairs_make_three_events :
    let order (symbol createType cancelType : String) : OrderResponse :=
      ⟨symbol, "", "Sell", "Untriggered", createType, cancelType, "EC_NoError", some 90, "", "1"⟩
    let items : List MessageItem :=
      [.pair ⟨order "BTCUSDT" "CreateByStopLoss" "UNKNOWN", rfl⟩
          ⟨order "BTCUSDT" "CreateByTakeProfit" "UNKNOWN", rfl⟩,
        .pair ⟨order "ETHUSDT" "CreateByStopLoss" "CancelByUser", rfl⟩
          ⟨order "ETHUSDT" "CreateByTakeProfit" "CancelByUser", rfl⟩]
    let first : GatewayEvent := .tpslUpdated ⟨"BTCUSDT", Guid.default, true, false, none⟩
    let second : GatewayEvent := .tpslUpdated ⟨"ETHUSDT", Guid.default, false, false, none⟩
    (∀ item ∈ items, item.Readable) ∧
      items.map (·.event fun _ => Guid.first) = [some first, some second] ∧
      toEvents (fun _ => Guid.first) (items.flatMap MessageItem.responses) =
        some [first, first, first] := by
  intro order items first second
  refine ⟨?_, by decide +kernel, by decide +kernel⟩
  simp [items, MessageItem.Readable]

end CryptoTrading

import CryptoTrading.Lib.PartialRuns
import CryptoTrading.MarketData.CandleBuilder

/-! # The live side of the market data gateway

It holds at most one live request and subscribes to its topic, on every new connection once more.
Its event loop handles requests and reconnects, while strategies unsubscribe in their own
threads. Sending without a connection throws, which nothing catches.
-/

namespace CryptoTrading

open Runs

structure ByBitPublicTrade where
  timestamp : Milliseconds
  symbol : String
  price : ℚ
  volume : ℚ
  side : Side
  deriving DecidableEq

/-- The trades of the events on a message. The volume of a live trade is not passed on. -/
def onPriceReceived (trades : List ByBitPublicTrade) : List PublicTrade :=
  trades.map fun trade => ⟨trade.timestamp, trade.price, .zero⟩

structure LiveMDRequest where
  guid : Guid
  symbolName : String
  deriving DecidableEq

def LiveMDRequest.topic (r : LiveMDRequest) : String := "publicTrade." ++ r.symbolName

/-- The client as the gateway uses it, with the topics that it has subscribed on its connection. -/
structure WebSocketClient where
  connected : Bool := false
  topics : List String := []
  deriving DecidableEq

namespace WebSocketClient

variable (c : WebSocketClient)

/-- It throws without a connection. -/
def subscribe (topic : String) : Option WebSocketClient :=
  if c.connected then some { c with topics := c.topics ++ [topic] } else none

def unsubscribe (topic : String) : Option WebSocketClient :=
  if c.connected then some { c with topics := c.topics.filter (· ≠ topic) } else none

def subscribeAll : List String → WebSocketClient → Option WebSocketClient
  | [], c => some c
  | topic :: topics, c => (c.subscribe topic).bind (subscribeAll topics)

variable {c} {c' : WebSocketClient} {topics : List String}

theorem subscribeAll_topics (h : subscribeAll topics c = some c') :
    c'.topics = c.topics ++ topics ∧ (topics ≠ [] → c'.connected) := by
  induction topics generalizing c with
  | nil =>
    cases h
    simp
  | cons topic topics ih =>
    obtain ⟨c₁, hc₁, h⟩ := Option.bind_eq_some_iff.mp h
    rw [subscribe] at hc₁
    split_ifs at hc₁ with hconnected
    cases hc₁
    obtain ⟨htopics, hrest⟩ := ih h
    refine ⟨by simp [htopics], fun _ => ?_⟩
    cases topics with
    | nil =>
      cases h
      exact hconnected
    | cons topic' topics => exact hrest (List.cons_ne_nil _ _)

end WebSocketClient

/-- The gateway, and whether its event loop waits for a new client to connect. -/
structure LiveGateway where
  liveRequests : List LiveMDRequest := []
  wsClient : Option WebSocketClient := none
  reconnecting : Bool := false
  deriving DecidableEq

inductive LiveGatewayStep
  | request (r : LiveMDRequest)
  | unsubscribe (guid : Guid)
  /-- A reconnect starts with a new client. -/
  | replaceClient
  | opened
  | closed
  /-- A reconnect ends; `ready` says whether the client was ready in time. -/
  | resubscribe (ready : Bool)
  deriving DecidableEq

namespace LiveGateway

variable (g : LiveGateway)

/-- A result is missing where the client throws. -/
def handleLiveRequest (r : LiveMDRequest) : Option LiveGateway :=
  if g.liveRequests ≠ [] then some g
  else
    match g.wsClient with
    | none => some g
    | some client => (client.subscribe r.topic).map fun client =>
        { g with wsClient := some client, liveRequests := g.liveRequests ++ [r] }

def unsubscribeFromLive (guid : Guid) : Option LiveGateway :=
  match g.liveRequests.find? (·.guid = guid) with
  | none => some g
  | some r =>
    let g' := { g with liveRequests := g.liveRequests.eraseP (·.guid = guid) }
    match g.wsClient with
    | none => some g'
    | some client => (client.unsubscribe r.topic).map fun client =>
        { g' with wsClient := some client }

def liveTopics : List String := g.liveRequests.map LiveMDRequest.topic

def subscribeAll : Option LiveGateway :=
  match g.wsClient with
  | none => some g
  | some client => (client.subscribeAll g.liveTopics).map fun client =>
      { g with wsClient := some client }

def step (g : LiveGateway) : LiveGatewayStep → Option LiveGateway
  | .request r => if g.reconnecting then some g else g.handleLiveRequest r
  | .unsubscribe guid => g.unsubscribeFromLive guid
  | .replaceClient =>
    some (if g.reconnecting then g else { g with wsClient := some {}, reconnecting := true })
  | .opened => some { g with wsClient := g.wsClient.map ({ · with connected := true }) }
  | .closed => some { g with wsClient := g.wsClient.map fun _ => {} }
  | .resubscribe ready =>
    if ¬ g.reconnecting then some g
    else if ready then g.subscribeAll.map ({ · with reconnecting := false })
    else some { g with reconnecting := false }

def next (g : Option LiveGateway) (e : LiveGatewayStep) : Option LiveGateway := g.bind (·.step e)

/-- A client connects while the reconnect waits for it or not at all. -/
def Prompt (g : LiveGateway) : LiveGatewayStep → Prop
  | .opened => g.reconnecting
  | .resubscribe ready => ready ∨ ∀ client ∈ g.wsClient, ¬ client.connected
  | _ => True

/-- Nothing is subscribed, or what is requested. -/
structure Kept (g : LiveGateway) : Prop where
  one : g.liveRequests.length ≤ 1
  closed : ∀ client ∈ g.wsClient, ¬ client.connected → client.topics = []
  waiting : g.reconnecting → ∀ client ∈ g.wsClient, client.topics = []
  topics : ∀ client ∈ g.wsClient, client.topics = [] ∨ client.topics = g.liveTopics

/-- On an open connection what is requested is subscribed. -/
def Subscribed (g : LiveGateway) : Prop :=
  ¬ g.reconnecting → ∀ client ∈ g.wsClient, client.connected → client.topics = g.liveTopics

variable {g g' : LiveGateway} {r : LiveMDRequest} {guid : Guid} {e : LiveGatewayStep}
  {client client' : WebSocketClient}

theorem handleLiveRequest_spec (h : g.Kept) (hreconnecting : ¬ g.reconnecting)
    (hr : g.handleLiveRequest r = some g') :
    g' = g ∨ g'.Kept ∧ g'.Subscribed := by
  unfold handleLiveRequest at hr
  split_ifs at hr with hlive
  · cases hr
    exact .inl rfl
  · rw [not_not] at hlive
    cases hclient : g.wsClient with
    | none =>
      rw [hclient] at hr
      cases hr
      exact .inl rfl
    | some client =>
      rw [hclient] at hr
      obtain ⟨client', hclient', rfl⟩ := Option.map_eq_some_iff.mp hr
      rw [WebSocketClient.subscribe] at hclient'
      split_ifs at hclient' with hconnected
      cases hclient'
      have hempty : client.topics = [] := by
        rcases h.topics client hclient with htopics | htopics
        · exact htopics
        · rw [htopics, liveTopics, hlive, List.map_nil]
      refine .inr ⟨⟨?_, ?_, ?_, ?_⟩, ?_⟩
      · simp [hlive]
      · simp [hconnected]
      · exact fun hwaiting => absurd hwaiting hreconnecting
      · simp [hlive, hempty, liveTopics]
      · simp [Subscribed, hlive, hempty, liveTopics]

theorem unsubscribeFromLive_spec (h : g.Kept) (hg' : g.unsubscribeFromLive guid = some g') :
    g'.Kept ∧ (g.Subscribed → g'.Subscribed) := by
  unfold unsubscribeFromLive at hg'
  cases hfind : g.liveRequests.find? (·.guid = guid) with
  | none =>
    rw [hfind] at hg'
    cases hg'
    exact ⟨h, id⟩
  | some r =>
    rw [hfind] at hg'
    obtain ⟨hguid, hmem⟩ : r.guid = guid ∧ r ∈ g.liveRequests :=
      ⟨by simpa using List.find?_some hfind, List.mem_of_find?_eq_some hfind⟩
    have hlive : g.liveRequests = [r] := by
      obtain ⟨r', hr'⟩ := List.length_eq_one_iff.mp
        (le_antisymm h.one (List.length_pos_of_mem hmem))
      rw [hr', List.mem_singleton] at hmem
      rw [hr', hmem]
    have herase : g.liveRequests.eraseP (·.guid = guid) = [] := by simp [hlive, hguid]
    rw [herase] at hg'
    cases hclient : g.wsClient with
    | none =>
      rw [hclient] at hg'
      cases hg'
      refine ⟨⟨by simp, ?_, ?_, ?_⟩, fun _ _ => ?_⟩ <;> simp
    | some client =>
      rw [hclient] at hg'
      obtain ⟨client', hclient', rfl⟩ := Option.map_eq_some_iff.mp hg'
      rw [WebSocketClient.unsubscribe] at hclient'
      split_ifs at hclient' with hconnected
      cases hclient'
      have hempty : client.topics.filter (· ≠ r.topic) = [] := by
        rcases h.topics client hclient with htopics | htopics
        · rw [htopics, List.filter_nil]
        · simp [htopics, liveTopics, hlive]
      rw [hempty]
      refine ⟨⟨by simp, ?_, ?_, ?_⟩, fun _ _ => ?_⟩ <;> simp [liveTopics]

theorem subscribeAll_spec (h : g.Kept) (hreconnecting : g.reconnecting)
    (hg' : g.subscribeAll = some g') :
    { g' with reconnecting := false }.Kept ∧ { g' with reconnecting := false }.Subscribed := by
  unfold subscribeAll at hg'
  cases hclient : g.wsClient with
  | none =>
    rw [hclient] at hg'
    cases hg'
    exact ⟨⟨h.one, h.closed, nofun, h.topics⟩, by simp [Subscribed, hclient]⟩
  | some client =>
    rw [hclient] at hg'
    obtain ⟨client', hclient', rfl⟩ := Option.map_eq_some_iff.mp hg'
    obtain ⟨htopics, hconnected⟩ := WebSocketClient.subscribeAll_topics hclient'
    rw [h.waiting hreconnecting client hclient, List.nil_append] at htopics
    refine ⟨⟨h.one, ?_, nofun, ?_⟩, ?_⟩
    · rintro client'' ⟨⟩ hclosed
      rw [htopics]
      exact not_not.mp (mt hconnected hclosed)
    · simpa [liveTopics] using .inr htopics
    · simpa [Subscribed, liveTopics] using fun _ => htopics

theorem step_kept (h : g.Kept) (hg' : g.step e = some g') : g'.Kept := by
  cases e with
  | request r =>
    simp only [step] at hg'
    split_ifs at hg' with hreconnecting
    · cases hg'
      exact h
    · rcases handleLiveRequest_spec h hreconnecting hg' with rfl | hkept
      · exact h
      · exact hkept.1
  | unsubscribe guid => exact (unsubscribeFromLive_spec h hg').1
  | replaceClient =>
    cases hg'
    split_ifs
    · exact h
    · exact ⟨h.one, by simp, by simp, by simp⟩
  | opened =>
    cases hg'
    refine ⟨h.one, by simp, ?_, ?_⟩
    · simpa using h.waiting
    · simpa [liveTopics] using h.topics
  | closed =>
    cases hg'
    exact ⟨h.one, by simp, by simp, by simp⟩
  | resubscribe ready =>
    simp only [step] at hg'
    split_ifs at hg' with hreconnecting hready
    · obtain ⟨g₁, hg₁, rfl⟩ := Option.map_eq_some_iff.mp hg'
      exact (subscribeAll_spec h hreconnecting hg₁).1
    · cases hg'
      exact ⟨h.one, h.closed, nofun, h.topics⟩
    · cases hg'
      exact h

theorem step_subscribed (h : g.Kept) (hs : g.Subscribed) (he : g.Prompt e)
    (hg' : g.step e = some g') : g'.Subscribed := by
  cases e with
  | request r =>
    simp only [step] at hg'
    split_ifs at hg' with hreconnecting
    · cases hg'
      exact hs
    · rcases handleLiveRequest_spec h hreconnecting hg' with rfl | hkept
      · exact hs
      · exact hkept.2
  | unsubscribe guid => exact (unsubscribeFromLive_spec h hg').2 hs
  | replaceClient =>
    cases hg'
    split_ifs with hreconnecting
    · exact hs
    · exact fun hwaiting => absurd rfl hwaiting
  | opened =>
    cases hg'
    exact fun hwaiting => absurd he hwaiting
  | closed =>
    cases hg'
    simp [Subscribed]
  | resubscribe ready =>
    simp only [step] at hg'
    split_ifs at hg' with hreconnecting hready
    · obtain ⟨g₁, hg₁, rfl⟩ := Option.map_eq_some_iff.mp hg'
      exact (subscribeAll_spec h hreconnecting hg₁).2
    · cases hg'
      exact fun _ client hclient hconnected =>
        absurd hconnected (he.resolve_left hready client hclient)
    · cases hg'
      exact hs

theorem kept_init : ({} : LiveGateway).Kept := ⟨Nat.zero_le 1, by simp, by simp, by simp⟩

theorem kept_after {es : List LiveGatewayStep} (hg : after next (some {}) es = some g) : g.Kept :=
  after_tryStep_invariant (fun _ _ _ h hstep => step_kept h hstep) kept_init g hg

/--
In every run in which nothing has thrown there is one live request at most, and nothing but its
topic is subscribed on the connection. If the clients connect in time or not at all, its topic is
subscribed whenever the connection is open and no reconnect is in progress.
-/
theorem live_topics (es : List LiveGatewayStep) (g : LiveGateway)
    (hg : after next (some {}) es = some g) :
    g.liveRequests.length ≤ 1 ∧
      (∀ client ∈ g.wsClient, client.topics = [] ∨ client.topics = g.liveTopics) ∧
      (Meets next (fun s e => ∀ g ∈ s, g.Prompt e) (some {}) es → ¬ g.reconnecting →
        ∀ client ∈ g.wsClient, client.connected → client.topics = g.liveTopics) := by
  obtain ⟨hone, -, -, htopics⟩ := kept_after hg
  refine ⟨hone, htopics, fun hprompt => ?_⟩
  have hinv : ∀ g ∈ after next (some {}) es, g.Kept ∧ g.Subscribed := by
    refine hprompt.invariant_tryStep (fun g e g' h hok hstep => ?_)
      ⟨kept_init, by simp [Subscribed]⟩
    exact ⟨step_kept h.1 hstep, step_subscribed h.1 h.2 hok hstep⟩
  exact (hinv g hg).2

/-- A request that is there when the connection is lost and opened once more. -/
theorem live_topics_reconnect :
    let r : LiveMDRequest := ⟨1, "BTCUSDT"⟩
    let es := [.replaceClient, .opened, .resubscribe true, .request r, .closed, .replaceClient,
      .opened, .resubscribe true]
    ∃ g ∈ after next (some {}) es, ∀ client ∈ g.wsClient, client.topics = [r.topic] := by
  intro r es
  have hg : after next (some {}) es = some ⟨[r], some ⟨true, [r.topic]⟩, false⟩ := rfl
  have hprompt : Meets next (fun s e => ∀ g ∈ s, g.Prompt e) (some {}) es := by
    simp [es, next, step, handleLiveRequest, subscribeAll, liveTopics, WebSocketClient.subscribeAll,
      WebSocketClient.subscribe, Prompt]
  refine ⟨_, hg, fun client hclient => ?_⟩
  exact (live_topics es _ hg).2.2 hprompt (by simp) client hclient (by cases hclient; rfl)

end LiveGateway

end CryptoTrading

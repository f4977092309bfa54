import CryptoTrading.Lib.PartialRuns
import CryptoTrading.MarketData.LiveGateway

/-! # Live instances and the market data gateway

A live instance requests its prices in its own loop and remembers the request until it handles a
stop. The gateway takes the request in another loop, while a call of `stop_async` unsubscribes in
the thread that makes it, one request after the other, and only then pushes the stop.
-/

namespace CryptoTrading

open Runs

inductive LiveControl
  | start
  | stop
  deriving DecidableEq

structure LiveInstance where
  symbolName : String
  /-- The requests to start and to stop, in the order in which its loop will handle them. -/
  queue : List LiveControl := []
  liveMdRequests : List Guid := []
  /-- The calls of `stop_async` in progress, each with the requests that it has still to
  unsubscribe. It reads them when it begins: to change the set under its walk is a race. -/
  stopCalls : List (List Guid) := []
  stopRequestHandled : Bool := false
  /-- The finish promise is set. -/
  stopped : Bool := false
  deriving DecidableEq

/-- The end of every handler; `flat` says whether the position is closed. -/
def LiveInstance.afterEveryEvent (c : LiveInstance) (flat : Bool) : LiveInstance :=
  if c.stopRequestHandled ∧ ¬ c.stopped ∧ flat ∧ c.liveMdRequests = [] then
    { c with stopped := true }
  else c

namespace LiveInstance

variable (c : LiveInstance) (flat : Bool)

@[simp] theorem queue_afterEveryEvent : (c.afterEveryEvent flat).queue = c.queue := by
  unfold afterEveryEvent
  split_ifs <;> rfl

@[simp] theorem liveMdRequests_afterEveryEvent :
    (c.afterEveryEvent flat).liveMdRequests = c.liveMdRequests := by
  unfold afterEveryEvent
  split_ifs <;> rfl

@[simp] theorem symbolName_afterEveryEvent :
    (c.afterEveryEvent flat).symbolName = c.symbolName := by
  unfold afterEveryEvent
  split_ifs <;> rfl

@[simp] theorem stopCalls_afterEveryEvent :
    (c.afterEveryEvent flat).stopCalls = c.stopCalls := by
  unfold afterEveryEvent
  split_ifs <;> rfl

@[simp] theorem stopRequestHandled_afterEveryEvent :
    (c.afterEveryEvent flat).stopRequestHandled = c.stopRequestHandled := by
  unfold afterEveryEvent
  split_ifs <;> rfl

end LiveInstance

structure LiveSessions (n : ℕ) where
  gateway : LiveGateway := {}
  /-- The requests that the gateway's loop has still to handle. -/
  requests : List LiveMDRequest := []
  instances : Fin n → LiveInstance
  nextRequest : Guid := Guid.first

inductive LiveSessionStep (n : ℕ)
  | runAsync (k : Fin n)
  /-- A call of `stop_async` begins. -/
  | stopAsync (k : Fin n)
  /-- Call number `i` of those in progress unsubscribes its next request, or pushes the stop. -/
  | stopCall (k : Fin n) (i : ℕ)
  /-- The instance handles the next request to start or to stop. -/
  | handle (k : Fin n) (flat : Bool)
  /-- It handles another event. -/
  | other (k : Fin n) (flat : Bool)
  | request
  | connection (e : LiveGatewayStep)
  deriving DecidableEq

def LiveGatewayStep.isConnection : LiveGatewayStep → Bool
  | request _ => false
  | unsubscribe _ => false
  | _ => true

namespace LiveGateway

variable {g g' : LiveGateway} {r : LiveMDRequest} {e : LiveGatewayStep} {guid : Guid}

theorem liveRequests_unsubscribe (h : g.Kept) (hg' : g.unsubscribeFromLive guid = some g') :
    g'.liveRequests = g.liveRequests.filter (·.guid ≠ guid) := by
  unfold unsubscribeFromLive at hg'
  cases hfind : g.liveRequests.find? (·.guid = guid) with
  | none =>
    rw [hfind] at hg'
    cases hg'
    refine (List.filter_eq_self.mpr fun r hr => ?_).symm
    simpa using List.find?_eq_none.mp hfind r hr
  | some r =>
    rw [hfind] at hg'
    have hguid : r.guid = guid := by simpa using List.find?_some hfind
    obtain ⟨r', hr'⟩ := List.length_eq_one_iff.mp
      (le_antisymm h.one (List.length_pos_of_mem (List.mem_of_find?_eq_some hfind)))
    have hr := List.mem_of_find?_eq_some hfind
    rw [hr', List.mem_singleton] at hr
    subst hr
    cases hclient : g.wsClient with
    | none =>
      rw [hclient] at hg'
      cases hg'
      simp [hr', hguid]
    | some client =>
      rw [hclient] at hg'
      obtain ⟨client', -, rfl⟩ := Option.map_eq_some_iff.mp hg'
      simp [hr', hguid]

theorem liveRequests_handleLiveRequest (hg' : g.handleLiveRequest r = some g') :
    g'.liveRequests = g.liveRequests ∨ g.liveRequests = [] ∧ g'.liveRequests = [r] := by
  unfold handleLiveRequest at hg'
  split_ifs at hg' with hlive
  · cases hg'
    exact .inl rfl
  · rw [not_not] at hlive
    cases hclient : g.wsClient with
    | none =>
      rw [hclient] at hg'
      cases hg'
      exact .inl rfl
    | some client =>
      rw [hclient] at hg'
      obtain ⟨client', -, rfl⟩ := Option.map_eq_some_iff.mp hg'
      exact .inr ⟨hlive, by simp [hlive]⟩

theorem liveRequests_connection (he : e.isConnection) (hg' : g.step e = some g') :
    g'.liveRequests = g.liveRequests := by
  cases e with
  | request r => cases he
  | unsubscribe guid => cases he
  | replaceClient =>
    cases hg'
    split_ifs <;> rfl
  | opened =>
    cases hg'
    rfl
  | closed =>
    cases hg'
    rfl
  | resubscribe ready =>
    simp only [step] at hg'
    split_ifs at hg' with hreconnecting hready
    · obtain ⟨g₁, hg₁, rfl⟩ := Option.map_eq_some_iff.mp hg'
      unfold subscribeAll at hg₁
      cases hclient : g.wsClient with
      | none =>
        rw [hclient] at hg₁
        cases hg₁
        rfl
      | some client =>
        rw [hclient] at hg₁
        obtain ⟨client', -, rfl⟩ := Option.map_eq_some_iff.mp hg₁
        rfl
    · cases hg'
      rfl
    · cases hg'
      rfl

end LiveGateway

namespace LiveSessions

variable {n : ℕ}

def init (symbols : Fin n → String) : LiveSessions n where
  instances k := { symbolName := symbols k }

variable (s : LiveSessions n)

def setInstance (k : Fin n) (c : LiveInstance) : LiveSessions n :=
  { s with instances := Function.update s.instances k c }

def stopAsync (k : Fin n) : LiveSessions n :=
  let c := s.instances k
  s.setInstance k { c with stopCalls := c.stopCalls ++ [c.liveMdRequests] }

/-- A result is missing where the client throws. -/
def stopCall (k : Fin n) (i : ℕ) : Option (LiveSessions n) :=
  let c := s.instances k
  match c.stopCalls[i]? with
  | none => some s
  | some [] => some (s.setInstance k
      { c with queue := c.queue ++ [.stop], stopCalls := c.stopCalls.eraseIdx i })
  | some (guid :: guids) => (s.gateway.unsubscribeFromLive guid).map fun gateway =>
      { s.setInstance k { c with stopCalls := c.stopCalls.set i guids } with gateway }

def handleStart (k : Fin n) (c : LiveInstance) (flat : Bool) : LiveSessions n :=
  { s.setInstance k (LiveInstance.afterEveryEvent
      { c with liveMdRequests := s.nextRequest :: c.liveMdRequests } flat) with
    requests := s.requests ++ [⟨s.nextRequest, c.symbolName⟩]
    nextRequest := s.nextRequest + 1 }

def handleStop (k : Fin n) (c : LiveInstance) (flat : Bool) : LiveSessions n :=
  s.setInstance k (LiveInstance.afterEveryEvent
    { c with liveMdRequests := [], stopRequestHandled := true } flat)

def handle (k : Fin n) (flat : Bool) : LiveSessions n :=
  match (s.instances k).queue with
  | [] => s
  | .start :: queue => s.handleStart k { s.instances k with queue } flat
  | .stop :: queue => s.handleStop k { s.instances k with queue } flat

def handleRequest : Option (LiveSessions n) :=
  match s.requests with
  | [] => some s
  | r :: requests =>
    if s.gateway.reconnecting then some s
    else (s.gateway.handleLiveRequest r).map fun gateway => { s with gateway, requests }

def step (s : LiveSessions n) : LiveSessionStep n → Option (LiveSessions n)
  | .runAsync k =>
    some (s.setInstance k { s.instances k with queue := (s.instances k).queue ++ [.start] })
  | .stopAsync k => some (s.stopAsync k)
  | .stopCall k i => s.stopCall k i
  | .handle k flat => some (s.handle k flat)
  | .other k flat => some (s.setInstance k ((s.instances k).afterEveryEvent flat))
  | .request => s.handleRequest
  | .connection e =>
    if e.isConnection then (s.gateway.step e).map ({ s with gateway := · }) else some s

def next (s : Option (LiveSessions n)) (x : LiveSessionStep n) : Option (LiveSessions n) :=
  s.bind (·.step x)

/-- What the gateway has, or is going to handle. -/
def requested : List LiveMDRequest := s.requests ++ s.gateway.liveRequests

/-- What a step of the system does; another one than these changes nothing but what the gateway has
and is going to handle. -/
inductive Effect (s : LiveSessions n) : LiveSessionStep n → LiveSessions n → Prop
  | runAsync (k : Fin n) : Effect s (.runAsync k)
      (s.setInstance k { s.instances k with queue := (s.instances k).queue ++ [.start] })
  | stopAsync (k : Fin n) : Effect s (.stopAsync k) (s.stopAsync k)
  | pushStop (k : Fin n) (i : ℕ) (hcall : [] ∈ (s.instances k).stopCalls) :
      Effect s (.stopCall k i) (s.setInstance k { s.instances k with
        queue := (s.instances k).queue ++ [.stop]
        stopCalls := (s.instances k).stopCalls.eraseIdx i })
  | unsubscribe (k : Fin n) (i : ℕ) {guid : Guid} {guids : List Guid} (gateway : LiveGateway)
      (hcall : guid :: guids ∈ (s.instances k).stopCalls) (hkept : gateway.Kept)
      (hlive : gateway.liveRequests = s.gateway.liveRequests.filter (·.guid ≠ guid)) :
      Effect s (.stopCall k i) { s.setInstance k { s.instances k with
        stopCalls := (s.instances k).stopCalls.set i guids } with gateway }
  | handleStart (k : Fin n) (flat : Bool) {queue : List LiveControl}
      (hqueue : (s.instances k).queue = .start :: queue) :
      Effect s (.handle k flat) (s.handleStart k { s.instances k with queue } flat)
  | handleStop (k : Fin n) (flat : Bool) {queue : List LiveControl}
      (hqueue : (s.instances k).queue = .stop :: queue) :
      Effect s (.handle k flat) (s.handleStop k { s.instances k with queue } flat)
  | other (k : Fin n) (flat : Bool) : Effect s (.other k flat)
      (s.setInstance k ((s.instances k).afterEveryEvent flat))
  | gateway (x : LiveSessionStep n) (gateway : LiveGateway) (requests : List LiveMDRequest)
      (hkept : gateway.Kept) (hrequests : ∀ r ∈ requests, r ∈ s.requests)
      (hlive : ∀ r ∈ gateway.liveRequests, r ∈ s.requested)
      (hheld : s.gateway.liveRequests ≠ [] →
        gateway.liveRequests = s.gateway.liveRequests) :
      Effect s x { s with gateway, requests }

structure Numbered (s : LiveSessions n) : Prop where
  kept : s.gateway.Kept
  requested : ∀ r ∈ s.requested, r.guid < s.nextRequest
  listed : ∀ k, ∀ guid ∈ (s.instances k).liveMdRequests, guid < s.nextRequest

variable {s} {s' : LiveSessions n} {x : LiveSessionStep n} {k j : Fin n} {c : LiveInstance}
  {flat : Bool} {i : ℕ}

theorem Effect.same (h : s.gateway.Kept) (x : LiveSessionStep n) : s.Effect x s :=
  .gateway x s.gateway s.requests h (fun _ hr => hr) (fun _ hr => List.mem_append_right _ hr)
    fun _ => rfl

theorem effect_stopCall (h : s.gateway.Kept) (hs' : s.stopCall k i = some s') :
    s.Effect (.stopCall k i) s' := by
  simp only [stopCall] at hs'
  split at hs'
  · cases hs'
    exact .same h _
  · cases hs'
    exact .pushStop k i (List.mem_of_getElem? ‹_›)
  · obtain ⟨gateway, hgateway, rfl⟩ := Option.map_eq_some_iff.mp hs'
    refine .unsubscribe k i gateway (List.mem_of_getElem? ‹_›) ?_ ?_
    · exact (LiveGateway.unsubscribeFromLive_spec h hgateway).1
    · exact LiveGateway.liveRequests_unsubscribe h hgateway

theorem effect_handle (h : s.gateway.Kept) (k : Fin n) (flat : Bool) :
    s.Effect (.handle k flat) (s.handle k flat) := by
  unfold handle
  split
  · exact .same h _
  · exact .handleStart k flat ‹_›
  · exact .handleStop k flat ‹_›

theorem effect_handleRequest (h : s.gateway.Kept) (hs' : s.handleRequest = some s') :
    s.Effect .request s' := by
  unfold handleRequest at hs'
  cases hrequests : s.requests with
  | nil =>
    rw [hrequests] at hs'
    cases hs'
    exact .same h _
  | cons r requests =>
    rw [hrequests] at hs'
    simp only at hs'
    split_ifs at hs' with hreconnecting
    · cases hs'
      exact .same h _
    · obtain ⟨gateway, hgateway, rfl⟩ := Option.map_eq_some_iff.mp hs'
      have hstep : s.gateway.step (.request r) = some gateway := by
        rw [LiveGateway.step, if_neg hreconnecting, hgateway]
      have hrest : ∀ r' ∈ requests, r' ∈ s.requests := fun r' hr' => by
        rw [hrequests]
        exact List.mem_cons_of_mem _ hr'
      have hkept := LiveGateway.step_kept h hstep
      rcases LiveGateway.liveRequests_handleLiveRequest hgateway with hlive | ⟨hno, hlive⟩
      · refine .gateway _ gateway requests hkept hrest (fun r' hr' => ?_) fun _ => hlive
        rw [hlive] at hr'
        exact List.mem_append_right _ hr'
      · refine .gateway _ gateway requests hkept hrest (fun r' hr' => ?_)
          fun hsome => absurd hno hsome
        rw [hlive, List.mem_singleton] at hr'
        simp [requested, hrequests, hr']

theorem effect_connection (h : s.gateway.Kept) {e : LiveGatewayStep}
    (hs' : s.step (.connection e) = some s') : s.Effect (.connection e) s' := by
  simp only [step] at hs'
  split_ifs at hs' with he
  · obtain ⟨gateway, hgateway, rfl⟩ := Option.map_eq_some_iff.mp hs'
    have hlive := LiveGateway.liveRequests_connection he hgateway
    refine .gateway _ gateway s.requests (LiveGateway.step_kept h hgateway) (fun _ hr => hr)
      (fun r hr => ?_) fun _ => hlive
    rw [hlive] at hr
    exact List.mem_append_right _ hr
  · cases hs'
    exact .same h _

theorem effect_step (h : s.gateway.Kept) (hs' : s.step x = some s') : s.Effect x s' := by
  cases x with
  | runAsync k =>
    cases hs'
    exact .runAsync k
  | stopAsync k =>
    cases hs'
    exact .stopAsync k
  | stopCall k i => exact effect_stopCall h hs'
  | handle k flat =>
    cases hs'
    exact effect_handle h k flat
  | other k flat =>
    cases hs'
    exact .other k flat
  | request => exact effect_handleRequest h hs'
  | connection e => exact effect_connection h hs'

theorem instances_setInstance_self : (s.setInstance k c).instances k = c := Function.update_self ..

theorem instances_setInstance_of_ne (h : j ≠ k) :
    (s.setInstance k c).instances j = s.instances j := Function.update_of_ne h ..

theorem forall_setInstance {P : Fin n → LiveInstance → Prop} (h : ∀ j, P j (s.instances j))
    (hc : P k c) : ∀ j, P j ((s.setInstance k c).instances j) :=
  (Function.forall_update_iff s.instances P).mpr ⟨hc, fun j _ => h j⟩

theorem Numbered.setInstance (h : s.Numbered)
    (hc : ∀ guid ∈ c.liveMdRequests, guid < s.nextRequest) : (s.setInstance k c).Numbered :=
  ⟨h.kept, h.requested, forall_setInstance (P := fun _ c => ∀ guid ∈ c.liveMdRequests,
    guid < s.nextRequest) h.listed hc⟩

theorem Numbered.handleStart (h : s.Numbered)
    (hc : ∀ guid ∈ c.liveMdRequests, guid < s.nextRequest) :
    (s.handleStart k c flat).Numbered := by
  refine ⟨h.kept, ?_, ?_⟩
  · intro r hr
    simp only [LiveSessions.handleStart, LiveSessions.requested, List.mem_append,
      List.mem_singleton] at hr
    rcases hr with (hr | rfl) | hr
    · exact Nat.lt_succ_of_lt (h.requested r (List.mem_append_left _ hr))
    · exact Nat.lt_succ_self _
    · exact Nat.lt_succ_of_lt (h.requested r (List.mem_append_right _ hr))
  · refine forall_setInstance (P := fun _ c => ∀ guid ∈ c.liveMdRequests,
      guid < s.nextRequest + 1) (fun j guid hguid => Nat.lt_succ_of_lt (h.listed j guid hguid)) ?_
    rw [LiveInstance.liveMdRequests_afterEveryEvent]
    intro guid hguid
    rcases List.mem_cons.mp hguid with rfl | hguid
    · exact Nat.lt_succ_self _
    · exact Nat.lt_succ_of_lt (hc guid hguid)

theorem Numbered.step (h : s.Numbered) (hs' : s.step x = some s') : s'.Numbered := by
  cases effect_step h.kept hs' with
  | runAsync k => exact h.setInstance (h.listed k)
  | stopAsync k => exact h.setInstance (h.listed k)
  | pushStop k i hcall => exact h.setInstance (h.listed k)
  | @unsubscribe k i guid guids gateway hcall hkept hlive =>
    obtain ⟨-, -, hlisted⟩ := h.setInstance (k := k)
      (c := { s.instances k with stopCalls := (s.instances k).stopCalls.set i guids }) (h.listed k)
    refine ⟨hkept, fun r hr => h.requested r ?_, hlisted⟩
    rw [LiveSessions.requested, hlive] at hr
    exact (List.filter_sublist.append_left _).subset hr
  | handleStart k flat hqueue => exact h.handleStart (h.listed k)
  | handleStop k flat hqueue => exact h.setInstance (by simp)
  | other k flat => exact h.setInstance (by simpa using h.listed k)
  | gateway x gateway requests hkept hrequests hlive hheld =>
    refine ⟨hkept, fun r hr => h.requested r ?_, h.listed⟩
    rcases List.mem_append.mp hr with hr | hr
    · exact List.mem_append_left _ (hrequests r hr)
    · exact hlive r hr

theorem numbered_init (symbols : Fin n → String) : (init symbols).Numbered :=
  ⟨LiveGateway.kept_init, by simp [init, requested], by simp [init]⟩

theorem numbered_after {xs : List (LiveSessionStep n)} (h : s.Numbered) :
    ∀ s' ∈ after next (some s) xs, s'.Numbered :=
  after_tryStep_invariant (fun _ _ _ h hstep => h.step hstep) h

end LiveSessions

end CryptoTrading

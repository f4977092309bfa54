import CryptoTrading.Network.ConnectionWatcher

/-! # The connection checks of the Bybit gateways

A gateway pushes the next check from its handler of the last one, delayed, and the first
one when it connects. A check that is pushed while the channel has no subscriber is gone.
-/

namespace CryptoTrading

open Runs

inductive BybitGateway | trading | marketData
  deriving DecidableEq

structure ConnectionSupervisor where
  watcher : ConnectionWatcher := {}
  /-- The gateway is subscribed to its channel of checks. -/
  subscribed : Bool := false
  pending : ℕ := 0
  /-- The event loop is handling a check, which has not pushed the next one yet. -/
  handling : Bool := false
  deriving DecidableEq

inductive ConnectionEvent
  | pong
  /-- The event loop takes a check. -/
  | deliver
  /-- It handles the check; `sent` and `ready` say whether a ping can be sent and a new client
  connects in time. -/
  | handle (sent ready : Bool)
  deriving DecidableEq

namespace ConnectionSupervisor

/-- `push_delayed` on the channel of checks: one event for each subscriber. -/
def pushDelayed (g : ConnectionSupervisor) : ConnectionSupervisor :=
  { g with pending := if g.subscribed then g.pending + 1 else g.pending }

def registerSubs (g : ConnectionSupervisor) : ConnectionSupervisor := { g with subscribed := true }

/-- The new client takes the place of the old one, and with it of its ping sender. -/
def reconnectWsClient (g : ConnectionSupervisor) (ready : Bool) : ConnectionSupervisor × Bool :=
  let g := { g with watcher := { g.watcher with pingSender := false } }
  if ¬ ready then (g, false)
  else ({ g with watcher := g.watcher.setPingSender }.pushDelayed, true)

def onConnectionLost (g : ConnectionSupervisor) (ready : Bool) : ConnectionSupervisor :=
  match g.reconnectWsClient ready with
  | (g, true) => g
  | (g, false) => g.pushDelayed

def onConnectionVerified (g : ConnectionSupervisor) : ConnectionSupervisor := g.pushDelayed

/-- The constructors, once the config is loaded. -/
def construct : BybitGateway → Bool → ConnectionSupervisor
  | .trading, ready => (reconnectWsClient {} ready).1.registerSubs
  | .marketData, ready => (registerSubs {}).reconnectWsClient ready |>.1

def handle (g : ConnectionSupervisor) (sent ready : Bool) : ConnectionSupervisor :=
  let (watcher, call) := g.watcher.handleRequest sent
  let g := { g with watcher, handling := false }
  match call with
  | .onConnectionLost => g.onConnectionLost ready
  | .onConnectionVerified => g.onConnectionVerified

def step (g : ConnectionSupervisor) : ConnectionEvent → ConnectionSupervisor
  | .pong => { g with watcher := g.watcher.onPongReceived }
  | .deliver =>
    if ¬ g.handling ∧ 0 < g.pending then { g with pending := g.pending - 1, handling := true }
    else g
  | .handle sent ready => if g.handling then g.handle sent ready else g

/-- The checks that are pending or being handled. -/
def alive (g : ConnectionSupervisor) : ℕ := g.pending + if g.handling then 1 else 0

variable {g : ConnectionSupervisor} {e : ConnectionEvent}

theorem onConnectionLost_spec (h : g.subscribed) (ready : Bool) :
    (g.onConnectionLost ready).subscribed ∧
      (g.onConnectionLost ready).pending = g.pending + 1 ∧
      (g.onConnectionLost ready).handling = g.handling := by
  cases ready <;> simp [onConnectionLost, reconnectWsClient, pushDelayed, h]

theorem onConnectionVerified_spec (h : g.subscribed) :
    g.onConnectionVerified.subscribed ∧ g.onConnectionVerified.pending = g.pending + 1 ∧
      g.onConnectionVerified.handling = g.handling := by
  simp [onConnectionVerified, pushDelayed, h]

theorem handle_spec (h : g.subscribed) (sent ready : Bool) :
    (g.handle sent ready).subscribed ∧ (g.handle sent ready).pending = g.pending + 1 ∧
      (g.handle sent ready).handling = false := by
  unfold handle
  cases hcall : (g.watcher.handleRequest sent).2 with simp only [hcall]
  | onConnectionLost =>
    refine onConnectionLost_spec ?_ ready
    exact h
  | onConnectionVerified =>
    refine onConnectionVerified_spec ?_
    exact h

/-- No step makes or loses a check of a gateway that is subscribed. -/
theorem step_alive (h : g.subscribed) : (g.step e).subscribed ∧ (g.step e).alive = g.alive := by
  cases e with
  | pong => exact ⟨h, rfl⟩
  | deliver =>
    simp only [step]
    split
    case isTrue hd =>
      refine ⟨h, ?_⟩
      have hnot : g.handling = false := by simpa using hd.1
      simp only [alive, hnot, if_true, Bool.false_eq_true, if_false]
      omega
    case isFalse => exact ⟨h, rfl⟩
  | handle sent ready =>
    simp only [step]
    split
    case isTrue hh =>
      obtain ⟨hsub, hpending, hhandling⟩ := handle_spec h sent ready
      refine ⟨hsub, ?_⟩
      simp [alive, hpending, hhandling, hh]
    case isFalse => exact ⟨h, rfl⟩

theorem run_alive (h : g.subscribed) (es : List ConnectionEvent) :
    (after step g es).alive = g.alive := by
  induction es generalizing g with
  | nil => rfl
  | cons e es ih =>
    obtain ⟨hsub, halive⟩ := step_alive (e := e) h
    exact (ih hsub).trans halive

theorem construct_spec (kind : BybitGateway) (ready : Bool) :
    (construct kind ready).subscribed ∧
      (construct kind ready).alive = if kind = .marketData ∧ ready then 1 else 0 := by
  cases kind <;> cases ready <;> decide

/--
In every state that a gateway reaches after its constructor, just one check is pending or being
handled if it is the market data gateway and its first attempt to connect succeeds. Otherwise
there is none, ever.
-/
theorem one_check_alive_iff (kind : BybitGateway) (ready : Bool) (es : List ConnectionEvent) :
    ((after step (construct kind ready) es).alive = 1 ↔ kind = .marketData ∧ ready) ∧
      (¬ (kind = .marketData ∧ ready) → (after step (construct kind ready) es).alive = 0) := by
  obtain ⟨hsub, halive⟩ := construct_spec kind ready
  rw [run_alive hsub, halive]
  split
  case isTrue h => exact ⟨iff_of_true rfl h, fun hn => absurd h hn⟩
  case isFalse h => exact ⟨iff_of_false Nat.zero_ne_one h, fun _ => rfl⟩

/-- The first check of the trading gateway finds no subscriber, and the market data gateway
pushes none when it cannot connect. -/
theorem no_check_after_construct :
    (construct .trading true).alive = 0 ∧ (construct .marketData false).alive = 0 := by
  decide

end ConnectionSupervisor

end CryptoTrading

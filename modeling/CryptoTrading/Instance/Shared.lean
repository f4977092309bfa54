import CryptoTrading.Instance.MarketSide

/-! # Instances that share a market data gateway

The gateway creates a reader for each request and pushes it to all instances, which hold
it by pointer: whoever calls `get_next` takes the trade from everyone. A handler therefore
works on the readers as they are when it runs.
-/

namespace CryptoTrading

open Runs

/-- An instance and the reader that its generator points to, with a log. -/
structure FeedClient where
  system : BacktestSystem
  generator : Option Guid
  /-- The requests that it has made. -/
  requested : List Guid
  /-- The prices that it has handled. -/
  handled : List PublicTrade
  /-- It has handled a stop request while a price was on its way. -/
  interrupted : Bool

namespace FeedClient

def init (symbol : Symbol) : FeedClient := ⟨.init symbol, none, [], [], false⟩

variable (c : FeedClient)

/-- The reader on which the handler of the event calls `get_next`. -/
def read? : BacktestEvent → Option Guid
  | .feed guid _ =>
    if c.generator = none ∧ guid ∈ c.system.pendingRequests then some guid else none
  | .price _ => c.generator
  | _ => none

def handle (e : BacktestEvent) (nextRequest : Guid) (system : BacktestSystem) : FeedClient where
  system := system
  generator :=
    if system.historicalMdGenerator.isSome then (c.read? e).or c.generator else none
  requested := if e = .start then c.requested ++ [nextRequest] else c.requested
  handled := c.handled ++ e.price?.toList
  interrupted := c.interrupted || decide (e = .stop ∧ c.system.marketSide.prices ≠ [])

end FeedClient

structure SharedGateway (n : ℕ) where
  clients : Fin n → FeedClient
  /-- The readers, each under the guid of the request that it was created for. -/
  readers : Guid → SequentialMarketDataReader
  /-- What a reader had to read when it was created. -/
  feeds : Guid → List PublicTrade
  /-- The pushes that the running handler of the gateway has still to make. -/
  deliveries : List (Fin n × Guid)
  /-- The guid of the next request, of whichever instance. -/
  nextRequest : Guid
  /-- The calls of `get_next`: the instance, and the reader on which it was called. -/
  reads : List (Fin n × Guid)

inductive SharedStep (n : ℕ)
  | client (i : Fin n) (x : BacktestStep)
  /-- The gateway handles a request; these are the files of its reader. -/
  | handleRequest (guid : Guid) (files : List (List PublicTrade))
  /-- The gateway pushes its event to the next instance. -/
  | deliver
  deriving DecidableEq

def loadEvent (readers : Guid → SequentialMarketDataReader) : BacktestEvent → BacktestEvent
  | .feed guid _ => .feed guid (readers guid)
  | e => e

def readNext (readers : Guid → SequentialMarketDataReader) :
    Option Guid → Guid → SequentialMarketDataReader
  | some guid => Function.update readers guid (readers guid).getNext.2
  | none => readers

namespace SharedGateway

variable {n : ℕ}

def init (symbols : Fin n → Symbol) : SharedGateway n where
  clients i := .init (symbols i)
  readers _ := .new []
  feeds _ := []
  deliveries := []
  nextRequest := Guid.first
  reads := []

variable (s : SharedGateway n)

/-- What a handler of the instance finds behind its pointers. -/
def load (i : Fin n) (system : BacktestSystem) : BacktestSystem :=
  { system with
    historicalMdGenerator := (s.clients i).generator.map s.readers
    nextRequest := s.nextRequest }

def handle (i : Fin n) (r : Reaction) (e : BacktestEvent) (system : BacktestSystem) :
    SharedGateway n :=
  let c := s.clients i
  let system := (s.load i system).handleEvent r (loadEvent s.readers e)
  { s with
    clients := Function.update s.clients i (c.handle e s.nextRequest system)
    readers := readNext s.readers (c.read? e)
    nextRequest := system.nextRequest
    reads := s.reads ++ (c.read? e).toList.map (i, ·) }

def setSystem (i : Fin n) (system : BacktestSystem) : SharedGateway n :=
  { s with clients := Function.update s.clients i { s.clients i with system } }

/-- The answers to an instance's requests come from the gateway only. -/
def advanceClient (i : Fin n) : BacktestStep → SharedGateway n
  | .answer .. => s
  | .run r =>
    match (s.clients i).system.next? with
    | some (e, system) => s.handle i r e system
    | none => s
  | x => s.setSystem i ((s.clients i).system.advance x)

def advance : SharedStep n → SharedGateway n
  | .client i x => s.advanceClient i x
  | .handleRequest guid files =>
    if s.deliveries = [] ∧ ∃ i, guid ∈ (s.clients i).system.mdRequests then
      { s with
        readers := Function.update s.readers guid (.new files)
        feeds := Function.update s.feeds guid files.flatten
        deliveries := (List.finRange n).map (·, guid) }
    else s
  | .deliver =>
    match s.deliveries with
    | [] => s
    | (i, guid) :: deliveries =>
      let system := (s.clients i).system.advance (.answer guid (s.readers guid))
      { s.setSystem i system with deliveries }

def step (x : SharedStep n) : SharedGateway n :=
  if ∀ i, (s.clients i).system.failure = none then s.advance x else s

/-- Each instance is started once, and none is stopped from outside. -/
def StartedOnce (s : SharedGateway n) : SharedStep n → Prop
  | .client i .runAsync => (s.clients i).system.started = false
  | .client _ (.stopAsync _) => False
  | _ => True

instance (s : SharedGateway n) : (x : SharedStep n) → Decidable (s.StartedOnce x)
  | .client i .runAsync => inferInstanceAs (Decidable ((s.clients i).system.started = false))
  | .client _ (.stopAsync _) => isFalse id
  | .client _ (.answer ..) => isTrue trivial
  | .client _ .delayed => isTrue trivial
  | .client _ .flush => isTrue trivial
  | .client _ (.run _) => isTrue trivial
  | .handleRequest .. => isTrue trivial
  | .deliver => isTrue trivial

end SharedGateway

end CryptoTrading

import CryptoTrading.Loop.Queue
import CryptoTrading.Primitives.Trade
import CryptoTrading.Lib.Runs
import Mathlib.Logic.Function.Basic

/-! # Delayed events

The scheduler keeps the delayed events of all loops and pushes a due one to every loop
subscribed to the channel of its guid. Every loop leaves its guid as it was
constructed, so all of them share one channel.
-/

namespace CryptoTrading

open Runs

abbrev LoopId := ℕ

/-- An event, known by the number of the call that pushed it. -/
structure LambdaEvent where
  call : ℕ
  priority : Priority
  subscriberGuid : Guid
  deriving DecidableEq

/-- What a loop finds in its queue: an event to run, or one to push again. -/
inductive QueuedEvent
  | run (ev : LambdaEvent)
  | forward (ev : LambdaEvent)
  deriving DecidableEq

@[reducible] def QueuedEvent.event : QueuedEvent → LambdaEvent
  | run ev => ev
  | forward ev => ev

structure EventLoop where
  guid : Guid
  queue : ThreadSafePriorityQueue QueuedEvent

/-- The constructor does not set the guid. -/
def EventLoop.new : EventLoop := ⟨Guid.default, .empty⟩

structure DelayedEvent where
  futureTs : Milliseconds
  targetElId : Guid
  ev : LambdaEvent
  deriving DecidableEq

structure Scheduler where
  /-- Ordered by time. -/
  delayedEvents : List DelayedEvent
  /-- The loops subscribed to each channel, oldest first. -/
  channels : Guid → Option (List LoopId)

namespace Scheduler

def init : Scheduler := ⟨[], fun _ => none⟩

/-- Insertion behind the events of the same time. -/
def insertDelayed (e : DelayedEvent) : List DelayedEvent → List DelayedEvent
  | [] => [e]
  | x :: xs => if e.futureTs < x.futureTs then e :: x :: xs else x :: insertDelayed e xs

def delayEvent (s : Scheduler) (now : Milliseconds) (elGuid : Guid) (delay : Milliseconds)
    (ev : LambdaEvent) : Scheduler :=
  { s with delayedEvents := insertDelayed ⟨now + delay, elGuid, ev⟩ s.delayedEvents }

/-- `delayed_channel`, which makes the channel at first use, and the subscription to it. -/
def subscribe (s : Scheduler) (guid : Guid) (l : LoopId) : Scheduler :=
  { s with channels := Function.update s.channels guid (some ((s.channels guid).getD [] ++ [l])) }

def unsubscribe (s : Scheduler) (guid : Guid) (l : LoopId) : Scheduler :=
  { s with
    channels := Function.update s.channels guid ((s.channels guid).map (·.filter (· ≠ l))) }

theorem mem_insertDelayed {e x : DelayedEvent} {xs : List DelayedEvent} :
    x ∈ insertDelayed e xs ↔ x = e ∨ x ∈ xs := by
  induction xs with
  | nil => simp [insertDelayed]
  | cons y ys ih =>
    rw [insertDelayed]
    split
    · simp
    · simp only [List.mem_cons, ih]
      tauto

theorem countP_insertDelayed {e : DelayedEvent} {xs : List DelayedEvent} {p : DelayedEvent → Bool} :
    (insertDelayed e xs).countP p = xs.countP p + [e].countP p := by
  induction xs with
  | nil => simp [insertDelayed]
  | cons y ys ih =>
    rw [insertDelayed]
    split
    · simp only [List.countP_cons, List.countP_nil]
      omega
    · simp only [List.countP_cons, List.countP_nil] at ih ⊢
      omega

end Scheduler

inductive LoopStep
  | newLoop
  | destroyLoop (l : LoopId)
  | push (l : LoopId) (priority : Priority) (subscriberGuid : Guid)
  | pushDelayed (l : LoopId) (delay : Milliseconds) (priority : Priority) (subscriberGuid : Guid)
  | tick (elapsed : ℕ)
  /-- The scheduler takes the first event, if it is due. -/
  | dispatch
  /-- The scheduler pushes the event it has taken to the next subscribed loop. -/
  | deliver
  | run (l : LoopId)
  | discard (l : LoopId) (subscriberGuid : Guid)
  deriving DecidableEq

structure LoopSystem where
  now : Milliseconds
  loops : LoopId → EventLoop
  live : List LoopId
  /-- How many loops were constructed so far. -/
  created : ℕ
  scheduler : Scheduler
  /-- The pushes that are left of the event taken last; the scheduler holds its locks meanwhile. -/
  delivering : List (LoopId × LambdaEvent)
  /-- The loop on which each call was made. -/
  callers : List LoopId
  executed : List (LoopId × ℕ)

namespace LoopSystem

def init : LoopSystem where
  now := 0
  loops := fun _ => .new
  live := []
  created := 0
  scheduler := .init
  delivering := []
  callers := []
  executed := []

variable (s : LoopSystem)

def setQueue (l : LoopId) (queue : ThreadSafePriorityQueue QueuedEvent) : LoopSystem :=
  { s with loops := Function.update s.loops l { s.loops l with queue } }

def pushTo (l : LoopId) (priority : Priority) (ev : QueuedEvent) : LoopSystem :=
  s.setQueue l ((s.loops l).queue.push priority ev)

/-- The constructor of a loop subscribes it to the channel of its guid. -/
def addLoop : LoopSystem :=
  { s with
    loops := Function.update s.loops s.created .new
    live := s.live ++ [s.created]
    created := s.created + 1
    scheduler := s.scheduler.subscribe EventLoop.new.guid s.created }

/-- The destructor of a loop drops the events that are left in its queue. -/
def removeLoop (l : LoopId) : LoopSystem :=
  { s.setQueue l .empty with
    live := s.live.filter (· ≠ l)
    scheduler := s.scheduler.unsubscribe (s.loops l).guid l }

/-- A step that is not possible, or would have to wait for a lock, changes nothing. -/
def step : LoopStep → LoopSystem
  | .newLoop => if s.delivering = [] then s.addLoop else s
  | .destroyLoop l => if s.delivering = [] ∧ l ∈ s.live then s.removeLoop l else s
  | .push l priority subscriberGuid =>
    if l ∈ s.live then
      { s.pushTo l priority (.run ⟨s.callers.length, priority, subscriberGuid⟩) with
        callers := s.callers ++ [l] }
    else s
  | .pushDelayed l delay priority subscriberGuid =>
    if s.delivering = [] ∧ l ∈ s.live then
      { s with
        scheduler := s.scheduler.delayEvent s.now (s.loops l).guid delay
          ⟨s.callers.length, priority, subscriberGuid⟩
        callers := s.callers ++ [l] }
    else s
  | .tick elapsed => { s with now := s.now + elapsed }
  | .dispatch =>
    match s.scheduler.delayedEvents with
    | [] => s
    | e :: rest =>
      if s.delivering = [] ∧ e.futureTs ≤ s.now then
        match s.scheduler.channels e.targetElId with
        | some subscribers =>
          { s with
            scheduler := { s.scheduler with delayedEvents := rest }
            delivering := subscribers.map (·, e.ev) }
        -- `no channel in scheduler`: see `Delivers.channel`
        | none => s
      else s
  | .deliver =>
    match s.delivering with
    | [] => s
    | (l, ev) :: rest => { s.pushTo l .normal (.forward ev) with delivering := rest }
  | .run l =>
    match (s.loops l).queue.waitAndPop with
    | none => s
    | some (.run ev, queue) =>
      { s.setQueue l queue with executed := s.executed ++ [(l, ev.call)] }
    | some (.forward ev, queue) => s.setQueue l (queue.push ev.priority (.run ev))
  | .discard l subscriberGuid =>
    s.setQueue l <| (s.loops l).queue.discardEvents fun
      | .run ev => ev.subscriberGuid = subscriberGuid
      | .forward _ => false

/-- A delayed event becomes due while no other loop than its own is alive. -/
def OnlyOwnerAlive : LoopStep → Prop
  | .dispatch =>
    ∀ e ∈ s.scheduler.delayedEvents.head?, e.futureTs ≤ s.now →
      ∀ l ∈ s.live, s.callers[e.ev.call]? = some l
  | _ => True

instance (e : LoopStep) : Decidable (s.OnlyOwnerAlive e) := by
  unfold OnlyOwnerAlive
  split <;> infer_instance

/-- How often the event of a call is still on its way to a loop, or was executed. -/
def occurrences (n : ℕ) (l : LoopId) : ℕ :=
  s.scheduler.delayedEvents.countP (·.ev.call = n) + s.delivering.countP (·.2.call = n) +
    (s.loops l).queue.toList.countP (·.event.call = n) + s.executed.countP (·.2 = n)

/-- Every event on its way to a loop, or executed there, was pushed on that loop, once. -/
structure Delivers : Prop where
  subscribed : ∀ guid subscribers, s.scheduler.channels guid = some subscribers →
    subscribers.Nodup ∧ ∀ l ∈ subscribers, l ∈ s.live ∧ (s.loops l).guid = guid
  created : ∀ l ∈ s.live, l < s.created
  channel : ∀ l ∈ s.live, (s.scheduler.channels (s.loops l).guid).isSome
  delayed : ∀ e ∈ s.scheduler.delayedEvents,
    e.ev.call < s.callers.length ∧ (s.scheduler.channels e.targetElId).isSome
  delivering : ∀ x ∈ s.delivering, s.callers[x.2.call]? = some x.1
  queued : ∀ l, ∀ x ∈ (s.loops l).queue.toList, s.callers[x.event.call]? = some l
  executed : ∀ x ∈ s.executed, s.callers[x.2]? = some x.1
  once : ∀ n l, s.callers[n]? = some l → s.occurrences n l ≤ 1

variable {s} {e : LoopStep} {es : List LoopStep} {l l' : LoopId} {n : ℕ}
  {queue : ThreadSafePriorityQueue QueuedEvent}

theorem init_delivers : init.Delivers where
  subscribed := by simp [init, Scheduler.init]
  created := by simp [init]
  channel := by simp [init]
  delayed := by simp [init, Scheduler.init]
  delivering := by simp [init]
  queued := by simp [init, EventLoop.new]
  executed := by simp [init]
  once := by simp [init]

@[simp] theorem setQueue_guid : ((s.setQueue l queue).loops l').guid = (s.loops l').guid := by
  unfold setQueue
  by_cases h : l' = l
  · subst h
    simp
  · simp [h]

@[simp] theorem setQueue_queue_self : ((s.setQueue l queue).loops l).queue = queue := by
  simp [setQueue]

theorem setQueue_queue_of_ne (h : l' ≠ l) :
    ((s.setQueue l queue).loops l').queue = (s.loops l').queue := by
  simp [setQueue, h]

theorem Delivers.occurrences_eq_zero (h : s.Delivers) (l : LoopId) :
    s.occurrences s.callers.length l = 0 := by
  have hnone : s.callers[s.callers.length]? = none := List.getElem?_eq_none le_rfl
  have hdelayed : s.scheduler.delayedEvents.countP (·.ev.call = s.callers.length) = 0 :=
    List.countP_eq_zero.mpr fun x hx => by simpa using (h.delayed x hx).1.ne
  have hdelivering : s.delivering.countP (·.2.call = s.callers.length) = 0 := by
    refine List.countP_eq_zero.mpr fun x hx hn => ?_
    have := h.delivering x hx
    rw [of_decide_eq_true hn, hnone] at this
    simp at this
  have hqueued : (s.loops l).queue.toList.countP (·.event.call = s.callers.length) = 0 := by
    refine List.countP_eq_zero.mpr fun x hx hn => ?_
    have := h.queued l x hx
    rw [of_decide_eq_true hn, hnone] at this
    simp at this
  have hexecuted : s.executed.countP (·.2 = s.callers.length) = 0 := by
    refine List.countP_eq_zero.mpr fun x hx hn => ?_
    have := h.executed x hx
    rw [of_decide_eq_true hn, hnone] at this
    simp at this
  rw [occurrences]
  omega

theorem callers_append (h : s.callers[n]? = some l) : (s.callers ++ [l'])[n]? = some l := by
  rw [List.getElem?_append_left (List.getElem?_eq_some_iff.mp h).1, h]

theorem Delivers.setQueue (h : s.Delivers)
    (hmem : ∀ x ∈ queue.toList, s.callers[x.event.call]? = some l)
    (hcount : ∀ n, queue.toList.countP (·.event.call = n) ≤
      (s.loops l).queue.toList.countP (·.event.call = n)) : (s.setQueue l queue).Delivers where
  subscribed guid subscribers hsub := by
    obtain ⟨hnodup, hlive⟩ := h.subscribed guid subscribers hsub
    exact ⟨hnodup, fun l' hl' => ⟨(hlive l' hl').1, by rw [setQueue_guid, (hlive l' hl').2]⟩⟩
  created := h.created
  channel l' hl' := by
    rw [setQueue_guid]
    exact h.channel l' hl'
  delayed := h.delayed
  delivering := h.delivering
  queued l' x hx := by
    by_cases hl : l' = l
    · subst hl
      rw [setQueue_queue_self] at hx
      exact hmem x hx
    · rw [setQueue_queue_of_ne hl] at hx
      exact h.queued l' x hx
  executed := h.executed
  once n l' hn := by
    have hold := h.once n l' hn
    have hqueue : ((s.setQueue l queue).loops l').queue.toList.countP (·.event.call = n) ≤
        (s.loops l').queue.toList.countP (·.event.call = n) := by
      by_cases hl : l' = l
      · subst hl
        rw [setQueue_queue_self]
        exact hcount n
      · rw [setQueue_queue_of_ne hl]
    unfold occurrences at hold ⊢
    simp only [LoopSystem.setQueue] at hqueue ⊢
    omega

theorem loops_addLoop_of_ne (h : l ≠ s.created) : s.addLoop.loops l = s.loops l :=
  Function.update_of_ne h ..

@[simp] theorem loops_addLoop_self : s.addLoop.loops s.created = .new :=
  Function.update_self ..

theorem channels_addLoop (guid : Guid) :
    s.addLoop.scheduler.channels guid =
      if guid = EventLoop.new.guid then
        some ((s.scheduler.channels guid).getD [] ++ [s.created])
      else s.scheduler.channels guid := by
  unfold addLoop Scheduler.subscribe
  split
  case isTrue h => simp [h]
  case isFalse h => simp [h]

theorem Delivers.addLoop (h : s.Delivers) : s.addLoop.Delivers where
  subscribed guid subscribers hsub := by
    have hold : ((s.scheduler.channels guid).getD []).Nodup ∧
        ∀ l ∈ (s.scheduler.channels guid).getD [], l ∈ s.live ∧ (s.loops l).guid = guid := by
      cases hc : s.scheduler.channels guid with
      | none => simp
      | some subscribers => exact h.subscribed _ _ hc
    have hkeep : ∀ l ∈ (s.scheduler.channels guid).getD [],
        l ∈ s.addLoop.live ∧ (s.addLoop.loops l).guid = guid := by
      intro l hl
      obtain ⟨hlive, hguid⟩ := hold.2 l hl
      rw [loops_addLoop_of_ne (h.created l hlive).ne]
      exact ⟨List.mem_append_left _ hlive, hguid⟩
    rw [channels_addLoop] at hsub
    split at hsub
    case isTrue hg =>
      obtain rfl := Option.some.inj hsub
      refine ⟨List.nodup_append.mpr ⟨hold.1, by simp, fun a ha b hb => ?_⟩, fun l hl => ?_⟩
      · rw [List.mem_singleton.mp hb]
        exact (h.created a (hold.2 a ha).1).ne
      · rcases List.mem_append.mp hl with hl | hl
        · exact hkeep l hl
        · rw [List.mem_singleton.mp hl, loops_addLoop_self, hg]
          exact ⟨List.mem_append_right _ (by simp), rfl⟩
    case isFalse hg =>
      rw [hsub, Option.getD_some] at hold hkeep
      exact ⟨hold.1, hkeep⟩
  created l hl := by
    rcases List.mem_append.mp hl with hl | hl
    · exact Nat.lt_succ_of_lt (h.created l hl)
    · rw [List.mem_singleton.mp hl]
      exact Nat.lt_succ_self _
  channel l hl := by
    rw [channels_addLoop]
    split
    case isTrue => rfl
    case isFalse hg =>
      rcases List.mem_append.mp hl with hl | hl
      · rw [loops_addLoop_of_ne (h.created l hl).ne]
        exact h.channel l hl
      · rw [List.mem_singleton.mp hl, loops_addLoop_self] at hg
        exact absurd rfl hg
  delayed e he := by
    obtain ⟨hcall, hchannel⟩ := h.delayed e he
    refine ⟨hcall, ?_⟩
    rw [channels_addLoop]
    split
    · rfl
    · exact hchannel
  delivering := h.delivering
  queued l x hx := by
    by_cases hl : l = s.created
    · subst hl
      rw [loops_addLoop_self] at hx
      simp [EventLoop.new] at hx
    · rw [loops_addLoop_of_ne hl] at hx
      exact h.queued l x hx
  executed := h.executed
  once n l hn := by
    have hold := h.once n l hn
    have hqueue : (s.addLoop.loops l).queue.toList.countP (·.event.call = n) ≤
        (s.loops l).queue.toList.countP (·.event.call = n) := by
      by_cases hl : l = s.created
      · subst hl
        simp [EventLoop.new]
      · rw [loops_addLoop_of_ne hl]
    unfold occurrences at hold ⊢
    simp only [LoopSystem.addLoop, Scheduler.subscribe] at hqueue ⊢
    omega

theorem channels_removeLoop (guid : Guid) :
    (s.removeLoop l).scheduler.channels guid =
      if guid = (s.loops l).guid then (s.scheduler.channels guid).map (·.filter (· ≠ l))
      else s.scheduler.channels guid := by
  unfold removeLoop Scheduler.unsubscribe
  split
  case isTrue h => simp [h]
  case isFalse h => simp [h]

theorem isSome_channels_removeLoop {guid : Guid} (h : (s.scheduler.channels guid).isSome) :
    ((s.removeLoop l).scheduler.channels guid).isSome := by
  rw [channels_removeLoop]
  split
  · rwa [Option.isSome_map]
  · exact h

theorem Delivers.removeLoop (h : s.Delivers) : (s.removeLoop l).Delivers := by
  have hq : (s.setQueue l .empty).Delivers := h.setQueue (by simp) (by simp)
  refine ⟨fun guid subscribers hsub => ?_, fun l' hl' => ?_, fun l' hl' => ?_, fun e he => ?_,
    hq.delivering, hq.queued, hq.executed, hq.once⟩
  · rw [channels_removeLoop] at hsub
    split at hsub
    case isTrue hg =>
      obtain ⟨subscribers, hold, rfl⟩ := Option.map_eq_some_iff.mp hsub
      obtain ⟨hnodup, hlive⟩ := hq.subscribed _ _ hold
      refine ⟨hnodup.filter _, fun l' hl' => ?_⟩
      obtain ⟨hmem, hne⟩ := List.mem_filter.mp hl'
      exact ⟨List.mem_filter.mpr ⟨(hlive l' hmem).1, hne⟩, (hlive l' hmem).2⟩
    case isFalse hg =>
      obtain ⟨hnodup, hlive⟩ := hq.subscribed guid subscribers hsub
      refine ⟨hnodup, fun l' hl' => ⟨?_, (hlive l' hl').2⟩⟩
      refine List.mem_filter.mpr ⟨(hlive l' hl').1, ?_⟩
      simp only [ne_eq, decide_eq_true_eq]
      rintro rfl
      exact hg ((hlive l' hl').2.symm.trans setQueue_guid)
  · exact h.created l' (List.mem_filter.mp hl').1
  · exact isSome_channels_removeLoop (hq.channel l' (List.mem_filter.mp hl').1)
  · obtain ⟨hcall, hchannel⟩ := h.delayed e he
    exact ⟨hcall, isSome_channels_removeLoop hchannel⟩

theorem Delivers.called (h : s.Delivers) {t : LoopSystem} (l : LoopId)
    (hscheduler : t.scheduler.channels = s.scheduler.channels) (hlive : t.live = s.live)
    (hcreated : t.created = s.created) (hcallers : t.callers = s.callers ++ [l])
    (hdelivering : t.delivering = s.delivering) (hexecuted : t.executed = s.executed)
    (hguid : ∀ l', (t.loops l').guid = (s.loops l').guid)
    (hdelayed : ∀ e ∈ t.scheduler.delayedEvents, e ∈ s.scheduler.delayedEvents ∨
      e.ev.call = s.callers.length ∧ (s.scheduler.channels e.targetElId).isSome)
    (hqueued : ∀ l', ∀ x ∈ (t.loops l').queue.toList, x ∈ (s.loops l').queue.toList ∨
      x.event.call = s.callers.length ∧ l' = l)
    (hcount : ∀ n l', t.occurrences n l' ≤
      s.occurrences n l' + if n = s.callers.length then 1 else 0) : t.Delivers where
  subscribed guid subscribers hsub := by
    rw [hscheduler] at hsub
    rw [hlive]
    simp only [hguid]
    exact h.subscribed guid subscribers hsub
  created := by
    rw [hlive, hcreated]
    exact h.created
  channel := by
    rw [hlive, hscheduler]
    simp only [hguid]
    exact h.channel
  delayed e he := by
    rw [hscheduler, hcallers, List.length_append, List.length_singleton]
    rcases hdelayed e he with hold | ⟨hcall, hchannel⟩
    · exact ⟨Nat.lt_succ_of_lt (h.delayed e hold).1, (h.delayed e hold).2⟩
    · exact ⟨hcall ▸ Nat.lt_succ_self _, hchannel⟩
  delivering x hx := by
    rw [hdelivering] at hx
    rw [hcallers]
    exact callers_append (h.delivering x hx)
  queued l' x hx := by
    rw [hcallers]
    rcases hqueued l' x hx with hold | ⟨hcall, rfl⟩
    · exact callers_append (h.queued l' x hold)
    · rw [hcall, List.getElem?_append_right le_rfl]
      simp
  executed x hx := by
    rw [hexecuted] at hx
    rw [hcallers]
    exact callers_append (h.executed x hx)
  once n l' hn := by
    have hle := hcount n l'
    rw [hcallers] at hn
    by_cases hnew : n = s.callers.length
    · subst hnew
      rw [h.occurrences_eq_zero, if_pos rfl] at hle
      exact hle
    · rw [if_neg hnew] at hle
      have hlt : n < s.callers.length := by
        have := (List.getElem?_eq_some_iff.mp hn).1
        rw [List.length_append, List.length_singleton] at this
        omega
      rw [List.getElem?_append_left hlt] at hn
      have := h.once n l' hn
      omega

theorem Delivers.push {priority : Priority} {guid : Guid} (h : s.Delivers) :
    (s.step (.push l priority guid)).Delivers := by
  simp only [step]
  split
  case isFalse => exact h
  case isTrue =>
    refine h.called l rfl rfl rfl rfl rfl rfl (fun _ => setQueue_guid)
      (fun e he => Or.inl he) (fun l' x hx => ?_) (fun n l' => ?_)
    · by_cases hl : l' = l
      · subst hl
        simp only [pushTo, setQueue_queue_self, ThreadSafePriorityQueue.mem_push] at hx
        rcases hx with hx | rfl
        · exact Or.inl hx
        · exact Or.inr ⟨rfl, rfl⟩
      · rw [pushTo, setQueue_queue_of_ne hl] at hx
        exact Or.inl hx
    · have hone : [QueuedEvent.run ⟨s.callers.length, priority, guid⟩].countP
          (·.event.call = n) = if n = s.callers.length then 1 else 0 := by
        simp [eq_comm]
      unfold occurrences
      by_cases hl : l' = l
      · subst hl
        simp only [pushTo, setQueue_queue_self, ThreadSafePriorityQueue.countP_push, hone]
        simp only [LoopSystem.setQueue]
        omega
      · rw [pushTo, setQueue_queue_of_ne hl]
        simp only [LoopSystem.setQueue]
        omega

theorem Delivers.pushDelayed {delay : Milliseconds} {priority : Priority} {guid : Guid}
    (h : s.Delivers) : (s.step (.pushDelayed l delay priority guid)).Delivers := by
  simp only [step]
  split
  case isFalse => exact h
  case isTrue hlive =>
    refine h.called l rfl rfl rfl rfl rfl rfl (fun _ => rfl) (fun e he => ?_)
      (fun l' x hx => Or.inl hx) (fun n l' => ?_)
    · rcases Scheduler.mem_insertDelayed.mp he with rfl | he
      · exact Or.inr ⟨rfl, h.channel l hlive.2⟩
      · exact Or.inl he
    · unfold occurrences
      simp only [Scheduler.delayEvent, Scheduler.countP_insertDelayed, List.countP_singleton,
        decide_eq_true_eq, eq_comm (a := n)]
      omega

theorem length_le_one {subscribers : List LoopId} {owner : Option LoopId}
    (hnodup : subscribers.Nodup) (h : ∀ l ∈ subscribers, owner = some l) :
    subscribers.length ≤ 1 := by
  match subscribers, hnodup with
  | [], _ => exact Nat.zero_le _
  | [_], _ => exact le_rfl
  | l :: l' :: _, hnodup =>
    have heq : l = l' := Option.some.inj ((h l (by simp)).symm.trans (h l' (by simp)))
    simp [heq] at hnodup

/-- Dispatching while no other loop is alive, the scheduler pushes the event once at most. -/
theorem Delivers.dispatch (h : s.Delivers) (hok : s.OnlyOwnerAlive .dispatch) :
    (s.step .dispatch).Delivers := by
  simp only [step]
  cases hevents : s.scheduler.delayedEvents with
  | nil => exact h
  | cons e rest =>
    simp only
    split
    case isFalse => exact h
    case isTrue hdue =>
      cases hch : s.scheduler.channels e.targetElId with
      | none => exact h
      | some subscribers =>
        obtain ⟨hnodup, hsub⟩ := h.subscribed _ _ hch
        have howner : ∀ l ∈ subscribers, s.callers[e.ev.call]? = some l := fun l hl =>
          hok e (by simp [hevents]) hdue.2 l (hsub l hl).1
        have hmem : ∀ x ∈ rest, x ∈ s.scheduler.delayedEvents := fun x hx => by simp [hevents, hx]
        refine ⟨h.subscribed, h.created, h.channel, fun x hx => h.delayed x (hmem x hx),
          fun x hx => ?_, h.queued, h.executed, fun n l hn => ?_⟩
        · obtain ⟨l, hl, rfl⟩ := List.mem_map.mp hx
          exact howner l hl
        · have hold := h.once n l hn
          have hpushed : (subscribers.map (·, e.ev)).countP (·.2.call = n) ≤
              [e].countP (·.ev.call = n) := by
            rw [List.countP_map, List.countP_singleton]
            split
            case isTrue => exact (List.countP_le_length).trans (length_le_one hnodup howner)
            case isFalse hne => exact (List.countP_eq_zero.mpr fun _ _ => hne).le
          unfold occurrences at hold ⊢
          rw [hevents, ← List.singleton_append, List.countP_append] at hold
          simp only [hdue.1, List.countP_nil] at hold ⊢
          omega

theorem Delivers.deliver (h : s.Delivers) : (s.step .deliver).Delivers := by
  simp only [LoopSystem.step]
  cases hd : s.delivering with
  | nil => exact h
  | cons x rest =>
    obtain ⟨l, ev⟩ := x
    have howner : s.callers[ev.call]? = some l := h.delivering (l, ev) (by simp [hd])
    refine ⟨fun guid subscribers hsub => ?_, h.created, fun l' hl' => ?_, h.delayed,
      fun x hx => h.delivering x (by simp [hd, hx]), fun l' x hx => ?_, h.executed,
      fun n l' hn => ?_⟩
    · obtain ⟨hnodup, hlive⟩ := h.subscribed guid subscribers hsub
      exact ⟨hnodup, fun l' hl' => ⟨(hlive l' hl').1, setQueue_guid.trans (hlive l' hl').2⟩⟩
    · have hguid : ((s.pushTo l .normal (.forward ev)).loops l').guid = (s.loops l').guid :=
        setQueue_guid
      rw [hguid]
      exact h.channel l' hl'
    · by_cases hl : l' = l
      · subst hl
        simp only [pushTo, setQueue_queue_self, ThreadSafePriorityQueue.mem_push] at hx
        rcases hx with hx | rfl
        · exact h.queued l' x hx
        · exact howner
      · simp only [pushTo, setQueue_queue_of_ne hl] at hx
        exact h.queued l' x hx
    · have hold := h.once n l' hn
      have hqueue : ((s.pushTo l .normal (.forward ev)).loops l').queue.toList.countP
            (·.event.call = n) ≤
          (s.loops l').queue.toList.countP (·.event.call = n) +
            [(l, ev)].countP (·.2.call = n) := by
        by_cases hl : l' = l
        · subst hl
          simp only [pushTo, setQueue_queue_self, ThreadSafePriorityQueue.countP_push]
          exact le_rfl
        · simp only [pushTo, setQueue_queue_of_ne hl]
          omega
      unfold occurrences at hold ⊢
      rw [hd, ← List.singleton_append, List.countP_append] at hold
      simp only [pushTo, LoopSystem.setQueue] at hqueue ⊢
      omega

theorem Delivers.run (h : s.Delivers) : (s.step (.run l)).Delivers := by
  simp only [LoopSystem.step]
  cases hpop : (s.loops l).queue.waitAndPop with
  | none => exact h
  | some p =>
    obtain ⟨x, queue⟩ := p
    have hlist := ThreadSafePriorityQueue.toList_of_waitAndPop hpop
    have howner : s.callers[x.event.call]? = some l := h.queued l x (by simp [hlist])
    have hmem : ∀ y ∈ queue.toList, s.callers[y.event.call]? = some l := fun y hy =>
      h.queued l y (by simp [hlist, hy])
    cases x with
    | forward ev =>
      refine h.setQueue (fun y hy => ?_) fun n => ?_
      · rcases ThreadSafePriorityQueue.mem_push.mp hy with hy | rfl
        · exact hmem y hy
        · exact howner
      · rw [ThreadSafePriorityQueue.countP_push, hlist]
        simp [List.countP_cons]
    | run ev =>
      have hq : (s.setQueue l queue).Delivers := h.setQueue hmem fun n => by
        rw [hlist, List.countP_cons]
        exact Nat.le_add_right _ _
      refine ⟨hq.subscribed, hq.created, hq.channel, hq.delayed, hq.delivering, hq.queued,
        fun y hy => ?_, fun n l' hn => ?_⟩
      · rcases List.mem_append.mp hy with hy | hy
        · exact h.executed y hy
        · rw [List.mem_singleton.mp hy]
          exact howner
      · have hold := h.once n l' hn
        have hqueue : ((s.setQueue l queue).loops l').queue.toList.countP (·.event.call = n) +
              [(l, ev.call)].countP (·.2 = n) ≤
            (s.loops l').queue.toList.countP (·.event.call = n) := by
          by_cases hl : l' = l
          · subst hl
            rw [setQueue_queue_self, hlist]
            simp [List.countP_cons]
          · have hne : ev.call ≠ n := by
              rintro rfl
              exact hl (Option.some.inj (hn.symm.trans howner))
            rw [setQueue_queue_of_ne hl]
            simp [hne]
        unfold occurrences at hold ⊢
        simp only [LoopSystem.setQueue, List.countP_append] at hqueue ⊢
        omega

theorem Delivers.discard {guid : Guid} (h : s.Delivers) :
    (s.step (.discard l guid)).Delivers := by
  refine h.setQueue (fun x hx => ?_) fun n => ?_
  · rw [ThreadSafePriorityQueue.toList_discardEvents] at hx
    exact h.queued l x (List.mem_filter.mp hx).1
  · rw [ThreadSafePriorityQueue.toList_discardEvents]
    exact List.filter_sublist.countP_le

/-- One step keeps the events in order, unless it dispatches one to other loops. -/
theorem Delivers.step (h : s.Delivers) (hok : s.OnlyOwnerAlive e) : (s.step e).Delivers := by
  cases e with
  | newLoop =>
    simp only [LoopSystem.step]
    split
    · exact h.addLoop
    · exact h
  | destroyLoop l =>
    simp only [LoopSystem.step]
    split
    · exact h.removeLoop
    · exact h
  | push l priority guid => exact h.push
  | pushDelayed l delay priority guid => exact h.pushDelayed
  | tick elapsed => exact { h with }
  | dispatch => exact h.dispatch hok
  | deliver => exact h.deliver
  | run l => exact h.run
  | discard l guid => exact h.discard

theorem run_delivers (h : Meets step OnlyOwnerAlive init es) : (after step init es).Delivers :=
  h.invariant (fun _ _ => Delivers.step) init_delivers

/--
In a run in which every delayed event becomes due while no other loop is alive, every event
is executed only by the loop on which it was pushed, and at most once.
-/
theorem executed_once_by_owner (es : List LoopStep) (h : Meets step OnlyOwnerAlive init es) :
    (∀ x ∈ (after step init es).executed, (after step init es).callers[x.2]? = some x.1) ∧
      ((after step init es).executed.map Prod.snd).Nodup := by
  have hd := run_delivers h
  refine ⟨hd.executed, List.nodup_iff_count.mpr fun n => ?_⟩
  rw [List.count, List.countP_map]
  cases hn : (after step init es).callers[n]? with
  | none =>
    refine (List.countP_eq_zero.mpr fun x hx hxn => ?_).le.trans (Nat.zero_le 1)
    have howner := hd.executed x hx
    rw [beq_iff_eq.mp hxn, hn] at howner
    simp at howner
  | some l =>
    have honce := hd.once n l hn
    unfold occurrences at honce
    have hcount : (after step init es).executed.countP ((· == n) ∘ Prod.snd) =
        (after step init es).executed.countP (·.2 = n) := rfl
    omega

/-- One loop and one delayed event, which it executes. -/
theorem executed_once_by_owner_single :
    let es : List LoopStep :=
      [.newLoop, .pushDelayed 0 5 .normal 1, .tick 5, .dispatch, .deliver, .run 0, .run 0]
    Meets step OnlyOwnerAlive init es ∧ ((after step init es).executed.map Prod.snd).Nodup := by
  intro es
  have h : Meets step OnlyOwnerAlive init es := by decide +kernel
  exact ⟨h, (executed_once_by_owner es h).2⟩

/-- With a second loop alive, both loops execute the event of the first one. -/
theorem executed_by_both_loops :
    (after step init [.newLoop, .newLoop, .pushDelayed 0 5 .normal 1, .tick 5, .dispatch,
      .deliver, .deliver, .run 0, .run 0, .run 1, .run 1]).executed = [(0, 0), (1, 0)] := by
  decide +kernel

end LoopSystem

end CryptoTrading

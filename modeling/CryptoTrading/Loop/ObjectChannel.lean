import CryptoTrading.Lib.Pipeline
import CryptoTrading.Loop.Queue
import CryptoTrading.Primitives.Trade
import Mathlib.Data.List.Nodup
import Mathlib.Logic.Function.Basic

/-! # Object channels

A push stores an object and queues it for the subscribers, all under the two locks of the
channel. A subscriber gets no snapshot, but all that is stored while it has its subscription
reaches it once and in order, whatever other threads and the event loops do meanwhile.
-/

namespace CryptoTrading

open Runs

structure EventObjectSubscription where
  guid : Guid
  subscriberGuid : Guid
  /-- The event loop that its callback is called in. -/
  consumer : ℕ
  deriving DecidableEq

inductive ObjectLambda (α : Type*)
  /-- The callback of a subscription, bound to an object. -/
  | call (sub : EventObjectSubscription) (object : α)
  | other (priority : Priority) (subscriberGuid : Guid)
  deriving DecidableEq

namespace ObjectLambda

variable {α : Type*}

/-- The priority of the subscription is not used. -/
def priority : ObjectLambda α → Priority
  | call _ _ => .normal
  | other priority _ => priority

def subscriberGuid : ObjectLambda α → Guid
  | call sub _ => sub.subscriberGuid
  | other _ subscriberGuid => subscriberGuid

def objectFor (sub : EventObjectSubscription) : ObjectLambda α → Option α
  | call sub' object => if sub' = sub then some object else none
  | other _ _ => none

variable {sub sub' : EventObjectSubscription} {object : α}

@[simp] theorem objectFor_call_self : (call sub object).objectFor sub = some object := if_pos rfl

theorem objectFor_call_of_ne (h : sub' ≠ sub) : (call sub' object).objectFor sub = none := if_neg h

@[simp] theorem objectFor_other {priority : Priority} {guid : Guid} :
    (other priority guid : ObjectLambda α).objectFor sub = none := rfl

def RunsIn (c : ℕ) : ObjectLambda α → Prop
  | call sub _ => sub.consumer = c
  | other _ _ => True

def MadeBefore (guid : Guid) : ObjectLambda α → Prop
  | call sub _ => sub.guid < guid
  | other _ _ => True

theorem MadeBefore.mono {ev : ObjectLambda α} {guid guid' : Guid} (h : ev.MadeBefore guid)
    (hle : guid ≤ guid') : ev.MadeBefore guid' := by
  cases ev with
  | call sub object => exact lt_of_lt_of_le h hle
  | other priority guid => trivial

theorem objectFor_eq_some_iff {ev : ObjectLambda α} :
    ev.objectFor sub = some object ↔ ev = call sub object := by
  cases ev with
  | call sub' object' => simp [objectFor, ite_eq_iff]
  | other priority guid => simp

end ObjectLambda

/-- The thread that has locked the channel to store an object, unless it is idle. -/
inductive ObjectPush (α : Type*)
  | idle
  /-- The weak pointers that it has not come to. -/
  | visiting (object : α) (rest : List EventObjectSubscription)
  /-- It has locked a weak pointer. -/
  | holding (object : α) (sub : EventObjectSubscription) (rest : List EventObjectSubscription)
  | enqueued (object : α) (sub : EventObjectSubscription) (rest : List EventObjectSubscription)
  deriving DecidableEq

/-- What it still has to queue, if the weak pointers are not null. -/
def ObjectPush.toNotify {α : Type*} : ObjectPush α → List (ObjectLambda α)
  | idle => []
  | visiting object rest => rest.map (.call · object)
  | holding object sub rest => (sub :: rest).map (.call · object)
  | enqueued object _ rest => rest.map (.call · object)

structure ObjectChannelSystem (α : Type*) where
  data : α
  /-- The weak pointers of the channel. -/
  subscriptions : List EventObjectSubscription
  /-- The subscriptions that their owners have strong pointers to. -/
  owned : List EventObjectSubscription
  pushing : ObjectPush α
  queues : ℕ → ThreadSafePriorityQueue (ObjectLambda α)
  nextGuid : Guid

inductive ObjectStep (α : Type*)
  | subscribe (subscriberGuid : Guid) (consumer : ℕ)
  /-- The locks are taken and the object is stored. -/
  | push (object : α)
  | update (callback : α → α)
  /-- `wptr.lock()`, or the end of the loop over the weak pointers. -/
  | lockWeak
  | enqueue
  | release
  /-- The owner of a subscription gives up its pointer. -/
  | drop (guid : Guid)
  /-- The destructor of a subscription. -/
  | unsubscribe (guid : Guid)
  /-- The end of the destructor of a subscriber, which has dropped its subscriptions. -/
  | discard (subscriberGuid : Guid) (consumer : ℕ)
  | queueOther (priority : Priority) (subscriberGuid : Guid) (consumer : ℕ)
  /-- An event loop takes an event from its queue and runs it. -/
  | run (consumer : ℕ)

namespace ObjectChannelSystem

variable {α : Type*}

def init (data : α) : ObjectChannelSystem α where
  data
  subscriptions := []
  owned := []
  pushing := .idle
  queues _ := .empty
  nextGuid := Guid.first

variable (s : ObjectChannelSystem α)

def store (object : α) : ObjectChannelSystem α :=
  match s.pushing with
  | .idle => { s with data := object, pushing := .visiting object s.subscriptions }
  | _ => s

def setQueue (consumer : ℕ) (queue : ThreadSafePriorityQueue (ObjectLambda α)) :
    ObjectChannelSystem α :=
  { s with queues := Function.update s.queues consumer queue }

/-- A step that is not the thread's next one, or would have to wait for a lock, changes
nothing. -/
def step : ObjectStep α → ObjectChannelSystem α
  | .subscribe subscriberGuid consumer =>
    match s.pushing with
    | .idle =>
      let sub : EventObjectSubscription := ⟨s.nextGuid, subscriberGuid, consumer⟩
      { s with
        subscriptions := s.subscriptions ++ [sub]
        owned := s.owned ++ [sub]
        nextGuid := s.nextGuid + 1 }
    | _ => s
  | .push object => s.store object
  | .update callback => s.store (callback s.data)
  | .lockWeak =>
    match s.pushing with
    | .visiting _ [] => { s with pushing := .idle }
    | .visiting object (sub :: rest) =>
      { s with
        pushing := if sub ∈ s.owned then .holding object sub rest else .visiting object rest }
    | _ => s
  | .enqueue =>
    match s.pushing with
    | .holding object sub rest =>
      let queue := (s.queues sub.consumer).push .normal (.call sub object)
      { s.setQueue sub.consumer queue with pushing := .enqueued object sub rest }
    | _ => s
  | .release =>
    match s.pushing with
    | .enqueued object sub rest =>
      -- with the last pointer, the subscription's destructor waits for the lock of this push
      if sub ∈ s.owned then { s with pushing := .visiting object rest } else s
    | _ => s
  | .drop guid => { s with owned := s.owned.filter (·.guid ≠ guid) }
  | .unsubscribe guid =>
    match s.pushing with
    | .idle =>
      if ∃ sub ∈ s.owned, sub.guid = guid then s
      else { s with subscriptions := s.subscriptions.eraseP (·.guid = guid) }
    | _ => s
  | .discard subscriberGuid consumer =>
    if ∃ sub ∈ s.owned, sub.subscriberGuid = subscriberGuid then s
    else
      s.setQueue consumer ((s.queues consumer).discardEvents (·.subscriberGuid = subscriberGuid))
  | .queueOther priority subscriberGuid consumer =>
    s.setQueue consumer ((s.queues consumer).push priority (.other priority subscriberGuid))
  | .run consumer =>
    match (s.queues consumer).waitAndPop with
    | none => s
    | some (_, queue) => s.setQueue consumer queue

/-- What is stored if the locks are free. -/
def storedFree (object : α) : List α :=
  match s.pushing with
  | .idle => [object]
  | _ => []

def stored : ObjectStep α → List α
  | .push object => s.storedFree object
  | .update callback => s.storedFree (callback s.data)
  | _ => []

def called (sub : EventObjectSubscription) : ObjectStep α → List α
  | .run consumer =>
    ((s.queues consumer).waitAndPop.bind fun r => r.1.objectFor sub).toList
  | _ => []

def pending (sub : EventObjectSubscription) : List α :=
  ((s.queues sub.consumer).normal ++ s.pushing.toNotify).filterMap (·.objectFor sub)

/-- The calls of a subscription are queued in its event loop, and a subscription that has an owner
is known to the channel. -/
structure Coherent : Prop where
  sorted : ∀ c, (s.queues c).Sorted ObjectLambda.priority
  placed : ∀ c, ∀ ev ∈ (s.queues c).toList, ev.RunsIn c ∧ ev.MadeBefore s.nextGuid
  made : ∀ ev ∈ s.pushing.toNotify, ev.MadeBefore s.nextGuid
  guid_nodup : (s.subscriptions.map (·.guid)).Nodup
  fresh : ∀ sub ∈ s.subscriptions, sub.guid < s.nextGuid
  registered : ∀ sub ∈ s.owned, sub ∈ s.subscriptions

variable {s} {e : ObjectStep α} {es : List (ObjectStep α)} {sub : EventObjectSubscription}
  {subs : List EventObjectSubscription} {object data : α} {consumer : ℕ}
  {queue : ThreadSafePriorityQueue (ObjectLambda α)}

theorem coherent_init (data : α) : (init data).Coherent where
  sorted _ := ThreadSafePriorityQueue.sorted_empty
  placed := by simp [init]
  made := by simp [init, ObjectPush.toNotify]
  guid_nodup := by simp [init]
  fresh := by simp [init]
  registered := by simp [init]

@[simp] theorem queues_setQueue : (s.setQueue consumer queue).queues consumer = queue :=
  Function.update_self ..

theorem queues_setQueue_of_ne {c : ℕ} (h : c ≠ consumer) :
    (s.setQueue consumer queue).queues c = s.queues c :=
  Function.update_of_ne h ..

theorem Coherent.setQueue (h : s.Coherent) (hsorted : queue.Sorted ObjectLambda.priority)
    (hplaced : ∀ ev ∈ queue.toList, ev.RunsIn consumer ∧ ev.MadeBefore s.nextGuid) :
    (s.setQueue consumer queue).Coherent where
  sorted c := by
    by_cases hc : c = consumer
    · rw [hc, queues_setQueue]
      exact hsorted
    · rw [queues_setQueue_of_ne hc]
      exact h.sorted c
  placed c := by
    by_cases hc : c = consumer
    · rw [hc, queues_setQueue]
      exact hplaced
    · rw [queues_setQueue_of_ne hc]
      exact h.placed c
  made := h.made
  guid_nodup := h.guid_nodup
  fresh := h.fresh
  registered := h.registered

theorem Coherent.queueEvent (h : s.Coherent) (ev : ObjectLambda α)
    (hplaced : ev.RunsIn consumer ∧ ev.MadeBefore s.nextGuid) :
    (s.setQueue consumer ((s.queues consumer).push ev.priority ev)).Coherent := by
  refine h.setQueue ((h.sorted consumer).push ev) fun ev' hev' => ?_
  rcases ThreadSafePriorityQueue.mem_push.mp hev' with hev' | rfl
  · exact h.placed consumer ev' hev'
  · exact hplaced

theorem Coherent.setPushing (h : s.Coherent) {pushing : ObjectPush α}
    (hsub : pushing.toNotify ⊆ s.pushing.toNotify) : { s with pushing }.Coherent :=
  ⟨h.sorted, h.placed, fun ev hev => h.made ev (hsub hev), h.guid_nodup, h.fresh, h.registered⟩

theorem Coherent.store (h : s.Coherent) (object : α) : (s.store object).Coherent := by
  unfold ObjectChannelSystem.store
  split
  · refine ⟨h.sorted, h.placed, fun ev hev => ?_, h.guid_nodup, h.fresh, h.registered⟩
    obtain ⟨sub, hsub, rfl⟩ := List.mem_map.mp hev
    exact h.fresh sub hsub
  · exact h

theorem Coherent.subscribe (h : s.Coherent) (subscriberGuid : Guid) (consumer : ℕ) :
    (s.step (.subscribe subscriberGuid consumer)).Coherent := by
  simp only [ObjectChannelSystem.step]
  split
  · refine ⟨h.sorted, ?_, fun ev hev => (h.made ev hev).mono (Nat.le_succ _), ?_, ?_, ?_⟩
    · exact fun c ev hev => (h.placed c ev hev).imp_right (·.mono (Nat.le_succ _))
    · rw [List.map_append, List.map_singleton, ← List.concat_eq_append]
      refine h.guid_nodup.concat fun hmem => ?_
      obtain ⟨sub, hsub, hguid⟩ := List.mem_map.mp hmem
      exact (h.fresh sub hsub).ne hguid
    · intro sub hsub
      rcases List.mem_append.mp hsub with hsub | hsub
      · exact Nat.lt_succ_of_lt (h.fresh sub hsub)
      · rw [List.mem_singleton.mp hsub]
        exact Nat.lt_succ_self _
    · intro sub hsub
      exact List.mem_append.mpr ((List.mem_append.mp hsub).imp_left (h.registered sub))
  · exact h

theorem Coherent.unsubscribe (h : s.Coherent) (guid : Guid) :
    (s.step (.unsubscribe guid)).Coherent := by
  simp only [ObjectChannelSystem.step]
  split
  · split
    · exact h
    · rename_i hdropped
      refine ⟨h.sorted, h.placed, h.made, ?_, ?_, ?_⟩
      · exact h.guid_nodup.sublist (List.Sublist.map _ List.eraseP_sublist)
      · exact fun sub hsub => h.fresh sub (List.mem_of_mem_eraseP hsub)
      · intro sub hsub
        refine (List.mem_eraseP_of_neg ?_).mpr (h.registered sub hsub)
        simpa using fun hguid => hdropped ⟨sub, hsub, hguid⟩
  · exact h

theorem Coherent.discard (h : s.Coherent) (subscriberGuid : Guid) (consumer : ℕ) :
    (s.step (.discard subscriberGuid consumer)).Coherent := by
  simp only [ObjectChannelSystem.step]
  split
  · exact h
  · refine h.setQueue ((h.sorted consumer).discardEvents _) fun ev hev => ?_
    rw [ThreadSafePriorityQueue.toList_discardEvents] at hev
    exact h.placed consumer ev (List.mem_filter.mp hev).1

theorem Coherent.run (h : s.Coherent) (consumer : ℕ) : (s.step (.run consumer)).Coherent := by
  simp only [ObjectChannelSystem.step]
  split
  · exact h
  · rename_i ev queue hpop
    refine h.setQueue ((h.sorted consumer).waitAndPop hpop).1 fun ev' hev' => ?_
    refine h.placed consumer ev' ?_
    rw [ThreadSafePriorityQueue.toList_of_waitAndPop hpop]
    exact List.mem_cons_of_mem _ hev'

theorem Coherent.step (h : s.Coherent) (e : ObjectStep α) : (s.step e).Coherent := by
  cases e with
  | subscribe subscriberGuid consumer => exact h.subscribe subscriberGuid consumer
  | push object => exact h.store object
  | update callback => exact h.store _
  | lockWeak =>
    simp only [ObjectChannelSystem.step]
    split
    · exact h.setPushing (List.nil_subset _)
    · rename_i hpushing
      refine h.setPushing ?_
      rw [hpushing]
      split
      · exact List.Subset.refl _
      · exact List.subset_cons_self ..
    · exact h
  | enqueue =>
    simp only [ObjectChannelSystem.step]
    split
    · rename_i object sub rest hpushing
      have hmade : (ObjectLambda.call sub object).MadeBefore s.nextGuid :=
        h.made _ (by rw [hpushing]; exact List.mem_cons_self)
      refine (h.queueEvent (.call sub object) ⟨rfl, hmade⟩).setPushing ?_
      rw [ObjectChannelSystem.setQueue, hpushing]
      exact List.subset_cons_self ..
    · exact h
  | release =>
    simp only [ObjectChannelSystem.step]
    split
    · rename_i hpushing
      split
      · refine h.setPushing ?_
        rw [hpushing]
        exact List.Subset.refl _
      · exact h
    · exact h
  | drop guid =>
    exact ⟨h.sorted, h.placed, h.made, h.guid_nodup, h.fresh,
      fun sub hsub => h.registered sub (List.mem_filter.mp hsub).1⟩
  | unsubscribe guid => exact h.unsubscribe guid
  | discard subscriberGuid consumer => exact h.discard subscriberGuid consumer
  | queueOther priority subscriberGuid consumer =>
    exact h.queueEvent (.other priority subscriberGuid) ⟨trivial, trivial⟩
  | run consumer => exact h.run consumer

theorem objectFor_of_mem (hnodup : subs.Nodup) (hmem : sub ∈ subs) (object : α) :
    (subs.map (.call · object)).filterMap (ObjectLambda.objectFor sub) = [object] := by
  obtain ⟨before, rest, rfl⟩ := List.append_of_mem hmem
  obtain ⟨-, hrest, hbefore⟩ := List.nodup_append.mp hnodup
  have hnot (subs : List EventObjectSubscription) (h : sub ∉ subs) :
      (subs.map (ObjectLambda.call · object)).filterMap (ObjectLambda.objectFor sub) = [] := by
    rw [List.filterMap_eq_nil_iff]
    intro ev hev
    obtain ⟨sub', hsub', rfl⟩ := List.mem_map.mp hev
    refine ObjectLambda.objectFor_call_of_ne fun heq => h ?_
    rwa [← heq]
  rw [List.map_append, List.filterMap_append, List.map_cons, hnot before, List.nil_append,
    List.filterMap_cons_some ObjectLambda.objectFor_call_self,
    hnot rest (List.nodup_cons.mp hrest).1]
  exact fun h => hbefore sub h sub List.mem_cons_self rfl

theorem pending_setQueue (h : consumer = sub.consumer →
    queue.normal.filterMap (·.objectFor sub) =
      (s.queues consumer).normal.filterMap (·.objectFor sub)) :
    (s.setQueue consumer queue).pending sub = s.pending sub := by
  have hpushing : (s.setQueue consumer queue).pushing = s.pushing := rfl
  by_cases hc : sub.consumer = consumer
  · rw [pending, pending, hc, queues_setQueue, List.filterMap_append, List.filterMap_append,
      h hc.symm, hpushing]
  · rw [pending, pending, queues_setQueue_of_ne hc, hpushing]

theorem pending_subscribe (subscriberGuid : Guid) (consumer : ℕ) :
    (s.step (.subscribe subscriberGuid consumer)).pending sub = s.pending sub := by
  simp only [step]
  split <;> rfl

theorem pending_store (h : s.Coherent) (howned : sub ∈ s.owned) (object : α) :
    (s.store object).pending sub = s.pending sub ++ s.storedFree object := by
  unfold store storedFree
  split
  · rename_i hidle
    have hnodup : s.subscriptions.Nodup := List.Nodup.of_map _ h.guid_nodup
    have hsubs := objectFor_of_mem hnodup (h.registered sub howned) object
    simp only [pending, hidle, ObjectPush.toNotify, List.append_nil, List.filterMap_append, hsubs]
  · rw [List.append_nil]

theorem pending_lockWeak (howned : sub ∈ s.owned) :
    (s.step .lockWeak).pending sub = s.pending sub := by
  simp only [step]
  split
  · rename_i hpushing
    simp [pending, hpushing, ObjectPush.toNotify]
  · rename_i object sub' rest hpushing
    split
    · simp [pending, hpushing, ObjectPush.toNotify]
    · rename_i hnull
      have hne : sub' ≠ sub := fun heq => hnull (heq ▸ howned)
      simp [pending, hpushing, ObjectPush.toNotify, ObjectLambda.objectFor_call_of_ne hne]
  · rfl

theorem pending_enqueue : (s.step .enqueue).pending sub = s.pending sub := by
  simp only [step]
  split
  · rename_i object sub' rest hpushing
    have hpush : ((s.queues sub'.consumer).push .normal (.call sub' object)).normal =
        (s.queues sub'.consumer).normal ++ [.call sub' object] := rfl
    by_cases hc : sub.consumer = sub'.consumer
    · simp only [pending, hpushing, hc, queues_setQueue, hpush, ObjectPush.toNotify, List.map_cons]
      rw [List.append_assoc, List.singleton_append]
    · have hne : sub' ≠ sub := fun heq => hc (heq ▸ rfl)
      simp [pending, hpushing, queues_setQueue_of_ne hc, ObjectPush.toNotify,
        ObjectLambda.objectFor_call_of_ne hne]
  · rfl

theorem pending_discard (howned : sub ∈ s.owned) (subscriberGuid : Guid) (consumer : ℕ) :
    (s.step (.discard subscriberGuid consumer)).pending sub = s.pending sub := by
  simp only [step]
  split
  · rfl
  · rename_i hdropped
    refine pending_setQueue fun _ => ?_
    rw [ThreadSafePriorityQueue.discardEvents, List.filterMap_filter]
    refine List.filterMap_congr fun ev _ => ite_eq_left_iff.mpr fun hguid => ?_
    rw [eq_comm, Option.eq_none_iff_forall_ne_some]
    intro object hev
    rw [ObjectLambda.objectFor_eq_some_iff.mp hev] at hguid
    refine hdropped ⟨sub, howned, of_decide_eq_true ?_⟩
    rwa [Bool.not_eq_true, Bool.not_eq_false'] at hguid

theorem pending_run (h : s.Coherent) (consumer : ℕ) :
    s.called sub (.run consumer) ++ (s.step (.run consumer)).pending sub = s.pending sub := by
  simp only [step, called]
  split
  · rename_i hpop
    simp [hpop]
  · rename_i ev queue hpop
    rw [hpop, Option.bind_some]
    by_cases hc : sub.consumer = consumer
    · have hqueue : (s.setQueue consumer queue).pushing = s.pushing := rfl
      obtain ⟨-, ⟨-, hnormal⟩ | ⟨hother, hnormal⟩⟩ := (h.sorted consumer).waitAndPop hpop
      · rw [pending, pending, hc, queues_setQueue, hnormal, hqueue, List.cons_append]
        cases hev : ev.objectFor sub <;> simp [hev]
      · rw [pending_setQueue fun _ => by rw [hnormal]]
        cases ev with
        | call sub' object => exact absurd rfl hother
        | other priority guid => rfl
    · have hev : ev.objectFor sub = none := by
        rw [Option.eq_none_iff_forall_ne_some]
        intro object hev
        have hmem : ev ∈ (s.queues consumer).toList := by
          rw [ThreadSafePriorityQueue.toList_of_waitAndPop hpop]
          exact List.mem_cons_self
        rw [ObjectLambda.objectFor_eq_some_iff.mp hev] at hmem
        exact hc (h.placed consumer _ hmem).1
      rw [hev, Option.toList_none, List.nil_append, pending_setQueue fun heq => absurd heq.symm hc]

/-- What is stored is pending until the callback is called with it. -/
theorem pending_step (h : s.Coherent) (howned : sub ∈ s.owned) (e : ObjectStep α) :
    s.called sub e ++ (s.step e).pending sub = s.pending sub ++ s.stored e := by
  cases e with
  | subscribe subscriberGuid consumer => simpa [called, stored] using pending_subscribe _ _
  | push object => exact pending_store h howned object
  | update callback => exact pending_store h howned _
  | lockWeak => simpa [called, stored] using pending_lockWeak howned
  | enqueue => simpa [called, stored] using pending_enqueue
  | release =>
    simp only [step, called, stored, List.nil_append, List.append_nil]
    split
    · rename_i hpushing
      split
      · simp [pending, hpushing, ObjectPush.toNotify]
      · rfl
    · rfl
  | drop guid => simp [called, stored, step, pending]
  | unsubscribe guid =>
    simp only [step, called, stored, List.nil_append, List.append_nil]
    split
    · split <;> rfl
    · rfl
  | discard subscriberGuid consumer => simpa [called, stored] using pending_discard howned _ _
  | queueOther priority subscriberGuid consumer =>
    simp only [step, called, stored, List.nil_append, List.append_nil]
    refine pending_setQueue fun _ => ?_
    cases priority <;> simp [ThreadSafePriorityQueue.push]
  | run consumer => simpa [stored] using pending_run h consumer

theorem owned_of_step (e : ObjectStep α) : s.nextGuid ≤ (s.step e).nextGuid ∧
    ∀ sub ∈ (s.step e).owned, sub.guid < s.nextGuid → sub ∈ s.owned := by
  cases e with
  | subscribe subscriberGuid consumer =>
    simp only [step]
    split
    · refine ⟨Nat.le_succ _, fun sub hsub hguid => ?_⟩
      rcases List.mem_append.mp hsub with hsub | hsub
      · exact hsub
      · rw [List.mem_singleton.mp hsub] at hguid
        exact absurd hguid (lt_irrefl _)
    · exact ⟨le_rfl, fun _ h _ => h⟩
  | drop guid => exact ⟨le_rfl, fun sub hsub _ => (List.mem_filter.mp hsub).1⟩
  | _ =>
    simp only [step, store, setQueue]
    repeat' split
    all_goals exact ⟨le_rfl, fun _ h _ => h⟩

theorem owned_of_after (hguid : sub.guid < s.nextGuid) (h : sub ∈ (after step s es).owned) :
    sub ∈ s.owned := by
  induction es generalizing s with
  | nil => exact h
  | cons e es ih =>
    obtain ⟨hle, howned⟩ := s.owned_of_step e
    exact howned sub (ih (hguid.trans_le hle) h) hguid

theorem meets_owned (hguid : sub.guid < s.nextGuid) (h : sub ∈ (after step s es).owned) :
    Meets step (fun s _ => sub ∈ s.owned) s es := by
  induction es generalizing s with
  | nil => trivial
  | cons e es ih =>
    exact ⟨owned_of_after hguid h, ih (hguid.trans_le (s.owned_of_step e).1) h⟩

theorem data_step (e : ObjectStep α) :
    (s.step e).data = (s.stored e).getLast?.getD s.data := by
  cases e <;> simp only [step, store, setQueue, stored, storedFree]
  all_goals (repeat' split) <;> simp_all

theorem coherent_after (data : α) (es : List (ObjectStep α)) :
    (after step (init data) es).Coherent := by
  induction es using List.reverseRecOn with
  | nil => exact coherent_init data
  | append_singleton es e ih =>
    rw [after_concat]
    exact ih.step e

theorem pending_of_fresh (h : s.Coherent) (hfree : s.pushing = .idle)
    (hguid : s.nextGuid ≤ sub.guid) : s.pending sub = [] := by
  rw [pending, hfree, ObjectPush.toNotify, List.append_nil, List.filterMap_eq_nil_iff]
  intro ev hev
  rw [Option.eq_none_iff_forall_ne_some]
  intro object hobject
  have hmem : ev ∈ (s.queues sub.consumer).toList :=
    ThreadSafePriorityQueue.mem_toList.mpr ⟨.normal, hev⟩
  rw [ObjectLambda.objectFor_eq_some_iff.mp hobject] at hmem
  exact ((h.placed _ _ hmem).2.trans_le hguid).false

/--
While a subscriber has its subscription, its callback is called with what is stored after it was
made, in this order, but for what is pending. Once nothing is, the last of these objects is the
data.
-/
theorem called_append_pending (data : α) (pre post : List (ObjectStep α)) (subscriberGuid : Guid)
    (consumer : ℕ) :
    let s₀ := after step (init data) pre
    let sub : EventObjectSubscription := ⟨s₀.nextGuid, subscriberGuid, consumer⟩
    let s₁ := s₀.step (.subscribe subscriberGuid consumer)
    let s := after step s₁ post
    s₀.pushing = .idle → sub ∈ s.owned →
      outputs step (fun s => s.called sub) s₁ post ++ s.pending sub = outputs step stored s₁ post ∧
        (s.pending sub = [] →
          (outputs step (fun s => s.called sub) s₁ post).getLast?.getD s₁.data = s.data) := by
  intro s₀ sub s₁ s hfree howned
  have h₀ : s₀.Coherent := coherent_after data pre
  have hnone : s₁.pending sub = [] :=
    (pending_subscribe ..).trans (pending_of_fresh h₀ hfree le_rfl)
  have hguid : sub.guid < s₁.nextGuid := by
    simp only [s₁, step, hfree]
    exact Nat.lt_succ_self _
  have hheld := Meets.outputs_append_held (fun s => s.pending sub) (meets_owned hguid howned)
    (fun s e hs _ => Coherent.step hs e) (fun s e hs hok => pending_step hs hok e) (h₀.subscribe ..)
  rw [hnone, List.nil_append] at hheld
  refine ⟨hheld, fun hpending => ?_⟩
  rw [hpending, List.append_nil] at hheld
  rw [hheld]
  exact (eq_getLast_outputs ObjectChannelSystem.data (fun s e => data_step e) s₁ post).symm

/-- A subscriber of the second loop, while one of the first is dropped. -/
theorem called_append_pending_drop :
    let pre : List (ObjectStep ℕ) :=
      [.subscribe 8 0, .push 3, .lockWeak, .enqueue, .release, .lockWeak]
    let post : List (ObjectStep ℕ) :=
      [.push 4, .drop 1, .lockWeak, .lockWeak, .queueOther .high 9 1, .update (· + 1), .enqueue,
        .release, .lockWeak, .update (· + 1), .unsubscribe 1, .run 1, .lockWeak, .run 1, .lockWeak,
        .enqueue, .run 1]
    let s₁ := (after step (init 0) pre).step (.subscribe 9 1)
    let sub : EventObjectSubscription := ⟨2, 9, 1⟩
    outputs step (fun s => s.called sub) s₁ post = [4, 5] ∧ (after step s₁ post).data = 5 := by
  intro pre post s₁ sub
  obtain ⟨hcalled, hdata⟩ := called_append_pending 0 pre post 9 1 (by decide +kernel)
    (by decide +kernel)
  have hpending : (after step s₁ post).pending sub = [] := by decide +kernel
  have hstored : outputs step stored s₁ post = [4, 5] := by decide +kernel
  have hall : outputs step (fun s => s.called sub) s₁ post = [4, 5] :=
    (List.append_nil _).symm.trans ((congrArg _ hpending.symm).trans (hcalled.trans hstored))
  exact ⟨hall, (hdata hpending).symm.trans
    (congrArg (fun objects : List ℕ => objects.getLast?.getD s₁.data) hall)⟩

end ObjectChannelSystem

end CryptoTrading

import CryptoTrading.Loop.Scheduler

/-! # Destruction of a subscriber

One thread pushes to a channel while another one destroys a subscriber of it. The push
keeps a subscription alive between locking its weak pointer and releasing the strong one.
If the subscriber drops the subscription meanwhile, the push is left with the last pointer.
-/

namespace CryptoTrading

open Runs

structure EventSubscription where
  guid : Guid
  subscriberGuid : Guid
  priority : Priority
  deriving DecidableEq

/-- The thread that pushes; unless it is idle it has locked the channel. -/
inductive PushState
  | idle
  /-- The weak pointers that it has not come to. -/
  | visiting (rest : List EventSubscription)
  /-- It has locked a weak pointer. -/
  | holding (sub : EventSubscription) (rest : List EventSubscription)
  | enqueued (sub : EventSubscription) (rest : List EventSubscription)
  deriving DecidableEq

def PushState.held? : PushState → Option EventSubscription
  | holding sub _ => some sub
  | enqueued sub _ => some sub
  | _ => none

inductive DestructorState
  | notStarted
  /-- `m_subscriptions.clear()`. -/
  | clearing
  /-- In the destructor of a subscription, which locks the channel. -/
  | unsubscribing (sub : EventSubscription)
  | returned
  deriving DecidableEq

structure SubscriberSystem where
  guid : Guid
  owned : List EventSubscription
  /-- The weak pointers of the channel. -/
  subscriptions : List EventSubscription
  queue : ThreadSafePriorityQueue LambdaEvent
  pusher : PushState
  destructor : DestructorState
  nextGuid : Guid
  /-- How many events were queued so far. -/
  calls : ℕ
  /-- A thread has locked the mutex that it holds. -/
  relocked : Bool
  /-- The subscriber's events run after its destructor has returned. -/
  late : List LambdaEvent
  deriving DecidableEq

inductive SubscriberStep
  | subscribe (subscriberGuid : Guid) (priority : Priority)
  | lockChannel
  /-- `wptr.lock()`, or the end of the loop over the weak pointers. -/
  | lockWeak
  | enqueue
  | release
  | destroy
  /-- The subscriber drops its next subscription. -/
  | drop
  | unsubscribe
  | discard
  | run
  deriving DecidableEq

namespace SubscriberSystem

def init (guid : Guid) : SubscriberSystem where
  guid := guid
  owned := []
  subscriptions := []
  queue := .empty
  pusher := .idle
  destructor := .notStarted
  nextGuid := Guid.first
  calls := 0
  relocked := false
  late := []

variable (s : SubscriberSystem)

/-- Its owner has a strong pointer to the subscription; other subscribers are not destroyed. -/
def Owns (sub : EventSubscription) : Prop := sub.subscriberGuid = s.guid → sub ∈ s.owned

instance (sub : EventSubscription) : Decidable (s.Owns sub) :=
  inferInstanceAs (Decidable (_ → _))

def pushEvent (sub : EventSubscription) : ThreadSafePriorityQueue LambdaEvent :=
  s.queue.push sub.priority ⟨s.calls, sub.priority, sub.subscriberGuid⟩

/-- A step that is not the thread's next one, or would have to wait for a lock, changes
nothing. -/
def step : SubscriberStep → SubscriberSystem
  | .subscribe subscriberGuid priority =>
    if s.pusher = .idle ∧ (subscriberGuid = s.guid → s.destructor = .notStarted) then
      let sub : EventSubscription := ⟨s.nextGuid, subscriberGuid, priority⟩
      { s with
        subscriptions := s.subscriptions ++ [sub]
        owned := if subscriberGuid = s.guid then s.owned ++ [sub] else s.owned
        nextGuid := s.nextGuid + 1 }
    else s
  | .lockChannel =>
    if s.pusher = .idle then { s with pusher := .visiting s.subscriptions } else s
  | .lockWeak =>
    match s.pusher with
    | .visiting [] => { s with pusher := .idle }
    | .visiting (sub :: rest) =>
      { s with pusher := if s.Owns sub then .holding sub rest else .visiting rest }
    | _ => s
  | .enqueue =>
    match s.pusher with
    | .holding sub rest =>
      { s with pusher := .enqueued sub rest, queue := s.pushEvent sub, calls := s.calls + 1 }
    | _ => s
  | .release =>
    match s.pusher with
    | .enqueued sub rest =>
      -- with the last pointer, `~EventSubscription` locks the channel that the push has locked
      if s.Owns sub then { s with pusher := .visiting rest } else { s with relocked := true }
    | _ => s
  | .destroy =>
    if s.destructor = .notStarted then { s with destructor := .clearing } else s
  | .drop =>
    match s.destructor, s.owned with
    | .clearing, sub :: owned =>
      { s with
        owned
        destructor := if s.pusher.held? = some sub then .clearing else .unsubscribing sub }
    | _, _ => s
  | .unsubscribe =>
    match s.destructor, s.pusher with
    | .unsubscribing sub, .idle =>
      { s with
        subscriptions := s.subscriptions.eraseP (·.guid = sub.guid)
        destructor := .clearing }
    | _, _ => s
  | .discard =>
    if s.destructor = .clearing ∧ s.owned = [] then
      { s with
        queue := s.queue.discardEvents (·.subscriberGuid = s.guid)
        destructor := .returned }
    else s
  | .run =>
    match s.queue.waitAndPop with
    | none => s
    | some (ev, queue) =>
      { s with
        queue
        late :=
          if s.destructor = .returned ∧ ev.subscriberGuid = s.guid then s.late ++ [ev]
          else s.late }

structure Guaranteed : Prop where
  relocked : s.relocked = false
  late : s.late = []

/-- The subscriber drops a subscription only while the push has no pointer to it. -/
def DropsUnheld (e : SubscriberStep) : Prop :=
  e = .drop → s.destructor = .clearing → ∀ sub ∈ s.owned.head?, s.pusher.held? ≠ some sub

instance (e : SubscriberStep) : Decidable (s.DropsUnheld e) :=
  inferInstanceAs (Decidable (_ → _ → ∀ sub ∈ s.owned.head?, _))

/-- The push holds owned subscriptions only, and after the destructor none of the subscriber's
events is left. -/
structure Safe : Prop extends s.Guaranteed where
  held : ∀ sub, s.pusher.held? = some sub → s.Owns sub
  cleared : s.destructor = .returned → s.owned = []
  discarded : s.destructor = .returned → ∀ ev ∈ s.queue.toList, ev.subscriberGuid ≠ s.guid

variable {s} {e : SubscriberStep} {sub : EventSubscription} {guid : Guid}

theorem init_safe : (init guid).Safe := by
  refine ⟨⟨rfl, rfl⟩, ?_, ?_, ?_⟩
  · rintro sub ⟨⟩
  · rintro ⟨⟩
  · rintro ⟨⟩

theorem Safe.setPusher {pusher : PushState} (h : s.Safe)
    (hheld : ∀ sub, pusher.held? = some sub → s.Owns sub) : { s with pusher }.Safe :=
  { h with held := hheld }

theorem Safe.subscribe (h : s.Safe) (subscriberGuid : Guid) (priority : Priority) :
    (s.step (.subscribe subscriberGuid priority)).Safe := by
  simp only [step]
  split
  · rename_i hfree
    refine ⟨⟨h.relocked, h.late⟩, ?_, ?_, h.discarded⟩
    · intro sub hsub
      rw [hfree.1] at hsub
      cases hsub
    · intro hreturned
      have hother : subscriberGuid ≠ s.guid := by
        intro hguid
        have hnot := hfree.2 hguid
        simp only at hreturned
        rw [hreturned] at hnot
        cases hnot
      simpa [hother] using h.cleared hreturned
  · exact h

theorem Safe.lockWeak (h : s.Safe) : (s.step .lockWeak).Safe := by
  simp only [step]
  split
  · apply h.setPusher
    rintro sub ⟨⟩
  · rename_i sub rest hpusher
    apply h.setPusher
    split
    · rename_i howns
      rintro sub' ⟨⟩
      exact howns
    · rintro sub' ⟨⟩
  · exact h

theorem Safe.enqueue (h : s.Safe) : (s.step .enqueue).Safe := by
  simp only [step]
  split
  · rename_i sub rest hpusher
    have howns : s.Owns sub := h.held sub (by rw [hpusher]; rfl)
    refine ⟨⟨h.relocked, h.late⟩, ?_, h.cleared, ?_⟩
    · rintro sub' ⟨⟩
      exact howns
    · intro hreturned ev hev
      rcases ThreadSafePriorityQueue.mem_push.mp hev with hev | rfl
      · exact h.discarded hreturned ev hev
      · intro hguid
        have hmem := howns hguid
        rw [h.cleared hreturned] at hmem
        cases hmem
  · exact h

theorem Safe.release (h : s.Safe) : (s.step .release).Safe := by
  simp only [step]
  split
  · rename_i sub rest hpusher
    have howns : s.Owns sub := h.held sub (by rw [hpusher]; rfl)
    rw [if_pos howns]
    apply h.setPusher
    rintro sub' ⟨⟩
  · exact h

theorem Safe.drop (h : s.Safe) (hok : s.DropsUnheld .drop) : (s.step .drop).Safe := by
  simp only [step]
  split
  · rename_i sub owned hclearing howned
    have hunheld := hok rfl hclearing sub (by rw [howned]; rfl)
    rw [if_neg hunheld]
    refine ⟨⟨h.relocked, h.late⟩, ?_, ?_, ?_⟩
    · intro sub' hsub' hguid
      have hmem := h.held sub' hsub' hguid
      rw [howned] at hmem
      rcases List.mem_cons.mp hmem with rfl | hmem
      · exact absurd hsub' hunheld
      · exact hmem
    · rintro ⟨⟩
    · rintro ⟨⟩
  · exact h

theorem Safe.unsubscribe (h : s.Safe) : (s.step .unsubscribe).Safe := by
  simp only [step]
  split
  · refine ⟨⟨h.relocked, h.late⟩, h.held, ?_, ?_⟩
    · rintro ⟨⟩
    · rintro ⟨⟩
  · exact h

theorem Safe.discard (h : s.Safe) : (s.step .discard).Safe := by
  simp only [step]
  split
  · rename_i hcleared
    refine ⟨⟨h.relocked, h.late⟩, h.held, fun _ => hcleared.2, ?_⟩
    intro _ ev hev
    rw [ThreadSafePriorityQueue.toList_discardEvents] at hev
    simpa using (List.mem_filter.mp hev).2
  · exact h

theorem Safe.run (h : s.Safe) : (s.step .run).Safe := by
  simp only [step]
  split
  · exact h
  · rename_i ev queue hpop
    have hlist := ThreadSafePriorityQueue.toList_of_waitAndPop hpop
    refine ⟨⟨h.relocked, ?_⟩, h.held, h.cleared, ?_⟩
    · have hnot : ¬ (s.destructor = .returned ∧ ev.subscriberGuid = s.guid) := fun hlate =>
        h.discarded hlate.1 ev (by simp [hlist]) hlate.2
      simpa only [if_neg hnot] using h.late
    · intro hreturned ev' hev'
      exact h.discarded hreturned ev' (by simp [hlist, hev'])

theorem Safe.step (h : s.Safe) (hok : s.DropsUnheld e) : (s.step e).Safe := by
  cases e with
  | subscribe subscriberGuid priority => exact h.subscribe subscriberGuid priority
  | lockChannel =>
    simp only [SubscriberSystem.step]
    split
    · apply h.setPusher
      rintro sub ⟨⟩
    · exact h
  | lockWeak => exact h.lockWeak
  | enqueue => exact h.enqueue
  | release => exact h.release
  | destroy =>
    simp only [SubscriberSystem.step]
    split
    · refine ⟨⟨h.relocked, h.late⟩, h.held, ?_, ?_⟩
      · rintro ⟨⟩
      · rintro ⟨⟩
    · exact h
  | drop => exact h.drop hok
  | unsubscribe => exact h.unsubscribe
  | discard => exact h.discard
  | run => exact h.run

/--
In a run in which the subscriber drops its subscriptions only while the push has no pointer
to them, none of its events is run after its destructor, and no thread locks the channel twice.
-/
theorem guaranteed_of_dropsUnheld (guid : Guid) (es : List SubscriberStep)
    (h : Meets step DropsUnheld (init guid) es) : (after step (init guid) es).Guaranteed :=
  (h.invariant (fun _ _ hs hok => hs.step hok) init_safe).toGuaranteed

/-- An event is queued while the subscriber is destroyed, and discarded. -/
theorem guaranteed_of_dropsUnheld_discarded :
    let es : List SubscriberStep :=
      [.subscribe 7 .normal, .lockChannel, .lockWeak, .enqueue, .destroy, .release, .drop,
        .lockWeak, .unsubscribe, .discard, .run]
    Meets step DropsUnheld (init 7) es ∧ (after step (init 7) es).Guaranteed := by
  intro es
  have h : Meets step DropsUnheld (init 7) es := by decide +kernel
  exact ⟨h, guaranteed_of_dropsUnheld 7 es h⟩

/-- A subscription is dropped while the push holds it. Its event is run after the destructor,
and the push unsubscribes it under its own lock. -/
theorem late_and_relocked :
    let s := after step (init 7)
      [.subscribe 7 .normal, .lockChannel, .lockWeak, .destroy, .drop, .discard, .enqueue, .run,
        .release]
    s.late = [⟨0, .normal, 7⟩] ∧ s.relocked := by
  decide +kernel

end SubscriberSystem

end CryptoTrading

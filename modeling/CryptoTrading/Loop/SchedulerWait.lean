import CryptoTrading.Loop.Scheduler

/-! # The waits of the scheduler

The thread of the scheduler waits until the first delayed event is due. The deadline of a wait is
that of its start, and a notification only makes the thread look at the events again.
-/

namespace CryptoTrading

open Runs

/-- Where the thread is in the loop of `run`. A wait knows if it was notified since it looked. -/
inductive SchedulerThread
  | looping
  /-- It has read the clock. -/
  | checking (now : Milliseconds)
  | waiting (notified : Bool)
  | waitingUntil (deadline : Milliseconds) (notified : Bool)
  | finished
  /-- By `no channel in scheduler`. -/
  | terminated
  deriving DecidableEq

def SchedulerThread.notify : SchedulerThread → SchedulerThread
  | waiting _ => waiting true
  | waitingUntil deadline _ => waitingUntil deadline true
  | thread => thread

inductive WaitStep
  | tick (elapsed : ℕ)
  | subscribe (guid : Guid) (l : LoopId)
  /-- The call has read the clock before it gets the lock. -/
  | delayEvent (callTs : Milliseconds) (elGuid : Guid) (delay : Milliseconds) (ev : LambdaEvent)
  /-- The destructor. -/
  | stop
  | readClock
  | check
  /-- The thread looks at the events again, by a notification, at its deadline or for no reason. -/
  | wake
  deriving DecidableEq

structure WaitSystem where
  now : Milliseconds := 0
  running : Bool := true
  scheduler : Scheduler := .init
  thread : SchedulerThread := .looping

namespace WaitSystem

def init : WaitSystem := {}

variable (s : WaitSystem)

abbrev events : List DelayedEvent := s.scheduler.delayedEvents

/-- The predicate of a wait with a deadline. -/
def FirstDue : Prop := s.running = false ∨ ∃ e ∈ s.events.head?, e.futureTs ≤ s.now

instance : Decidable s.FirstDue := inferInstanceAs (Decidable (_ ∨ _))

def pushDue (now : Milliseconds) : WaitSystem :=
  let delayedEvents := s.events.filter fun e => ¬ e.futureTs ≤ now
  { s with scheduler := { s.scheduler with delayedEvents } }

/-- A wait looks at its predicate before it blocks. -/
def startWait : WaitSystem :=
  match s.events with
  | [] => { s with thread := if s.running then .waiting false else .looping }
  | first :: _ =>
    { s with thread := if s.FirstDue then .looping else .waitingUntil first.futureTs false }

def checkEvents (now : Milliseconds) : WaitSystem :=
  if ∀ e ∈ s.events, e.futureTs ≤ now → (s.scheduler.channels e.targetElId).isSome then
    (s.pushDue now).startWait
  else { s with thread := .terminated }

def step : WaitStep → WaitSystem
  | .tick elapsed => { s with now := s.now + elapsed }
  | .subscribe guid l => { s with scheduler := s.scheduler.subscribe guid l }
  | .delayEvent callTs elGuid delay ev =>
    { s with
      scheduler := s.scheduler.delayEvent callTs elGuid delay ev
      thread := s.thread.notify }
  | .stop => { s with running := false, thread := s.thread.notify }
  | .readClock =>
    match s.thread with
    | .looping => { s with thread := if s.running then .checking s.now else .finished }
    | _ => s
  | .check =>
    match s.thread with
    | .checking now => s.checkEvents now
    | _ => s
  | .wake =>
    match s.thread with
    | .waiting _ =>
      { s with thread := if s.running ∧ s.events = [] then .waiting false else .looping }
    | .waitingUntil deadline _ =>
      { s with
        thread := if s.now < deadline ∧ ¬ s.FirstDue then .waitingUntil deadline false
          else .looping }
    | _ => s

/-- A thread that is blocked waits for no later time than any event is due. -/
def DeadlineInTime : Prop :=
  match s.thread with
  | .waiting false => s.events = []
  | .waitingUntil deadline false => ∀ e ∈ s.events, deadline ≤ e.futureTs
  | _ => True

instance : Decidable s.DeadlineInTime := by
  unfold DeadlineInTime
  split <;> infer_instance

/-- A thread that looks at the events before its deadline finds the first one due, or not due
before the deadline. -/
def WakesInTime : WaitStep → Prop
  | .wake =>
    match s.thread with
    | .waitingUntil deadline _ => s.now < deadline → s.FirstDue ∨
        ∀ e ∈ s.events.head?, deadline ≤ e.futureTs
    | _ => True
  | _ => True

instance (e : WaitStep) : Decidable (s.WakesInTime e) := by
  unfold WakesInTime
  split
  · split <;> infer_instance
  · infer_instance

/-- No event is delayed to a time before the deadline of the current wait. -/
def DelaysInOrder : WaitStep → Prop
  | .delayEvent callTs _ delay _ =>
    match s.thread with
    | .waitingUntil deadline _ => deadline ≤ callTs + delay
    | _ => True
  | _ => True

instance (e : WaitStep) : Decidable (s.DelaysInOrder e) := by
  unfold DelaysInOrder
  split
  · split <;> infer_instance
  · infer_instance

variable {s} {e : WaitStep} {es pre : List WaitStep} {x : DelayedEvent} {xs : List DelayedEvent}

def InOrder (xs : List DelayedEvent) : Prop := xs.Pairwise (·.futureTs ≤ ·.futureTs)

theorem inOrder_insertDelayed (h : InOrder xs) : InOrder (Scheduler.insertDelayed x xs) := by
  induction xs with
  | nil => exact List.pairwise_singleton _ _
  | cons y ys ih =>
    obtain ⟨hy, hys⟩ := List.pairwise_cons.mp h
    rw [Scheduler.insertDelayed]
    split_ifs with hlt
    · refine List.pairwise_cons.mpr ⟨List.forall_mem_cons.mpr ⟨hlt.le, fun z hz => ?_⟩, h⟩
      exact hlt.le.trans (hy z hz)
    · refine List.pairwise_cons.mpr ⟨fun z hz => ?_, ih hys⟩
      rcases Scheduler.mem_insertDelayed.mp hz with rfl | hz
      · exact not_lt.mp hlt
      · exact hy z hz

theorem forall_head?_iff (h : InOrder xs) {deadline : Milliseconds} :
    (∀ e ∈ xs.head?, deadline ≤ e.futureTs) ↔ ∀ e ∈ xs, deadline ≤ e.futureTs := by
  cases xs with
  | nil => simp
  | cons y ys =>
    simp only [List.head?_cons, Option.mem_some_iff, forall_eq', List.forall_mem_cons]
    refine ⟨fun hle => ⟨hle, fun z hz => hle.trans ?_⟩, And.left⟩
    exact (List.pairwise_cons.mp h).1 z hz

theorem startWait_events : s.startWait.events = s.events := by
  rw [startWait]
  split <;> rfl

theorem inOrder_checkEvents (h : InOrder s.events) {now : Milliseconds} :
    InOrder (s.checkEvents now).events := by
  rw [checkEvents]
  split_ifs
  · rw [startWait_events]
    exact h.filter _
  · exact h

theorem inOrder_step (h : InOrder s.events) : InOrder (s.step e).events := by
  cases e with
  | tick | subscribe | stop => exact h
  | delayEvent callTs elGuid delay ev => exact inOrder_insertDelayed h
  | readClock =>
    rw [step]
    split <;> exact h
  | check =>
    rw [step]
    split
    · exact inOrder_checkEvents h
    · exact h
  | wake =>
    rw [step]
    split <;> exact h

theorem inOrder_after : InOrder (after step init pre).events := by
  induction pre using List.reverseRecOn with
  | nil => exact List.Pairwise.nil
  | append_singleton pre e ih =>
    rw [after_concat]
    exact inOrder_step ih

theorem deadlineInTime_notify {s' : WaitSystem} (h : s'.thread = s.thread.notify) :
    s'.DeadlineInTime := by
  rw [DeadlineInTime, h]
  cases s.thread <;> trivial

theorem deadlineInTime_startWait (h : InOrder s.events) : s.startWait.DeadlineInTime := by
  cases hevents : s.events with
  | nil =>
    rw [startWait, hevents]
    cases s.running
    · trivial
    · exact hevents
  | cons first rest =>
    rw [startWait, hevents]
    by_cases hdue : s.FirstDue
    · simp only [if_pos hdue]
      trivial
    · simp only [if_neg hdue]
      refine (forall_head?_iff h).mp ?_
      rw [hevents]
      rintro _ ⟨⟩
      exact le_rfl

theorem deadlineInTime_checkEvents (h : InOrder s.events) {now : Milliseconds} :
    (s.checkEvents now).DeadlineInTime := by
  rw [checkEvents]
  split_ifs
  · exact deadlineInTime_startWait (h.filter _)
  · trivial

theorem deadlineInTime_readClock (hs : s.DeadlineInTime) : (s.step .readClock).DeadlineInTime := by
  rw [step]
  split
  · cases s.running <;> trivial
  · exact hs

/-- Only a look at the events can leave a wait with a deadline that is too late. -/
theorem deadlineInTime_step_iff (h : InOrder s.events) (hs : s.DeadlineInTime) :
    (s.step e).DeadlineInTime ↔ s.WakesInTime e := by
  cases e with
  | tick | subscribe => exact iff_of_true hs trivial
  | delayEvent callTs elGuid delay ev =>
    exact iff_of_true (deadlineInTime_notify rfl) trivial
  | stop => exact iff_of_true (deadlineInTime_notify rfl) trivial
  | readClock => exact iff_of_true (deadlineInTime_readClock hs) trivial
  | check =>
    refine iff_of_true ?_ trivial
    rw [step]
    split
    · exact deadlineInTime_checkEvents h
    · exact hs
  | wake =>
    rw [step, WakesInTime]
    cases hthread : s.thread with
    | waiting notified =>
      refine iff_of_true ?_ trivial
      by_cases hnone : s.running ∧ s.events = []
      · simp only [if_pos hnone]
        exact hnone.2
      · simp only [if_neg hnone]
        trivial
    | waitingUntil deadline notified =>
      by_cases hblocked : s.now < deadline ∧ ¬ s.FirstDue
      · simp only [forall_head?_iff h, hblocked.1, hblocked.2, forall_const, false_or]
        rfl
      · simp only [if_neg hblocked]
        refine iff_of_true trivial fun hbefore => .inl ?_
        exact not_not.mp fun hdue => hblocked ⟨hbefore, hdue⟩
    | looping | checking | finished | terminated => exact iff_of_true hs trivial

def DueFromDeadline (s : WaitSystem) : Prop :=
  ∀ deadline notified, s.thread = .waitingUntil deadline notified →
    ∀ e ∈ s.events, deadline ≤ e.futureTs

theorem DueFromDeadline.notify {s' : WaitSystem} (h : s.DueFromDeadline)
    (hthread : s'.thread = s.thread.notify)
    (hevents : ∀ deadline notified, s.thread = .waitingUntil deadline notified →
      ∀ e ∈ s'.events, e ∈ s.events ∨ deadline ≤ e.futureTs) : s'.DueFromDeadline := by
  intro deadline notified hthread'
  rw [hthread] at hthread'
  cases hwait : s.thread with
  | waitingUntil deadline' notified' =>
    rw [hwait] at hthread'
    obtain ⟨rfl, -⟩ := SchedulerThread.waitingUntil.inj hthread'
    intro e he
    exact (hevents _ _ hwait e he).elim (h _ _ hwait e) id
  | looping | checking | waiting | finished | terminated => rw [hwait] at hthread'; cases hthread'

theorem dueFromDeadline_checkEvents (horder : InOrder s.events) {now : Milliseconds} :
    (s.checkEvents now).DueFromDeadline := by
  intro deadline notified hthread
  have hnotified : notified = false := by
    rw [checkEvents] at hthread
    split_ifs at hthread
    rw [startWait] at hthread
    split at hthread
    · cases hrunning : s.running <;> simp [pushDue, hrunning] at hthread
    · simp only at hthread
      split_ifs at hthread
      exact (SchedulerThread.waitingUntil.inj hthread).2.symm
  have hinTime : (s.checkEvents now).DeadlineInTime := deadlineInTime_checkEvents horder
  subst hnotified
  rw [DeadlineInTime, hthread] at hinTime
  exact hinTime

theorem DueFromDeadline.step (h : s.DueFromDeadline) (horder : InOrder s.events)
    (hdelays : s.DelaysInOrder e) : (s.step e).DueFromDeadline ∧ s.WakesInTime e := by
  cases e with
  | tick | subscribe => exact ⟨h, trivial⟩
  | delayEvent callTs elGuid delay ev =>
    refine ⟨h.notify rfl fun deadline notified hthread e he => ?_, trivial⟩
    rw [DelaysInOrder, hthread] at hdelays
    rcases Scheduler.mem_insertDelayed.mp he with rfl | he
    · exact .inr hdelays
    · exact .inl he
  | stop => exact ⟨h.notify rfl fun _ _ _ e he => .inl he, trivial⟩
  | readClock =>
    refine ⟨?_, trivial⟩
    rw [WaitSystem.step]
    split
    · intro deadline notified hthread
      cases hrunning : s.running <;> simp [hrunning] at hthread
    · exact h
  | check =>
    refine ⟨?_, trivial⟩
    rw [WaitSystem.step]
    split
    · exact dueFromDeadline_checkEvents horder
    · exact h
  | wake =>
    rw [WaitSystem.step, WakesInTime]
    cases hthread : s.thread with
    | waitingUntil deadline notified =>
      have hdue := h deadline notified hthread
      refine ⟨?_, fun _ => .inr ((forall_head?_iff horder).mpr hdue)⟩
      intro deadline' notified' hthread'
      simp only at hthread'
      split_ifs at hthread'
      obtain ⟨rfl, -⟩ := SchedulerThread.waitingUntil.inj hthread'
      exact hdue
    | waiting notified =>
      refine ⟨fun deadline notified hthread' => ?_, trivial⟩
      simp only at hthread'
      split_ifs at hthread'
    | looping | checking | finished | terminated => exact ⟨h, trivial⟩

theorem wakesInTime_of_delaysInOrder {steps : List WaitStep}
    (h : Meets step DelaysInOrder init steps) : Meets step WakesInTime init steps := by
  refine h.of_invariant (I := fun s => InOrder s.events ∧ s.DueFromDeadline) ?_ ?_
  · rintro s e ⟨horder, hdue⟩ hdelays
    obtain ⟨hdue', hwakes⟩ := hdue.step horder hdelays
    exact ⟨⟨inOrder_step horder, hdue'⟩, hwakes⟩
  · exact ⟨List.Pairwise.nil, fun _ _ hthread => by cases hthread⟩

/--
In a run the thread is never blocked beyond the time of an event, if and only if whenever it
looks at the events before its deadline, the first one is due or not due before the deadline.
That is so when no event is delayed to a time before the deadline of the current wait.
-/
theorem deadline_inTime_iff (steps : List WaitStep) :
    ((∀ pre, pre <+: steps → (after step init pre).DeadlineInTime) ↔
        Meets step WakesInTime init steps) ∧
      (Meets step DelaysInOrder init steps →
        ∀ pre, pre <+: steps → (after step init pre).DeadlineInTime) := by
  have hiff : (∀ pre, pre <+: steps → (after step init pre).DeadlineInTime) ↔
      Meets step WakesInTime init steps := by
    refine forall_prefix_iff_meets trivial fun pre e _ hpre => ?_
    rw [after_concat]
    exact deadlineInTime_step_iff inOrder_after hpre
  exact ⟨hiff, fun hdelays => hiff.mpr (wakesInTime_of_delaysInOrder hdelays)⟩

/-- The second event is delayed by 10 seconds while the thread waits 2 seconds for the first one. -/
theorem deadline_inTime_of_longer :
    let loop : Guid := Guid.default
    let steps : List WaitStep := [.subscribe loop 0, .delayEvent 0 loop 2000 ⟨0, .normal, loop⟩,
      .readClock, .check, .delayEvent 0 loop 10000 ⟨1, .normal, loop⟩, .wake]
    (after step init steps).thread = .waitingUntil 2000 false ∧
      ∀ pre, pre <+: steps → (after step init pre).DeadlineInTime := by
  intro loop steps
  exact ⟨by decide +kernel, (deadline_inTime_iff steps).2 (by decide +kernel)⟩

/-- The second event is delayed by 2 seconds while the thread waits 10 seconds for the first one,
and is held back when it is due. -/
theorem not_deadlineInTime_of_shorter :
    let loop : Guid := Guid.default
    let steps : List WaitStep := [.subscribe loop 0, .delayEvent 0 loop 10000 ⟨0, .normal, loop⟩,
      .readClock, .check, .delayEvent 0 loop 2000 ⟨1, .normal, loop⟩, .wake]
    let s := after step init steps
    ¬ s.DeadlineInTime ∧ s.thread = .waitingUntil 10000 false ∧
      s.events.map DelayedEvent.futureTs = [2000, 10000] ∧
      let s := after step s [.tick 3000]
      s.thread = .waitingUntil 10000 false ∧
        s.events.map DelayedEvent.futureTs = [2000, 10000] := by
  decide +kernel

end WaitSystem

end CryptoTrading

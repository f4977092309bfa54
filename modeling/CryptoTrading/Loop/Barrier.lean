import CryptoTrading.Loop.Queue
import CryptoTrading.Lib.Runs
import Mathlib.Data.List.Range

/-! # Quiescence at a barrier

The queue of an event loop with the log of what was pushed to it. The next value is the
oldest one of the most urgent priority, and nothing is lost or served twice. So the event
of a barrier runs after all events pushed before it, and after those their handlers
pushed, unless a handler has pushed an event of the barrier's own priority.
-/

namespace CryptoTrading

open Runs

/-- A value with the number of its push and the number of the event that pushed it. -/
structure Pushed (α : Type*) where
  number : ℕ
  value : α
  cause : Option ℕ
  deriving DecidableEq

inductive QueueStep (α : Type*)
  | push (value : α)
  /-- A push by the handler of the event taken last. -/
  | handlerPush (value : α)
  /-- The handler of the event taken last has returned. -/
  | waitAndPop
  | discardEvents (pred : α → Bool)

/-- The queue before it is stopped. -/
structure LoopLog (α : Type*) where
  queue : ThreadSafePriorityQueue (Pushed α)
  /-- Oldest first. -/
  pushed : List (Pushed α)
  popped : List (Pushed α)
  /-- The removed values, with the predicate that removed them. -/
  discarded : List ((α → Bool) × Pushed α)
  running : Option ℕ

namespace LoopLog

variable {α : Type*}

def init : LoopLog α := ⟨.empty, [], [], [], none⟩

variable (priority : α → Priority) (s : LoopLog α)

def pushValue (value : α) (cause : Option ℕ) : LoopLog α :=
  let e : Pushed α := ⟨s.pushed.length, value, cause⟩
  { s with queue := s.queue.push (priority value) e, pushed := s.pushed ++ [e] }

/-- No handler pushes while none runs, and `wait_and_pop` waits while the queue is empty. -/
def step : QueueStep α → LoopLog α
  | .push value => s.pushValue priority value none
  | .handlerPush value =>
    match s.running with
    | none => s
    | some cause => s.pushValue priority value (some cause)
  | .waitAndPop =>
    match s.queue.waitAndPop with
    | none => s
    | some (e, queue) =>
      { s with queue := queue, popped := s.popped ++ [e], running := some e.number }
  | .discardEvents pred =>
    { s with
      queue := s.queue.discardEvents (pred ·.value)
      discarded := s.discarded ++ (s.queue.toList.filter (pred ·.value)).map (pred, ·) }

/-- Pushed before the event, or by the handler of an event that is due. -/
inductive Due (x : Pushed α) : Pushed α → Prop
  | before {y : Pushed α} (hy : y ∈ s.pushed) (h : y.number < x.number) : Due x y
  | caused {y z : Pushed α} (hz : Due x z) (hy : y ∈ s.pushed) (h : y.cause = some z.number) :
      Due x y

def Serves (x : Pushed α) : Prop := ∃ queue, s.queue.waitAndPop = some (x, queue)

def Settled (y : Pushed α) : Prop := y ∈ s.popped ∨ y ∈ s.discarded.map Prod.snd

instance [DecidableEq α] (y : Pushed α) : Decidable (s.Settled y) :=
  inferInstanceAs (Decidable (_ ∨ _))

/-- What the queue guarantees before it is stopped. -/
structure Orderly : Prop where
  distinct : (s.pushed.map Pushed.number).Nodup
  accounted : (s.popped ++ s.queue.toList ++ s.discarded.map Prod.snd).Perm s.pushed
  held : ∀ d ∈ s.discarded, d.1 d.2.value = true
  fifo : s.popped.Pairwise fun x y =>
    priority x.value = priority y.value → x.number < y.number
  oldest : ∀ x, s.Serves x → ∀ y ∈ s.queue.toList,
    (priority x.value).rank < (priority y.value).rank ∨
      priority x.value = priority y.value ∧ x.number ≤ y.number
  barrier : ∀ x, s.Serves x → priority x.value = .barrier → ∀ y, s.Due x y →
    y.number < x.number ∨ priority y.value ≠ .barrier → s.Settled y

structure Coherent : Prop where
  numbers : s.pushed.map Pushed.number = List.range s.pushed.length
  accounted : (s.popped ++ s.queue.toList ++ s.discarded.map Prod.snd).Perm s.pushed
  held : ∀ d ∈ s.discarded, d.1 d.2.value = true
  prio : ∀ p, ∀ x ∈ s.queue.ofPriority p, priority x.value = p
  queued : ∀ p, (s.queue.ofPriority p).Pairwise (·.number < ·.number)
  fifo : s.popped.Pairwise fun x y =>
    priority x.value = priority y.value → x.number < y.number
  older : ∀ x ∈ s.popped, ∀ y ∈ s.queue.ofPriority (priority x.value), x.number < y.number

variable {priority s} {x y : Pushed α}

theorem coherent_init : (init : LoopLog α).Coherent priority where
  numbers := rfl
  accounted := .refl _
  held := by simp [init]
  prio := by rintro (_ | _ | _ | _) x hx <;> cases hx
  queued := by rintro (_ | _ | _ | _) <;> exact .nil
  fifo := .nil
  older := by simp [init]

namespace Coherent

theorem number_lt (h : s.Coherent priority) (hx : x ∈ s.pushed) :
    x.number < s.pushed.length := by
  have hm := List.mem_map_of_mem (f := Pushed.number) hx
  rwa [h.numbers, List.mem_range] at hm

theorem mem_of_queued (h : s.Coherent priority) (hx : x ∈ s.queue.toList) : x ∈ s.pushed := by
  apply h.accounted.subset
  simp [hx]

theorem mem_of_popped (h : s.Coherent priority) (hx : x ∈ s.popped) : x ∈ s.pushed := by
  apply h.accounted.subset
  simp [hx]

theorem settled_or_queued (h : s.Coherent priority) (hx : x ∈ s.pushed) :
    s.Settled x ∨ x ∈ s.queue.toList := by
  have hm := h.accounted.symm.subset hx
  simp only [List.mem_append] at hm
  rcases hm with (hm | hm) | hm
  · exact .inl (.inl hm)
  · exact .inr hm
  · exact .inl (.inr hm)

theorem pushValue (h : s.Coherent priority) (value : α) (cause : Option ℕ) :
    (s.pushValue priority value cause).Coherent priority where
  numbers := by
    simp only [LoopLog.pushValue, List.map_append, h.numbers, List.map_singleton,
      List.length_append, List.length_singleton, List.range_succ]
  accounted := by
    simp only [LoopLog.pushValue]
    have hq : (s.queue.push (priority value) ⟨s.pushed.length, value, cause⟩).toList.Perm
        (⟨s.pushed.length, value, cause⟩ :: s.queue.toList) :=
      ThreadSafePriorityQueue.toList_push_perm
    apply ((hq.append_left s.popped).append_right _).trans
    apply (List.perm_middle.append_right _).trans
    exact (h.accounted.cons _).trans (List.perm_append_singleton _ _).symm
  held := h.held
  prio := by
    intro p x hx
    by_cases hp : p = priority value
    · subst hp
      simp only [LoopLog.pushValue, ThreadSafePriorityQueue.ofPriority_push_self,
        List.mem_append, List.mem_singleton] at hx
      rcases hx with hx | rfl
      · exact h.prio _ x hx
      · rfl
    · simp only [LoopLog.pushValue, ThreadSafePriorityQueue.ofPriority_push_of_ne hp] at hx
      exact h.prio p x hx
  queued := by
    intro p
    by_cases hp : p = priority value
    · subst hp
      simp only [LoopLog.pushValue, ThreadSafePriorityQueue.ofPriority_push_self,
        List.pairwise_append, List.pairwise_singleton, List.mem_singleton, true_and]
      refine ⟨h.queued _, ?_⟩
      rintro x hx y rfl
      exact h.number_lt (h.mem_of_queued (ThreadSafePriorityQueue.mem_toList.mpr ⟨_, hx⟩))
    · simpa only [LoopLog.pushValue, ThreadSafePriorityQueue.ofPriority_push_of_ne hp]
        using h.queued p
  fifo := h.fifo
  older := by
    intro x hx y hy
    by_cases hp : priority x.value = priority value
    · simp only [LoopLog.pushValue, hp, ThreadSafePriorityQueue.ofPriority_push_self,
        List.mem_append, List.mem_singleton] at hy
      rcases hy with hy | rfl
      · exact h.older x hx y (hp ▸ hy)
      · exact h.number_lt (h.mem_of_popped hx)
    · simp only [LoopLog.pushValue, ThreadSafePriorityQueue.ofPriority_push_of_ne hp] at hy
      exact h.older x hx y hy

theorem discardEvents (h : s.Coherent priority) (pred : α → Bool) :
    (s.step priority (.discardEvents pred)).Coherent priority where
  numbers := h.numbers
  accounted := by
    simp only [step, ThreadSafePriorityQueue.toList_discardEvents, List.map_append,
      List.map_map, Function.comp_def, List.map_id']
    have hf : (s.queue.toList.filter (! pred ·.value) ++
        s.queue.toList.filter (pred ·.value)).Perm s.queue.toList :=
      List.perm_append_comm.trans (List.filter_append_perm _ _)
    apply List.Perm.trans _ ((hf.append_left s.popped |>.append_right _).trans h.accounted)
    simp only [List.append_assoc]
    exact (List.perm_append_comm.append_left _).append_left _
  held := by
    intro d hd
    simp only [step, List.mem_append, List.mem_map, List.mem_filter] at hd
    rcases hd with hd | ⟨x, hx, rfl⟩
    · exact h.held d hd
    · exact hx.2
  prio := by
    intro p x hx
    simp only [step, ThreadSafePriorityQueue.ofPriority_discardEvents, List.mem_filter] at hx
    exact h.prio p x hx.1
  queued := by
    intro p
    simp only [step, ThreadSafePriorityQueue.ofPriority_discardEvents]
    exact (h.queued p).filter _
  fifo := h.fifo
  older := by
    intro x hx y hy
    simp only [step, ThreadSafePriorityQueue.ofPriority_discardEvents, List.mem_filter] at hy
    exact h.older x hx y hy.1

theorem waitAndPop (h : s.Coherent priority) : (s.step priority .waitAndPop).Coherent priority := by
  simp only [step]
  cases hpop : s.queue.waitAndPop with
  | none => exact h
  | some r =>
    obtain ⟨x, queue⟩ := r
    obtain ⟨p, hp, hrest, -⟩ := ThreadSafePriorityQueue.ofPriority_of_waitAndPop hpop
    have hx : priority x.value = p := h.prio p x (by simp [hp])
    have hsub : ∀ c, ∀ y ∈ queue.ofPriority c, y ∈ s.queue.ofPriority c := by
      intro c y hy
      by_cases hc : c = p
      · subst hc
        simp [hp, hy]
      · rwa [← hrest c hc]
    have hq := h.queued p
    rw [hp, List.pairwise_cons] at hq
    constructor
    · exact h.numbers
    · have hl := ThreadSafePriorityQueue.toList_of_waitAndPop hpop
      simpa only [hl, List.append_assoc, List.singleton_append] using h.accounted
    · exact h.held
    · intro c y hy
      exact h.prio c y (hsub c y hy)
    · intro c
      by_cases hc : c = p
      · subst hc
        exact hq.2
      · simpa only [hrest c hc] using h.queued c
    · simp only [List.pairwise_append, List.pairwise_singleton, List.mem_singleton, true_and]
      refine ⟨h.fifo, ?_⟩
      rintro z hz y rfl hzy
      exact h.older z hz y (by simp [hzy, hx, hp])
    · intro z hz y hy
      simp only [List.mem_append, List.mem_singleton] at hz
      rcases hz with hz | rfl
      · exact h.older z hz y (hsub _ y hy)
      · exact hq.1 y (by rwa [hx] at hy)

theorem step (h : s.Coherent priority) (e : QueueStep α) :
    (s.step priority e).Coherent priority := by
  cases e with
  | push value => exact h.pushValue value none
  | handlerPush value =>
    simp only [LoopLog.step]
    cases s.running with
    | none => exact h
    | some cause => exact h.pushValue value (some cause)
  | waitAndPop => exact h.waitAndPop
  | discardEvents pred => exact h.discardEvents pred

theorem serves (h : s.Coherent priority) (hx : s.Serves x) (hy : y ∈ s.queue.toList) :
    (priority x.value).rank < (priority y.value).rank ∨
      priority x.value = priority y.value ∧ x.number ≤ y.number := by
  obtain ⟨queue, hpop⟩ := hx
  obtain ⟨p, hp, -, hempty⟩ := ThreadSafePriorityQueue.ofPriority_of_waitAndPop hpop
  obtain ⟨c, hc⟩ := ThreadSafePriorityQueue.mem_toList.mp hy
  rw [h.prio p x (by simp [hp]), h.prio c y hc]
  by_cases hcp : c = p
  · subst hcp
    have hq := h.queued c
    rw [hp, List.pairwise_cons] at hq
    rw [hp, List.mem_cons] at hc
    rcases hc with rfl | hc
    · exact .inr ⟨rfl, le_rfl⟩
    · exact .inr ⟨rfl, (hq.1 y hc).le⟩
  · apply Or.inl
    have hnot : ¬ c.rank < p.rank := by
      intro hlt
      rw [hempty c hlt] at hc
      cases hc
    have hne : c.rank ≠ p.rank := fun e => hcp (Priority.rank_injective e)
    omega

/-- When a value of the last priority is next, only later values of that priority remain. -/
theorem settled_of_barrier (h : s.Coherent priority) (hx : s.Serves x)
    (hb : priority x.value = .barrier) (hy : y ∈ s.pushed)
    (hlate : y.number < x.number ∨ priority y.value ≠ .barrier) : s.Settled y := by
  rcases h.settled_or_queued hy with hs | hq
  · exact hs
  · exfalso
    rw [← hb] at hlate
    rcases h.serves hx hq with hlt | ⟨he, hle⟩
    · rw [hb] at hlt
      cases hp : priority y.value <;> simp [hp, Priority.rank] at hlt
    · rcases hlate with hlt | hne
      · omega
      · exact hne he.symm

end Coherent

theorem Due.mem (h : s.Due x y) : y ∈ s.pushed := by
  cases h with
  | before hy _ => exact hy
  | caused _ hy _ => exact hy

theorem Coherent.orderly (h : s.Coherent priority) : s.Orderly priority where
  distinct := h.numbers ▸ List.nodup_range
  accounted := h.accounted
  held := h.held
  fifo := h.fifo
  oldest := fun _ hx _ hy => h.serves hx hy
  barrier := fun _ hx hb _ hy hlate => h.settled_of_barrier hx hb hy.mem hlate

theorem run_coherent (steps : List (QueueStep α)) :
    (after (step priority) init steps).Coherent priority := by
  induction steps using List.reverseRecOn with
  | nil => exact coherent_init
  | append_singleton steps e ih =>
    rw [after_concat]
    exact ih.step e

/-- In every interleaving of its calls the queue is served in order, with nothing lost, and
a barrier's event runs last but for what handlers push at its own priority. -/
theorem run_orderly (priority : α → Priority) (steps : List (QueueStep α)) :
    (after (step priority) init steps).Orderly priority :=
  (run_coherent steps).orderly

/-- A handler's push at the priority of the barrier is served behind it. -/
theorem barrier_before_descendant :
    ∃ (steps : List (QueueStep Priority)) (x y : Pushed Priority),
      let s := after (step id) init steps
      s.Serves x ∧ x.value = .barrier ∧ s.Due x y ∧ ¬ s.Settled y := by
  refine ⟨[.push .normal, .push .barrier, .waitAndPop, .handlerPush .barrier],
    ⟨1, .barrier, none⟩, ⟨2, .barrier, some 0⟩, ⟨_, rfl⟩, rfl, ?_, by decide⟩
  apply Due.caused (z := ⟨0, .normal, none⟩) _ (by decide) rfl
  exact .before (by decide) (by decide)

end LoopLog

end CryptoTrading

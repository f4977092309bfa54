import CryptoTrading.Lib.Runs

/-! # The worker thread of a loop

The thread sets the flag when it starts, which undoes a stop from before. A worker whose function
always asks for more, like the one that sends pings, then never finishes.
-/

namespace CryptoTrading

open Runs

inductive WorkerPhase
  /-- Before it sets the flag. -/
  | starting
  /-- Before it looks at the flag. -/
  | looping
  /-- It has found the flag set and is about to call the function. -/
  | entering
  /-- In a call of the function. -/
  | calling
  /-- After the loop. -/
  | leaving
  | done
  deriving DecidableEq

inductive WorkerStep
  | start
  /-- The load of the flag in the condition of the loop. -/
  | test
  | call
  /-- A call returns whether it wants another one. -/
  | finishCall (more : Bool)
  | finish
  /-- `stop_async`, also that of the destructor. -/
  | stop
  deriving DecidableEq

structure WorkerThreadLoop where
  running : Bool := false
  finished : Bool := false
  phase : WorkerPhase := .starting
  calls : ℕ := 0
  finishes : ℕ := 0
  deriving DecidableEq

namespace WorkerThreadLoop

def init : WorkerThreadLoop := {}

variable (s : WorkerThreadLoop)

def step : WorkerStep → WorkerThreadLoop
  | .start => if s.phase = .starting then { s with running := true, phase := .looping } else s
  | .test =>
    if s.phase = .looping then
      if s.running then { s with phase := .entering } else { s with phase := .leaving }
    else s
  | .call =>
    if s.phase = .entering then { s with phase := .calling, calls := s.calls + 1 } else s
  | .finishCall more =>
    if s.phase = .calling then { s with phase := if more then .looping else .leaving } else s
  | .finish =>
    if s.phase = .leaving then
      { s with finished := true, finishes := s.finishes + 1, phase := .done }
    else s
  | .stop => { s with running := false }

/-- A stop after the start. -/
def Stopped (xs : List WorkerStep) : Prop :=
  ∃ pre post, xs = pre ++ .stop :: post ∧ (after step init pre).phase ≠ .starting

/-- The thread goes on by itself, and the function asks for more. -/
def Undisturbed (xs : List WorkerStep) : Prop := ∀ x ∈ xs, x ≠ .stop ∧ x ≠ .finishCall false

def Halted : Prop := s.phase ≠ .starting ∧ s.running = false

/-- The call for which the flag has been read already. -/
def owedCalls : ℕ := if s.phase = .entering then 1 else 0

def Going : Prop :=
  s.phase = .starting ∨
    s.running = true ∧ (s.phase = .looping ∨ s.phase = .entering ∨ s.phase = .calling)

/-- `m_on_finish` is called once, before those who wait for the thread go on. -/
def FinishesOnce : Prop :=
  (s.finished = true ↔ s.phase = .done) ∧ s.finishes = if s.phase = .done then 1 else 0

variable {s} {x : WorkerStep} {xs ys pre post : List WorkerStep}

theorem Halted.step (h : s.Halted) (x : WorkerStep) :
    (s.step x).Halted ∧ (s.step x).calls + (s.step x).owedCalls ≤ s.calls + s.owedCalls := by
  obtain ⟨hphase, hrunning⟩ := h
  cases x <;> simp only [WorkerThreadLoop.step]
  case start =>
    rw [if_neg hphase]
    exact ⟨⟨hphase, hrunning⟩, Nat.le_refl _⟩
  case test =>
    split_ifs with hlooping hrun
    · rw [hrunning] at hrun
      cases hrun
    · exact ⟨⟨by simp, hrunning⟩, by simp [owedCalls]⟩
    · exact ⟨⟨hphase, hrunning⟩, Nat.le_refl _⟩
  case call =>
    split_ifs with hentering
    · exact ⟨⟨by simp, hrunning⟩, by simp [owedCalls, hentering]⟩
    · exact ⟨⟨hphase, hrunning⟩, Nat.le_refl _⟩
  case finishCall more =>
    split_ifs
    · exact ⟨⟨by simp, hrunning⟩, by simp [owedCalls]⟩
    · exact ⟨⟨by simp, hrunning⟩, by simp [owedCalls]⟩
    · exact ⟨⟨hphase, hrunning⟩, Nat.le_refl _⟩
  case finish =>
    split_ifs
    · exact ⟨⟨by simp, hrunning⟩, by simp [owedCalls]⟩
    · exact ⟨⟨hphase, hrunning⟩, Nat.le_refl _⟩
  case stop => exact ⟨⟨hphase, rfl⟩, Nat.le_refl _⟩

theorem Halted.run (h : s.Halted) (xs : List WorkerStep) :
    (after WorkerThreadLoop.step s xs).Halted ∧
      (after WorkerThreadLoop.step s xs).calls ≤ s.calls + s.owedCalls := by
  induction xs generalizing s with
  | nil => exact ⟨h, Nat.le_add_right _ _⟩
  | cons x xs ih =>
    obtain ⟨hstep, hcalls⟩ := h.step x
    obtain ⟨hrun, hle⟩ := ih hstep
    exact ⟨hrun, Nat.le_trans hle hcalls⟩

theorem Halted.phase_done (h : s.Halted) :
    (after WorkerThreadLoop.step s [.call, .finishCall true, .test, .finish]).phase = .done := by
  obtain ⟨hphase, hrunning⟩ := h
  cases hp : s.phase with
  | starting => exact absurd hp hphase
  | looping => simp [WorkerThreadLoop.step, hp, hrunning]
  | entering => simp [WorkerThreadLoop.step, hp, hrunning]
  | calling => simp [WorkerThreadLoop.step, hp, hrunning]
  | leaving => simp [WorkerThreadLoop.step, hp]
  | done => simp [WorkerThreadLoop.step, hp]

theorem Going.step (h : s.Going) (hstop : x = .stop → s.phase = .starting)
    (hmore : x ≠ .finishCall false) : (s.step x).Going := by
  rcases h with hstarting | ⟨hrunning, hloop⟩
  · cases x <;> simp [WorkerThreadLoop.step, Going, hstarting]
  · have hphase : s.phase ≠ .starting := by rcases hloop with h | h | h <;> simp [h]
    cases x <;> simp only [WorkerThreadLoop.step]
    case start =>
      rw [if_neg hphase]
      exact .inr ⟨hrunning, hloop⟩
    case test =>
      rw [if_pos hrunning]
      split_ifs
      · exact .inr ⟨hrunning, .inr (.inl rfl)⟩
      · exact .inr ⟨hrunning, hloop⟩
    case call =>
      split_ifs
      · exact .inr ⟨hrunning, .inr (.inr rfl)⟩
      · exact .inr ⟨hrunning, hloop⟩
    case finishCall more =>
      cases more with
      | false => exact absurd rfl hmore
      | true =>
        by_cases hcalling : s.phase = .calling
        · rw [if_pos hcalling]
          exact .inr ⟨hrunning, .inl rfl⟩
        · rw [if_neg hcalling]
          exact .inr ⟨hrunning, hloop⟩
    case finish =>
      rw [if_neg (by rcases hloop with h | h | h <;> simp [h])]
      exact .inr ⟨hrunning, hloop⟩
    case stop => exact absurd (hstop rfl) hphase

theorem Going.ne_done (h : s.Going) : s.phase ≠ .done := by
  rcases h with h | ⟨-, h | h | h⟩ <;> simp [h]

theorem Going.run (h : s.Going) (hxs : Undisturbed xs) :
    (after WorkerThreadLoop.step s xs).Going := by
  induction xs generalizing s with
  | nil => exact h
  | cons x xs ih =>
    obtain ⟨⟨hstop, hmore⟩, hrest⟩ := List.forall_mem_cons.mp hxs
    exact ih (h.step (fun h => absurd h hstop) hmore) hrest

theorem going_after (hmore : ∀ x ∈ xs, x ≠ .finishCall false) (hstopped : ¬ Stopped xs) :
    (after step init xs).Going := by
  induction xs using List.reverseRecOn with
  | nil => exact .inl rfl
  | append_singleton xs x ih =>
    obtain ⟨hinit, hlast⟩ := List.forall_mem_append.mp hmore
    have hbefore : ¬ Stopped xs := by
      rintro ⟨pre, post, rfl, hphase⟩
      exact hstopped ⟨pre, post ++ [x], by simp, hphase⟩
    rw [after_concat]
    refine (ih hinit hbefore).step ?_ (hlast x List.mem_cons_self)
    rintro rfl
    by_contra hphase
    exact hstopped ⟨xs, [], rfl, hphase⟩

theorem halted_of_stopped (hpre : (after step init pre).phase ≠ .starting) :
    (after step init (pre ++ [.stop])).Halted := by
  rw [after_concat]
  exact ⟨hpre, rfl⟩

theorem FinishesOnce.of_ne_done {s' : WorkerThreadLoop} (h : s.FinishesOnce)
    (hs : s.phase ≠ .done) (hs' : s'.phase ≠ .done) (hfinished : s'.finished = s.finished)
    (hfinishes : s'.finishes = s.finishes) : s'.FinishesOnce := by
  rw [FinishesOnce, iff_false_right hs, if_neg hs] at h
  rw [FinishesOnce, iff_false_right hs', if_neg hs', hfinished, hfinishes]
  exact h

theorem FinishesOnce.step (h : s.FinishesOnce) (x : WorkerStep) : (s.step x).FinishesOnce := by
  cases x <;> simp only [WorkerThreadLoop.step]
  case start =>
    split_ifs with hphase
    · exact h.of_ne_done (by simp [hphase]) nofun rfl rfl
    · exact h
  case test =>
    split_ifs with hphase
    · exact h.of_ne_done (by simp [hphase]) nofun rfl rfl
    · exact h.of_ne_done (by simp [hphase]) nofun rfl rfl
    · exact h
  case call =>
    split_ifs with hphase
    · exact h.of_ne_done (by simp [hphase]) (by simp) rfl rfl
    · exact h
  case finishCall more =>
    split_ifs with hphase
    · exact h.of_ne_done (by simp [hphase]) nofun rfl rfl
    · exact h.of_ne_done (by simp [hphase]) nofun rfl rfl
    · exact h
  case finish =>
    split_ifs with hphase
    · have hzero : s.finishes = 0 := h.2.trans (if_neg (by simp [hphase]))
      exact ⟨iff_of_true rfl rfl, by simp [hzero]⟩
    · exact h
  case stop => exact h

theorem finishesOnce_after (xs : List WorkerStep) : (after step init xs).FinishesOnce := by
  induction xs using List.reverseRecOn with
  | nil => exact ⟨iff_of_false nofun nofun, rfl⟩
  | append_singleton xs x ih =>
    rw [after_concat]
    exact ih.step x

/--
A worker whose function always asks for more can finish, and with it the destructor that joins
its thread, just if a stop came after its start. After such a stop no call begins but the one for
which the flag had been read before, and `m_on_finish` is called once.
-/
theorem can_finish_iff_stopped (xs : List WorkerStep) (hmore : ∀ x ∈ xs, x ≠ .finishCall false) :
    ((∃ ys, Undisturbed ys ∧ (after step init (xs ++ ys)).phase = .done) ↔ Stopped xs) ∧
      (∀ pre post, xs = pre ++ .stop :: post → (after step init pre).phase ≠ .starting →
        (after step init xs).calls ≤ (after step init pre).calls +
          if (after step init pre).phase = .entering then 1 else 0) ∧
      (after step init xs).FinishesOnce := by
  have hsplit (pre post : List WorkerStep) : after step init (pre ++ .stop :: post) =
      after step (after step init (pre ++ [.stop])) post := by
    rw [← after_append, List.append_assoc, List.singleton_append]
  refine ⟨⟨?_, ?_⟩, ?_, finishesOnce_after xs⟩
  · rintro ⟨ys, hys, hdone⟩
    by_contra hstopped
    rw [after_append] at hdone
    exact ((going_after hmore hstopped).run hys).ne_done hdone
  · rintro ⟨pre, post, rfl, hpre⟩
    refine ⟨[.call, .finishCall true, .test, .finish], by simp [Undisturbed], ?_⟩
    rw [after_append, hsplit]
    exact ((halted_of_stopped hpre).run post).1.phase_done
  · rintro pre post rfl hpre
    have hcalls := ((halted_of_stopped hpre).run post).2
    rw [← hsplit, after_concat] at hcalls
    exact hcalls

/-- A stop before the start, and one between the look at the flag and the call, which begins. -/
theorem can_finish_iff_stopped_late :
    (¬ ∃ ys, Undisturbed ys ∧
      (after step init ([.stop, .start, .test] ++ ys)).phase = .done) ∧
    (∃ ys, Undisturbed ys ∧
      (after step init ([.start, .test, .stop, .call] ++ ys)).phase = .done) ∧
    (after step init [.start, .test, .stop, .call]).calls = 1 := by
  have hearly := (can_finish_iff_stopped [.stop, .start, .test] (by decide)).1
  have hlate := (can_finish_iff_stopped [.start, .test, .stop, .call] (by decide)).1
  refine ⟨hearly.not.mpr ?_, hlate.mpr ⟨[.start, .test], [.call], rfl, by decide⟩, by decide⟩
  rintro ⟨pre, post, heq, hpre⟩
  rcases pre with _ | ⟨x, _ | ⟨y, _ | ⟨z, pre⟩⟩⟩
  · exact hpre rfl
  all_goals simp at heq

end WorkerThreadLoop

end CryptoTrading

import CryptoTrading.Lib.Runs

/-! # The connection watcher

The event loop checks a flag that the websocket thread sets on every pong, sends the next
ping and clears the flag again. The two threads interleave between these steps.
-/

namespace CryptoTrading

open Runs

structure ConnectionWatcher where
  /-- A ping sender is set and still exists. -/
  pingSender : Bool := false
  pongReceived : Bool := false
  deriving DecidableEq

inductive SupervisorCall | onConnectionLost | onConnectionVerified
  deriving DecidableEq

namespace ConnectionWatcher

def setPingSender (w : ConnectionWatcher) : ConnectionWatcher := { w with pingSender := true }

def onPongReceived (w : ConnectionWatcher) : ConnectionWatcher := { w with pongReceived := true }

/-- One check without interruption, given whether `send_ping` succeeds. -/
def handleRequest (w : ConnectionWatcher) (sent : Bool) : ConnectionWatcher × SupervisorCall :=
  if ¬ w.pongReceived then (w, .onConnectionLost)
  else if ¬ w.pingSender ∨ ¬ sent then (w, .onConnectionLost)
  else ({ w with pongReceived := false }, .onConnectionVerified)

end ConnectionWatcher

/-- Where the event loop is in `handle_request`. -/
inductive CheckPhase
  | idle
  /-- Before the flag is read. -/
  | entered
  /-- Before `send_ping`. -/
  | sending
  /-- Before `on_connection_verified`. -/
  | pinged
  /-- Before the flag is cleared. -/
  | clearing
  deriving DecidableEq

inductive WatcherEvent
  | setPingSender
  /-- The loop takes a `PingCheckEvent`. -/
  | check
  /-- The next step of the handler; the result of `send_ping` matters where it is called. -/
  | proceed (sent : Bool)
  /-- The websocket thread handles the answer to a ping. -/
  | pong
  /-- It handles a ping of the server or a new connection. -/
  | message
  deriving DecidableEq

structure WatcherSystem where
  watcher : ConnectionWatcher := {}
  phase : CheckPhase := .idle
  calls : List SupervisorCall := []
  /-- A ping was sent and its answer not handled yet. -/
  unanswered : Bool := false
  /-- The answer to the last ping came before the flag was cleared, and nothing after. -/
  discarded : Bool := false
  deriving DecidableEq

namespace WatcherSystem

def init : WatcherSystem := {}

/-- The flag is set by the websocket thread. -/
def setFlag (s : WatcherSystem) : WatcherSystem :=
  { s with watcher := s.watcher.onPongReceived, discarded := false }

def giveUp (s : WatcherSystem) : WatcherSystem :=
  { s with phase := .idle, calls := s.calls ++ [.onConnectionLost] }

def proceed (s : WatcherSystem) (sent : Bool) : WatcherSystem :=
  match s.phase with
  | .idle => s
  | .entered => if s.watcher.pongReceived then { s with phase := .sending } else s.giveUp
  | .sending =>
    if s.watcher.pingSender ∧ sent then { s with phase := .pinged, unanswered := true }
    else s.giveUp
  | .pinged => { s with phase := .clearing, calls := s.calls ++ [.onConnectionVerified] }
  | .clearing =>
    { s with
      watcher := { s.watcher with pongReceived := false }
      phase := .idle
      discarded := !s.unanswered }

def step (s : WatcherSystem) : WatcherEvent → WatcherSystem
  -- called by the loop itself, or before its first check
  | .setPingSender =>
    if s.phase = .idle then { s with watcher := s.watcher.setPingSender, unanswered := true }
    else s
  | .check => if s.phase = .idle then { s with phase := .entered } else s
  | .proceed sent => s.proceed sent
  | .pong => { s.setFlag with unanswered := false }
  | .message => s.setFlag

def Lost (s : WatcherSystem) : Prop := .onConnectionLost ∈ s.calls

instance (s : WatcherSystem) : Decidable s.Lost := by
  unfold Lost
  infer_instance

/-- A check is handled once a ping sender is set and every ping was answered after it was sent,
and no ping fails. -/
def Answered (s : WatcherSystem) : WatcherEvent → Prop
  | .check => s.watcher.pingSender ∧ ¬ s.unanswered
  | .proceed sent => s.phase = .sending → sent
  | _ => True

instance (s : WatcherSystem) : (e : WatcherEvent) → Decidable (s.Answered e)
  | .check => inferInstanceAs (Decidable (_ ∧ _))
  | .proceed _ => inferInstanceAs (Decidable (_ → _))
  | .setPingSender => isTrue trivial
  | .pong => isTrue trivial
  | .message => isTrue trivial

/-- When the flag is read, the answer to the last ping was not discarded with it. -/
def KeepsAnswer (s : WatcherSystem) : WatcherEvent → Prop
  | .proceed _ => s.phase = .entered → ¬ s.discarded
  | _ => True

/-- No answer to a ping comes between `send_ping` and the clearing of the flag. -/
def NoPromptPong (s : WatcherSystem) : WatcherEvent → Prop
  | .pong => s.phase ≠ .pinged ∧ s.phase ≠ .clearing
  | _ => True

instance (s : WatcherSystem) : (e : WatcherEvent) → Decidable (s.NoPromptPong e)
  | .pong => inferInstanceAs (Decidable (_ ∧ _))
  | .check => isTrue trivial
  | .proceed _ => isTrue trivial
  | .setPingSender => isTrue trivial
  | .message => isTrue trivial

/-- The flag is set unless the last ping is unanswered or its answer was discarded. -/
structure Watched (s : WatcherSystem) : Prop where
  idle : s.phase = .idle → s.watcher.pongReceived = false →
    s.unanswered ∨ s.discarded ∨ ¬ s.watcher.pingSender
  entered : s.phase = .entered → s.watcher.pongReceived = false → s.discarded
  discarded : s.discarded → s.watcher.pongReceived = false
  verifying : s.phase ≠ .idle → s.phase ≠ .entered → s.watcher.pongReceived
  sender : s.phase ≠ .idle → s.watcher.pingSender

variable {s : WatcherSystem} {e : WatcherEvent} {es : List WatcherEvent}

theorem init_watched : init.Watched :=
  ⟨fun _ _ => .inr (.inr Bool.false_ne_true), by rintro ⟨⟩, by rintro ⟨⟩,
    fun hp => absurd rfl hp, fun hp => absurd rfl hp⟩

theorem Watched.setFlag (h : s.Watched) : s.setFlag.Watched :=
  ⟨by rintro _ ⟨⟩, by rintro _ ⟨⟩, by rintro ⟨⟩, fun _ _ => rfl, h.sender⟩

theorem Watched.giveUp (h : s.Watched)
    (hflag : s.watcher.pongReceived = false →
      s.unanswered ∨ s.discarded ∨ ¬ s.watcher.pingSender) : s.giveUp.Watched :=
  ⟨fun _ => hflag, by rintro ⟨⟩, h.discarded, fun hp => absurd rfl hp, fun hp => absurd rfl hp⟩

theorem Watched.proceed (h : s.Watched) (sent : Bool) : (s.proceed sent).Watched := by
  unfold WatcherSystem.proceed
  cases hp : s.phase with
  | idle => exact h
  | entered =>
    have hsender := h.sender (by rw [hp]; rintro ⟨⟩)
    simp only
    split
    case isTrue hflag =>
      exact ⟨by rintro ⟨⟩, by rintro ⟨⟩, h.discarded, fun _ _ => hflag, fun _ => hsender⟩
    case isFalse => exact h.giveUp fun hflag => .inr (.inl (h.entered hp hflag))
  | sending =>
    have hsender := h.sender (by rw [hp]; rintro ⟨⟩)
    have hflag := h.verifying (by rw [hp]; rintro ⟨⟩) (by rw [hp]; rintro ⟨⟩)
    simp only
    split
    case isTrue =>
      exact ⟨by rintro ⟨⟩, by rintro ⟨⟩, h.discarded, fun _ _ => hflag, fun _ => hsender⟩
    case isFalse => exact h.giveUp fun hno => absurd (hno.symm.trans hflag) Bool.false_ne_true
  | pinged =>
    have hsender := h.sender (by rw [hp]; rintro ⟨⟩)
    have hflag := h.verifying (by rw [hp]; rintro ⟨⟩) (by rw [hp]; rintro ⟨⟩)
    exact ⟨by rintro ⟨⟩, by rintro ⟨⟩, h.discarded, fun _ _ => hflag, fun _ => hsender⟩
  | clearing =>
    refine ⟨fun _ _ => ?_, by rintro ⟨⟩, fun _ => rfl, fun hp => absurd rfl hp,
      fun hp => absurd rfl hp⟩
    cases s.unanswered with
    | true => exact .inl rfl
    | false => exact .inr (.inl rfl)

theorem Watched.step (h : s.Watched) (ha : s.Answered e) : (s.step e).Watched := by
  cases e with
  | setPingSender =>
    simp only [WatcherSystem.step]
    split
    case isTrue hp =>
      refine ⟨fun _ _ => .inl rfl, ?_, h.discarded, h.verifying, fun _ => rfl⟩
      intro hentered
      cases hp.symm.trans hentered
    case isFalse => exact h
  | check =>
    obtain ⟨hset, hanswered⟩ := ha
    simp only [WatcherSystem.step]
    split
    case isTrue hp =>
      refine ⟨by rintro ⟨⟩, fun _ hflag => ?_, h.discarded, fun _ hp => absurd rfl hp,
        fun _ => hset⟩
      rcases h.idle hp hflag with hun | hdiscarded | hnot
      · exact absurd hun hanswered
      · exact hdiscarded
      · exact absurd hset hnot
    case isFalse => exact h
  | proceed sent => exact h.proceed sent
  | pong =>
    have hflag := h.setFlag
    exact ⟨by rintro _ ⟨⟩, hflag.entered, hflag.discarded, hflag.verifying, hflag.sender⟩
  | message => exact h.setFlag

/-- One step finds the connection lost just when it reads a flag whose answer was discarded. -/
theorem not_lost_step_iff (h : s.Watched) (ha : s.Answered e) (hl : ¬ s.Lost) :
    ¬ (s.step e).Lost ↔ s.KeepsAnswer e := by
  unfold Lost at hl ⊢
  cases e with
  | setPingSender =>
    simp only [step]
    split <;> exact iff_of_true hl trivial
  | check =>
    simp only [step]
    split <;> exact iff_of_true hl trivial
  | proceed sent =>
    cases hp : s.phase with simp only [step, proceed, KeepsAnswer, hp]
    | idle => simpa using hl
    | entered =>
      split
      case isTrue hflag =>
        have hd : ¬ s.discarded := fun hd => by simp [h.discarded hd] at hflag
        simpa [hd] using hl
      case isFalse hflag => simp [giveUp, h.entered hp (by simpa using hflag)]
    | sending =>
      have hsender := h.sender (by simp [hp])
      have hsent : sent := ha hp
      simpa [hsender, hsent] using hl
    | pinged => simpa using hl
    | clearing => simpa using hl
  | pong => exact iff_of_true hl trivial
  | message => exact iff_of_true hl trivial

/-- While the answer to the ping is out, clearing the flag discards nothing. -/
structure Unhurried (s : WatcherSystem) : Prop where
  kept : ¬ s.discarded
  waiting : s.phase = .pinged ∨ s.phase = .clearing → s.unanswered

theorem Unhurried.step (h : s.Unhurried) (hn : s.NoPromptPong e) : (s.step e).Unhurried := by
  cases e with
  | setPingSender =>
    simp only [WatcherSystem.step]
    split
    · exact ⟨h.kept, fun _ => rfl⟩
    · exact h
  | check =>
    simp only [WatcherSystem.step]
    split
    · exact ⟨h.kept, by rintro (⟨⟨⟩⟩ | ⟨⟨⟩⟩)⟩
    · exact h
  | proceed sent =>
    simp only [WatcherSystem.step, WatcherSystem.proceed]
    cases hp : s.phase with
    | idle => exact h
    | entered =>
      simp only
      split <;> exact ⟨h.kept, by rintro (⟨⟨⟩⟩ | ⟨⟨⟩⟩)⟩
    | sending =>
      simp only
      split
      · exact ⟨h.kept, fun _ => rfl⟩
      · exact ⟨h.kept, by rintro (⟨⟨⟩⟩ | ⟨⟨⟩⟩)⟩
    | pinged => exact ⟨h.kept, fun _ => h.waiting (.inl hp)⟩
    | clearing =>
      refine ⟨?_, by rintro (⟨⟨⟩⟩ | ⟨⟨⟩⟩)⟩
      simp [h.waiting (.inr hp)]
  | pong =>
    obtain ⟨hpinged, hclearing⟩ := hn
    exact ⟨Bool.false_ne_true, fun hp => (hp.elim hpinged hclearing).elim⟩
  | message => exact ⟨Bool.false_ne_true, h.waiting⟩

theorem Unhurried.keepsAnswer (h : s.Unhurried) (e : WatcherEvent) : s.KeepsAnswer e := by
  cases e with
  | proceed sent => exact fun _ => h.kept
  | _ => trivial

theorem keepsAnswer_of_noPromptPong (h : Meets step NoPromptPong init es) :
    Meets step KeepsAnswer init es := by
  refine meets_iff_split.mpr fun pre e post hes => ?_
  have hpre : Meets step NoPromptPong init pre := by
    rw [hes] at h
    exact (meets_append.mp h).1
  have hu : (after step init pre).Unhurried :=
    hpre.invariant (fun _ _ hu hn => hu.step hn) ⟨by simp [init], by simp [init]⟩
  exact hu.keepsAnswer e

theorem run_watched (h : Meets step Answered init es) : (after step init es).Watched :=
  h.invariant (fun _ _ hw ha => hw.step ha) init_watched

/--
If every ping is answered after it was sent and before the next check, and no ping fails, the
connection is never found to be lost just when no answer is discarded: none is handled before
the flag is cleared, unless another message follows before the flag is read again. That is
so when no answer comes between `send_ping` and the clearing of the flag.
-/
theorem not_lost_iff_keeps_answer (es : List WatcherEvent) (h : Meets step Answered init es) :
    ((∀ pre, pre <+: es → ¬ (after step init pre).Lost) ↔ Meets step KeepsAnswer init es) ∧
      (Meets step NoPromptPong init es → ∀ pre, pre <+: es → ¬ (after step init pre).Lost) := by
  have hiff : (∀ pre, pre <+: es → ¬ (after step init pre).Lost) ↔
      Meets step KeepsAnswer init es := by
    refine forall_prefix_iff_meets (by decide) fun pre e hp hl => ?_
    obtain ⟨hpre, ha⟩ := meets_concat.mp (h.of_prefix hp)
    rw [after_concat]
    exact not_lost_step_iff (run_watched hpre) ha hl
  exact ⟨hiff, fun hn => hiff.mpr (keepsAnswer_of_noPromptPong hn)⟩

/-- Two checks whose pings are answered while the loop is idle. -/
theorem not_lost_slow_answers :
    let handled : List WatcherEvent :=
      [.check, .proceed true, .proceed true, .proceed true, .proceed true]
    let es := [.setPingSender, .pong] ++ handled ++ [.pong] ++ handled
    Meets step Answered init es ∧ ∀ pre, pre <+: es → ¬ (after step init pre).Lost := by
  intro handled es
  have h : Meets step Answered init es := by decide
  have hn : Meets step NoPromptPong init es := by decide
  exact ⟨h, (not_lost_iff_keeps_answer es h).2 hn⟩

/-- The answer to the second ping is handled between `send_ping` and the clearing of the flag. -/
theorem lost_after_prompt_answer :
    let es : List WatcherEvent := [.setPingSender, .pong, .check, .proceed true, .proceed true,
      .pong, .proceed true, .proceed true, .check, .proceed true]
    Meets step Answered init es ∧ (after step init es).Lost := by
  decide

theorem step_proceed_of_idle (h : s.phase = .idle) (sent : Bool) :
    s.step (.proceed sent) = s := by simp only [step, proceed, h]

/-- A check that nothing interrupts is `handle_request`. -/
theorem uninterrupted_check (s : WatcherSystem) (sent : Bool) (h : s.phase = .idle) :
    let s' := after step s [.check, .proceed sent, .proceed sent, .proceed sent, .proceed sent]
    s'.phase = .idle ∧ s'.watcher = (s.watcher.handleRequest sent).1 ∧
      s'.calls = s.calls ++ [(s.watcher.handleRequest sent).2] := by
  have hcheck : s.step .check = { s with phase := .entered } := if_pos h
  simp only [after_cons, after_nil, hcheck, ConnectionWatcher.handleRequest]
  by_cases hflag : s.watcher.pongReceived
  · have hentered : step { s with phase := .entered } (.proceed sent) =
        { s with phase := .sending } := if_pos hflag
    rw [hentered, if_neg (not_not_intro hflag)]
    by_cases hsent : s.watcher.pingSender ∧ sent
    · have hsending : step { s with phase := .sending } (.proceed sent) =
          { s with phase := .pinged, unanswered := true } := if_pos hsent
      rw [hsending, if_neg (not_or.mpr ⟨not_not_intro hsent.1, not_not_intro hsent.2⟩)]
      exact ⟨rfl, rfl, rfl⟩
    · have hsending : step { s with phase := .sending } (.proceed sent) =
          giveUp { s with phase := .sending } := if_neg hsent
      rw [hsending, step_proceed_of_idle rfl, step_proceed_of_idle rfl,
        if_pos (not_and_or.mp hsent)]
      exact ⟨rfl, rfl, rfl⟩
  · have hentered : step { s with phase := .entered } (.proceed sent) =
        giveUp { s with phase := .entered } := if_neg hflag
    rw [hentered, step_proceed_of_idle rfl, step_proceed_of_idle rfl, step_proceed_of_idle rfl,
      if_pos hflag]
    exact ⟨rfl, rfl, rfl⟩

end WatcherSystem

end CryptoTrading

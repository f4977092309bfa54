import Mathlib.Data.List.Induction

/-! # Runs of a state machine

A machine changes its state at every event of a list and may emit outputs. An
invariant kept by each step that a guard allows holds in every state of a run
whose steps all meet the guard.
-/

namespace Runs

variable {σ ε ω : Type*}

/-- The state reached from `s` by handling the events in order. -/
def after (step : σ → ε → σ) (s : σ) (es : List ε) : σ := es.foldl step s

/-- Every event of the run is handled in a state that meets the guard. -/
def Meets (step : σ → ε → σ) (ok : σ → ε → Prop) : σ → List ε → Prop
  | _, [] => True
  | s, e :: es => ok s e ∧ Meets step ok (step s e) es

/-- The outputs of a run, oldest first. -/
def outputs (step : σ → ε → σ) (out : σ → ε → List ω) : σ → List ε → List ω
  | _, [] => []
  | s, e :: es => out s e ++ outputs step out (step s e) es

variable {step : σ → ε → σ} {ok ok' : σ → ε → Prop} {out : σ → ε → List ω}
  {s : σ} {e : ε} {es es' : List ε}

@[simp] theorem after_nil : after step s [] = s := rfl

@[simp] theorem after_cons : after step s (e :: es) = after step (step s e) es := rfl

@[simp] theorem after_append :
    after step s (es ++ es') = after step (after step s es) es' :=
  List.foldl_append ..

theorem after_concat : after step s (es ++ [e]) = step (after step s es) e := by simp

@[simp] theorem meets_nil : Meets step ok s [] := trivial

@[simp] theorem meets_cons :
    Meets step ok s (e :: es) ↔ ok s e ∧ Meets step ok (step s e) es := Iff.rfl

@[simp] theorem meets_append :
    Meets step ok s (es ++ es') ↔
      Meets step ok s es ∧ Meets step ok (after step s es) es' := by
  induction es generalizing s with
  | nil => simp
  | cons e es ih => simp [ih, and_assoc]

theorem meets_concat :
    Meets step ok s (es ++ [e]) ↔ Meets step ok s es ∧ ok (after step s es) e := by simp

instance decidableMeets (step : σ → ε → σ) (ok : σ → ε → Prop) [∀ s e, Decidable (ok s e)] :
    (s : σ) → (es : List ε) → Decidable (Meets step ok s es)
  | _, [] => isTrue trivial
  | s, e :: es =>
    have := decidableMeets step ok (step s e) es
    inferInstanceAs (Decidable (ok s e ∧ Meets step ok (step s e) es))

/-- A run meets a guard when each of its events does, in the state the events before it reach. -/
theorem meets_iff_split :
    Meets step ok s es ↔
      ∀ pre e post, es = pre ++ e :: post → ok (after step s pre) e := by
  constructor
  · rintro h pre e post rfl
    exact (meets_append.mp h).2.1
  · intro h
    induction es generalizing s with
    | nil => trivial
    | cons a es ih =>
      refine ⟨h [] a es rfl, ih fun pre e post he => ?_⟩
      exact h (a :: pre) e post (by rw [he, List.cons_append])

theorem meets_and :
    Meets step (fun s e => ok s e ∧ ok' s e) s es ↔ Meets step ok s es ∧ Meets step ok' s es := by
  induction es generalizing s with
  | nil => simp
  | cons e es ih =>
    simp only [meets_cons, ih]
    exact and_and_and_comm

theorem Meets.and (h : Meets step ok s es) (h' : Meets step ok' s es) :
    Meets step (fun s e => ok s e ∧ ok' s e) s es := meets_and.mpr ⟨h, h'⟩

/-- The invariant rule: what every allowed step keeps, every guarded run keeps. -/
theorem Meets.invariant {I : σ → Prop} (h : Meets step ok s es)
    (hstep : ∀ s e, I s → ok s e → I (step s e)) (h₀ : I s) : I (after step s es) := by
  induction es generalizing s with
  | nil => exact h₀
  | cons e es ih => exact ih h.2 (hstep _ _ h₀ h.1)

/-- What every allowed step does under the invariant, every step of a guarded run does. -/
theorem Meets.of_invariant {I : σ → Prop} (h : Meets step ok s es)
    (hstep : ∀ s e, I s → ok s e → I (step s e) ∧ ok' s e) (h₀ : I s) : Meets step ok' s es := by
  induction es generalizing s with
  | nil => trivial
  | cons e es ih =>
    obtain ⟨hI, hok⟩ := hstep s e h₀ h.1
    exact ⟨hok, ih h.2 hI⟩

/-- When each event of the run keeps `P` just if it meets the guard, `P` holds all along the
run just if all its events do. -/
theorem forall_prefix_iff_meets {P : List ε → Prop} (h₀ : P [])
    (hstep : ∀ pre e, pre ++ [e] <+: es → P pre →
      (P (pre ++ [e]) ↔ ok (after step s pre) e)) :
    (∀ pre, pre <+: es → P pre) ↔ Meets step ok s es := by
  induction es using List.reverseRecOn with
  | nil => simpa using h₀
  | append_singleton es e ih =>
    rw [meets_concat, ← ih fun pre e' he => hstep pre e' (he.trans (List.prefix_append ..))]
    constructor
    · intro h
      have hpre (pre : List ε) (hp : pre <+: es) : P pre := h pre (hp.trans (List.prefix_append ..))
      exact ⟨hpre, (hstep es e List.prefix_rfl (hpre es List.prefix_rfl)).mp (h _ List.prefix_rfl)⟩
    · rintro ⟨hpre, hok⟩ pre hp
      rcases List.prefix_concat_iff.mp hp with rfl | hp
      · exact (hstep es e List.prefix_rfl (hpre es List.prefix_rfl)).mpr hok
      · exact hpre pre hp

theorem Meets.of_prefix {pre : List ε} (h : Meets step ok s es) (hp : pre <+: es) :
    Meets step ok s pre := by
  obtain ⟨post, rfl⟩ := hp
  exact (meets_append.mp h).1

theorem after_concat_events (es es' : List ε) :
    after (fun pre e => pre ++ [e]) es es' = es ++ es' := by
  induction es' generalizing es with
  | nil => simp
  | cons e es' ih => rw [after_cons, ih, List.append_assoc, List.singleton_append]

theorem forall_prefix_concat_iff {P : List ε → ε → Prop} :
    (∀ pre e, pre ++ [e] <+: es → P pre e) ↔ Meets (fun pre e => pre ++ [e]) P [] es := by
  induction es using List.reverseRecOn with
  | nil => simp
  | append_singleton es e ih =>
    rw [meets_concat, ← ih, after_concat_events, List.nil_append]
    constructor
    · intro h
      exact ⟨fun pre e' he => h pre e' (he.trans (List.prefix_append ..)), h es e List.prefix_rfl⟩
    · rintro ⟨hpre, hlast⟩ pre e' hp
      rcases List.prefix_concat_iff.mp hp with heq | hp
      · obtain ⟨rfl, he⟩ := List.append_inj' heq rfl
        cases he
        exact hlast
      · exact hpre pre e' hp

@[simp] theorem outputs_nil : outputs step out s [] = [] := rfl

@[simp] theorem outputs_append :
    outputs step out s (es ++ es') =
      outputs step out s es ++ outputs step out (after step s es) es' := by
  induction es generalizing s with
  | nil => simp
  | cons e es ih => simp [outputs, ih]

theorem forall_outputs_iff {P : ω → Prop} :
    (∀ o ∈ outputs step out s es, P o) ↔ Meets step (fun s e => ∀ o ∈ out s e, P o) s es := by
  induction es generalizing s with
  | nil => simp
  | cons e es ih => simp [outputs, or_imp, forall_and, ih]

theorem meets_congr (h : ∀ s e, ok s e ↔ ok' s e) : Meets step ok s es ↔ Meets step ok' s es := by
  induction es generalizing s with
  | nil => rfl
  | cons e es ih => exact and_congr (h s e) ih

/-- Guards that agree under an invariant of all steps allow the same runs. -/
theorem meets_congr_invariant {I : σ → Prop} (hstep : ∀ s e, I s → I (step s e))
    (h : ∀ s e, I s → (ok s e ↔ ok' s e)) (h₀ : I s) :
    Meets step ok s es ↔ Meets step ok' s es := by
  induction es generalizing s with
  | nil => rfl
  | cons e es ih => exact and_congr (h s e h₀) (ih (hstep s e h₀))

theorem outputs_concat :
    outputs step out s (es ++ [e]) = outputs step out s es ++ out (after step s es) e := by
  simp [outputs]

end Runs

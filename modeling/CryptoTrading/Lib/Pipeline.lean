import CryptoTrading.Lib.Runs

/-! # Machines in line

A machine is fed with the events of another one, each with what is observed there when it comes.
-/

namespace Runs

variable {σ τ ρ ε β : Type*}

/-- The events, each with what is observed in the state that it comes in. -/
def observed (step : σ → ε → σ) (obs : σ → ε → β) : σ → List ε → List (ε × β)
  | _, [] => []
  | s, e :: es => (e, obs s e) :: observed step obs (step s e) es

variable {step : σ → ε → σ} {obs : σ → ε → β} {s : σ} {e : ε} {b : β} {es es' : List ε}
  {xs ys : List (ε × β)}

@[simp] theorem observed_nil : observed step obs s [] = [] := rfl

@[simp] theorem observed_cons :
    observed step obs s (e :: es) = (e, obs s e) :: observed step obs (step s e) es := rfl

@[simp] theorem observed_append :
    observed step obs s (es ++ es') =
      observed step obs s es ++ observed step obs (after step s es) es' := by
  induction es generalizing s with
  | nil => rfl
  | cons e es ih => rw [List.cons_append, observed, ih, observed, after_cons, List.cons_append]

theorem observed_eq_split_iff : observed step obs s es = xs ++ (e, b) :: ys ↔
    ∃ pre post, es = pre ++ e :: post ∧ observed step obs s pre = xs ∧
      obs (after step s pre) e = b ∧ observed step obs (after step s (pre ++ [e])) post = ys := by
  constructor
  · intro h
    induction xs generalizing s es with
    | nil =>
      cases es with
      | nil => cases h
      | cons e' es =>
        obtain ⟨he, hys⟩ := List.cons.inj h
        cases he
        exact ⟨[], es, rfl, rfl, rfl, hys⟩
    | cons x xs ih =>
      cases es with
      | nil => cases h
      | cons e' es =>
        obtain ⟨rfl, hrest⟩ := List.cons.inj h
        obtain ⟨pre, post, rfl, rfl, rfl, rfl⟩ := ih hrest
        exact ⟨e' :: pre, post, rfl, rfl, rfl, rfl⟩
  · rintro ⟨pre, post, rfl, rfl, rfl, rfl⟩
    simp

theorem mem_observed_iff : (e, b) ∈ observed step obs s es ↔
    ∃ pre post, es = pre ++ e :: post ∧ obs (after step s pre) e = b := by
  rw [List.mem_iff_append]
  simp only [observed_eq_split_iff]
  constructor
  · rintro ⟨xs, ys, pre, post, hes, -, hb, -⟩
    exact ⟨pre, post, hes, hb⟩
  · rintro ⟨pre, post, hes, hb⟩
    exact ⟨_, _, pre, post, hes, rfl, hb, rfl⟩

/-- A run of the two machines is a run of the first, and one of the second on what is observed. -/
theorem after_pipeline {next : ρ → ε → ρ} {feed : τ → ε × β → τ} {I : ρ → Prop}
    (first : ρ → σ) (second : ρ → τ) (hkeep : ∀ r e, I r → I (next r e))
    (hfirst : ∀ r e, I r → first (next r e) = step (first r) e)
    (hsecond : ∀ r e, I r → second (next r e) = feed (second r) (e, obs (first r) e))
    {r : ρ} (hr : I r) :
    first (after next r es) = after step (first r) es ∧
      second (after next r es) = after feed (second r) (observed step obs (first r) es) := by
  induction es generalizing r with
  | nil => exact ⟨rfl, rfl⟩
  | cons e es ih =>
    rw [after_cons, after_cons, observed_cons, after_cons, ← hfirst r e hr, ← hsecond r e hr]
    exact ih (hkeep r e hr)

section Outputs

variable {ε' ω ω' : Type*} {out : σ → ε → List ω} {step' : τ → ε' → τ} {out' : τ → ε' → List ω'}

theorem outputs_map (f : σ → τ) (g : ε → ε') (h : ω → ω')
    (hstep : ∀ s e, step' (f s) (g e) = f (step s e))
    (hout : ∀ s e, out' (f s) (g e) = (out s e).map h) (s : σ) (es : List ε) :
    outputs step' out' (f s) (es.map g) = (outputs step out s es).map h := by
  induction es generalizing s with
  | nil => rfl
  | cons e es ih => rw [List.map_cons, outputs, outputs, hstep, hout, ih, List.map_append]

theorem map_outputs (h : ω → ω') (s : σ) (es : List ε) :
    outputs step (fun s e => (out s e).map h) s es = (outputs step out s es).map h := by
  induction es generalizing s with
  | nil => rfl
  | cons e es ih => rw [outputs, outputs, ih, List.map_append]

end Outputs

theorem outputs_part {ω : Type*} {step' : τ → ε → τ} (out : τ → ε → List ω) (part : σ → τ)
    (hstep : ∀ s e, part (step s e) = step' (part s) e) (s : σ) (es : List ε) :
    outputs step (fun s e => out (part s) e) s es = outputs step' out (part s) es := by
  induction es generalizing s with
  | nil => rfl
  | cons e es ih => rw [outputs, outputs, ih, hstep]

section Held

variable {ω : Type*} {ok : σ → ε → Prop} {I : σ → Prop} {taken given : σ → ε → List ω}

/-- What a machine takes it gives on in the same order, but for what it still holds. -/
theorem Meets.outputs_append_held (held : σ → List ω) (h : Meets step ok s es)
    (hkeep : ∀ s e, I s → ok s e → I (step s e))
    (hstep : ∀ s e, I s → ok s e → given s e ++ held (step s e) = held s ++ taken s e)
    (hs : I s) :
    outputs step given s es ++ held (after step s es) = held s ++ outputs step taken s es := by
  induction es generalizing s with
  | nil => simp
  | cons e es ih =>
    rw [after_cons, outputs, outputs, List.append_assoc, ih h.2 (hkeep s e hs h.1),
      ← List.append_assoc, hstep s e hs h.1, List.append_assoc]

theorem eq_getLast_outputs (value : σ → ω) {out : σ → ε → List ω}
    (hstep : ∀ s e, value (step s e) = (out s e).getLast?.getD (value s)) (s : σ) (es : List ε) :
    value (after step s es) = (outputs step out s es).getLast?.getD (value s) := by
  induction es generalizing s with
  | nil => rfl
  | cons e es ih => rw [after_cons, ih, hstep, outputs, List.getLast?_append, Option.getD_or]

end Held

end Runs

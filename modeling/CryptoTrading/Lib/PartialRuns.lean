import CryptoTrading.Lib.Runs

/-! # Runs that may fail

A step without a result ends the run: there is no state after it any more.
-/

namespace Runs

variable {σ ε : Type*} {step : σ → ε → Option σ} {ok : σ → ε → Prop} {I : σ → Prop} {s : σ}
  {es : List ε}

/-- A step of a run in which none has failed yet. -/
def tryStep (step : σ → ε → Option σ) (s : Option σ) (e : ε) : Option σ := s.bind (step · e)

/-- The invariant rule for the allowed steps that have a result. -/
theorem Meets.invariant_tryStep
    (h : Meets (tryStep step) (fun state e => ∀ s ∈ state, ok s e) (some s) es)
    (hstep : ∀ s e s', I s → ok s e → step s e = some s' → I s') (h₀ : I s) :
    ∀ s' ∈ after (tryStep step) (some s) es, I s' := by
  refine h.invariant (I := fun state => ∀ s ∈ state, I s) ?_ ?_
  · intro state e hstate hok s' hs'
    obtain ⟨s, hs, hresult⟩ := Option.bind_eq_some_iff.mp hs'
    exact hstep s e s' (hstate s hs) (hok s hs) hresult
  · rintro s' ⟨⟩
    exact h₀

theorem after_tryStep_invariant (hstep : ∀ s e s', I s → step s e = some s' → I s') (h₀ : I s) :
    ∀ s' ∈ after (tryStep step) (some s) es, I s' := by
  have hall : Meets (tryStep step) (fun state _ => ∀ s ∈ state, True) (some s) es :=
    meets_iff_split.mpr fun _ _ _ _ _ _ => trivial
  exact hall.invariant_tryStep (fun s e s' hs _ => hstep s e s' hs) h₀

end Runs

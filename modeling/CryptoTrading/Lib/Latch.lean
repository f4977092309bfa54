import CryptoTrading.Lib.Pipeline

/-! # Latches

A machine that fires is latched with what it has fired, until an input clears it. It only works
on the inputs that come while it is not latched.
-/

open Runs

/-- The state while nothing is latched is `σ`. -/
structure Latch (σ α κ : Type*) where
  fire : σ → α → σ × Option κ
  clears : κ → α → Prop
  [decidableClears : ∀ k x, Decidable (clears k x)]

namespace Latch

variable {σ α κ : Type*} (l : Latch σ α κ)

instance (k : κ) (x : α) : Decidable (l.clears k x) := l.decidableClears k x

def step (s : Option κ × σ) (x : α) : Option κ × σ :=
  match s.1 with
  | some k => (if l.clears k x then none else some k, s.2)
  | none => ((l.fire s.2 x).2, (l.fire s.2 x).1)

def fired (s : Option κ × σ) (x : α) : Option κ :=
  match s.1 with
  | some _ => none
  | none => (l.fire s.2 x).2

variable {l} {s : Option κ × σ} {x y : α} {xs pre mid : List α} {k k' : κ} {t : σ}

theorem step_some (h : s.1 = some k) :
    l.step s x = (if l.clears k x then none else some k, s.2) := by simp only [step, h]

theorem step_none (h : s.1 = none) : l.step s x = ((l.fire s.2 x).2, (l.fire s.2 x).1) := by
  simp only [step, h]

theorem fired_eq_some_iff : l.fired s x = some k ↔ s.1 = none ∧ (l.fire s.2 x).2 = some k := by
  rw [fired]
  split
  case h_1 h => simp [h]
  case h_2 h => simp [h]

theorem step_fst_eq_some_iff :
    (l.step s x).1 = some k ↔ s.1 = some k ∧ ¬ l.clears k x ∨ l.fired s x = some k := by
  rw [fired_eq_some_iff]
  cases h : s.1 with
  | none => simp [step_none h]
  | some k' =>
    rw [step_some h, ite_eq_iff]
    constructor
    · rintro (⟨-, hnone⟩ | ⟨hclears, heq⟩)
      · cases hnone
      · cases heq
        exact .inl ⟨rfl, hclears⟩
    · rintro (⟨heq, hclears⟩ | ⟨hnone, -⟩)
      · cases heq
        exact .inr ⟨hclears, rfl⟩
      · cases hnone

theorem latched_iff :
    (after l.step (none, t) xs).1 = some k ↔
      ∃ pre x mid, xs = pre ++ x :: mid ∧ l.fired (after l.step (none, t) pre) x = some k ∧
        ∀ y ∈ mid, ¬ l.clears k y := by
  induction xs using List.reverseRecOn with
  | nil => simp
  | append_singleton xs y ih =>
    rw [after_concat, step_fst_eq_some_iff, ih]
    constructor
    · rintro (⟨⟨pre, x, mid, rfl, hfired, hmid⟩, hclears⟩ | hfired)
      · refine ⟨pre, x, mid ++ [y], by simp, hfired, ?_⟩
        simpa [or_imp, forall_and] using ⟨hmid, hclears⟩
      · exact ⟨xs, y, [], rfl, hfired, by simp⟩
    · rintro ⟨pre, x, mid, heq, hfired, hmid⟩
      cases mid using List.reverseRecOn with
      | nil =>
        obtain ⟨rfl, hy⟩ := List.append_inj' heq rfl
        cases hy
        exact .inr hfired
      | append_singleton mid z =>
        rw [← List.cons_append, ← List.append_assoc] at heq
        obtain ⟨rfl, hy⟩ := List.append_inj' heq rfl
        cases hy
        refine .inl ⟨⟨pre, x, mid, rfl, hfired, fun y' hy' => ?_⟩, ?_⟩
        · exact hmid y' (List.mem_append_left _ hy')
        · exact hmid y (List.mem_append_right _ List.mem_cons_self)

def Armed (l : Latch σ α κ) (t : σ) (xs : List α) : Prop :=
  ∀ pre x mid k, xs = pre ++ x :: mid → l.fired (after l.step (none, t) pre) x = some k →
    ∃ y ∈ mid, l.clears k y

theorem armed_iff : l.Armed t xs ↔ (after l.step (none, t) xs).1 = none := by
  rw [Option.eq_none_iff_forall_ne_some]
  constructor
  · intro h k hk
    obtain ⟨pre, x, mid, hxs, hfired, hmid⟩ := latched_iff.mp hk
    obtain ⟨y, hy, hclears⟩ := h pre x mid k hxs hfired
    exact hmid y hy hclears
  · intro h pre x mid k hxs hfired
    by_contra hmid
    push Not at hmid
    exact h k (latched_iff.mpr ⟨pre, x, mid, hxs, hfired, hmid⟩)

/-- A run fires where it would, had it not fired before, if all that it has fired is cleared. -/
theorem fired_after_iff :
    l.fired (after l.step (none, t) xs) x = some k ↔
      l.Armed t xs ∧ (l.fire (after l.step (none, t) xs).2 x).2 = some k := by
  rw [fired_eq_some_iff, armed_iff]

section Pipeline

variable {ρ ε β : Type*} {l : Latch σ (ε × β) κ} {next : ρ → ε → ρ} {obs : ρ → ε → β} {r : ρ}
  {e : ε} {es : List ε} {k : κ}

/-- What is fired at an event, where the latch is fed with what is observed of another machine. -/
def firedAt (l : Latch σ (ε × β) κ) (next : ρ → ε → ρ) (obs : ρ → ε → β) (t : σ) (r : ρ)
    (pre : List ε) (e : ε) : Option κ :=
  l.fired (after l.step (none, t) (observed next obs r pre)) (e, obs (after next r pre) e)

theorem armed_observed_iff : l.Armed t (observed next obs r es) ↔
    ∀ pre e mid k, es = pre ++ e :: mid → l.firedAt next obs t r pre e = some k →
      ∃ mid₁ e' mid₂, mid = mid₁ ++ e' :: mid₂ ∧
        l.clears k (e', obs (after next r (pre ++ e :: mid₁)) e') := by
  constructor
  · rintro h pre e mid k rfl hfired
    obtain ⟨⟨e', b⟩, hmem, hclears⟩ :=
      h _ _ _ k (observed_eq_split_iff.mpr ⟨pre, mid, rfl, rfl, rfl, rfl⟩) hfired
    obtain ⟨mid₁, mid₂, rfl, rfl⟩ := mem_observed_iff.mp hmem
    refine ⟨mid₁, e', mid₂, rfl, ?_⟩
    rwa [← after_append, List.append_assoc, List.singleton_append] at hclears
  · rintro h xs ⟨e, b⟩ ys k heq hfired
    obtain ⟨pre, mid, rfl, rfl, rfl, rfl⟩ := observed_eq_split_iff.mp heq
    obtain ⟨mid₁, e', mid₂, rfl, hclears⟩ := h pre e mid k rfl hfired
    refine ⟨_, mem_observed_iff.mpr ⟨mid₁, mid₂, rfl, rfl⟩, ?_⟩
    rwa [← after_append, List.append_assoc, List.singleton_append]

/-- An event fires just if it would on what is observed and the state while nothing is latched,
and what was fired before is cleared. -/
theorem firedAt_eq_some_iff : l.firedAt next obs t r es e = some k ↔
    (l.fire (after l.step (none, t) (observed next obs r es)).2
        (e, obs (after next r es) e)).2 = some k ∧
      ∀ pre e' mid k', es = pre ++ e' :: mid → l.firedAt next obs t r pre e' = some k' →
        ∃ mid₁ e'' mid₂, mid = mid₁ ++ e'' :: mid₂ ∧
          l.clears k' (e'', obs (after next r (pre ++ e' :: mid₁)) e'') := by
  rw [firedAt, fired_after_iff, armed_observed_iff, and_comm]

end Pipeline

end Latch

import CryptoTrading.Lib.Runs
import Mathlib.Data.List.Destutter

/-! # Changes of a key

A detector keeps the key of the last value and reports each value whose key differs from it. It
reports what is left of the values without repetitions, but for the first one.
-/

open Runs

namespace Changes

variable {α β : Type*} [DecidableEq β] {key : α → β} {x : α} {xs : List α} {last : Option β}

def Differ (key : α → β) (x y : α) : Prop := key x ≠ key y

instance : DecidableRel (Differ key) := fun x y => inferInstanceAs (Decidable (key x ≠ key y))

/-- The value is reported if there is a last key, and it is another one. -/
def report (key : α → β) (last : Option β) (x : α) : Option α :=
  last.bind fun k => if k = key x then none else some x

def reports (key : α → β) (last : Option β) (xs : List α) : List α :=
  outputs (fun _ x => some (key x)) (fun last x => (report key last x).toList) last xs

theorem reports_cons : reports key last (x :: xs) =
    (report key last x).toList ++ reports key (some (key x)) xs := rfl

theorem report_some {y : α} :
    report key (some (key x)) y = if Differ key x y then some y else none :=
  (ite_not ..).symm

theorem tail_destutter' (R : α → α → Prop) [DecidableRel R] (x : α) (xs : List α) :
    x :: (xs.destutter' R x).tail = xs.destutter' R x := by
  induction xs generalizing x with
  | nil => rfl
  | cons y ys ih =>
    by_cases h : R x y
    · rw [List.destutter'_cons_pos (h := h), List.tail_cons]
    · rw [List.destutter'_cons_neg (h := h), ih]

theorem reports_some (x : α) (xs : List α) : reports key (some (key x)) xs =
    (xs.destutter' (Differ key) x).tail := by
  induction xs generalizing x with
  | nil => rfl
  | cons y ys ih =>
    rw [reports_cons, report_some]
    split_ifs with h
    · rw [List.destutter'_cons_pos (h := h), ih, List.tail_cons, Option.toList_some,
        List.singleton_append, tail_destutter']
    · rw [List.destutter'_cons_neg (h := h), ← not_not.mp h, ih, Option.toList_none,
        List.nil_append]

theorem reports_none (xs : List α) :
    reports key none xs = (xs.destutter (Differ key)).tail := by
  cases xs with
  | nil => rfl
  | cons x xs =>
    rw [reports_cons, reports_some, List.destutter_cons']
    rfl

theorem isChain_reports_none (xs : List α) :
    (reports key none xs).IsChain (Differ key) := by
  rw [reports_none]
  exact (List.isChain_destutter _ xs).tail

section Machine

variable {σ ε : Type*} {step : σ → ε → σ} {obs : σ → ε → Option α}

/-- A machine that keeps the key of the last value it has observed reports its values so. -/
theorem outputs_eq_reports (key : α → β) (last : σ → Option β)
    (hlast : ∀ s e, last (step s e) = ((obs s e).map key).or (last s)) (s : σ) (es : List ε) :
    outputs step (fun s e => ((obs s e).bind (report key (last s))).toList) s es =
      reports key (last s) (outputs step (fun s e => (obs s e).toList) s es) := by
  induction es generalizing s with
  | nil => rfl
  | cons e es ih =>
    rw [outputs, outputs, ih, hlast]
    cases obs s e with
    | none => rfl
    | some x => rfl

end Machine

end Changes

import Mathlib.Algebra.Order.Group.Int
import Mathlib.Data.List.Induction
import Mathlib.Data.List.Pairwise

/-! # Epochs of a stream

A stream of timed elements is cut into epochs of a fixed length. An epoch starts at its first
element, and the first one at or past its end starts the next.
-/

/-- The epochs that have ended, oldest first, and the current one. -/
structure Epochs (α : Type*) where
  closed : List (List α)
  current : List α

namespace Epochs

variable {α : Type*}

def empty : Epochs α := ⟨[], []⟩

def elements (e : Epochs α) : List α := e.closed.flatten ++ e.current

variable (time : α → ℤ) (length : ℤ)

def Ends (e : Epochs α) (x : α) : Prop := ∃ first ∈ e.current.head?, time first + length ≤ time x

instance (e : Epochs α) (x : α) : Decidable (e.Ends time length x) :=
  inferInstanceAs (Decidable (∃ first ∈ e.current.head?, _))

def push (e : Epochs α) (x : α) : Epochs α :=
  if e.Ends time length x then ⟨e.closed ++ [e.current], [x]⟩ else ⟨e.closed, e.current ++ [x]⟩

def ofList (xs : List α) : Epochs α := xs.foldl (push time length) empty

/-- The elements of an epoch lie within its length from the first one on. -/
def InSpan (xs : List α) : Prop :=
  ∀ first ∈ xs.head?, ∀ x ∈ xs, time first ≤ time x ∧ time x < time first + length

structure Spans (e : Epochs α) : Prop where
  nonempty : ∀ ys ∈ e.closed, ys ≠ []
  closed : ∀ ys ∈ e.closed, InSpan time length ys
  current : InSpan time length e.current

variable {time length} {e : Epochs α} {x : α} {xs : List α}

theorem push_of_ends (h : e.Ends time length x) :
    e.push time length x = ⟨e.closed ++ [e.current], [x]⟩ := if_pos h

theorem push_of_not_ends (h : ¬ e.Ends time length x) :
    e.push time length x = ⟨e.closed, e.current ++ [x]⟩ := if_neg h

theorem ofList_concat (xs : List α) (x : α) :
    ofList time length (xs ++ [x]) = (ofList time length xs).push time length x := by
  simp [ofList]

theorem current_push_ne_nil : (e.push time length x).current ≠ [] := by
  unfold push
  split <;> simp

theorem elements_push : (e.push time length x).elements = e.elements ++ [x] := by
  unfold push
  split <;> simp [elements]

theorem elements_ofList (xs : List α) : (ofList time length xs).elements = xs := by
  induction xs using List.reverseRecOn with
  | nil => rfl
  | append_singleton xs x ih => rw [ofList_concat, elements_push, ih]

theorem mem_elements_of_current (h : x ∈ e.current) : x ∈ e.elements :=
  List.mem_append_right _ h

theorem closed_eq_nil (h : (ofList time length xs).current = []) :
    (ofList time length xs).closed = [] := by
  induction xs using List.reverseRecOn with
  | nil => rfl
  | append_singleton xs x _ =>
    rw [ofList_concat] at h
    exact absurd h current_push_ne_nil

theorem current_ne_nil_of_ends (h : e.Ends time length x) : e.current ≠ [] := by
  obtain ⟨first, hfirst, -⟩ := h
  exact List.ne_nil_of_mem (List.mem_of_mem_head? hfirst)

theorem inSpan_singleton (hlength : 0 < length) (x : α) : InSpan time length [x] := by
  rintro first ⟨⟩ y hy
  rw [List.mem_singleton.mp hy]
  omega

theorem InSpan.concat (hlength : 0 < length) (h : InSpan time length e.current)
    (hends : ¬ e.Ends time length x) (hx : ∀ y ∈ e.current, time y ≤ time x) :
    InSpan time length (e.current ++ [x]) := by
  intro first hfirst y hy
  cases hcurrent : e.current with
  | nil =>
    rw [hcurrent] at hfirst hy
    exact inSpan_singleton hlength x first hfirst y hy
  | cons first' rest =>
    have hhead : first' ∈ e.current.head? := by rw [hcurrent]; rfl
    rw [hcurrent] at hfirst
    cases hfirst
    rcases List.mem_append.mp hy with hy | hy
    · exact h _ hhead y hy
    · rw [List.mem_singleton.mp hy]
      refine ⟨hx _ (List.mem_of_mem_head? hhead), ?_⟩
      by_contra hlate
      exact hends ⟨_, hhead, not_lt.mp hlate⟩

theorem Spans.push (h : e.Spans time length) (hlength : 0 < length)
    (hx : ∀ y ∈ e.current, time y ≤ time x) : (e.push time length x).Spans time length := by
  by_cases hends : e.Ends time length x
  · rw [push_of_ends hends]
    constructor
    · intro ys hys
      rcases List.mem_append.mp hys with hys | hys
      · exact h.nonempty ys hys
      · rw [List.mem_singleton.mp hys]
        exact current_ne_nil_of_ends hends
    · intro ys hys
      rcases List.mem_append.mp hys with hys | hys
      · exact h.closed ys hys
      · rw [List.mem_singleton.mp hys]
        exact h.current
    · exact inSpan_singleton hlength x
  · rw [push_of_not_ends hends]
    exact ⟨h.nonempty, h.closed, h.current.concat hlength hends hx⟩

end Epochs

import Mathlib.Data.List.DropRight
import Mathlib.Data.List.Infix
import Mathlib.Data.List.Pairwise
import Mathlib.Order.Lattice

/-! # Windows of a stream

What is left of a stream in the order of time when the elements before a time are dropped from
its front, and the last elements of a stream up to a number.
-/

namespace Window

section Since

variable {α τ : Type*} [LinearOrder τ] {time : α → τ} {start start' : τ} {x : α} {xs : List α}

def since (time : α → τ) (start : τ) (xs : List α) : List α := xs.filter (start ≤ time ·)

theorem since_concat : since time start (xs ++ [x]) =
    since time start xs ++ if start ≤ time x then [x] else [] := by
  rw [since, List.filter_append, List.filter_cons, List.filter_nil]
  simp [since]

theorem since_since (h : start ≤ start') :
    since time start' (since time start xs) = since time start' xs := by
  rw [since, since, List.filter_filter]
  refine List.filter_congr fun x _ => ?_
  have himp : start' ≤ time x → start ≤ time x := h.trans
  simpa using himp

theorem since_eq_self (h : ∀ x ∈ xs, start ≤ time x) : since time start xs = xs :=
  List.filter_eq_self.mpr (by simpa using h)

theorem dropWhile_eq_since (h : xs.Pairwise (time · ≤ time ·)) :
    xs.dropWhile (time · < start) = since time start xs := by
  induction xs with
  | nil => rfl
  | cons x xs ih =>
    obtain ⟨hx, hxs⟩ := List.pairwise_cons.mp h
    by_cases hold : time x < start
    · rw [List.dropWhile_cons_of_pos (by simpa using hold), ih hxs, since, since,
        List.filter_cons_of_neg (by simpa using hold)]
    · rw [List.dropWhile_cons_of_neg (by simpa using hold), since_eq_self]
      rintro y (_ | ⟨_, hy⟩)
      · exact not_lt.mp hold
      · exact (not_lt.mp hold).trans (hx y hy)

end Since

section Last

variable {α β : Type*} {n : ℕ} {x : α} {xs pre : List α}

theorem length_rtake : (xs.rtake n).length = min n xs.length := by
  rw [List.rtake, List.length_drop]
  omega

theorem map_rtake (f : α → β) : (xs.rtake n).map f = (xs.map f).rtake n := by
  rw [List.rtake, List.rtake, List.map_drop, List.length_map]

theorem rtake_suffix : xs.rtake n <:+ xs := List.drop_suffix ..

theorem rtake_eq_self (h : xs.length ≤ n) : xs.rtake n = xs := by
  rw [List.rtake, Nat.sub_eq_zero_of_le h, List.drop_zero]

theorem rtake_append_of_length {ys : List α} (h : ys.length = n) : (xs ++ ys).rtake n = ys := by
  rw [List.rtake, List.length_append, h, Nat.add_sub_cancel, List.drop_left]

theorem rtake_rtake_concat : (xs.rtake n ++ [x]).rtake n = (xs ++ [x]).rtake n := by
  cases n with
  | zero => rw [List.rtake_zero, List.rtake_zero]
  | succ n =>
    rw [List.rtake_concat_succ, List.rtake_concat_succ]
    simp only [List.rtake_eq_reverse_take_reverse, List.reverse_reverse, List.take_take]
    rw [min_eq_left (Nat.le_succ n)]

theorem exists_concat_prefix (h : pre <+: xs.dropLast) (hne : xs ≠ []) :
    ∃ x, pre ++ [x] <+: xs := by
  obtain ⟨rest, hrest⟩ := h
  have hxs : xs = pre ++ (rest ++ [xs.getLast hne]) := by
    rw [← List.append_assoc, hrest, List.dropLast_append_getLast]
  cases rest with
  | nil => exact ⟨_, [], (List.append_nil _).trans hxs.symm⟩
  | cons y rest => exact ⟨y, _, (List.append_assoc ..).trans hxs.symm⟩

theorem prefix_dropLast (h : pre ++ [x] <+: xs) : pre <+: xs.dropLast := by
  obtain ⟨post, rfl⟩ := h
  rw [List.append_assoc, List.dropLast_append_of_ne_nil (by simp)]
  exact List.prefix_append ..

theorem forall_rtake_iff_infix {P : List α → Prop} (hn : 0 < n) :
    (∀ pre x, pre ++ [x] <+: xs → n ≤ (pre ++ [x]).length → P ((pre ++ [x]).rtake n)) ↔
      ∀ w, w <:+: xs → w.length = n → P w := by
  constructor
  · rintro h w ⟨pre, post, rfl⟩ rfl
    have hne : w ≠ [] := List.length_pos_iff.mp hn
    have hsplit : pre ++ w.dropLast ++ [w.getLast hne] = pre ++ w := by
      rw [List.append_assoc, List.dropLast_append_getLast]
    have hw := h (pre ++ w.dropLast) (w.getLast hne)
    rw [hsplit, rtake_append_of_length rfl] at hw
    exact hw (List.prefix_append ..) (by simp)
  · intro h pre x hinit hlong
    refine h _ (rtake_suffix.isInfix.trans hinit.isInfix) ?_
    rw [length_rtake, min_eq_left hlong]

end Last

end Window

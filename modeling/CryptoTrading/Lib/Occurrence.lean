import Mathlib.Data.List.Infix

/-! # The first occurrence of a pattern

What stands before the first occurrence of a pattern does not contain the pattern.
-/

namespace Occurrence

variable {α : Type*} {text pattern : List α} {pos i : ℕ}

theorem exists_of_infix_drop (h : pattern <:+: text.drop pos) (hpos : pos ≤ text.length) :
    ∃ j, pos ≤ j ∧ j ≤ text.length ∧ pattern <+: text.drop j := by
  obtain ⟨before, after, h⟩ := h
  refine ⟨pos + before.length, by omega, ?_, after, ?_⟩
  · have := congrArg List.length h
    simp only [List.length_append, List.length_drop] at this
    omega
  · rw [← List.drop_drop, ← h, List.append_assoc, List.drop_left]

variable [DecidableEq α]

/-- The first position from `pos` on at which the pattern begins. -/
def find (text pattern : List α) (pos : ℕ) : Option ℕ :=
  (List.range' pos (text.length + 1 - pos)).find? fun i => decide (pattern <+: text.drop i)

theorem find_eq_some_iff :
    find text pattern pos = some i ↔
      pattern <+: text.drop i ∧ (pos ≤ i ∧ i ≤ text.length) ∧
        ∀ j, pos ≤ j → j < i → ¬ pattern <+: text.drop j := by
  rw [find, List.find?_range'_eq_some, List.mem_range'_1]
  simp only [decide_eq_true_eq, Bool.not_eq_true', decide_eq_false_iff_not]
  refine and_congr_right fun _ => and_congr_left fun _ => ?_
  omega

theorem find_eq_none_iff :
    find text pattern pos = none ↔
      ∀ j, pos ≤ j → j ≤ text.length → ¬ pattern <+: text.drop j := by
  rw [find, List.find?_eq_none]
  simp only [List.mem_range'_1, decide_eq_true_eq]
  refine forall_congr' fun j => ?_
  rw [and_imp]
  refine forall_congr' fun hj => imp_congr_left ?_
  omega

theorem not_infix_of_find_eq_none (h : find text pattern pos = none) (hpos : pos ≤ text.length) :
    ¬ pattern <:+: text.drop pos := by
  intro hinfix
  obtain ⟨j, hj, hlength, hpattern⟩ := exists_of_infix_drop hinfix hpos
  exact find_eq_none_iff.mp h j hj hlength hpattern

theorem not_infix_of_find_eq_some (h : find text pattern pos = some i) (hne : pattern ≠ []) :
    ¬ pattern <:+: (text.drop pos).take (i - pos) := by
  obtain ⟨-, ⟨hpos, hlength⟩, hbefore⟩ := find_eq_some_iff.mp h
  rintro ⟨before, after, hcut⟩
  have hlt : 0 < pattern.length := List.length_pos_iff.mpr hne
  have hcut_length := congrArg List.length hcut
  simp only [List.length_append, List.length_take, List.length_drop] at hcut_length
  refine hbefore (pos + before.length) (by omega) (by omega) ?_
  have hdrop : text.drop pos =
      before ++ (pattern ++ (after ++ (text.drop pos).drop (i - pos))) := by
    rw [← List.append_assoc, ← List.append_assoc, hcut, List.take_append_drop]
  rw [← List.drop_drop, hdrop, List.drop_left]
  exact List.prefix_append _ _

theorem drop_of_find_eq_some (h : find text pattern pos = some i) :
    text.drop pos =
      (text.drop pos).take (i - pos) ++ (pattern ++ text.drop (i + pattern.length)) := by
  obtain ⟨⟨after, hafter⟩, ⟨hpos, hlength⟩, -⟩ := find_eq_some_iff.mp h
  have hdrop : pattern ++ text.drop (i + pattern.length) = (text.drop pos).drop (i - pos) := by
    rw [List.drop_drop, Nat.add_sub_cancel' hpos, ← hafter, ← List.drop_drop, ← hafter,
      List.drop_left]
  rw [hdrop, List.take_append_drop]

theorem length_of_find_eq_some (h : find text pattern pos = some i) :
    i + pattern.length ≤ text.length := by
  obtain ⟨hpattern, ⟨-, hlength⟩, -⟩ := find_eq_some_iff.mp h
  have := hpattern.length_le
  rw [List.length_drop] at this
  omega

end Occurrence

import Mathlib.Data.List.Chain

/-! # Erasing while iterating

The loop `for (it = begin; it != end; ++it) if (p(*it)) it = erase(it);` over a linked
list. The iterator that `erase` returns is incremented as well, so the element after
an erased one is not looked at. When the last element is erased, the end itself is
incremented: that is undefined, and in a circular list it goes on at the front.
-/

namespace EraseLoop

variable {α : Type*}

structure Result (α : Type*) where
  /-- In the order in which they were erased. -/
  erased : List α
  left : List α
  /-- Whether the end was incremented. -/
  pastEnd : Bool
  deriving DecidableEq

variable (p : α → Bool)

/-- The loop up to the first time it stands at or beyond the end. -/
def pass : List α → Result α
  | [] => ⟨[], [], false⟩
  | [x] => if p x then ⟨[x], [], true⟩ else ⟨[], [x], false⟩
  | x :: y :: ys =>
    if p x then
      let r := pass ys
      ⟨x :: r.erased, y :: r.left, r.pastEnd⟩
    else
      let r := pass (y :: ys)
      ⟨r.erased, x :: r.left, r.pastEnd⟩

def passes : ℕ → List α → Result α
  | 0, l => pass p l
  | n + 1, l =>
    let r := pass p l
    if r.pastEnd then
      let r' := passes n r.left
      ⟨r.erased ++ r'.erased, r'.left, true⟩
    else r

/-- The whole loop: every further pass finds a shorter list. -/
def loop (l : List α) : Result α := passes p l.length l

/-- Nothing to erase follows directly on something to erase. -/
def NoNeighbours (l : List α) : Prop := l.IsChain fun x y => ¬ (p x ∧ p y)

/-- No two neighbours are to be erased, and the last element is not. -/
def Spaced (l : List α) : Prop := NoNeighbours p l ∧ ∀ x ∈ l.getLast?, ¬ p x

instance (l : List α) : Decidable (NoNeighbours p l) :=
  inferInstanceAs (Decidable (l.IsChain _))

instance (l : List α) : Decidable (Spaced p l) := inferInstanceAs (Decidable (_ ∧ _))

variable {p} {l : List α} {x y : α} {n : ℕ}

theorem noNeighbours_cons₂ :
    NoNeighbours p (x :: y :: l) ↔ ¬ (p x ∧ p y) ∧ NoNeighbours p (y :: l) := by
  simp [NoNeighbours]

theorem NoNeighbours.tail (h : NoNeighbours p (x :: l)) : NoNeighbours p l := by
  cases l with
  | nil => exact .nil
  | cons y l => exact (noNeighbours_cons₂.mp h).2

theorem noNeighbours_cons_of_not (hx : ¬ p x) : NoNeighbours p (x :: l) ↔ NoNeighbours p l := by
  cases l with
  | nil => simp [NoNeighbours]
  | cons y l => simp [noNeighbours_cons₂, hx]

theorem noNeighbours_of_none (h : ∀ x ∈ l, ¬ p x) : NoNeighbours p l := by
  induction l with
  | nil => exact .nil
  | cons x l ih =>
    rw [noNeighbours_cons_of_not (h x (by simp))]
    exact ih fun y hy => h y (by simp [hy])

theorem pass_of_not (hx : ¬ p x) :
    pass p (x :: l) = ⟨(pass p l).erased, x :: (pass p l).left, (pass p l).pastEnd⟩ := by
  cases l with
  | nil => simp [pass, hx]
  | cons y l => rw [pass, if_neg hx]

theorem countP_pass (q : α → Bool) (l : List α) :
    (pass p l).erased.countP q + (pass p l).left.countP q = l.countP q := by
  induction l using pass.induct p with
  | case1 => rfl
  | case2 x hx => simp [pass, hx]
  | case3 x hx => simp [pass, hx]
  | case4 x y ys hx ih =>
    rw [pass, if_pos hx]
    simp only [List.countP_cons]
    omega
  | case5 x y ys hx ih =>
    rw [pass_of_not hx]
    simp only [List.countP_cons] at ih ⊢
    omega

theorem length_pass (h : (pass p l).pastEnd) : (pass p l).left.length < l.length := by
  induction l using pass.induct p with
  | case1 => simp [pass] at h
  | case2 x hx => simp [pass, hx]
  | case3 x hx => simp [pass, hx] at h
  | case4 x y ys hx ih =>
    rw [pass, if_pos hx] at h ⊢
    have := ih h
    simp only [List.length_cons]
    omega
  | case5 x y ys hx ih =>
    rw [pass_of_not hx] at h ⊢
    have := ih h
    simp only [List.length_cons] at this ⊢
    omega

theorem passes_eq (hn : l.length ≤ n) : passes p n l = loop p l := by
  unfold loop
  induction n using Nat.strong_induction_on generalizing l with
  | _ n ih =>
    cases n with
    | zero => rw [Nat.le_zero.mp hn]
    | succ n =>
      cases hl : l.length with
      | zero =>
        obtain rfl := List.length_eq_zero_iff.mp hl
        rfl
      | succ m =>
        rw [passes, passes]
        split
        case isFalse => rfl
        case isTrue h =>
          have hlt := length_pass h
          rw [ih n (by omega) (by omega)]
          rcases Nat.eq_or_lt_of_le hn with heq | hlt'
          · have : m = n := by omega
            rw [this, ih n (by omega) (by omega)]
          · rw [ih m (by omega) (by omega)]

/-- The loop stops: passing the end, it goes on with what is left. -/
theorem loop_eq (l : List α) :
    loop p l =
      if (pass p l).pastEnd then
        ⟨(pass p l).erased ++ (loop p (pass p l).left).erased, (loop p (pass p l).left).left, true⟩
      else pass p l := by
  cases hl : l.length with
  | zero =>
    obtain rfl := List.length_eq_zero_iff.mp hl
    rfl
  | succ n =>
    have hpasses : loop p l = passes p (n + 1) l := by rw [loop, hl]
    rw [hpasses, passes]
    split
    case isFalse => rfl
    case isTrue h =>
      have hlt := length_pass h
      rw [passes_eq (by omega)]

theorem loop_of_not_pastEnd (h : ¬ (pass p l).pastEnd) : loop p l = pass p l := by
  rw [loop_eq, if_neg h]

theorem loop_pastEnd : (loop p l).pastEnd = (pass p l).pastEnd := by
  rw [loop_eq]
  split
  case isTrue h => exact h.symm
  case isFalse => rfl

theorem countP_loop (q : α → Bool) (l : List α) :
    (loop p l).erased.countP q + (loop p l).left.countP q = l.countP q := by
  induction hn : l.length using Nat.strong_induction_on generalizing l with
  | _ n ih =>
    have hpass := countP_pass (p := p) q l
    rw [loop_eq]
    split
    case isFalse => exact hpass
    case isTrue h =>
      have hlt := length_pass h
      have := ih _ (hn ▸ hlt) _ rfl
      simp only [List.countP_append]
      omega

theorem loop_perm : ((loop p l).erased ++ (loop p l).left).Perm l := by
  classical
  rw [List.perm_iff_count]
  intro x
  rw [List.count_append]
  exact countP_loop (· == x) l

theorem of_mem_pass_erased (h : x ∈ (pass p l).erased) : p x := by
  induction l using pass.induct p with
  | case1 => cases h
  | case2 y hy => simp_all [pass]
  | case3 y hy => simp [pass, hy] at h
  | case4 y z ys hy ih =>
    rw [pass, if_pos hy] at h
    rcases List.mem_cons.mp h with rfl | h
    · exact hy
    · exact ih h
  | case5 y z ys hy ih =>
    rw [pass_of_not hy] at h
    exact ih h

theorem of_mem_loop_erased (h : x ∈ (loop p l).erased) : p x := by
  induction hn : l.length using Nat.strong_induction_on generalizing l with
  | _ n ih =>
    rw [loop_eq] at h
    split at h
    case isFalse => exact of_mem_pass_erased h
    case isTrue hpast =>
      rcases List.mem_append.mp h with h | h
      · exact of_mem_pass_erased h
      · exact ih _ (hn ▸ length_pass hpast) h rfl

theorem mem_loop_iff : x ∈ (loop p l).erased ∨ x ∈ (loop p l).left ↔ x ∈ l := by
  classical
  have hmem : ∀ m : List α, x ∈ m ↔ 0 < m.countP (· = x) := by
    intro m
    simp [List.countP_pos_iff]
  have hcount := countP_loop (p := p) (· = x) l
  rw [hmem, hmem, hmem]
  omega

theorem pass_of_noNeighbours (h : NoNeighbours p l) :
    (pass p l).erased = l.filter p ∧ (pass p l).left = l.filter (! p ·) := by
  induction l using pass.induct p with
  | case1 => exact ⟨rfl, rfl⟩
  | case2 x hx => simp [pass, hx]
  | case3 x hx => simp [pass, hx]
  | case4 x y ys hx ih =>
    have hy : ¬ p y := fun hy => (noNeighbours_cons₂.mp h).1 ⟨hx, hy⟩
    obtain ⟨he, hl⟩ := ih h.tail.tail
    rw [pass, if_pos hx]
    simp [hx, hy, he, hl]
  | case5 x y ys hx ih =>
    obtain ⟨he, hl⟩ := ih h.tail
    rw [pass_of_not hx]
    simp [hx, he, hl]

theorem loop_of_noNeighbours (h : NoNeighbours p l) :
    (loop p l).erased = l.filter p ∧ (loop p l).left = l.filter (! p ·) := by
  obtain ⟨he, hl⟩ := pass_of_noNeighbours h
  have hleft : ∀ x ∈ l.filter (! p ·), ¬ p x := by simp
  obtain ⟨he', hl'⟩ := pass_of_noNeighbours (noNeighbours_of_none hleft)
  have hdone : loop p (pass p l).left = pass p (pass p l).left := by
    refine loop_of_not_pastEnd fun hpast => ?_
    have hlt := length_pass hpast
    rw [hl, hl', List.filter_filter] at hlt
    simp at hlt
  rw [loop_eq]
  split
  case isFalse => exact ⟨he, hl⟩
  case isTrue =>
    rw [hdone, hl, he, he', hl']
    simp [List.filter_filter]

/-- A pass stays inside the list and leaves just what it should, exactly on spaced lists. -/
theorem pass_exact_iff :
    (¬ (pass p l).pastEnd ∧ (pass p l).left = l.filter (! p ·)) ↔ Spaced p l := by
  induction l using pass.induct p with
  | case1 => simp [pass, Spaced, NoNeighbours]
  | case2 x hx => simp [pass, Spaced, hx]
  | case3 x hx => simp [pass, Spaced, NoNeighbours, hx]
  | case4 x y ys hx ih =>
    rw [pass, if_pos hx]
    by_cases hy : p y
    · refine iff_of_false ?_ fun h => (noNeighbours_cons₂.mp h.1).1 ⟨hx, hy⟩
      rintro ⟨_, hleft⟩
      have hmem : y ∈ (x :: y :: ys).filter (! p ·) := hleft ▸ List.mem_cons_self
      simp [hy] at hmem
    · have hspaced : Spaced p (x :: y :: ys) ↔ Spaced p ys := by
        unfold Spaced
        rw [noNeighbours_cons₂, noNeighbours_cons_of_not hy]
        cases ys <;> simp [hy]
      rw [hspaced, ← ih]
      simp [hx, hy]
  | case5 x y ys hx ih =>
    rw [pass_of_not hx]
    unfold Spaced at ih ⊢
    rw [noNeighbours_cons_of_not hx, List.getLast?_cons_cons, ← ih]
    simp [hx]

theorem loop_exact_iff :
    (¬ (loop p l).pastEnd ∧ (loop p l).left = l.filter (! p ·)) ↔ Spaced p l := by
  rw [← pass_exact_iff, loop_pastEnd]
  refine and_congr_right fun h => ?_
  rw [loop_of_not_pastEnd h]

end EraseLoop

import Mathlib.Data.Int.Range
import Mathlib.Data.List.Basic

/-! # Buckets of a stream

The elements of a list by an integer key. When the keys do not decrease, a new last
element belongs to the last bucket or opens a later one.
-/

namespace Buckets

variable {α : Type*} (key : α → ℤ)

def bucket (xs : List α) (k : ℤ) : List α := xs.filter (key · = k)

def before (xs : List α) (k : ℤ) : List α := xs.filter (key · < k)

variable {key} {xs : List α} {x : α} {k a b c : ℤ}

theorem bucket_concat_self : bucket key (xs ++ [x]) (key x) = bucket key xs (key x) ++ [x] := by
  simp [bucket]

theorem bucket_concat_of_ne (h : key x ≠ k) : bucket key (xs ++ [x]) k = bucket key xs k := by
  simp [bucket, h]

theorem before_concat_of_le (h : k ≤ key x) : before key (xs ++ [x]) k = before key xs k := by
  simp [before, h]

theorem bucket_eq_nil (h : ∀ y ∈ xs, key y < k) : bucket key xs k = [] := by
  simp only [bucket, List.filter_eq_nil_iff, decide_eq_true_eq]
  intro y hy
  exact (h y hy).ne

theorem before_eq_self (h : ∀ y ∈ xs, key y < k) : before key xs k = xs := by
  simpa [before, List.filter_eq_self] using h

theorem filter_eq_filter_iff {p q : α → Prop} [DecidablePred p] [DecidablePred q] :
    xs.filter (p ·) = xs.filter (q ·) ↔ ∀ x ∈ xs, p x ↔ q x := by
  constructor
  · intro h x hx
    have hmem : x ∈ xs.filter (p ·) ↔ x ∈ xs.filter (q ·) := by rw [h]
    simpa [hx] using hmem
  · intro h
    refine List.filter_congr fun x hx => ?_
    simp [h x hx]

theorem filter_append_bucket (h : xs.Pairwise (key · ≤ key ·)) (hab : a ≤ b) :
    xs.filter (fun x => a ≤ key x ∧ key x < b) ++ bucket key xs b =
      xs.filter fun x => a ≤ key x ∧ key x < b + 1 := by
  simp only [Int.lt_add_one_iff]
  induction xs with
  | nil => rfl
  | cons x xs ih =>
    obtain ⟨hx, hxs⟩ := List.pairwise_cons.mp h
    have ih := ih hxs
    rcases lt_trichotomy (key x) b with hlt | heq | hgt
    · by_cases ha : a ≤ key x <;> simpa [bucket, hlt, hlt.ne, hlt.le, ha] using ih
    · -- the first element of the bucket: no smaller key follows
      have hnone : (x :: xs).filter (fun x => a ≤ key x ∧ key x < b) = [] := by
        simp only [List.filter_eq_nil_iff, decide_eq_true_eq]
        rintro y (_ | ⟨_, hy⟩)
        · omega
        · have := hx y hy
          omega
      have hrest : xs.filter (fun x => a ≤ key x ∧ key x < b) = [] :=
        (List.filter_cons_of_neg (by simp [heq])).symm.trans hnone
      rw [hrest, List.nil_append] at ih
      rw [hnone, List.nil_append]
      simpa [bucket, heq, hab] using ih
    · simpa [bucket, hgt.not_gt, hgt.ne', hgt.not_ge] using ih

/-- The buckets of a range of keys, one after the other, are the elements with these keys. -/
theorem flatMap_bucket (h : xs.Pairwise (key · ≤ key ·)) (n : ℕ) :
    (List.range n).flatMap (fun i : ℕ => bucket key xs (a + i)) =
      xs.filter fun x => a ≤ key x ∧ key x < a + n := by
  induction n with
  | zero =>
    symm
    simp only [List.range_zero, List.flatMap_nil, List.filter_eq_nil_iff, decide_eq_true_eq]
    omega
  | succ n ih =>
    rw [List.range_succ, List.flatMap_append, ih, List.flatMap_singleton,
      filter_append_bucket h (by omega)]
    push_cast
    rw [add_assoc]

theorem mem_bucket : x ∈ bucket key xs k ↔ x ∈ xs ∧ key x = k := by simp [bucket]

theorem range_eq_nil (h : b ≤ a) : Int.range a b = [] := by
  simp [Int.range, Int.toNat_eq_zero.mpr (Int.sub_nonpos_of_le h)]

theorem range_eq_cons (h : a < b) : Int.range a b = a :: Int.range (a + 1) b := by
  have hn : (b - a).toNat = (b - (a + 1)).toNat + 1 := by omega
  rw [Int.range, hn, List.range_succ_eq_map, List.map_cons, List.map_map, Int.range]
  congr 1
  · simp
  · apply List.map_congr_left
    intro r _
    simp only [Function.comp_apply, Nat.succ_eq_add_one]
    omega

theorem range_append (hab : a ≤ b) (hbc : b ≤ c) :
    Int.range a c = Int.range a b ++ Int.range b c := by
  have hn : (c - a).toNat = (b - a).toNat + (c - b).toNat := by omega
  simp only [Int.range]
  rw [hn, List.range_add, List.map_append, List.map_map]
  congr 1
  apply List.map_congr_left
  intro r _
  simp only [Function.comp_apply]
  omega

theorem map_add_range : (Int.range a b).map (c + ·) = Int.range (c + a) (c + b) := by
  simp only [Int.range, List.map_map, add_sub_add_left_eq_sub]
  apply List.map_congr_left
  intro r _
  exact (add_assoc c a r).symm

end Buckets

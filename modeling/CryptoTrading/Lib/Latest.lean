import Mathlib.Algebra.BigOperators.Group.Finset.Basic
import Mathlib.Data.Finset.Dedup
import Mathlib.Tactic.Abel

/-! # The latest entry of each key

A log holds entries that each replace the earlier ones of the same key. The total of
the log counts every key once, with the value of its latest entry.
-/

namespace Latest

open Finset

variable {α κ M : Type*} [DecidableEq κ] (key : α → κ) (val : α → M) {xs : List α} {x : α} {k : κ}

def latest (xs : List α) (k : κ) : Option α := (xs.filter (key · = k)).getLast?

/-- The value of the latest entry of the key, zero if there is none. -/
def value [Zero M] (xs : List α) (k : κ) : M := ((latest key xs k).map val).getD 0

/-- The sum over all keys of the log, each counted once. -/
def total [AddCommMonoid M] (xs : List α) : M := ∑ k ∈ (xs.map key).toFinset, value key val xs k

theorem latest_concat :
    latest key (xs ++ [x]) k = if key x = k then some x else latest key xs k := by
  unfold latest
  rw [List.filter_append]
  split
  case isTrue h => simp [h]
  case isFalse h => simp [h]

theorem latest_eq_none (h : k ∉ xs.map key) : latest key xs k = none := by
  unfold latest
  rw [List.getLast?_eq_none_iff, List.filter_eq_nil_iff]
  intro x hx hk
  exact h (List.mem_map.mpr ⟨x, hx, by simpa using hk⟩)

theorem value_eq_zero [Zero M] (h : k ∉ xs.map key) : value key val xs k = 0 := by
  rw [value, latest_eq_none key h, Option.map_none, Option.getD_none]

theorem value_concat_self [Zero M] : value key val (xs ++ [x]) (key x) = val x := by
  rw [value, latest_concat, if_pos rfl, Option.map_some, Option.getD_some]

theorem value_concat_of_ne [Zero M] (h : key x ≠ k) :
    value key val (xs ++ [x]) k = value key val xs k := by
  rw [value, latest_concat, if_neg h, value]

@[simp] theorem total_nil [AddCommMonoid M] : total key val [] = 0 := by simp [total]

theorem total_concat [AddCommGroup M] :
    total key val (xs ++ [x]) = total key val xs - value key val xs (key x) + val x := by
  have hother : ∀ k ∈ (xs.map key).toFinset.erase (key x),
      value key val (xs ++ [x]) k = value key val xs k := by
    intro k hk
    exact value_concat_of_ne key val (ne_of_mem_erase hk).symm
  have hset : ((xs ++ [x]).map key).toFinset = insert (key x) (xs.map key).toFinset := by
    ext k
    simp
  have hnew : total key val (xs ++ [x]) =
      val x + ∑ k ∈ (xs.map key).toFinset.erase (key x), value key val xs k := by
    rw [total, hset, ← add_sum_erase _ _ (mem_insert_self _ _), erase_insert_eq_erase,
      value_concat_self, sum_congr rfl hother]
  have hold : total key val xs =
      value key val xs (key x) +
        ∑ k ∈ (xs.map key).toFinset.erase (key x), value key val xs k := by
    by_cases hx : key x ∈ (xs.map key).toFinset
    · exact (add_sum_erase _ _ hx).symm
    · rw [value_eq_zero key val fun h => hx (List.mem_toFinset.mpr h), zero_add,
        erase_eq_of_notMem hx, total]
  rw [hnew, hold]
  abel

end Latest

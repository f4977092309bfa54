import Mathlib.Algebra.BigOperators.Ring.Finset
import Mathlib.Data.List.AList
import Mathlib.Tactic.Abel

/-! # Sums over a list by keys

When each element of a list has just one of finitely many keys, the sum over the list is
the sum over the keys of the sums over their elements.
-/

namespace KeyedSum

open Finset

variable {α ι M : Type*} [AddCommMonoid M] {l : List α} {s : Finset ι} {R : α → ι → Prop}
  [∀ a i, Decidable (R a i)] {f : α → M}

theorem sum_filter_cons (a : α) (i : ι) :
    (((a :: l).filter (R · i)).map f).sum =
      (if R a i then f a else 0) + ((l.filter (R · i)).map f).sum := by
  by_cases h : R a i
  · simp [h]
  · simp [h]

theorem sum_map_eq (h : ∀ a ∈ l, ∃ i ∈ s, R a i ∧ ∀ j ∈ s, R a j → j = i) :
    (l.map f).sum = ∑ i ∈ s, ((l.filter (R · i)).map f).sum := by
  induction l with
  | nil => simp
  | cons a l ih =>
    obtain ⟨i, hi, hai, hunique⟩ := h a List.mem_cons_self
    have hone : ∑ j ∈ s, (if R a j then f a else 0) = f a := by
      rw [sum_eq_single_of_mem i hi, if_pos hai]
      intro j hj hne
      exact if_neg fun haj => hne (hunique j hj haj)
    simp only [sum_filter_cons, sum_add_distrib, hone]
    rw [List.map_cons, List.sum_cons, ih fun b hb => h b (.tail _ hb)]

theorem sum_update_add {σ : Type*} [Fintype ι] [DecidableEq ι] (v : ι → σ) (g : σ → M) (i : ι)
    (b : σ) : ∑ j, g (Function.update v i b j) + g (v i) = ∑ j, g (v j) + g b := by
  have hrest : ∑ j ∈ univ.erase i, g (Function.update v i b j) = ∑ j ∈ univ.erase i, g (v j) :=
    sum_congr rfl fun j hj => by rw [Function.update_of_ne (ne_of_mem_erase hj)]
  rw [← add_sum_erase _ _ (mem_univ i), ← add_sum_erase univ (fun j => g (v j)) (mem_univ i),
    hrest, Function.update_self]
  abel

section Entries

variable {β : ι → Type*} [DecidableEq ι] {m : AList β} {a : ι} {b : β a} {g : ι → M}

def overKeys (m : AList β) (g : ι → M) : M := ∑ i ∈ m.keys.toFinset, g i

theorem mem_keys_toFinset : a ∈ m.keys.toFinset ↔ a ∈ m := by
  rw [List.mem_toFinset, AList.mem_keys]

theorem overKeys_congr {g' : ι → M} (h : ∀ i ∈ m, g' i = g i) : overKeys m g' = overKeys m g :=
  sum_congr rfl fun i hi => h i (mem_keys_toFinset.mp hi)

theorem keys_insert_toFinset : (m.insert a b).keys.toFinset = insert a m.keys.toFinset := by
  ext i
  rw [mem_keys_toFinset, AList.mem_insert, mem_insert, mem_keys_toFinset]

theorem keys_erase_toFinset : (m.erase a).keys.toFinset = m.keys.toFinset.erase a := by
  ext i
  rw [mem_keys_toFinset, AList.mem_erase, mem_erase, mem_keys_toFinset]

theorem overKeys_insert (h : a ∉ m) : overKeys (m.insert a b) g = g a + overKeys m g := by
  rw [overKeys, keys_insert_toFinset, sum_insert (by rwa [mem_keys_toFinset])]
  rfl

theorem overKeys_insert_of_mem (h : a ∈ m) : overKeys (m.insert a b) g = overKeys m g := by
  rw [overKeys, keys_insert_toFinset, insert_eq_of_mem (by rwa [mem_keys_toFinset])]
  rfl

theorem overKeys_erase (h : a ∈ m) : g a + overKeys (m.erase a) g = overKeys m g := by
  rw [overKeys, keys_erase_toFinset, add_sum_erase _ _ (by rwa [mem_keys_toFinset])]
  rfl

theorem overKeys_update {g' : ι → M} {d : M} (h : a ∈ m) (hself : g' a = g a + d)
    (hne : ∀ i ∈ m, i ≠ a → g' i = g i) : overKeys m g' = overKeys m g + d := by
  have hrest : overKeys (m.erase a) g' = overKeys (m.erase a) g := by
    apply overKeys_congr
    intro i hi
    obtain ⟨hia, him⟩ := AList.mem_erase.mp hi
    exact hne i him hia
  rw [← overKeys_erase h, ← overKeys_erase (g := g) h, hrest, hself, add_right_comm]

theorem sum_entries {k : (Σ i, β i) → M} (h : ∀ e ∈ m.entries, g e.1 = k e) :
    (m.entries.map k).sum = overKeys m g := by
  rw [overKeys, List.sum_toFinset _ m.keys_nodup, AList.keys, List.keys, List.map_map]
  congr 1
  exact List.map_congr_left fun e he => (h e he).symm

end Entries

end KeyedSum

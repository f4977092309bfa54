import Mathlib.Data.List.Forall2
import Mathlib.Data.List.Sort
import Mathlib.Order.Lattice

/-! # Ordered maps

A map that is iterated in the order of its keys is the sorted list of its entries.
-/

namespace OrderedMap

variable {κ ν : Type*} [LinearOrder κ]

def Ordered (m : List (κ × ν)) : Prop := m.Pairwise (·.1 < ·.1)

/-- The entry of the key is replaced, or put where the key belongs. -/
def insertOrAssign (k : κ) (v : ν) : List (κ × ν) → List (κ × ν)
  | [] => [(k, v)]
  | entry :: m =>
    if k < entry.1 then (k, v) :: entry :: m
    else if k = entry.1 then (k, v) :: m
    else entry :: insertOrAssign k v m

variable {m : List (κ × ν)} {k : κ} {v : ν} {entry : κ × ν}

theorem mem_insertOrAssign (hk : k ∉ m.map Prod.fst) :
    entry ∈ insertOrAssign k v m ↔ entry = (k, v) ∨ entry ∈ m := by
  induction m with
  | nil => simp [insertOrAssign]
  | cons first m ih =>
    rw [List.map_cons, List.mem_cons, not_or] at hk
    rw [insertOrAssign, if_neg hk.1]
    split_ifs
    · rw [List.mem_cons]
    · rw [List.mem_cons, ih hk.2, List.mem_cons, or_left_comm]

theorem key_of_mem_insertOrAssign (h : entry ∈ insertOrAssign k v m) :
    entry.1 = k ∨ entry ∈ m := by
  induction m with
  | nil => exact .inl (congrArg Prod.fst (List.mem_singleton.mp h))
  | cons first m ih =>
    rw [insertOrAssign] at h
    split_ifs at h with hlt heq
    · exact (List.mem_cons.mp h).imp_left (congrArg Prod.fst)
    · exact (List.mem_cons.mp h).imp (congrArg Prod.fst) (List.mem_cons_of_mem first)
    · rcases List.mem_cons.mp h with rfl | h
      · exact .inr List.mem_cons_self
      · exact (ih h).imp_right (List.mem_cons_of_mem first)

theorem ordered_insertOrAssign (hm : Ordered m) : Ordered (insertOrAssign k v m) := by
  induction m with
  | nil => exact List.pairwise_singleton _ _
  | cons first m ih =>
    obtain ⟨hfirst, hrest⟩ := List.pairwise_cons.mp hm
    rw [insertOrAssign]
    split_ifs with hlt heq
    · refine List.pairwise_cons.mpr ⟨List.forall_mem_cons.mpr ⟨hlt, fun entry hentry => ?_⟩, hm⟩
      exact hlt.trans (hfirst entry hentry)
    · exact List.pairwise_cons.mpr ⟨fun entry hentry => heq ▸ hfirst entry hentry, hrest⟩
    · refine List.pairwise_cons.mpr ⟨fun entry hentry => ?_, ih hrest⟩
      rcases key_of_mem_insertOrAssign hentry with hkey | hentry
      · rw [hkey]
        exact (not_lt.mp hlt).lt_of_ne' heq
      · exact hfirst entry hentry

theorem Ordered.lookup_eq_some (h : Ordered m) (hentry : entry ∈ m) :
    m.lookup entry.1 = some entry.2 := by
  induction m with
  | nil => cases hentry
  | cons first m ih =>
    obtain ⟨hfirst, hrest⟩ := List.pairwise_cons.mp h
    rcases List.mem_cons.mp hentry with rfl | hentry
    · exact List.lookup_cons_self
    · rw [List.lookup_cons, beq_false_of_ne (hfirst entry hentry).ne']
      exact ih hrest hentry

theorem Ordered.keys_eq {ν' : Type*} {m' : List (κ × ν')} (h : Ordered m) (h' : Ordered m')
    (hkeys : ∀ k, k ∈ m.map Prod.fst ↔ k ∈ m'.map Prod.fst) :
    m.map Prod.fst = m'.map Prod.fst :=
  (List.pairwise_map.mpr h).eq_of_mem_iff (List.pairwise_map.mpr h') hkeys

theorem Ordered.forall₂_iff {ν' : Type*} {m' : List (κ × ν')} {P : ν' → ν → Prop}
    (h : Ordered m) :
    List.Forall₂ (fun p entry => p.1 = entry.1 ∧ P p.2 entry.2) m' m ↔
      m'.map Prod.fst = m.map Prod.fst ∧
        ∀ p ∈ m', ∀ entry ∈ m, p.1 = entry.1 → P p.2 entry.2 := by
  induction m generalizing m' with
  | nil => cases m' <;> simp
  | cons first m ih =>
    obtain ⟨hfirst, hrest⟩ := List.pairwise_cons.mp h
    cases m' with
    | nil => simp
    | cons p m' =>
      rw [List.forall₂_cons, ih hrest, List.map_cons, List.map_cons, List.cons.injEq]
      constructor
      · rintro ⟨⟨hp, hvalue⟩, hkeys, hvalues⟩
        refine ⟨⟨hp, hkeys⟩, ?_⟩
        rintro q (_ | ⟨_, hq⟩) entry (_ | ⟨_, hentry⟩) hkey
        · exact hvalue
        · exact absurd (hp.symm.trans hkey) (hfirst entry hentry).ne
        · have hmem : q.1 ∈ m.map Prod.fst := hkeys ▸ List.mem_map_of_mem hq
          obtain ⟨entry, hentry, hentrykey⟩ := List.mem_map.mp hmem
          exact absurd (hkey.symm.trans hentrykey.symm) (hfirst entry hentry).ne
        · exact hvalues q hq entry hentry hkey
      · rintro ⟨⟨hp, hkeys⟩, hvalues⟩
        refine ⟨⟨hp, hvalues p List.mem_cons_self first List.mem_cons_self hp⟩, hkeys, ?_⟩
        intro q hq entry hentry
        exact hvalues q (List.mem_cons_of_mem p hq) entry (List.mem_cons_of_mem first hentry)

end OrderedMap

import CryptoTrading.Lib.Runs
import CryptoTrading.Lib.Window
import CryptoTrading.Primitives.Trade

/-! # The capacity of a channel

Each push first drops values from the front that are older than the capacity, which may change
between two of them. With pushes in the order of time no other value is dropped, and none is left.
-/

namespace CryptoTrading

open Runs Window

structure CappedChannel (α : Type*) where
  data : List (Milliseconds × α) := []
  capacity : Option Milliseconds := none
  deriving DecidableEq

inductive CapacityStep (α : Type*)
  | push (ts : Milliseconds) (value : α)
  | setCapacity (capacity : Option Milliseconds)
  deriving DecidableEq

namespace CappedChannel

variable {α : Type*}

/-- The loop that drops the values from before the cutoff. -/
def dropOld (cutoff : Milliseconds) : List (Milliseconds × α) → List (Milliseconds × α)
  | [] => []
  | p :: data => if p.1 < cutoff then dropOld cutoff data else p :: data

variable (s : CappedChannel α)

def push (ts : Milliseconds) (value : α) : CappedChannel α :=
  let data :=
    match s.capacity with
    | none => s.data
    | some capacity => dropOld (ts - capacity) s.data
  { s with data := data ++ [(ts, value)] }

def step : CapacityStep α → CappedChannel α
  | .push ts value => s.push ts value
  | .setCapacity capacity => { s with capacity }

def times (xs : List (CapacityStep α)) : List Milliseconds :=
  xs.filterMap fun
    | .push ts _ => some ts
    | .setCapacity _ => none

/-- No push of these steps is later by more than the capacity of its time. -/
def Survives (ts : Milliseconds) : Option Milliseconds → List (CapacityStep α) → Prop
  | _, [] => True
  | capacity, .push ts' _ :: xs => (∀ c ∈ capacity, ts' - c ≤ ts) ∧ Survives ts capacity xs
  | _, .setCapacity capacity :: xs => Survives ts capacity xs

instance (ts : Milliseconds) : (capacity : Option Milliseconds) →
    (xs : List (CapacityStep α)) → Decidable (Survives ts capacity xs)
  | _, [] => isTrue trivial
  | capacity, .push _ _ :: xs =>
    have := instDecidableSurvives ts capacity xs
    inferInstanceAs (Decidable (_ ∧ _))
  | _, .setCapacity capacity :: xs => instDecidableSurvives ts capacity xs

def survivors : Option Milliseconds → List (CapacityStep α) → List (Milliseconds × α)
  | _, [] => []
  | capacity, .push ts value :: xs =>
    if Survives ts capacity xs then (ts, value) :: survivors capacity xs
    else survivors capacity xs
  | _, .setCapacity capacity :: xs => survivors capacity xs

variable {s} {ts : Milliseconds} {value : α} {x : CapacityStep α} {xs : List (CapacityStep α)}
  {data : List (Milliseconds × α)} {cutoff : Milliseconds} {capacity : Option Milliseconds}

theorem dropOld_eq : dropOld cutoff data = data.dropWhile (·.1 < cutoff) := by
  fun_induction dropOld with
  | case1 => rfl
  | case2 p data hold ih => rw [ih, List.dropWhile_cons_of_pos (by simpa using hold)]
  | case3 p data hnew => rw [List.dropWhile_cons_of_neg (by simpa using hnew)]

theorem push_data (h : s.data.Pairwise fun p q => p.1 ≤ q.1) : (s.push ts value).data =
    s.data.filter (fun p => ∀ c ∈ s.capacity, ts - c ≤ p.1) ++ [(ts, value)] := by
  rw [push]
  cases hcapacity : s.capacity with
  | none => simp
  | some c =>
    simp only [dropOld_eq, dropWhile_eq_since h]
    simp [since]

theorem data_after_of_pairwise
    (h : (s.data.map Prod.fst ++ times xs).Pairwise (· ≤ ·)) : (after step s xs).data =
      s.data.filter (fun p => Survives p.1 s.capacity xs) ++ survivors s.capacity xs := by
  induction xs generalizing s with
  | nil =>
    rw [survivors, List.append_nil]
    exact (List.filter_eq_self.mpr fun p _ => decide_eq_true trivial).symm
  | cons x xs ih =>
    cases x with
    | push ts value =>
      have hdata : s.data.Pairwise fun p q => p.1 ≤ q.1 :=
        List.pairwise_map.mp (List.pairwise_append.mp h).1
      have hpush := @push_data _ s ts value hdata
      have hrest : ((s.push ts value).data.map Prod.fst ++ times xs).Pairwise (· ≤ ·) := by
        refine h.sublist ?_
        rw [hpush, List.map_append, List.append_assoc]
        exact (List.filter_sublist.map _).append (List.Sublist.refl _)
      have hcapacity : (s.push ts value).capacity = s.capacity := rfl
      rw [after_cons, step, ih hrest, hcapacity, hpush, List.filter_append, List.filter_filter,
        List.append_assoc]
      congr 1
      · exact List.filter_congr fun p _ => by simp [Survives, and_comm]
      · by_cases hsurvives : Survives ts s.capacity xs <;> simp [survivors, hsurvives]
    | setCapacity capacity => exact ih h

/--
With pushes in the order of time, and any changes of the capacity between them, the data are the
pushed values that no later push has found older than the capacity of its time.
-/
theorem data_eq_survivors (xs : List (CapacityStep α)) (h : (times xs).Pairwise (· ≤ ·)) :
    (after step {} xs).data = survivors none xs :=
  data_after_of_pairwise h

/-- A value is dropped before the capacity grows, and another one stays because of that. -/
theorem data_eq_survivors_grown :
    let xs : List (CapacityStep ℕ) := [.setCapacity (some 2), .push 0 10, .push 1 11, .push 3 12,
      .setCapacity (some 5), .push 6 13]
    (after step {} xs).data = [(1, 11), (3, 12), (6, 13)] := by
  intro xs
  exact (data_eq_survivors xs (by decide)).trans (by decide)

end CappedChannel

end CryptoTrading

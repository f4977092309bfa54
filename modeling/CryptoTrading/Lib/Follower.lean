import Mathlib.Algebra.Order.Group.MinMax

/-! # A level that follows the best price

It stays at a fixed distance below the highest price so far. Starting again at another
price and distance does not lower it, if that price is the highest one and the distance
not larger.
-/

variable {α : Type*}

structure Follower (α : Type*) where
  best : α
  distance : α

namespace Follower

variable [AddCommGroup α] [LinearOrder α] [IsOrderedAddMonoid α]

def level (f : Follower α) : α := f.best - f.distance

def follow (f : Follower α) (price : α) : Follower α := { f with best := max f.best price }

variable {f g : Follower α} {price : α}

theorem level_follow : (f.follow price).level = max f.level (price - f.distance) :=
  (max_sub_sub_right ..).symm

theorem level_follow_of_le (h : price - f.distance ≤ f.level) :
    (f.follow price).level = f.level := by
  rw [level_follow, max_eq_left h]

theorem level_follow_of_lt (h : f.level < price - f.distance) :
    (f.follow price).level = price - f.distance := by
  rw [level_follow, max_eq_right h.le]

theorem level_le_follow : f.level ≤ (f.follow price).level := by
  rw [level_follow]
  exact le_max_left ..

omit [AddCommGroup α] [IsOrderedAddMonoid α] in
theorem foldl_follow (f : Follower α) (prices : List α) :
    prices.foldl follow f = ⟨prices.foldl max f.best, f.distance⟩ := by
  induction prices generalizing f with
  | nil => rfl
  | cons price prices ih => exact ih (f.follow price)

theorem level_lt_follow_iff : f.level < (f.follow price).level ↔ f.level < price - f.distance := by
  rw [level_follow, lt_max_iff, or_iff_right (lt_irrefl _)]

theorem lt_best_of_lt_level (hdistance : 0 ≤ f.distance) (h : price < f.level) :
    price < f.best :=
  h.trans_le (sub_le_self _ hdistance)

theorem level_mono (hbest : f.best ≤ g.best) (hdistance : g.distance ≤ f.distance) :
    f.level ≤ g.level :=
  sub_le_sub hbest hdistance

end Follower

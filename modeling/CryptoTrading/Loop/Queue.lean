import Mathlib.Data.List.Basic

/-! # The priority queue of an event loop

One first-in-first-out list for each priority; the most urgent list that is not empty
is served first.
-/

namespace CryptoTrading

inductive Priority | high | normal | low | barrier
  deriving DecidableEq, Repr

/-- The value of the enumerator; the smallest one is the most urgent. -/
def Priority.rank : Priority → ℕ
  | high => 0
  | normal => 1
  | low => 2
  | barrier => 3

theorem Priority.rank_injective : Function.Injective Priority.rank := by
  rintro (_ | _ | _ | _) (_ | _ | _ | _) h <;> first | rfl | exact absurd h (by decide)

structure ThreadSafePriorityQueue (α : Type*) where
  high : List α
  normal : List α
  low : List α
  barrier : List α
  deriving DecidableEq

namespace ThreadSafePriorityQueue

variable {α : Type*}

def empty : ThreadSafePriorityQueue α := ⟨[], [], [], []⟩

def push (q : ThreadSafePriorityQueue α) (priority : Priority) (value : α) :
    ThreadSafePriorityQueue α :=
  match priority with
  | .high => { q with high := q.high ++ [value] }
  | .normal => { q with normal := q.normal ++ [value] }
  | .low => { q with low := q.low ++ [value] }
  | .barrier => { q with barrier := q.barrier ++ [value] }

/-- The next value, `none` while the thread would wait for one. -/
def waitAndPop (q : ThreadSafePriorityQueue α) : Option (α × ThreadSafePriorityQueue α) :=
  match q with
  | ⟨x :: high, normal, low, barrier⟩ => some (x, ⟨high, normal, low, barrier⟩)
  | ⟨[], x :: normal, low, barrier⟩ => some (x, ⟨[], normal, low, barrier⟩)
  | ⟨[], [], x :: low, barrier⟩ => some (x, ⟨[], [], low, barrier⟩)
  | ⟨[], [], [], x :: barrier⟩ => some (x, ⟨[], [], [], barrier⟩)
  | ⟨[], [], [], []⟩ => none

def discardEvents (q : ThreadSafePriorityQueue α) (pred : α → Bool) :
    ThreadSafePriorityQueue α :=
  ⟨q.high.filter (! pred ·), q.normal.filter (! pred ·), q.low.filter (! pred ·),
    q.barrier.filter (! pred ·)⟩

def toList (q : ThreadSafePriorityQueue α) : List α := q.high ++ q.normal ++ q.low ++ q.barrier

variable {q q' : ThreadSafePriorityQueue α} {x y : α} {priority : Priority} {p : α → Bool}

@[simp] theorem toList_empty : (empty : ThreadSafePriorityQueue α).toList = [] := rfl

theorem toList_of_waitAndPop (h : q.waitAndPop = some (x, q')) : q.toList = x :: q'.toList := by
  unfold waitAndPop at h
  split at h
  all_goals first
    | obtain ⟨rfl, rfl⟩ := Prod.mk.inj (Option.some.inj h); rfl
    | exact absurd h (by simp)

@[simp] theorem countP_push :
    (q.push priority x).toList.countP p = q.toList.countP p + [x].countP p := by
  cases priority <;> simp only [push, toList, List.countP_append] <;> omega

@[simp] theorem mem_push : y ∈ (q.push priority x).toList ↔ y ∈ q.toList ∨ y = x := by
  cases priority <;> simp only [push, toList, List.mem_append, List.mem_singleton] <;> tauto

theorem toList_discardEvents (q : ThreadSafePriorityQueue α) (p : α → Bool) :
    (q.discardEvents p).toList = q.toList.filter (! p ·) := by
  simp [discardEvents, toList]

def ofPriority (q : ThreadSafePriorityQueue α) : Priority → List α
  | .high => q.high
  | .normal => q.normal
  | .low => q.low
  | .barrier => q.barrier

theorem mem_toList : x ∈ q.toList ↔ ∃ p, x ∈ q.ofPriority p := by
  constructor
  · intro h
    simp only [toList, List.mem_append] at h
    rcases h with ((h | h) | h) | h
    · exact ⟨.high, h⟩
    · exact ⟨.normal, h⟩
    · exact ⟨.low, h⟩
    · exact ⟨.barrier, h⟩
  · rintro ⟨p, h⟩
    simp only [toList, List.mem_append]
    cases p with
    | high => exact .inl (.inl (.inl h))
    | normal => exact .inl (.inl (.inr h))
    | low => exact .inl (.inr h)
    | barrier => exact .inr h

theorem ofPriority_push_self : (q.push priority x).ofPriority priority =
    q.ofPriority priority ++ [x] := by
  cases priority <;> rfl

theorem ofPriority_push_of_ne {p : Priority} (h : p ≠ priority) :
    (q.push priority x).ofPriority p = q.ofPriority p := by
  cases priority <;> cases p <;> first | rfl | exact absurd rfl h

theorem ofPriority_discardEvents (q : ThreadSafePriorityQueue α) (p : α → Bool) (c : Priority) :
    (q.discardEvents p).ofPriority c = (q.ofPriority c).filter (! p ·) := by
  cases c <;> rfl

theorem ofPriority_of_waitAndPop (h : q.waitAndPop = some (x, q')) :
    ∃ p, q.ofPriority p = x :: q'.ofPriority p ∧
      (∀ c ≠ p, q'.ofPriority c = q.ofPriority c) ∧
      ∀ c, c.rank < p.rank → q.ofPriority c = [] := by
  unfold waitAndPop at h
  split at h
  · obtain ⟨rfl, rfl⟩ := Prod.mk.inj (Option.some.inj h)
    exact ⟨.high, rfl, by rintro (_ | _ | _ | _) hc <;> first | rfl | exact absurd rfl hc,
      by rintro (_ | _ | _ | _) hc <;> first | rfl | exact absurd hc (by decide)⟩
  · obtain ⟨rfl, rfl⟩ := Prod.mk.inj (Option.some.inj h)
    exact ⟨.normal, rfl, by rintro (_ | _ | _ | _) hc <;> first | rfl | exact absurd rfl hc,
      by rintro (_ | _ | _ | _) hc <;> first | rfl | exact absurd hc (by decide)⟩
  · obtain ⟨rfl, rfl⟩ := Prod.mk.inj (Option.some.inj h)
    exact ⟨.low, rfl, by rintro (_ | _ | _ | _) hc <;> first | rfl | exact absurd rfl hc,
      by rintro (_ | _ | _ | _) hc <;> first | rfl | exact absurd hc (by decide)⟩
  · obtain ⟨rfl, rfl⟩ := Prod.mk.inj (Option.some.inj h)
    exact ⟨.barrier, rfl, by rintro (_ | _ | _ | _) hc <;> first | rfl | exact absurd rfl hc,
      by rintro (_ | _ | _ | _) hc <;> first | rfl | exact absurd hc (by decide)⟩
  · cases h

theorem toList_push_perm : (q.push priority x).toList.Perm (x :: q.toList) := by
  cases priority with
  | high => simp [push, toList]
  | normal =>
    have hmiddle : (q.high ++ q.normal ++ x :: (q.low ++ q.barrier)).Perm
        (x :: (q.high ++ q.normal ++ (q.low ++ q.barrier))) := List.perm_middle
    simpa [push, toList] using hmiddle
  | low =>
    have hmiddle : (q.high ++ q.normal ++ q.low ++ x :: q.barrier).Perm
        (x :: (q.high ++ q.normal ++ q.low ++ q.barrier)) := List.perm_middle
    simpa [push, toList] using hmiddle
  | barrier =>
    simpa [push, toList] using
      (List.perm_append_singleton x (q.high ++ q.normal ++ q.low ++ q.barrier))

structure Sorted (q : ThreadSafePriorityQueue α) (prio : α → Priority) : Prop where
  high : ∀ x ∈ q.high, prio x = .high
  normal : ∀ x ∈ q.normal, prio x = .normal
  low : ∀ x ∈ q.low, prio x = .low
  barrier : ∀ x ∈ q.barrier, prio x = .barrier

variable {prio : α → Priority}

theorem sorted_empty : (empty : ThreadSafePriorityQueue α).Sorted prio := by
  constructor <;> simp [empty]

theorem Sorted.push (h : q.Sorted prio) (x : α) : (q.push (prio x) x).Sorted prio := by
  unfold ThreadSafePriorityQueue.push
  cases hp : prio x with
  | high => exact ⟨by simpa [or_imp, forall_and, hp] using h.high, h.normal, h.low, h.barrier⟩
  | normal => exact ⟨h.high, by simpa [or_imp, forall_and, hp] using h.normal, h.low, h.barrier⟩
  | low => exact ⟨h.high, h.normal, by simpa [or_imp, forall_and, hp] using h.low, h.barrier⟩
  | barrier => exact ⟨h.high, h.normal, h.low, by simpa [or_imp, forall_and, hp] using h.barrier⟩

theorem Sorted.discardEvents (h : q.Sorted prio) (p : α → Bool) :
    (q.discardEvents p).Sorted prio where
  high x hx := h.high x (List.mem_filter.mp hx).1
  normal x hx := h.normal x (List.mem_filter.mp hx).1
  low x hx := h.low x (List.mem_filter.mp hx).1
  barrier x hx := h.barrier x (List.mem_filter.mp hx).1

theorem normal_push_of_ne (h : priority ≠ .normal) : (q.push priority x).normal = q.normal := by
  cases priority <;> first | rfl | exact absurd rfl h

theorem Sorted.waitAndPop (hq : q.Sorted prio) (h : q.waitAndPop = some (x, q')) :
    q'.Sorted prio ∧ (prio x = .normal ∧ q.normal = x :: q'.normal ∨
      prio x ≠ .normal ∧ q'.normal = q.normal) := by
  unfold ThreadSafePriorityQueue.waitAndPop at h
  split at h
  · obtain ⟨rfl, rfl⟩ := Prod.mk.inj (Option.some.inj h)
    have hx := hq.high _ List.mem_cons_self
    exact ⟨⟨fun y hy => hq.high y (.tail _ hy), hq.normal, hq.low, hq.barrier⟩,
      .inr ⟨by simp [hx], rfl⟩⟩
  · obtain ⟨rfl, rfl⟩ := Prod.mk.inj (Option.some.inj h)
    have hx := hq.normal _ List.mem_cons_self
    exact ⟨⟨hq.high, fun y hy => hq.normal y (.tail _ hy), hq.low, hq.barrier⟩,
      .inl ⟨hx, rfl⟩⟩
  · obtain ⟨rfl, rfl⟩ := Prod.mk.inj (Option.some.inj h)
    have hx := hq.low _ List.mem_cons_self
    exact ⟨⟨hq.high, hq.normal, fun y hy => hq.low y (.tail _ hy), hq.barrier⟩,
      .inr ⟨by simp [hx], rfl⟩⟩
  · obtain ⟨rfl, rfl⟩ := Prod.mk.inj (Option.some.inj h)
    have hx := hq.barrier _ List.mem_cons_self
    exact ⟨⟨hq.high, hq.normal, hq.low, fun y hy => hq.barrier y (.tail _ hy)⟩,
      .inr ⟨by simp [hx], rfl⟩⟩
  · cases h

end ThreadSafePriorityQueue

end CryptoTrading

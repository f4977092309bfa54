import CryptoTrading.Lib.Runs
import CryptoTrading.Primitives.Trade
import Mathlib.Data.List.Perm.Basic

/-! # Time series channels

A push appends to the data under one lock and notifies the subscribers under another one.
A subscription is registered and gets its snapshot under the second lock. A value whose
push is between its two halves when the snapshot is taken reaches the subscriber twice.
-/

namespace CryptoTrading

open Runs

abbrev ThreadId := ℕ

structure SeriesEntry (α : Type*) where
  number : ℕ
  ts : Milliseconds
  value : α
  deriving DecidableEq

inductive SeriesUpdate (α : Type*)
  | snapshot (data : List (SeriesEntry α))
  | increment (e : SeriesEntry α)
  deriving DecidableEq

def SeriesUpdate.entries {α : Type*} : SeriesUpdate α → List (SeriesEntry α)
  | snapshot data => data
  | increment e => [e]

structure SeriesSubscription (α : Type*) where
  guid : Guid
  /-- Oldest first. -/
  updates : List (SeriesUpdate α)
  deriving DecidableEq

namespace SeriesSubscription

variable {α : Type*}

def notify (sub : SeriesSubscription α) (u : SeriesUpdate α) : SeriesSubscription α :=
  { sub with updates := sub.updates ++ [u] }

def received (sub : SeriesSubscription α) : List (SeriesEntry α) :=
  sub.updates.flatMap SeriesUpdate.entries

end SeriesSubscription

/-- A channel without a capacity limit, and the threads that use it. -/
structure EventTimeseriesChannel (α : Type*) where
  data : List (SeriesEntry α)
  subscriptions : List (SeriesSubscription α)
  /-- The threads between the two halves of a push. -/
  pushing : List (ThreadId × SeriesEntry α)
  /-- The subscription being made, while the lock of the subscriptions is held for it. -/
  subscribing : Option Guid
  nextGuid : Guid

inductive SeriesStep (α : Type*)
  /-- The first half of `push`. -/
  | append (thread : ThreadId) (ts : Milliseconds) (value : α)
  /-- The second half of `push`. -/
  | notify (thread : ThreadId)
  /-- The first half of `subscribe`. -/
  | register
  /-- The second half of `subscribe`. -/
  | takeSnapshot

namespace EventTimeseriesChannel

variable {α : Type*}

def init : EventTimeseriesChannel α where
  data := []
  subscriptions := []
  pushing := []
  subscribing := none
  nextGuid := Guid.first

variable (s : EventTimeseriesChannel α)

/-- A thread that waits for a lock, or that is in the middle of a push, does nothing. -/
def step : SeriesStep α → EventTimeseriesChannel α
  | .append thread ts value =>
    if s.pushing.any (·.1 = thread) then s
    else
      let e : SeriesEntry α := ⟨s.data.length, ts, value⟩
      { s with data := s.data ++ [e], pushing := s.pushing ++ [(thread, e)] }
  | .notify thread =>
    if s.subscribing.isSome then s
    else
      match s.pushing.find? (·.1 = thread) with
      | none => s
      | some (_, e) =>
        { s with
          subscriptions := s.subscriptions.map (·.notify (.increment e))
          pushing := s.pushing.eraseP (·.1 = thread) }
  | .register =>
    if s.subscribing.isSome then s
    else
      { s with
        subscriptions := s.subscriptions ++ [⟨s.nextGuid, []⟩]
        subscribing := some s.nextGuid
        nextGuid := s.nextGuid + 1 }
  | .takeSnapshot =>
    match s.subscribing with
    | none => s
    | some guid =>
      { s with
        subscriptions := s.subscriptions.map fun sub =>
          if sub.guid = guid then sub.notify (.snapshot s.data) else sub
        subscribing := none }

def unnotified : List (SeriesEntry α) := s.pushing.map Prod.snd

/-- After its snapshot and increments, and those still to come, the subscriber has each
value once. -/
structure GetsEach (sub : SeriesSubscription α) : Prop where
  snapshot_first : ∃ data, ∃ es : List (SeriesEntry α),
    sub.updates = .snapshot data :: es.map .increment
  perm : (sub.received ++ s.unnotified).Perm s.data

/-- Every subscriber with a snapshot gets every pushed value exactly once. -/
structure ExactlyOnce : Prop where
  distinct : (s.data.map SeriesEntry.number).Nodup
  gets : ∀ sub ∈ s.subscriptions, s.subscribing ≠ some sub.guid → s.GetsEach sub

/-- A snapshot is taken only while no push is between its two halves. -/
def UndisturbedSnapshot : SeriesStep α → Prop
  | .takeSnapshot => s.subscribing.isSome → s.pushing = []
  | _ => True

def Duplicates : Prop :=
  ∃ sub ∈ s.subscriptions, s.subscribing ≠ some sub.guid ∧
    s.data.length < sub.received.length + s.pushing.length

structure Coherent : Prop where
  numbers : s.data.map SeriesEntry.number = List.range s.data.length
  fresh : ∀ sub ∈ s.subscriptions, sub.guid < s.nextGuid
  empty : ∀ sub ∈ s.subscriptions, s.subscribing = some sub.guid → sub.updates = []
  registered : ∀ guid ∈ s.subscribing, ∃ sub ∈ s.subscriptions, sub.guid = guid

variable {s} {sub : SeriesSubscription α} {c : SeriesStep α} {e : SeriesEntry α}
  {u : SeriesUpdate α} {thread k : ThreadId}

@[simp] theorem guid_notify : (sub.notify u).guid = sub.guid := rfl

@[simp] theorem received_notify : (sub.notify u).received = sub.received ++ u.entries := by
  simp [SeriesSubscription.notify, SeriesSubscription.received]

theorem perm_of_find (h : s.pushing.find? (·.1 = thread) = some (k, e)) :
    (e :: (s.pushing.eraseP (·.1 = thread)).map Prod.snd).Perm s.unnotified := by
  obtain ⟨hk, as, bs, hsplit, has⟩ := List.find?_eq_some_iff_append.mp h
  have hnot : ∀ a ∈ as, ¬ decide (a.1 = thread) = true := by simpa using has
  have herase : ((k, e) :: bs).eraseP (·.1 = thread) = bs := List.eraseP_cons_of_pos hk
  rw [unnotified, hsplit, List.eraseP_append_right _ hnot, herase]
  simpa using List.perm_middle.symm

theorem init_coherent : (init : EventTimeseriesChannel α).Coherent where
  numbers := rfl
  fresh := by simp [init]
  empty := by simp [init]
  registered := by simp [init]

theorem Coherent.step (h : s.Coherent) (c : SeriesStep α) : (s.step c).Coherent := by
  cases c with
  | append thread ts value =>
    simp only [EventTimeseriesChannel.step]
    split
    · exact h
    · refine ⟨?_, h.fresh, h.empty, h.registered⟩
      simp [h.numbers, List.range_succ]
  | notify thread =>
    simp only [EventTimeseriesChannel.step]
    split
    · exact h
    · rename_i hfree
      split
      · exact h
      · refine ⟨h.numbers, ?_, ?_, ?_⟩
        · simpa using h.fresh
        · intro sub _ hsub
          exact absurd (Option.isSome_of_eq_some hsub) hfree
        · intro guid hguid
          exact absurd (Option.isSome_of_mem hguid) hfree
  | register =>
    simp only [EventTimeseriesChannel.step]
    split
    · exact h
    · refine ⟨h.numbers, ?_, ?_, ?_⟩
      · intro sub hsub
        rcases List.mem_append.mp hsub with hsub | hsub
        · exact Nat.lt_succ_of_lt (h.fresh sub hsub)
        · rw [List.mem_singleton.mp hsub]
          exact Nat.lt_succ_self _
      · intro sub hsub hguid
        rcases List.mem_append.mp hsub with hsub | hsub
        · exact absurd (Option.some.inj hguid) (h.fresh sub hsub).ne'
        · rw [List.mem_singleton.mp hsub]
      · rintro guid ⟨⟩
        exact ⟨_, List.mem_append_right _ (List.mem_singleton_self _), rfl⟩
  | takeSnapshot =>
    simp only [EventTimeseriesChannel.step]
    split
    · exact h
    · refine ⟨h.numbers, ?_, ?_, by simp⟩
      · intro sub hsub
        obtain ⟨sub', hsub', rfl⟩ := List.mem_map.mp hsub
        split <;> exact h.fresh sub' hsub'
      · intro sub _ hnone
        cases hnone

theorem run_coherent (cs : List (SeriesStep α)) : (after step init cs).Coherent := by
  induction cs using List.reverseRecOn with
  | nil => exact init_coherent
  | append_singleton cs c ih =>
    rw [after_concat]
    exact ih.step c

def AllGet (s : EventTimeseriesChannel α) : Prop :=
  ∀ sub ∈ s.subscriptions, s.subscribing ≠ some sub.guid → s.GetsEach sub

theorem GetsEach.append {thread : ThreadId} (h : s.GetsEach sub) :
    { s with data := s.data ++ [e], pushing := s.pushing ++ [(thread, e)] }.GetsEach sub := by
  refine ⟨h.snapshot_first, ?_⟩
  simp only [unnotified, List.map_append, ← List.append_assoc]
  exact h.perm.append_right [e]

theorem GetsEach.notify (h : s.GetsEach sub)
    (hfind : s.pushing.find? (·.1 = thread) = some (k, e)) :
    GetsEach { s with
      subscriptions := s.subscriptions.map (·.notify (.increment e))
      pushing := s.pushing.eraseP (·.1 = thread) } (sub.notify (.increment e)) := by
  constructor
  · obtain ⟨data, es, hupdates⟩ := h.snapshot_first
    exact ⟨data, es ++ [e], by simp [SeriesSubscription.notify, hupdates]⟩
  · rw [received_notify, SeriesUpdate.entries, List.append_assoc, List.singleton_append]
    exact ((perm_of_find hfind).append_left _).trans h.perm

/-- One step keeps the promise, unless a snapshot is taken in the middle of a push. -/
theorem AllGet.step (h : s.AllGet) (hs : s.Coherent) (hok : s.UndisturbedSnapshot c) :
    (s.step c).AllGet := by
  cases c with
  | append thread ts value =>
    simp only [EventTimeseriesChannel.step]
    split
    · exact h
    · intro sub hsub hne
      exact (h sub hsub hne).append
  | notify thread =>
    simp only [EventTimeseriesChannel.step]
    split
    · exact h
    · rename_i hfree
      split
      · exact h
      · rename_i k e hfind
        intro sub hsub _
        obtain ⟨sub', hsub', rfl⟩ := List.mem_map.mp hsub
        refine (h sub' hsub' fun hguid => ?_).notify hfind
        exact hfree (Option.isSome_of_eq_some hguid)
  | register =>
    simp only [EventTimeseriesChannel.step]
    split
    · exact h
    · rename_i hfree
      intro sub hsub hne
      rcases List.mem_append.mp hsub with hsub | hsub
      · have hsame := h sub hsub fun hguid => hfree (Option.isSome_of_eq_some hguid)
        exact ⟨hsame.snapshot_first, hsame.perm⟩
      · rw [List.mem_singleton.mp hsub] at hne
        exact absurd rfl hne
  | takeSnapshot =>
    simp only [EventTimeseriesChannel.step]
    split
    · exact h
    · rename_i guid hguid
      have hquiet : s.pushing = [] := hok (Option.isSome_of_eq_some hguid)
      intro sub hsub _
      obtain ⟨sub', hsub', rfl⟩ := List.mem_map.mp hsub
      split
      · rename_i heq
        have hempty := hs.empty sub' hsub' (by rw [hguid, heq])
        refine ⟨⟨s.data, [], by simp [SeriesSubscription.notify, hempty]⟩, ?_⟩
        have hnone : sub'.received = [] := by simp [SeriesSubscription.received, hempty]
        simp [SeriesUpdate.entries, hnone, unnotified, hquiet]
      · rename_i hne
        have hsame := h sub' hsub' fun heq => hne (Option.some.inj (heq.symm.trans hguid))
        exact ⟨hsame.snapshot_first, hsame.perm⟩

theorem Duplicates.step (h : s.Duplicates) (hs : s.Coherent) : (s.step c).Duplicates := by
  obtain ⟨sub, hsub, hne, hlt⟩ := h
  cases c with
  | append thread ts value =>
    simp only [EventTimeseriesChannel.step]
    split
    · exact ⟨sub, hsub, hne, hlt⟩
    · refine ⟨sub, hsub, hne, ?_⟩
      simp only [List.length_append, List.length_singleton]
      omega
  | notify thread =>
    simp only [EventTimeseriesChannel.step]
    split
    · exact ⟨sub, hsub, hne, hlt⟩
    · split
      · exact ⟨sub, hsub, hne, hlt⟩
      · rename_i k e hfind
        have hlen := (perm_of_find hfind).length_eq
        simp only [unnotified, List.length_cons, List.length_map] at hlen
        refine ⟨sub.notify (.increment e), List.mem_map_of_mem hsub, hne, ?_⟩
        simp only [received_notify, SeriesUpdate.entries, List.length_append,
          List.length_singleton]
        omega
  | register =>
    simp only [EventTimeseriesChannel.step]
    split
    · exact ⟨sub, hsub, hne, hlt⟩
    · refine ⟨sub, List.mem_append_left _ hsub, ?_, hlt⟩
      intro hguid
      exact (hs.fresh sub hsub).ne' (Option.some.inj hguid)
  | takeSnapshot =>
    simp only [EventTimeseriesChannel.step]
    split
    · exact ⟨sub, hsub, hne, hlt⟩
    · rename_i guid hguid
      refine ⟨sub, List.mem_map.mpr ⟨sub, hsub, if_neg ?_⟩, by simp, hlt⟩
      rintro rfl
      exact hne hguid

/-- A snapshot in the middle of a push has the value that the push will send. -/
theorem duplicates_of_disturbed (hs : s.Coherent) (hbad : ¬ s.UndisturbedSnapshot c) :
    (s.step c).Duplicates := by
  cases c with
  | append thread ts value => exact absurd trivial hbad
  | notify thread => exact absurd trivial hbad
  | register => exact absurd trivial hbad
  | takeSnapshot =>
    obtain ⟨hsome, hpushing⟩ := Classical.not_imp.mp hbad
    obtain ⟨guid, hguid⟩ := Option.isSome_iff_exists.mp hsome
    obtain ⟨sub, hsub, rfl⟩ := hs.registered guid hguid
    have hnone : sub.received = [] := by
      simp [SeriesSubscription.received, hs.empty sub hsub hguid]
    have hlen := List.length_pos_of_ne_nil hpushing
    simp only [EventTimeseriesChannel.step, hguid]
    refine ⟨sub.notify (.snapshot s.data), List.mem_map.mpr ⟨sub, hsub, if_pos rfl⟩, by simp, ?_⟩
    simp only [received_notify, hnone, SeriesUpdate.entries, List.nil_append]
    omega

theorem Duplicates.not_allGet (h : s.Duplicates) : ¬ s.AllGet := by
  intro hall
  obtain ⟨sub, hsub, hne, hlt⟩ := h
  have hlen := (hall sub hsub hne).perm.length_eq
  simp only [unnotified, List.length_append, List.length_map] at hlen
  omega

theorem run_cases (cs : List (SeriesStep α)) :
    Meets step UndisturbedSnapshot init cs ∧ (after step init cs).AllGet ∨
      ¬ Meets step UndisturbedSnapshot init cs ∧ (after step init cs).Duplicates := by
  induction cs using List.reverseRecOn with
  | nil => exact .inl ⟨trivial, by simp [AllGet, init]⟩
  | append_singleton cs c ih =>
    have hs := run_coherent cs
    rw [meets_concat, after_concat]
    rcases ih with ⟨hmeets, hall⟩ | ⟨hnot, hdup⟩
    · by_cases hok : (after step init cs).UndisturbedSnapshot c
      · exact .inl ⟨⟨hmeets, hok⟩, hall.step hs hok⟩
      · exact .inr ⟨fun h => hok h.2, duplicates_of_disturbed hs hok⟩
    · exact .inr ⟨fun h => hnot h.1, hdup.step hs⟩

/--
In every interleaving each subscriber gets every pushed value exactly once, if and only if
each snapshot is taken while no push is between its two halves.
-/
theorem exactlyOnce_iff (cs : List (SeriesStep α)) :
    (after step init cs).ExactlyOnce ↔ Meets step UndisturbedSnapshot init cs := by
  have hdistinct : ((after step init cs).data.map SeriesEntry.number).Nodup := by
    rw [(run_coherent cs).numbers]
    exact List.nodup_range
  rcases run_cases cs with ⟨hmeets, hall⟩ | ⟨hnot, hdup⟩
  · exact ⟨fun _ => hmeets, fun _ => ⟨hdistinct, hall⟩⟩
  · exact ⟨fun h => absurd h.gets hdup.not_allGet, fun h => absurd h hnot⟩

/-- The value of a push that a subscription interrupts is in the snapshot and an increment. -/
theorem snapshot_and_increment :
    let s : EventTimeseriesChannel ℚ :=
      after step init [.append 0 1 100, .register, .takeSnapshot, .notify 0]
    s.pushing = [] ∧ s.subscriptions.map SeriesSubscription.received =
      [[⟨0, 1, 100⟩, ⟨0, 1, 100⟩]] ∧ ¬ s.ExactlyOnce := by
  intro s
  have hreceived : s.subscriptions.map SeriesSubscription.received =
      [[⟨0, 1, 100⟩, ⟨0, 1, 100⟩]] := by decide +kernel
  refine ⟨by decide +kernel, hreceived, fun h => ?_⟩
  have hlen := (h.gets ⟨1, [.snapshot [⟨0, 1, 100⟩], .increment ⟨0, 1, 100⟩]⟩
    (by decide +kernel) (by decide +kernel)).perm.length_eq
  exact absurd hlen (by decide +kernel)

end EventTimeseriesChannel

end CryptoTrading

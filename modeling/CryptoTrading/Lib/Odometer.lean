import Mathlib.Data.List.Chain
import Mathlib.Data.List.Nodup
import Mathlib.Data.List.Range
import Mathlib.Data.List.Sections

/-! # Odometers

An odometer turns its first wheel, and at the end of a wheel starts it again and turns the next
one. It shows every choice of a position for each wheel, the sections of their lists.
-/

namespace Odometer

variable {σ α : Type*}

/-- Each of the states is followed by the next one, and the last by none. -/
structure Traverses (next : σ → Option σ) (xs : List σ) : Prop where
  isChain : xs.IsChain fun s s' => next s = some s'
  last : ∀ s ∈ xs.getLast?, next s = none

/-- The states from one on, as far as the fuel goes. -/
def run (next : σ → Option σ) : ℕ → σ → Option (List σ)
  | 0, _ => none
  | fuel + 1, s =>
    match next s with
    | none => some [s]
    | some s' => (run next fuel s').map (s :: ·)

structure Wheel (α : Type*) where
  first : α
  next : α → Option α

def Wheel.Shows (w : Wheel α) (xs : List α) : Prop :=
  w.first ∈ xs.head? ∧ Traverses w.next xs

def advance : List (Wheel α) → List α → Option (List α)
  | w :: ws, a :: as =>
    match w.next a with
    | some b => some (b :: as)
    | none => (advance ws as).map (w.first :: ·)
  | _, _ => none

variable {next : σ → Option σ} {s s' : σ} {xs ys : List σ}

theorem traverses_singleton : Traverses next [s] ↔ next s = none :=
  ⟨fun h => h.last s rfl, fun h => ⟨.singleton s, by simpa using h⟩⟩

theorem traverses_cons_cons :
    Traverses next (s :: s' :: xs) ↔ next s = some s' ∧ Traverses next (s' :: xs) := by
  constructor
  · rintro ⟨hchain, hlast⟩
    obtain ⟨hnext, hchain⟩ := List.isChain_cons_cons.mp hchain
    exact ⟨hnext, hchain, by simpa using hlast⟩
  · rintro ⟨hnext, hchain, hlast⟩
    exact ⟨List.isChain_cons_cons.mpr ⟨hnext, hchain⟩, by simpa using hlast⟩

/-- With more fuel than there are states to come, the run returns them. -/
theorem Traverses.run_eq (h : Traverses next (s :: xs)) {fuel : ℕ} (hfuel : xs.length < fuel) :
    run next fuel s = some (s :: xs) := by
  induction xs generalizing s fuel with
  | nil =>
    obtain ⟨fuel, rfl⟩ := Nat.exists_eq_add_one.mpr hfuel
    rw [run, traverses_singleton.mp h]
  | cons s' xs ih =>
    obtain ⟨fuel, rfl⟩ := Nat.exists_eq_add_one.mpr ((Nat.zero_le _).trans_lt hfuel)
    obtain ⟨hnext, hrest⟩ := traverses_cons_cons.mp h
    rw [run, hnext]
    simp only [ih hrest (Nat.lt_of_succ_lt_succ hfuel), Option.map_some]

theorem Traverses.append (hxs : xs.IsChain fun s s' => next s = some s') (hys : Traverses next ys)
    (hne : ys ≠ []) (hnext : ∀ s ∈ xs.getLast?, ∀ s' ∈ ys.head?, next s = some s') :
    Traverses next (xs ++ ys) := by
  refine ⟨List.isChain_append.mpr ⟨hxs, hys.isChain, hnext⟩, ?_⟩
  rw [List.getLast?_append_of_ne_nil _ hne]
  exact hys.last

theorem traverses_map_range {f : ℕ → σ} {n : ℕ} (hnext : ∀ k < n, next (f k) = some (f (k + 1)))
    (hlast : next (f n) = none) : Traverses next ((List.range (n + 1)).map f) := by
  constructor
  · rw [List.isChain_map, List.isChain_range_succ]
    exact hnext
  · rw [List.getLast?_map, List.range_succ, List.getLast?_concat]
    rintro s ⟨⟩
    exact hlast

section Wheels

variable {w : Wheel α} {ws : List (Wheel α)} {vs : List α} {r : List α} {rs : List (List α)}
  {vss : List (List α)}

theorem Wheel.Shows.ne_nil (h : w.Shows vs) : vs ≠ [] := by
  rintro rfl
  cases h.1

/-- The first wheel turns while the others stand still. -/
theorem Wheel.Shows.isChain (h : w.Shows vs) (r : List α) :
    (vs.map (· :: r)).IsChain fun s s' => advance (w :: ws) s = some s' := by
  rw [List.isChain_map]
  refine h.2.isChain.imp fun a b hab => ?_
  simp only [advance, hab]

theorem Wheel.Shows.advance_last (h : w.Shows vs) :
    ∀ s ∈ (vs.map (· :: r)).getLast?, advance (w :: ws) s = (advance ws r).map (w.first :: ·) := by
  rw [List.getLast?_map]
  intro s hs
  obtain ⟨a, ha, rfl⟩ := Option.map_eq_some_iff.mp hs
  simp only [advance, h.2.last a ha]

theorem Wheel.Shows.head?_map (h : w.Shows vs) : (vs.map (· :: r)).head? = some (w.first :: r) := by
  rw [List.head?_map, Option.mem_def.mp h.1, Option.map_some]

/-- At its end it starts again, and the others turn. -/
theorem Wheel.Shows.traverses (h : w.Shows vs) (hrs : Traverses (advance ws) (r :: rs)) :
    Traverses (advance (w :: ws)) ((r :: rs).flatMap fun r => vs.map (· :: r)) := by
  induction rs generalizing r with
  | nil =>
    rw [List.flatMap_singleton]
    refine ⟨h.isChain r, fun s hs => ?_⟩
    rw [h.advance_last s hs, traverses_singleton.mp hrs, Option.map_none]
  | cons r' rs ih =>
    obtain ⟨hnext, hrest⟩ := traverses_cons_cons.mp hrs
    have hne : vs.map (· :: r') ≠ [] := by simpa using h.ne_nil
    have hhead : ((r' :: rs).flatMap fun r => vs.map (· :: r)).head? = some (w.first :: r') := by
      rw [List.flatMap_cons, List.head?_append_of_ne_nil _ hne, h.head?_map]
    rw [List.flatMap_cons]
    refine (ih hrest).append (h.isChain r) ?_ fun s hs s' hs' => ?_
    · exact fun hnil => by simp [hnil] at hhead
    · rw [h.advance_last s hs, hnext, ← Option.mem_def.mp hs', hhead, Option.map_some]

theorem traverses_sections (h : List.Forall₂ Wheel.Shows ws vss) :
    ws.map Wheel.first ∈ vss.sections.head? ∧ Traverses (advance ws) vss.sections := by
  induction h with
  | nil => exact ⟨rfl, traverses_singleton.mpr rfl⟩
  | @cons w vs ws vss hw hws ih =>
    obtain ⟨hhead, htraverses⟩ := ih
    obtain ⟨rs, hrs⟩ : ∃ rs, vss.sections = ws.map Wheel.first :: rs := by
      cases hsections : vss.sections with
      | nil => simp [hsections] at hhead
      | cons r rs =>
        rw [hsections] at hhead
        obtain rfl := Option.some.inj hhead
        exact ⟨rs, rfl⟩
    rw [List.sections, hrs]
    rw [hrs] at htraverses
    refine ⟨?_, hw.traverses htraverses⟩
    have hne : vs.map (· :: ws.map Wheel.first) ≠ [] := by simpa using hw.ne_nil
    rw [List.flatMap_cons, List.head?_append_of_ne_nil _ hne, hw.head?_map]
    rfl

end Wheels

theorem nodup_sections {vss : List (List α)} (h : ∀ vs ∈ vss, vs.Nodup) : vss.sections.Nodup := by
  induction vss with
  | nil => exact List.nodup_singleton _
  | cons vs vss ih =>
    obtain ⟨hvs, hvss⟩ := List.forall_mem_cons.mp h
    rw [List.sections, List.nodup_flatMap]
    constructor
    · intro r _
      exact hvs.map fun a b hab => List.head_eq_of_cons_eq hab
    · refine (ih hvss).imp fun hne s hs hs' => ?_
      obtain ⟨a, -, rfl⟩ := List.mem_map.mp hs
      obtain ⟨b, -, hb⟩ := List.mem_map.mp hs'
      exact hne (List.tail_eq_of_cons_eq hb).symm

end Odometer

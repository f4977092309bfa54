import CryptoTrading.Gateway.Ledger

/-! # The opened position and the running volume

The strategies and the finish of an instance ask whether the position manager has an
opened position. It has one just when the running volume is not zero, unless a
trade without volume arrives at a flat manager.
-/

namespace CryptoTrading

open Runs

namespace PositionManager

variable {ts : List Trade} {t : Trade} {m : PositionManager} {pos : OpenedPosition}

/-- A new position starts over at zero, so the sum since the opening is that of all trades. -/
theorem netVolume_sinceOpened (ts : List Trade) :
    netVolume (sinceOpened ts) = netVolume ts := by
  induction ts using List.reverseRecOn with
  | nil => rfl
  | append_singleton ts t ih =>
    rw [sinceOpened_concat, netVolume_append, ← ih, extendPosition]
    split
    case isTrue h => rw [h, zero_add, netVolume_cons, netVolume_nil]
    case isFalse => rw [netVolume_append, netVolume_cons]

/-- The opened position is there just when the volume since the opening is not zero, and holds
that volume. -/
structure HoldsVolume (m : PositionManager) (ts : List Trade) : Prop where
  opened_iff : m.openedPosition.isSome ↔ netVolume (sinceOpened ts) ≠ 0
  volume : ∀ pos ∈ m.openedPosition, pos.absoluteVolume.value = netVolume (sinceOpened ts)

def OpensWithVolume (m : PositionManager) (t : Trade) : Prop :=
  m.openedPosition = none → t.unsignedVolume.value ≠ 0

instance : Decidable (m.OpensWithVolume t) := by
  unfold OpensWithVolume
  infer_instance

theorem holdsVolume_iff (h : m.volume = netVolume (sinceOpened ts)) :
    m.HoldsVolume ts ↔ ∀ pos ∈ m.openedPosition, pos.absoluteVolume.value ≠ 0 := by
  cases hpos : m.openedPosition with
  | none =>
    rw [volume_of_flat hpos] at h
    exact iff_of_true ⟨by simp [hpos, ← h], by simp [hpos]⟩ (by simp)
  | some pos =>
    rw [volume_of_opened hpos] at h
    simp only [Option.mem_def, Option.some.injEq, forall_eq']
    constructor
    · intro hv
      rw [h]
      exact hv.opened_iff.mp (by simp [hpos])
    · intro hne
      exact ⟨by simpa [hpos, ← h] using hne, by simpa [hpos] using h⟩

theorem step_keeps_volume (hpos : m.openedPosition = some pos)
    (hne : pos.absoluteVolume.value ≠ 0)
    (hd : m.volume + t.signedVolume.value = 0 ∨ dustVolume < |m.volume + t.signedVolume.value|) :
    ∀ pos' ∈ (m.step t).openedPosition, pos'.absoluteVolume.value ≠ 0 := by
  intro pos' hpos'
  by_cases hv : t.signedVolume.IsZero
  · have hr := onTradeReceived_grow (t := t) hpos (by rw [OpenedPosition.onTrade, if_pos hv])
    rw [step, hr, OpenedPosition.onTrade, if_pos hv, Option.mem_def, Option.some.injEq] at hpos'
    exact hpos' ▸ hne
  have hvol := volume_step hd
  rw [volume_of_opened hpos', volume_of_opened hpos] at hvol
  rw [volume_of_opened hpos] at hd
  rw [hvol]
  by_cases hg : pos.Grows t.signedVolume
  · exact hg.sum_ne_zero hv
  · obtain ⟨_, hnone⟩ | ⟨hsum, _⟩ := step_against hpos hg hv hd
    · exact absurd (hnone.symm.trans hpos') (by simp)
    · exact hsum

/--
If no running sum of the trades is dust, the manager has an opened position after each trade
just when the volume since the last flat state is not zero, and holds that volume, provided
that no trade without volume arrives while it has none; such a trade opens a position.
-/
theorem opened_iff_netVolume_ne_zero (ts : List Trade) (h : NoDust ts) :
    (∀ pre, pre <+: ts → (after step init pre).HoldsVolume pre) ↔
      Meets step OpensWithVolume init ts := by
  have hvolume (pre : List Trade) (hp : pre <+: ts) :
      (after step init pre).volume = netVolume (sinceOpened pre) := by
    rw [netVolume_sinceOpened]
    exact volume_run fun p hp' => h p (hp'.trans hp)
  refine forall_prefix_iff_meets ?_ fun pre t hp hpre => ?_
  · exact (holdsVolume_iff (hvolume [] (List.nil_prefix))).mpr (by simp [init])
  · have hold := hvolume pre ((List.prefix_append ..).trans hp)
    have hsum := h _ hp
    rw [netVolume_concat, ← netVolume_sinceOpened, ← hold] at hsum
    rw [holdsVolume_iff (hvolume _ hp), after_concat]
    unfold OpensWithVolume
    cases hpos : (after step init pre).openedPosition with
    | none =>
      rw [volume_of_flat hpos] at hsum
      rw [step, onTradeReceived_open hpos]
      simp only [Option.mem_def, Option.some.injEq, forall_eq', forall_const]
      have hnew : (OpenedPosition.ofTrade (after step init pre).nextGuid
          t).absoluteVolume.value = 0 + t.signedVolume.value :=
        OpenedPosition.onTrade_volume' t.price t.fee hsum
      rw [hnew, zero_add, Trade.value_signedVolume]
      cases t.side <;> simp
    | some pos =>
      have hne := (holdsVolume_iff hold).mp hpre pos hpos
      exact iff_of_true (step_keeps_volume hpos hne hsum) (by simp)

/-- A purchase, a trade without volume and the sale of all that was bought. -/
theorem opened_iff_netVolume_ne_zero_sold :
    let buy : Trade := ⟨1, "BTCUSDT", 1, 100, ⟨2, zero_le_two⟩, .buy, 1⟩
    let empty : Trade := ⟨2, "BTCUSDT", 2, 110, .zero, .buy, 0⟩
    let sell : Trade := ⟨3, "BTCUSDT", 3, 120, ⟨2, zero_le_two⟩, .sell, 1⟩
    NoDust [buy, empty, sell] ∧
      ∀ pre, pre <+: [buy, empty, sell] → (after step init pre).HoldsVolume pre := by
  intro buy empty sell
  have h : NoDust [buy, empty, sell] := by decide +kernel
  have hopens : Meets step OpensWithVolume init [buy, empty, sell] := by decide +kernel
  exact ⟨h, (opened_iff_netVolume_ne_zero _ h).mpr hopens⟩

/-- A single trade without volume opens a position. -/
theorem opened_by_zero_volume :
    let ts : List Trade := [⟨1, "BTCUSDT", 1, 100, .zero, .buy, 0⟩]
    NoDust ts ∧ netVolume (sinceOpened ts) = 0 ∧
      (after step init ts).openedPosition.isSome := by
  decide +kernel

end PositionManager

end CryptoTrading

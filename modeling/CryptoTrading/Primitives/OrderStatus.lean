import CryptoTrading.Lib.Runs
import CryptoTrading.Primitives.Order

/-! # The status of a conditional order

It is computed from the target, the filled and the suspended volume. An activation suspends
the whole target volume, whatever is filled already, and a cancel makes the filled volume
the target.
-/

namespace CryptoTrading

open Runs

inductive ConditionalOrderCall
  | stateChanged (active : Bool)
  | trade (vol : UnsignedVolume) (price fee : ℚ)
  | cancel
  deriving DecidableEq

def ConditionalOrderCall.volume : ConditionalOrderCall → ℚ
  | trade vol _ _ => vol.value
  | _ => 0

def calledVolume (cs : List ConditionalOrderCall) : ℚ := (cs.map (·.volume)).sum

namespace ConditionalMarketOrder

def step (o : ConditionalMarketOrder) : ConditionalOrderCall → ConditionalMarketOrder
  | .stateChanged active => o.onStateChanged active
  | .trade vol price fee => o.onTrade vol price fee
  | .cancel => o.cancel

/-- A call that does not take the status of a filled order away: no activation or cancel of
an order that is filled, and no trade that fills an order with a cancel requested or with more
volume suspended than its own. -/
def KeepsStatus (target : ℚ) (o : ConditionalMarketOrder) : ConditionalOrderCall → Prop
  | .stateChanged active => o.filledVolume.value = target → active = false
  | .trade vol _ _ => o.filledVolume.value + vol.value = target →
    o.cancelRequested = false ∧
      (o.suspendedVolume.value = 0 ∨ o.suspendedVolume.value = vol.value)
  | .cancel => o.filledVolume.value ≠ target

instance (target : ℚ) (o : ConditionalMarketOrder) :
    (c : ConditionalOrderCall) → Decidable (o.KeepsStatus target c)
  | .stateChanged _ => inferInstanceAs (Decidable (_ → _))
  | .trade .. => inferInstanceAs (Decidable (_ → _))
  | .cancel => inferInstanceAs (Decidable (¬ _))

/-- A filled order says so, and one that was cancelled had its cancel requested before it was
filled. -/
structure StatusRight (o : ConditionalMarketOrder) (target : ℚ) (cs : List ConditionalOrderCall) :
    Prop where
  filled : (after step o cs).filledVolume.value = target → (after step o cs).status = .filled
  cancelled : (after step o cs).status = .cancelled →
    ∃ pre, pre ++ [.cancel] <+: cs ∧ (after step o pre).filledVolume.value < target

variable {o : ConditionalMarketOrder} {target : ℚ} {c : ConditionalOrderCall}
  {cs pre : List ConditionalOrderCall}

structure Sound (o : ConditionalMarketOrder) (target : ℚ) : Prop where
  rejectReason : o.rejectReason = ""
  targetVolume : o.cancelRequested = false → o.targetVolume.value = target

theorem Sound.kept (h : o.Sound target) (c : ConditionalOrderCall) : (o.step c).Sound target := by
  cases c with
  | stateChanged active => exact ⟨h.rejectReason, h.targetVolume⟩
  | trade vol price fee => exact ⟨h.rejectReason, h.targetVolume⟩
  | cancel =>
    constructor
    · exact h.rejectReason
    · rintro ⟨⟩

theorem Sound.run (h : o.Sound target) (cs : List ConditionalOrderCall) :
    (after step o cs).Sound target := by
  induction cs using List.reverseRecOn with
  | nil => exact h
  | append_singleton cs c ih =>
    rw [after_concat]
    exact ih.kept c

theorem filledVolume_step (o : ConditionalMarketOrder) (c : ConditionalOrderCall) :
    (o.step c).filledVolume.value = o.filledVolume.value + c.volume := by
  cases c with
  | stateChanged active => exact (add_zero _).symm
  | trade vol price fee => rfl
  | cancel => exact (add_zero _).symm

theorem volume_nonneg (c : ConditionalOrderCall) : 0 ≤ c.volume := by
  cases c with
  | stateChanged active => exact le_rfl
  | trade vol price fee => exact vol.nonneg
  | cancel => exact le_rfl

theorem calledVolume_nonneg (cs : List ConditionalOrderCall) : 0 ≤ calledVolume cs := by
  induction cs with
  | nil => exact le_rfl
  | cons c cs ih => exact add_nonneg (volume_nonneg c) ih

theorem filledVolume_run (o : ConditionalMarketOrder) (cs : List ConditionalOrderCall) :
    (after step o cs).filledVolume.value = o.filledVolume.value + calledVolume cs := by
  induction cs using List.reverseRecOn with
  | nil => simp [calledVolume]
  | append_singleton cs c ih =>
    rw [after_concat, filledVolume_step, ih]
    simp [calledVolume]
    ring

theorem filledVolume_mono (o : ConditionalMarketOrder) (h : pre <+: cs) :
    (after step o pre).filledVolume.value ≤ (after step o cs).filledVolume.value := by
  obtain ⟨post, rfl⟩ := h
  rw [after_append, filledVolume_run _ post]
  exact le_add_of_nonneg_right (calledVolume_nonneg post)

theorem status_eq_filled_iff (h : o.Sound target) (hfilled : o.filledVolume.value = target) :
    o.status = .filled ↔ o.cancelRequested = false ∧ o.suspendedVolume.value = 0 := by
  unfold status
  rw [if_neg (not_not.mpr h.rejectReason)]
  cases hcancel : o.cancelRequested with
  | true =>
    simp only [if_true]
    split <;> simp
  | false =>
    have htarget : o.targetVolume = o.filledVolume := by
      ext
      rw [h.targetVolume hcancel, hfilled]
    rw [htarget]
    simp only [UnsignedVolume.lt_self, UnsignedVolume.le_self]
    rcases o.suspendedVolume.nonneg.eq_or_lt with hzero | hpos
    · simp [← hzero]
    · simp [hpos, hpos.ne']

theorem subAssign_eq_zero_iff {v w : UnsignedVolume} :
    (v.subAssign w).value = 0 ↔ v.value = 0 ∨ v.value = w.value := by
  unfold UnsignedVolume.subAssign
  split
  case isTrue hlt => exact (or_iff_left hlt.ne).symm
  case isFalse hle =>
    rw [sub_eq_zero, iff_or_self]
    intro hzero
    exact le_antisymm (hzero ▸ w.nonneg) (not_lt.mp hle)

/-- A call keeps the status right just when it is one that does not take it away. -/
theorem filled_step_iff (h : o.Sound target) (htarget : 0 < target)
    (hright : o.filledVolume.value = target → o.status = .filled) :
    ((o.step c).filledVolume.value = target → (o.step c).status = .filled) ↔
      o.KeepsStatus target c := by
  rw [filledVolume_step]
  cases c with
  | stateChanged active =>
    have hvolume : (ConditionalOrderCall.stateChanged active).volume = 0 := rfl
    rw [hvolume, add_zero]
    apply imp_congr_right
    intro hfilled
    have hfree := (status_eq_filled_iff h hfilled).mp (hright hfilled)
    rw [status_eq_filled_iff (h.kept (.stateChanged active)) hfilled]
    cases active with
    | true => simp [step, onStateChanged, hfree.1, h.targetVolume hfree.1, htarget.ne']
    | false => simp [step, onStateChanged, hfree.1]
  | trade vol price fee =>
    apply imp_congr_right
    intro hfilled
    rw [status_eq_filled_iff (h.kept _) ((filledVolume_step ..).trans hfilled)]
    exact and_congr_right fun _ => subAssign_eq_zero_iff
  | cancel =>
    have hvolume : ConditionalOrderCall.cancel.volume = 0 := rfl
    rw [hvolume, add_zero]
    apply imp_congr_right
    intro hfilled
    rw [status_eq_filled_iff (h.kept .cancel) hfilled]
    simp [step, cancel]

theorem exists_cancel (h : o.cancelRequested = false)
    (hc : (after step o cs).cancelRequested = true) : ∃ pre, pre ++ [.cancel] <+: cs := by
  induction cs using List.reverseRecOn with
  | nil =>
    rw [after_nil, h] at hc
    cases hc
  | append_singleton cs c ih =>
    rw [after_concat] at hc
    cases c with
    | cancel => exact ⟨cs, List.prefix_rfl⟩
    | stateChanged active | trade vol price fee =>
      obtain ⟨pre, hpre⟩ := ih hc
      exact ⟨pre, hpre.trans (List.prefix_append ..)⟩

theorem cancelRequested_of_cancelled (h : o.status = .cancelled) : o.cancelRequested = true := by
  by_contra hnot
  unfold status at h
  rw [Bool.not_eq_true] at hnot
  rw [hnot] at h
  split_ifs at h
  simp_all

theorem statusRight_of_filled (hc : o.cancelRequested = false)
    (hle : (after step o cs).filledVolume.value ≤ target)
    (hfilled : (after step o cs).filledVolume.value = target →
      (after step o cs).status = .filled) : o.StatusRight target cs := by
  refine ⟨hfilled, fun hcancelled => ?_⟩
  obtain ⟨pre, hpre⟩ := exists_cancel hc (cancelRequested_of_cancelled hcancelled)
  have hlt : (after step o cs).filledVolume.value < target := by
    apply lt_of_le_of_ne hle
    intro heq
    rw [hfilled heq] at hcancelled
    cases hcancelled
  exact ⟨pre, hpre,
    (filledVolume_mono o ((List.prefix_append ..).trans hpre)).trans_lt hlt⟩

/--
In a run of calls that fill at most the target volume, an order says that it is filled from
the time on when it is, and that it is cancelled only if a cancel came before, just when no
call takes the status away.
-/
theorem statusRight_iff (guid : Guid) (symbol : String) (price : ℚ) (volume : UnsignedVolume)
    (side : Side) (type : ConditionalType) (signalTs : Milliseconds)
    (cs : List ConditionalOrderCall) (hpos : 0 < volume.value)
    (hsum : calledVolume cs ≤ volume.value) :
    let o := new guid symbol price volume side type signalTs
    (∀ pre, pre <+: cs → o.StatusRight volume.value pre) ↔
      Meets step (KeepsStatus volume.value) o cs := by
  intro o
  have hsound : o.Sound volume.value := ⟨rfl, fun _ => rfl⟩
  have hle (pre : List ConditionalOrderCall) (hpre : pre <+: cs) :
      (after step o pre).filledVolume.value ≤ volume.value := by
    have hrun := filledVolume_run o cs
    have hzero : o.filledVolume.value = 0 := rfl
    have hmono := filledVolume_mono o hpre
    linarith
  have hright (pre : List ConditionalOrderCall) (hpre : pre <+: cs) :
      o.StatusRight volume.value pre ↔
        ((after step o pre).filledVolume.value = volume.value →
          (after step o pre).status = .filled) :=
    ⟨StatusRight.filled, statusRight_of_filled rfl (hle pre hpre)⟩
  refine forall_prefix_iff_meets ?_ fun pre c hpre hkept => ?_
  · rw [hright [] (List.nil_prefix)]
    intro hzero
    exact absurd hzero hpos.ne
  · rw [hright _ hpre, after_concat]
    exact filled_step_iff (hsound.run pre) hpos hkept.filled

/-- Half of an order is filled, the order is cancelled, and the cancel is acknowledged. -/
theorem statusRight_iff_half :
    let cs : List ConditionalOrderCall :=
      [.stateChanged true, .trade ⟨1, zero_le_one⟩ 90 1, .cancel, .stateChanged false]
    let o := new 1 "BTCUSDT" 90 ⟨2, zero_le_two⟩ .sell .stopLoss 1
    0 < (2 : ℚ) ∧ calledVolume cs ≤ 2 ∧ ∀ pre, pre <+: cs → o.StatusRight 2 pre := by
  intro cs o
  have hsum : calledVolume cs ≤ 2 := by decide +kernel
  have hkeeps : Meets step (KeepsStatus 2) o cs := by decide +kernel
  exact ⟨two_pos, hsum,
    (statusRight_iff 1 "BTCUSDT" 90 ⟨2, zero_le_two⟩ .sell .stopLoss 1 cs two_pos hsum).mpr hkeeps⟩

/-- An order that is filled and then cancelled, as by the last subscriber who leaves. -/
theorem filled_then_cancelled :
    let cs : List ConditionalOrderCall :=
      [.stateChanged true, .trade ⟨2, zero_le_two⟩ 90 1, .cancel]
    let o := new 1 "BTCUSDT" 90 ⟨2, zero_le_two⟩ .sell .stopLoss 1
    (after step o cs).filledVolume.value = 2 ∧ (after step o cs).status = .cancelled ∧
      ¬ o.StatusRight 2 cs := by
  intro cs o
  have hfilled : (after step o cs).filledVolume.value = 2 := by decide +kernel
  have hstatus : (after step o cs).status = .cancelled := by decide +kernel
  refine ⟨hfilled, hstatus, fun h => ?_⟩
  have hcontra := h.filled hfilled
  rw [hstatus] at hcontra
  cases hcontra

end ConditionalMarketOrder

end CryptoTrading

import CryptoTrading.Lib.AverageCost
import CryptoTrading.Positions.Accounting

/-! # Entry price and entry fee of the opened position

The opened position follows average-cost accounting while it is increased and reduced.
A trade that takes it through zero keeps the old entry price for the remainder and
extracts more fee than the position holds.
-/

namespace CryptoTrading

open CostBasis Runs

namespace OpenedPosition

def enter (pos : OpenedPosition) (t : Trade) : OpenedPosition :=
  (pos.onTrade t.price t.signedVolume t.fee).1

def hold (h : Holding ℚ) (t : Trade) : Holding ℚ := h.enter dustVolume t.fill

/-- The trade leaves a remainder on the other side of zero. -/
def Crosses (pos : OpenedPosition) (t : Trade) : Prop :=
  pos.absoluteVolume.value * t.signedVolume.value < 0 ∧
    |pos.absoluteVolume.value| < |t.signedVolume.value| ∧
    dustVolume < |pos.absoluteVolume.value + t.signedVolume.value|

instance (pos : OpenedPosition) (t : Trade) : Decidable (pos.Crosses t) :=
  inferInstanceAs (Decidable (_ ∧ _ ∧ _))

def Opens (pos : OpenedPosition) (t : Trade) : Prop :=
  pos.absoluteVolume.IsZero ∧ dustVolume < |t.signedVolume.value|

instance (pos : OpenedPosition) (t : Trade) : Decidable (pos.Opens t) :=
  inferInstanceAs (Decidable (_ ∧ _))

/-- A trade through zero is made at the entry price of the position. -/
def KeepsPrice (pos : OpenedPosition) (t : Trade) : Prop :=
  pos.Crosses t → t.price = pos.avgEntryPrice

instance (pos : OpenedPosition) (t : Trade) : Decidable (pos.KeepsPrice t) :=
  inferInstanceAs (Decidable (_ → _))

/-- A trade through zero finds and pays no fee, and one that opens the position finds none. -/
def KeepsFee (pos : OpenedPosition) (t : Trade) : Prop :=
  (pos.Crosses t → pos.totalEntryFee = 0 ∧ t.fee = 0) ∧ (pos.Opens t → pos.totalEntryFee = 0)

instance (pos : OpenedPosition) (t : Trade) : Decidable (pos.KeepsFee t) :=
  inferInstanceAs (Decidable (_ ∧ _))

variable {pos : OpenedPosition} {t : Trade} {ts : List Trade} {h : Holding ℚ}

/-- While the position is open its entry price is that of the holding. -/
def SamePrice (pos : OpenedPosition) (h : Holding ℚ) : Prop :=
  ¬ pos.absoluteVolume.IsZero → pos.avgEntryPrice = h.entryPrice

/-- While the position is open its entry fee is that of the holding. -/
def SameFee (pos : OpenedPosition) (h : Holding ℚ) : Prop :=
  ¬ pos.absoluteVolume.IsZero → pos.totalEntryFee = h.entryFee

section Step

variable (hv : ¬ t.signedVolume.IsZero)

include hv

theorem enter_volume :
    (pos.enter t).absoluteVolume.value =
      if |pos.absoluteVolume.value + t.signedVolume.value| ≤ dustVolume then 0
      else pos.absoluteVolume.value + t.signedVolume.value := by
  have hadd (p : OpenedPosition) : (p.addVolume t.signedVolume).absoluteVolume.value =
      if |p.absoluteVolume.value + t.signedVolume.value| ≤ dustVolume then 0
      else p.absoluteVolume.value + t.signedVolume.value := by
    simp only [addVolume, SignedVolume.value_add]
    split_ifs <;> rfl
  unfold enter onTrade
  rw [if_neg hv]
  split
  · exact hadd _
  · exact hadd _

theorem grows_iff : pos.Grows t.signedVolume ↔
    0 ≤ pos.absoluteVolume.value * t.signedVolume.value := by
  unfold Grows
  by_cases hz : pos.absoluteVolume.IsZero
  · simp [hz, SignedVolume.isZero_iff.mp hz]
  · have hne : t.signedVolume.value * pos.absoluteVolume.value ≠ 0 := mul_ne_zero hv hz
    simp only [hz, false_or]
    rw [SignedVolume.sign_eq_iff hv hz, mul_comm]
    exact ⟨le_of_lt, fun hle => hle.lt_of_ne' (mul_comm pos.absoluteVolume.value _ ▸ hne)⟩

theorem enter_of_add (hs : 0 ≤ pos.absoluteVolume.value * t.signedVolume.value) :
    (pos.enter t).avgEntryPrice =
        (pos.avgEntryPrice * pos.absoluteVolume.value + t.price * t.signedVolume.value) /
          (pos.absoluteVolume.value + t.signedVolume.value) ∧
      (pos.enter t).totalEntryFee = pos.totalEntryFee + t.fee := by
  rw [enter, onTrade_of_grows ((grows_iff hv).mpr hs) hv]
  exact ⟨rfl, rfl⟩

theorem enter_of_against (hs : pos.absoluteVolume.value * t.signedVolume.value < 0) :
    (pos.enter t).avgEntryPrice = pos.avgEntryPrice ∧
      (pos.enter t).totalEntryFee = pos.totalEntryFee *
        ((pos.absoluteVolume.value + t.signedVolume.value) / pos.absoluteVolume.value) := by
  rw [enter, onTrade_of_not_grows pos _ _ (mt (grows_iff hv).mp hs.not_ge) hv]
  refine ⟨rfl, ?_⟩
  simp only [addVolume_totalEntryFee, extractFee, SignedVolume.value_unsigned]
  rw [Holding.remainder_eq hs]
  ring

end Step

structure Mirrors (pos : OpenedPosition) (h : Holding ℚ) : Prop where
  volume : pos.absoluteVolume.value = h.volume
  fee : h.volume = 0 → h.entryFee = 0

theorem Mirrors.enter (hm : pos.Mirrors h) (hv : ¬ t.signedVolume.IsZero) :
    (pos.enter t).Mirrors (hold h t) := by
  obtain ⟨hvol, hfee⟩ := hm
  constructor
  · rw [enter_volume hv, hold, Holding.enter_volume, hvol]
    rfl
  · intro hz
    rcases le_or_gt |h.volume + t.fill.volume| dustVolume with hd | hd
    · rw [hold, Holding.enter_of_dust hd]
      rfl
    · rw [hold, Holding.enter_volume, if_neg hd.not_ge] at hz
      rw [hz, abs_zero] at hd
      exact absurd dustVolume_pos hd.not_gt

theorem Crosses.not_isZero (hc : pos.Crosses t) : ¬ pos.absoluteVolume.IsZero :=
  left_ne_zero_of_mul hc.1.ne

theorem Mirrors.enter_cases (hm : pos.Mirrors h) (hv : ¬ t.signedVolume.IsZero) :
    ((pos.enter t).absoluteVolume.IsZero ∧ ¬ pos.Crosses t ∧ ¬ pos.Opens t) ∨
    (¬ (pos.enter t).absoluteVolume.IsZero ∧ ¬ pos.Crosses t ∧
      (pos.absoluteVolume.IsZero ↔ pos.Opens t) ∧
      (pos.enter t).avgEntryPrice =
        (pos.avgEntryPrice * h.volume + t.price * t.signedVolume.value) /
          (h.volume + t.signedVolume.value) ∧
      (hold h t).entryPrice = (h.entryPrice * h.volume + t.price * t.signedVolume.value) /
          (h.volume + t.signedVolume.value) ∧
      (pos.enter t).totalEntryFee = pos.totalEntryFee + t.fee ∧
      (hold h t).entryFee = h.entryFee + t.fee) ∨
    (¬ (pos.enter t).absoluteVolume.IsZero ∧ ¬ pos.absoluteVolume.IsZero ∧
      (pos.enter t).avgEntryPrice = pos.avgEntryPrice ∧
      (pos.enter t).totalEntryFee =
        pos.totalEntryFee * ((h.volume + t.signedVolume.value) / h.volume) ∧
      (¬ pos.Crosses t ∧ (hold h t).entryPrice = h.entryPrice ∧
          (hold h t).entryFee = h.entryFee * ((h.volume + t.signedVolume.value) / h.volume) ∨
        pos.Crosses t ∧ (hold h t).entryPrice = t.price ∧
          (hold h t).entryFee =
            t.fee * ((h.volume + t.signedVolume.value) / t.signedVolume.value))) := by
  obtain ⟨hvol, -⟩ := hm
  have hnew : (pos.enter t).absoluteVolume.value =
      if |pos.absoluteVolume.value + t.signedVolume.value| ≤ dustVolume then 0
      else pos.absoluteVolume.value + t.signedVolume.value := enter_volume hv
  rcases le_or_gt |pos.absoluteVolume.value + t.signedVolume.value| dustVolume with hd | hd
  · rw [if_pos hd] at hnew
    refine .inl ⟨hnew, fun hc => hc.2.2.not_ge hd, ?_⟩
    rintro ⟨hz, hw⟩
    rw [SignedVolume.isZero_iff.mp hz, zero_add] at hd
    exact hw.not_ge hd
  have hopen : ¬ (pos.enter t).absoluteVolume.IsZero := by
    rw [SignedVolume.isZero_iff, hnew, if_neg hd.not_ge]
    exact abs_pos.mp (dustVolume_pos.trans hd)
  have hd' : dustVolume < |h.volume + t.fill.volume| := hvol ▸ hd
  rcases le_or_gt 0 (pos.absoluteVolume.value * t.signedVolume.value) with hs | hs
  · obtain ⟨havg, hfee⟩ := enter_of_add hv hs
    have hnc : ¬ pos.Crosses t := fun hc => hc.1.not_ge hs
    have hopens : pos.absoluteVolume.IsZero ↔ pos.Opens t := by
      refine ⟨fun hz => ⟨hz, ?_⟩, And.left⟩
      rwa [SignedVolume.isZero_iff.mp hz, zero_add] at hd
    rw [hvol] at havg hs
    rw [hold, Holding.enter_of_add hd' hs]
    exact .inr (.inl ⟨hopen, hnc, hopens, havg, rfl, hfee, rfl⟩)
  have hz : ¬ pos.absoluteVolume.IsZero := left_ne_zero_of_mul hs.ne
  obtain ⟨havg, hfee⟩ := enter_of_against hv hs
  refine .inr (.inr ⟨hopen, hz, havg, hvol ▸ hfee, ?_⟩)
  rcases le_or_gt |t.signedVolume.value| |pos.absoluteVolume.value| with hle | hlt
  · have hnc : ¬ pos.Crosses t := fun hc => hc.2.1.not_ge hle
    rw [hvol] at hs hle
    rw [hold, Holding.enter_of_reduce hd' hs hle]
    exact .inl ⟨hnc, rfl, rfl⟩
  · have hc : pos.Crosses t := ⟨hs, hlt, hd⟩
    rw [hvol] at hs hlt
    have hcross : h.Crosses dustVolume t.fill := ⟨hs, hlt, hd'⟩
    rw [hold, Holding.enter_of_crosses hcross]
    exact .inr ⟨hc, rfl, rfl⟩

/-- One trade keeps the entry price right just when it does not take the position through zero
at another price. -/
theorem samePrice_step_iff (hm : pos.Mirrors h) (hv : ¬ t.signedVolume.IsZero)
    (hp : pos.SamePrice h) : (pos.enter t).SamePrice (hold h t) ↔ pos.KeepsPrice t := by
  unfold SamePrice KeepsPrice
  obtain ⟨hclosed, hnc, -⟩ | ⟨hopen, hnc, -, havg, hprice, -⟩ |
    ⟨hopen, hz, havg, -, ⟨hnc, hprice, -⟩ | ⟨hc, hprice, -⟩⟩ := hm.enter_cases hv
  · exact iff_of_true (fun hopen => absurd hclosed hopen) fun hc => absurd hc hnc
  · have hamount : pos.avgEntryPrice * h.volume = h.entryPrice * h.volume := by
      by_cases hz : pos.absoluteVolume.IsZero
      · rw [← hm.volume, SignedVolume.isZero_iff.mp hz, mul_zero, mul_zero]
      · rw [hp hz]
    refine iff_of_true (fun _ => ?_) fun hc => absurd hc hnc
    rw [havg, hprice, hamount]
  · refine iff_of_true (fun _ => ?_) fun hc => absurd hc hnc
    rw [havg, hprice, hp hz]
  · rw [havg, hprice]
    exact ⟨fun he _ => (he hopen).symm, fun he _ => (he hc).symm⟩

/-- One trade with no negative fee keeps the entry fee right just when it finds no fee to hand
out twice. -/
theorem sameFee_step_iff (hm : pos.Mirrors h) (hv : ¬ t.signedVolume.IsZero)
    (hh : 0 ≤ h.entryFee) (hf : 0 ≤ t.fee) (hp : pos.SameFee h) :
    (pos.enter t).SameFee (hold h t) ↔ pos.KeepsFee t := by
  unfold SameFee KeepsFee
  obtain ⟨hclosed, hnc, hno⟩ | ⟨hopen, hnc, hopens, -, -, hfee, hheld⟩ |
    ⟨hopen, hz, -, hfee, ⟨hnc, -, hheld⟩ | ⟨hc, -, hheld⟩⟩ := hm.enter_cases hv
  · exact iff_of_true (fun hopen => absurd hclosed hopen)
      ⟨fun hc => absurd hc hnc, fun ho => absurd ho hno⟩
  · rw [hfee, hheld, add_left_inj, ← hopens]
    simp only [hopen, hnc, not_false_eq_true, forall_const, false_imp_iff, true_and]
    by_cases hz : pos.absoluteVolume.IsZero
    · rw [hm.fee (hm.volume ▸ hz)]
      exact ⟨fun he _ => he, fun he => he hz⟩
    · exact iff_of_true (hp hz) fun hz' => absurd hz' hz
  · have hno : ¬ pos.Opens t := fun ho => hz ho.1
    refine iff_of_true (fun _ => ?_) ⟨fun hc => absurd hc hnc, fun ho => absurd ho hno⟩
    rw [hfee, hheld, hp hz]
  · have hno : ¬ pos.Opens t := fun ho => hz ho.1
    obtain ⟨hs, hlt, -⟩ := id hc
    rw [hm.volume] at hs hlt
    have hneg := Holding.remainder_neg hs hlt
    have hpos := Holding.remainder_pos (mul_comm h.volume _ ▸ hs) hlt
    rw [add_comm] at hpos
    rw [hfee, hheld, hp hz]
    simp only [hopen, hc, hno, not_false_eq_true, forall_const, false_imp_iff, and_true]
    constructor
    · intro he
      constructor <;> nlinarith
    · rintro ⟨hh, hf⟩
      rw [hh, hf, zero_mul, zero_mul]

section Run

variable (guid : Guid) (t : Trade) (ts : List Trade)

theorem start_mirrors (hv : ¬ t.signedVolume.IsZero) :
    (ofTrade guid t).Mirrors (hold .empty t) ∧ (ofTrade guid t).SamePrice (hold .empty t) ∧
      (0 ≤ t.fee → (ofTrade guid t).SameFee (hold .empty t)) := by
  let start : OpenedPosition := ⟨guid, .zero, 0, 0, t.ts⟩
  have hm : start.Mirrors .empty := ⟨rfl, fun _ => rfl⟩
  have hnc : ¬ start.Crosses t := fun hc => hc.not_isZero SignedVolume.isZero_zero
  refine ⟨hm.enter hv, ?_, fun hf => ?_⟩
  · exact (samePrice_step_iff hm hv fun hz => absurd rfl hz).mpr fun hc => absurd hc hnc
  · refine (sameFee_step_iff hm hv le_rfl hf fun _ => rfl).mpr ?_
    exact ⟨fun hc => absurd hc hnc, fun _ => rfl⟩

variable {guid t ts}

theorem run_mirrors (hv : ∀ x ∈ t :: ts, x.unsignedVolume.value ≠ 0) :
    (after enter (ofTrade guid t) ts).Mirrors (after hold (hold .empty t) ts) := by
  induction ts using List.reverseRecOn with
  | nil => exact (start_mirrors guid t (not_isZero_signedVolume (hv t (by simp)))).1
  | append_singleton ts x ih =>
    rw [after_concat, after_concat]
    have hx := not_isZero_signedVolume (hv x (by simp))
    exact (ih fun y hy => hv y (List.mem_append_left [x] hy)).enter hx

theorem run_entryFee_nonneg (hf : ∀ x ∈ t :: ts, 0 ≤ x.fee) :
    0 ≤ (after hold (hold .empty t) ts).entryFee := by
  induction ts using List.reverseRecOn with
  | nil => exact Holding.enter_entryFee_nonneg le_rfl (hf t (by simp))
  | append_singleton ts x ih =>
    rw [after_concat]
    exact Holding.enter_entryFee_nonneg (ih fun y hy => hf y (List.mem_append_left [x] hy))
      (hf x (by simp))

end Run

/--
While the position is open its entry price is that of average-cost accounting, and without
negative fees its entry fee too, just when no trade takes the position through zero at another
price, and none finds a fee that it hands out twice or leaves over.
-/
theorem average_cost_iff (guid : Guid) (t : Trade) (ts : List Trade)
    (hv : ∀ x ∈ t :: ts, x.unsignedVolume.value ≠ 0) :
    (∀ pre, pre <+: ts →
      (after enter (ofTrade guid t) pre).SamePrice (after hold (hold .empty t) pre)) ∧
    ((∀ x ∈ t :: ts, 0 ≤ x.fee) → ∀ pre, pre <+: ts →
      (after enter (ofTrade guid t) pre).SameFee (after hold (hold .empty t) pre)) ↔
    Meets enter KeepsPrice (ofTrade guid t) ts ∧
    ((∀ x ∈ t :: ts, 0 ≤ x.fee) → Meets enter KeepsFee (ofTrade guid t) ts) := by
  have ht := not_isZero_signedVolume (hv t (by simp))
  have hstart := start_mirrors guid t ht
  have hpre {pre : List Trade} (hp : pre <+: ts) {x : Trade} (hx : x ∈ t :: pre) : x ∈ t :: ts :=
    (List.cons_prefix_cons.mpr ⟨rfl, hp⟩).subset hx
  have hstep {pre : List Trade} {x : Trade} (hp : pre ++ [x] <+: ts) :
      (after enter (ofTrade guid t) pre).Mirrors (after hold (hold .empty t) pre) ∧
        ¬ x.signedVolume.IsZero := by
    refine ⟨run_mirrors fun y hy => hv y (hpre ((List.prefix_append ..).trans hp) hy), ?_⟩
    exact not_isZero_signedVolume (hv x (hpre hp (by simp)))
  refine and_congr ?_ (imp_congr_right fun hf => ?_)
  · refine forall_prefix_iff_meets hstart.2.1 fun pre x hp hsame => ?_
    obtain ⟨hm, hx⟩ := hstep hp
    rw [after_concat, after_concat]
    exact samePrice_step_iff hm hx hsame
  · refine forall_prefix_iff_meets (hstart.2.2 (hf t (by simp))) fun pre x hp hsame => ?_
    obtain ⟨hm, hx⟩ := hstep hp
    have hheld := run_entryFee_nonneg fun y hy =>
      hf y (hpre ((List.prefix_append ..).trans hp) hy)
    rw [after_concat, after_concat]
    exact sameFee_step_iff hm hx hheld (hf x (hpre hp (by simp))) hsame

/-- A purchase that is increased, and sold in part. -/
theorem average_cost_iff_partial_sale :
    let buy : Trade := ⟨1, "BTCUSDT", 1, 100, ⟨2, zero_le_two⟩, .buy, 2⟩
    let again : Trade := ⟨2, "BTCUSDT", 2, 110, ⟨2, zero_le_two⟩, .buy, 2⟩
    let sell : Trade := ⟨3, "BTCUSDT", 3, 120, ⟨1, zero_le_one⟩, .sell, 1⟩
    (∀ x ∈ [buy, again, sell], x.unsignedVolume.value ≠ 0) ∧
      ∀ pre, pre <+: [again, sell] →
        (after enter (ofTrade 1 buy) pre).SamePrice (after hold (hold .empty buy) pre) := by
  intro buy again sell
  have hv : ∀ x ∈ [buy, again, sell], x.unsignedVolume.value ≠ 0 := by decide +kernel
  have hprice : Meets enter KeepsPrice (ofTrade 1 buy) [again, sell] := by decide +kernel
  have hfee : Meets enter KeepsFee (ofTrade 1 buy) [again, sell] := by decide +kernel
  exact ⟨hv, ((average_cost_iff 1 buy [again, sell] hv).mpr ⟨hprice, fun _ => hfee⟩).1⟩

/-- A sale through zero keeps the price of the purchase and a negative entry fee. -/
theorem average_cost_through_zero :
    let buy : Trade := ⟨1, "BTCUSDT", 1, 100, ⟨1, zero_le_one⟩, .buy, 1⟩
    let sell : Trade := ⟨2, "BTCUSDT", 2, 90, ⟨4, zero_le_four⟩, .sell, 4⟩
    let pos := (ofTrade 1 buy).enter sell
    let held := hold (hold .empty buy) sell
    ¬ pos.absoluteVolume.IsZero ∧ pos.avgEntryPrice = 100 ∧ held.entryPrice = 90 ∧
      pos.totalEntryFee = -3 ∧ held.entryFee = 3 := by
  decide +kernel

end OpenedPosition

end CryptoTrading

import CryptoTrading.Engine.QtySteps

/-! # The lot size of sent orders

The volume of an order is rounded to the nearest quantity step, although the function
that rounds it is called floored, and the limits of the lot size are not looked at.
-/

namespace CryptoTrading

theorem stdRound_of_nonneg {q : ℚ} (h : 0 ≤ q) : stdRound q = ⌊q + 1 / 2⌋ :=
  if_neg (not_lt.mpr h)

theorem stdRound_nonneg {q : ℚ} (h : 0 ≤ q) : 0 ≤ stdRound q := by
  rw [stdRound_of_nonneg h]
  exact Int.floor_nonneg.mpr (by linarith)

theorem stdRound_eq_zero_iff {q : ℚ} (h : 0 ≤ q) : stdRound q = 0 ↔ q < 1 / 2 := by
  rw [stdRound_of_nonneg h, Int.floor_eq_zero_iff, Set.mem_Ico]
  constructor
  · rintro ⟨-, hlt⟩
    linarith
  · intro hlt
    constructor <;> linarith

theorem stdRound_le_iff {q : ℚ} (h : 0 ≤ q) : (stdRound q : ℚ) ≤ q ↔ Int.fract q < 1 / 2 := by
  have hfloor : (⌊q⌋ : ℚ) + Int.fract q = q := Int.floor_add_fract q
  rw [stdRound_of_nonneg h, ← Int.le_floor]
  constructor
  · intro hle
    have hlt : q + 1 / 2 < (⌊q⌋ : ℚ) + 1 := by
      exact_mod_cast Int.floor_lt.mp (Int.lt_add_one_of_le hle)
    linarith
  · intro hlt
    apply Int.le_of_lt_add_one
    apply Int.floor_lt.mpr
    push_cast
    linarith

theorem stdRound_of_fract_lt {q : ℚ} (h : 0 ≤ q) (hlt : Int.fract q < 1 / 2) :
    stdRound q = ⌊q⌋ := by
  apply le_antisymm
  · exact Int.le_floor.mpr ((stdRound_le_iff h).mpr hlt)
  · rw [stdRound_of_nonneg h]
    exact Int.floor_le_floor (by linarith)

def GatewayRequest.signedVolume? : GatewayRequest → Option SignedVolume
  | .order o => some o.signedVolume
  | .takeProfit o => some o.signedVolume
  | .stopLoss o => some o.signedVolume
  | _ => none

theorem GatewayRequest.signedVolume?_eq_none {r : GatewayRequest} :
    r.signedVolume? = none ↔ r.volume? = none := by
  cases r <;> simp [signedVolume?, volume?]

namespace Symbol

variable (s : Symbol) (requested : SignedVolume)

def steps : ℚ := |requested.value| / s.lotSizeFilter.qtyStep

/-- The requested volume has, rounded to whole steps, no step at all, or the steps are
rounded down to a volume inside the limits. -/
def RoundsDown : Prop :=
  s.steps requested < 1 / 2 ∨
    Int.fract (s.steps requested) < 1 / 2 ∧
      s.lotSizeFilter.minQty ≤ ⌊s.steps requested⌋ * s.lotSizeFilter.qtyStep ∧
      ⌊s.steps requested⌋ * s.lotSizeFilter.qtyStep ≤ s.lotSizeFilter.maxQty

instance : Decidable (s.RoundsDown requested) := inferInstanceAs (Decidable (_ ∨ _))

def HasSteps : Prop := s.lotSizeFilter.qtyStep ≠ 0 ∧ stdRound (s.steps requested) ≠ 0

instance : Decidable (s.HasSteps requested) := inferInstanceAs (Decidable (_ ∧ _))

/-- What the lot size asks of a volume that was sent for the requested one. -/
structure LotSized (sent : SignedVolume) : Prop where
  sign : sent.sign = requested.sign
  steps : ∃ n : ℕ, |sent.value| = n * s.lotSizeFilter.qtyStep
  floored : |sent.value| ≤ |requested.value|
  atLeast : s.lotSizeFilter.minQty ≤ |sent.value|
  atMost : |sent.value| ≤ s.lotSizeFilter.maxQty

variable {s requested} {sent : SignedVolume}

theorem steps_nonneg (h : 0 < s.lotSizeFilter.qtyStep) : 0 ≤ s.steps requested :=
  div_nonneg (abs_nonneg _) h.le

theorem steps_mul (h : 0 < s.lotSizeFilter.qtyStep) :
    s.steps requested * s.lotSizeFilter.qtyStep = |requested.value| :=
  div_mul_cancel₀ _ h.ne'

theorem getQtyFloored_of_pos (h : 0 < s.lotSizeFilter.qtyStep) :
    s.getQtyFloored requested = some
      ⟨if requested.value < 0 then -(stdRound (s.steps requested) * s.lotSizeFilter.qtyStep)
        else stdRound (s.steps requested) * s.lotSizeFilter.qtyStep⟩ := by
  have hnonneg : (0 : ℚ) ≤ stdRound (s.steps requested) * s.lotSizeFilter.qtyStep :=
    mul_nonneg (by exact_mod_cast stdRound_nonneg (steps_nonneg h)) h.le
  unfold steps at hnonneg ⊢
  simp only [getQtyFloored, if_neg h.ne', abs_of_nonneg hnonneg]

theorem abs_getQtyFloored (h : 0 < s.lotSizeFilter.qtyStep)
    (hsent : s.getQtyFloored requested = some sent) :
    |sent.value| = stdRound (s.steps requested) * s.lotSizeFilter.qtyStep := by
  have hnonneg : (0 : ℚ) ≤ stdRound (s.steps requested) * s.lotSizeFilter.qtyStep :=
    mul_nonneg (by exact_mod_cast stdRound_nonneg (steps_nonneg h)) h.le
  rw [getQtyFloored_of_pos h, Option.some.injEq] at hsent
  rw [← hsent]
  dsimp only
  split
  · rw [abs_neg, abs_of_nonneg hnonneg]
  · exact abs_of_nonneg hnonneg

theorem getQtyFloored_eq_zero_iff (h : 0 < s.lotSizeFilter.qtyStep)
    (hsent : s.getQtyFloored requested = some sent) :
    sent.value = 0 ↔ s.steps requested < 1 / 2 := by
  rw [← abs_eq_zero, abs_getQtyFloored h hsent, mul_eq_zero_iff_right h.ne', Int.cast_eq_zero,
    stdRound_eq_zero_iff (steps_nonneg h)]

theorem sign_getQtyFloored (h : 0 < s.lotSizeFilter.qtyStep)
    (hsent : s.getQtyFloored requested = some sent) (hne : sent.value ≠ 0) :
    sent.sign = requested.sign := by
  have hround : (0 : ℚ) ≤ stdRound (s.steps requested) * s.lotSizeFilter.qtyStep :=
    mul_nonneg (by exact_mod_cast stdRound_nonneg (steps_nonneg h)) h.le
  rw [getQtyFloored_of_pos h, Option.some.injEq] at hsent
  rcases lt_trichotomy requested.value 0 with hneg | hzero | hpos
  · rw [if_pos hneg] at hsent
    have hlt : sent.value < 0 :=
      lt_of_le_of_ne (by rw [← hsent]; exact neg_nonpos.mpr hround) hne
    rw [SignedVolume.sign, SignedVolume.sign, if_pos hlt, if_pos hneg]
  · have hsteps : s.steps requested = 0 := by rw [steps, hzero, abs_zero, zero_div]
    have hstd : stdRound (s.steps requested) = 0 :=
      (stdRound_eq_zero_iff hsteps.ge).mpr (by rw [hsteps]; norm_num)
    rw [hstd, Int.cast_zero, zero_mul, neg_zero, ite_self] at hsent
    exact absurd (by rw [← hsent]) hne
  · rw [if_neg hpos.not_gt] at hsent
    have hgt : 0 < sent.value := lt_of_le_of_ne (by rw [← hsent]; exact hround) hne.symm
    rw [SignedVolume.sign, SignedVolume.sign, if_neg hgt.not_gt, if_pos hgt, if_neg hpos.not_gt,
      if_pos hpos]

/-- A volume that is sent for the requested one is as the lot size asks just when the
requested one is rounded down, to a volume inside the limits. -/
theorem lotSized_iff (h : 0 < s.lotSizeFilter.qtyStep)
    (hsent : s.getQtyFloored requested = some sent) (hne : sent.value ≠ 0) :
    s.LotSized requested sent ↔ s.RoundsDown requested := by
  have hsteps : 0 ≤ s.steps requested := steps_nonneg h
  have hround := stdRound_nonneg hsteps
  have habs := abs_getQtyFloored h hsent
  have hhalf : ¬ s.steps requested < 1 / 2 := (getQtyFloored_eq_zero_iff h hsent).not.mp hne
  constructor
  · rintro ⟨-, -, hfloored, hmin, hmax⟩
    right
    have hfract : Int.fract (s.steps requested) < 1 / 2 := by
      rw [← stdRound_le_iff hsteps]
      rw [habs, ← steps_mul h] at hfloored
      exact le_of_mul_le_mul_right hfloored h
    rw [← stdRound_of_fract_lt hsteps hfract, ← habs]
    exact ⟨hfract, hmin, hmax⟩
  · rintro (hlt | ⟨hfract, hmin, hmax⟩)
    · exact absurd hlt hhalf
    · rw [← stdRound_of_fract_lt hsteps hfract, ← habs] at hmin hmax
      constructor
      · exact sign_getQtyFloored h hsent hne
      · refine ⟨(stdRound (s.steps requested)).toNat, ?_⟩
        rw [habs]
        congr 1
        exact_mod_cast (Int.toNat_of_nonneg hround).symm
      · rw [habs, ← steps_mul h]
        exact mul_le_mul_of_nonneg_right ((stdRound_le_iff hsteps).mpr hfract) h.le
      · exact hmin
      · exact hmax

end Symbol

namespace OrderManager

variable {om : OrderManager} {c : OrderManagerCall} {vol adjusted : SignedVolume}
  {r : GatewayRequest}

theorem call_sends (om : OrderManager) (hc : c.sentVolume? = some vol) :
    match om.adjustedVolume vol with
    | .error e => om.call c = (om, [.error e])
    | .ok adjusted => ∃ r, (om.call c).2 = [.request r] ∧ r.signedVolume? = some adjusted := by
  cases c with
  | sendMarketOrder price vol' ts =>
    obtain rfl : vol' = vol := Option.some.inj hc
    cases hadj : om.adjustedVolume vol' with
    | error e => simp [call, sendMarketOrder, hadj]
    | ok adjusted =>
      simp only [call, sendMarketOrder, hadj]
      exact ⟨_, rfl, by simp [GatewayRequest.signedVolume?]⟩
  | sendTakeProfit price vol' ts =>
    obtain rfl : vol' = vol := Option.some.inj hc
    cases hadj : om.adjustedVolume vol' with
    | error e => simp [call, sendTakeProfit, sendConditional, hadj, Except.map]
    | ok adjusted =>
      simp only [call, sendTakeProfit, sendConditional, hadj, Except.map]
      exact ⟨_, rfl, congrArg some (SignedVolume.ofUnsigned_unsigned_side adjusted)⟩
  | sendStopLoss price vol' ts =>
    obtain rfl : vol' = vol := Option.some.inj hc
    cases hadj : om.adjustedVolume vol' with
    | error e => simp [call, sendStopLoss, sendConditional, hadj, Except.map]
    | ok adjusted =>
      simp only [call, sendStopLoss, sendConditional, hadj, Except.map]
      exact ⟨_, rfl, congrArg some (SignedVolume.ofUnsigned_unsigned_side adjusted)⟩
  | _ => cases hc

theorem getQtyFloored_of_ok (h : om.adjustedVolume vol = .ok adjusted) :
    om.symbol.getQtyFloored vol = some adjusted ∧ adjusted.value ≠ 0 := by
  refine ⟨getQtyFloored_of_adjusted h, fun hzero => ?_⟩
  simp [adjustedVolume, getQtyFloored_of_adjusted h, hzero] at h

theorem side_of_adjustedVolume {size : UnsignedVolume} {side : Side}
    (h : om.adjustedVolume (.ofUnsigned size side) = .ok adjusted) : adjusted.side = side := by
  obtain ⟨hfloored, hne⟩ := getQtyFloored_of_ok h
  unfold Symbol.getQtyFloored at hfloored
  split at hfloored
  next => cases hfloored
  next =>
    have hvalue := congrArg SignedVolume.value (Option.some.inj hfloored)
    simp only at hvalue
    rcases size.nonneg.eq_or_lt with hzero | hpos
    · -- nothing is asked for, and nothing is left of it
      have hnone : (SignedVolume.ofUnsigned size side).value = 0 := by
        rw [SignedVolume.value_ofUnsigned, ← hzero, zero_mul]
      rw [hnone] at hvalue
      exact absurd (by rw [← hvalue]; norm_num [stdRound]) hne
    · rw [← SignedVolume.side_ofUnsigned hpos side]
      by_cases hneg : (SignedVolume.ofUnsigned size side).value < 0
      · rw [if_pos hneg] at hvalue
        rw [SignedVolume.side_of_neg hneg]
        refine SignedVolume.side_of_neg (lt_of_le_of_ne ?_ hne)
        rw [← hvalue]
        exact neg_nonpos.mpr (abs_nonneg _)
      · rw [if_neg hneg] at hvalue
        rw [SignedVolume.side_of_nonneg (not_lt.mp hneg)]
        apply SignedVolume.side_of_nonneg
        rw [← hvalue]
        exact abs_nonneg _

theorem price_side_of_sent {price : ℚ} {size : UnsignedVolume} {side : Side} {ts : Milliseconds}
    {o : MarketOrder}
    (h : .request (.order o) ∈ (om.sendMarketOrder price (.ofUnsigned size side) ts).2.1) :
    o.price = price ∧ o.side = side := by
  cases hadjusted : om.adjustedVolume (.ofUnsigned size side) with
  | error e =>
    rw [sendMarketOrder_error hadjusted, List.mem_singleton] at h
    cases h
  | ok adjusted =>
    rw [sendMarketOrder_ok hadjusted, List.mem_singleton] at h
    cases h
    exact ⟨rfl, side_of_adjustedVolume hadjusted⟩

/-- A volume without a whole step is the only one that is not sent. -/
theorem adjustedVolume_ok_iff :
    (∃ adjusted, om.adjustedVolume vol = .ok adjusted) ↔ om.symbol.HasSteps vol := by
  unfold adjustedVolume Symbol.HasSteps Symbol.getQtyFloored
  by_cases hstep : om.symbol.lotSizeFilter.qtyStep = 0
  · simp [hstep]
  · have hzero : (if vol.value < 0 then
          -|(stdRound (om.symbol.steps vol) : ℚ) * om.symbol.lotSizeFilter.qtyStep|
        else |(stdRound (om.symbol.steps vol) : ℚ) * om.symbol.lotSizeFilter.qtyStep|) = 0 ↔
        stdRound (om.symbol.steps vol) = 0 := by
      split <;> simp [hstep]
    unfold Symbol.steps at hzero ⊢
    simp only [if_neg hstep, hzero]
    split <;> simp_all

theorem adjustedVolume_error_iff :
    (∃ e, om.adjustedVolume vol = .error e) ↔ ¬ om.symbol.HasSteps vol := by
  rw [← adjustedVolume_ok_iff]
  cases om.adjustedVolume vol <;> simp

/--
What a call sends is as the lot size asks just when the call requests a volume that is
rounded down, to none or to one inside the limits.
-/
theorem sent_lotSized_iff (om : OrderManager) (c : OrderManagerCall) (h : 0 < om.qtyStep) :
    (∀ r, .request r ∈ (om.call c).2 → ∀ sent ∈ r.signedVolume?,
      ∃ vol ∈ c.sentVolume?, om.symbol.LotSized vol sent) ↔
      ∀ vol ∈ c.sentVolume?, om.symbol.RoundsDown vol := by
  cases hc : c.sentVolume? with
  | none =>
    refine iff_of_true (fun r hr sent hsent => ?_) (by simp)
    have hnone := GatewayRequest.signedVolume?_eq_none.mpr (call_volume_of_not_sends hc hr)
    rw [hnone] at hsent
    cases hsent
  | some vol =>
    have hsends := call_sends om hc
    simp only [Option.mem_def, Option.some.injEq, forall_eq', exists_eq_left']
    cases hadj : om.adjustedVolume vol with
    | error e =>
      simp only [hadj] at hsends
      refine iff_of_true (by simp [hsends]) (.inl ?_)
      rw [← stdRound_eq_zero_iff (om.symbol.steps_nonneg h)]
      by_contra hne
      exact adjustedVolume_error_iff.mp ⟨e, hadj⟩ ⟨h.ne', hne⟩
    | ok adjusted =>
      simp only [hadj] at hsends
      obtain ⟨r, hr, hvolume⟩ := hsends
      obtain ⟨hfloored, hne⟩ := getQtyFloored_of_ok hadj
      rw [← Symbol.lotSized_iff h hfloored hne]
      simp [hr, hvolume]

/-- A sale of two and a quarter steps sends two of them. -/
theorem sent_lotSized_iff_sale :
    let om := init ⟨"BTCUSDT", ⟨1, 100, 1⟩⟩
    let c : OrderManagerCall := .sendMarketOrder 100 ⟨-9 / 4⟩ 1
    0 < om.qtyStep ∧ ∀ r, .request r ∈ (om.call c).2 → ∀ sent ∈ r.signedVolume?,
      ∃ vol ∈ c.sentVolume?, om.symbol.LotSized vol sent := by
  intro om c
  have hstep : 0 < om.qtyStep := by decide +kernel
  have hdown : ∀ vol ∈ c.sentVolume?, om.symbol.RoundsDown vol := by decide +kernel
  exact ⟨hstep, (sent_lotSized_iff om c hstep).mpr hdown⟩

/-- A purchase of one and a half steps sends two of them. -/
theorem sent_more_than_requested :
    let om := init ⟨"BTCUSDT", ⟨1, 100, 1⟩⟩
    let c : OrderManagerCall := .sendMarketOrder 100 ⟨3 / 2⟩ 1
    (∃ r, .request r ∈ (om.call c).2 ∧ r.signedVolume? = some ⟨2⟩) ∧
      ¬ ∀ r, .request r ∈ (om.call c).2 → ∀ sent ∈ r.signedVolume?,
        ∃ vol ∈ c.sentVolume?, om.symbol.LotSized vol sent := by
  intro om c
  have hsent : (om.call c).2 = [.request (.order (.ofSigned 1 "BTCUSDT" 100 ⟨2⟩ 1))] := by
    decide +kernel
  constructor
  · exact ⟨_, by rw [hsent]; exact List.mem_singleton.mpr rfl, by decide +kernel⟩
  · intro hall
    obtain ⟨vol, hvol, hlot⟩ := hall _ (by rw [hsent]; exact List.mem_singleton.mpr rfl)
      ⟨2⟩ (by decide +kernel)
    obtain rfl : vol = ⟨3 / 2⟩ := (Option.some.inj hvol).symm
    have hfloored := hlot.floored
    norm_num at hfloored

end OrderManager

end CryptoTrading

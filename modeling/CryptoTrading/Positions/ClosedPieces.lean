import CryptoTrading.Positions.Manager
import CryptoTrading.Lib.Moments
import Mathlib.Data.List.Sort

/-! # The closed pieces of a position

The position manager folds the partial closes of a position. Volumes, profits and fees add up.
The average price does not: the volume that weighs the old average already has the new piece in
it, so the average is the right one, in every order of the pieces, only when all prices agree.
-/

namespace CryptoTrading

open Runs Moments

/-- What a trade against the position closes of it. -/
structure PartialClose where
  volume : SignedVolume
  price : ℚ
  rpnl : ℚ
  entryAndCloseFee : ℚ
  deriving DecidableEq

namespace PartialClose

def closed (p : PartialClose) : ClosedPosition where
  closedVolume := p.volume
  avgClosedPrice := some p.price
  rpnl := p.rpnl
  entryAndCloseFee := p.entryAndCloseFee

def addTo (p : PartialClose) : Option ClosedPosition → ClosedPosition
  | some c => c.addAssign p.closed
  | none => p.closed

def PriceGe (p q : PartialClose) : Prop := q.price ≤ p.price

instance : DecidableRel PriceGe := fun p q => inferInstanceAs (Decidable (q.price ≤ p.price))

instance : Std.Total PriceGe := ⟨fun p q => le_total q.price p.price⟩

instance : IsTrans PartialClose PriceGe := ⟨fun _ _ _ h h' => le_trans h' h⟩

end PartialClose

def closedOf (pieces : List PartialClose) : Option ClosedPosition :=
  pieces.foldl (fun c p => some (p.addTo c)) none

/-- The volumes are not zero and of one sign. -/
def OnSide (side : Side) (pieces : List PartialClose) : Prop :=
  ∀ p ∈ pieces, 0 < p.volume.value * side.sign

instance (side : Side) (pieces : List PartialClose) : Decidable (OnSide side pieces) :=
  inferInstanceAs (Decidable (∀ p ∈ pieces, _))

def volumeOf (pieces : List PartialClose) : ℚ := (pieces.map (·.volume.value)).sum

def avgPriceOf (pieces : List PartialClose) : ℚ :=
  weightedMean (·.volume.value) PartialClose.price pieces

namespace ClosedPosition

/-- What the pieces add up to. The average price is left out. -/
structure SumOf (pieces : List PartialClose) (c : ClosedPosition) : Prop where
  volume : c.closedVolume.value = volumeOf pieces
  rpnl : c.rpnl = (pieces.map (·.rpnl)).sum
  fee : c.entryAndCloseFee = (pieces.map (·.entryAndCloseFee)).sum

structure TotalOf (pieces : List PartialClose) (c : ClosedPosition) : Prop
    extends SumOf pieces c where
  avg : c.avgClosedPrice = some (avgPriceOf pieces)

end ClosedPosition

/-- The pieces fold without a division by zero to their total, and in any order to the same. -/
def FoldsRight (pieces : List PartialClose) : Prop :=
  (∃ c, closedOf pieces = some c ∧ c.TotalOf pieces) ∧
    ∀ pieces', pieces'.Perm pieces → closedOf pieces' = closedOf pieces

section Fold

variable {side : Side} {pieces pieces' : List PartialClose} {p : PartialClose} {c : ClosedPosition}
  {a : ℚ}

@[simp] theorem closedOf_nil : closedOf [] = none := rfl

theorem closedOf_concat (pieces : List PartialClose) (p : PartialClose) :
    closedOf (pieces ++ [p]) = some (p.addTo (closedOf pieces)) := by
  simp [closedOf]

theorem closedOf_singleton (p : PartialClose) : closedOf [p] = some p.closed := rfl

theorem volumeOf_concat (pieces : List PartialClose) (p : PartialClose) :
    volumeOf (pieces ++ [p]) = volumeOf pieces + p.volume.value := by
  simp [volumeOf]

theorem OnSide.of_perm (h : OnSide side pieces) (hp : pieces'.Perm pieces) :
    OnSide side pieces' := fun p hp' => h p (hp.mem_iff.mp hp')

theorem OnSide.volumeOf_pos (h : OnSide side pieces) (hne : pieces ≠ []) :
    0 < volumeOf pieces * side.sign :=
  sum_weights_pos hne h

theorem OnSide.divisor_ne_zero (h : OnSide side (pieces ++ [p])) :
    volumeOf (pieces ++ [p]) + p.volume.value ≠ 0 := by
  have hp := h p (by simp)
  have hsum := h.volumeOf_pos (by simp)
  refine left_ne_zero_of_mul (b := (side.sign : ℚ)) (ne_of_gt ?_)
  rw [add_mul]
  exact add_pos hsum hp

theorem ClosedPosition.SumOf.singleton (p : PartialClose) : p.closed.SumOf [p] where
  volume := by simp [volumeOf, PartialClose.closed]
  rpnl := by simp [PartialClose.closed]
  fee := by simp [PartialClose.closed]

theorem ClosedPosition.SumOf.addAssign (h : c.SumOf pieces) (p : PartialClose) :
    (c.addAssign p.closed).SumOf (pieces ++ [p]) where
  volume := by
    rw [volumeOf_concat, ← h.volume]
    rfl
  rpnl := by simp [ClosedPosition.addAssign, PartialClose.closed, h.rpnl]
  fee := by simp [ClosedPosition.addAssign, PartialClose.closed, h.fee]

theorem ClosedPosition.SumOf.of_perm (h : c.SumOf pieces') (hp : pieces'.Perm pieces) :
    c.SumOf pieces where
  volume := h.volume.trans (hp.map _).sum_eq
  rpnl := h.rpnl.trans (hp.map _).sum_eq
  fee := h.fee.trans (hp.map _).sum_eq

theorem ClosedPosition.SumOf.eq_of_avg {c' : ClosedPosition} (h : c.SumOf pieces)
    (h' : c'.SumOf pieces) (ha : c.avgClosedPrice = c'.avgClosedPrice) : c = c' := by
  obtain ⟨⟨v⟩, avg, rpnl, fee⟩ := c
  obtain ⟨⟨v'⟩, avg', rpnl', fee'⟩ := c'
  obtain rfl : v = v' := h.volume.trans h'.volume.symm
  obtain rfl : rpnl = rpnl' := h.rpnl.trans h'.rpnl.symm
  obtain rfl : fee = fee' := h.fee.trans h'.fee.symm
  obtain rfl : avg = avg' := ha
  rfl

/-- The average that `operator+=` gets from the old one. -/
def nextAvg (pieces : List PartialClose) (p : PartialClose) (a : ℚ) : ℚ :=
  (volumeOf (pieces ++ [p]) * a + p.volume.value * p.price) /
    (volumeOf (pieces ++ [p]) + p.volume.value)

theorem ClosedPosition.SumOf.addAssign_avg (h : c.SumOf pieces) (ha : c.avgClosedPrice = some a)
    (hside : OnSide side (pieces ++ [p])) :
    (c.addAssign p.closed).avgClosedPrice = some (nextAvg pieces p a) := by
  have hv : (c.closedVolume + p.volume).value = volumeOf (pieces ++ [p]) := (h.addAssign p).volume
  simp only [ClosedPosition.addAssign, PartialClose.closed, ha, hv, Option.bind_eq_bind,
    Option.bind_some]
  rw [divide, if_neg hside.divisor_ne_zero, nextAvg]

/-- The fold never divides by zero, and what a step keeps of the average holds of the last one. -/
theorem closedOf_induction {P : List PartialClose → ℚ → Prop}
    (one : ∀ p, OnSide side [p] → P [p] p.price)
    (step : ∀ pieces p a, pieces ≠ [] → OnSide side (pieces ++ [p]) → P pieces a →
      P (pieces ++ [p]) (nextAvg pieces p a))
    (h : OnSide side pieces) (hne : pieces ≠ []) :
    ∃ c a, closedOf pieces = some c ∧ c.SumOf pieces ∧ c.avgClosedPrice = some a ∧ P pieces a := by
  induction pieces using List.reverseRecOn with
  | nil => exact absurd rfl hne
  | append_singleton pieces p ih =>
    rcases eq_or_ne pieces [] with rfl | hpieces
    · exact ⟨p.closed, p.price, closedOf_singleton p, .singleton p, rfl, one p h⟩
    · obtain ⟨c, a, hc, hsum, ha, hP⟩ := ih (fun q hq => h q (by simp [hq])) hpieces
      refine ⟨c.addAssign p.closed, nextAvg pieces p a, ?_, hsum.addAssign p,
        hsum.addAssign_avg ha h, step pieces p a hpieces h hP⟩
      rw [closedOf_concat, hc, PartialClose.addTo]

theorem nextAvg_of_price_eq (h : OnSide side (pieces ++ [p])) :
    nextAvg pieces p p.price = p.price := by
  rw [nextAvg, ← add_mul, mul_div_cancel_left₀ _ h.divisor_ne_zero]

/-- The error grows by that of the old average and by the distance of the new price to it. -/
theorem nextAvg_sub_avgPriceOf (hne : pieces ≠ []) (h : OnSide side (pieces ++ [p])) (a : ℚ) :
    nextAvg pieces p a - avgPriceOf (pieces ++ [p]) =
      (volumeOf (pieces ++ [p]) ^ 2 * (a - avgPriceOf pieces) +
          p.volume.value ^ 2 * (avgPriceOf pieces - p.price)) /
        (volumeOf (pieces ++ [p]) * (volumeOf (pieces ++ [p]) + p.volume.value)) := by
  have hpieces : OnSide side pieces := fun q hq => h q (by simp [hq])
  have hold : volumeOf pieces ≠ 0 := left_ne_zero_of_mul (hpieces.volumeOf_pos hne).ne'
  have hnew : volumeOf (pieces ++ [p]) ≠ 0 := left_ne_zero_of_mul (h.volumeOf_pos (by simp)).ne'
  have hdiv := h.divisor_ne_zero
  have havg : avgPriceOf (pieces ++ [p]) =
      (volumeOf pieces * avgPriceOf pieces + p.volume.value * p.price) /
        volumeOf (pieces ++ [p]) := by
    rw [volumeOf_concat]
    exact weightedMean_concat p hold
  rw [nextAvg, havg, div_sub_div _ _ hdiv hnew]
  congr 1
  · rw [volumeOf_concat]
    ring
  · exact mul_comm _ _

theorem OnSide.mul_divisor_pos (h : OnSide side (pieces ++ [p])) :
    0 < volumeOf (pieces ++ [p]) * (volumeOf (pieces ++ [p]) + p.volume.value) := by
  have hp := h p (by simp)
  have hsum := h.volumeOf_pos (by simp)
  have hs : (side.sign : ℚ) * side.sign = 1 := by exact_mod_cast side.sign_mul_self
  have hpos := mul_pos hsum (add_pos hsum hp)
  rwa [← add_mul, mul_mul_mul_comm, hs, mul_one] at hpos

/-- Where the price does not rise, the average is not too low and right for a single price only. -/
def NotBelow (pieces : List PartialClose) (a : ℚ) : Prop :=
  pieces.Pairwise PartialClose.PriceGe →
    avgPriceOf pieces ≤ a ∧ (a = avgPriceOf pieces → ∀ p ∈ pieces, p.price = a)

theorem NotBelow.singleton (hside : OnSide side [p]) : NotBelow [p] p.price := by
  intro _
  have havg : avgPriceOf [p] = p.price :=
    weightedMean_of_forall_eq (sum_weights_ne_zero (by simp) hside) (by simp)
  exact ⟨havg.le, by simp⟩

theorem NotBelow.concat (hne : pieces ≠ []) (h : OnSide side (pieces ++ [p]))
    (ha : NotBelow pieces a) : NotBelow (pieces ++ [p]) (nextAvg pieces p a) := by
  intro hsorted
  obtain ⟨hpre, -, hlast⟩ := List.pairwise_append.mp hsorted
  obtain ⟨hle, heq⟩ := ha hpre
  have hp : p.price ≤ avgPriceOf pieces :=
    le_weightedMean hne (fun q hq => h q (by simp [hq])) fun q hq => hlast q hq p (by simp)
  have herr := nextAvg_sub_avgPriceOf hne h a
  have hpos := h.mul_divisor_pos
  have hold : 0 ≤ volumeOf (pieces ++ [p]) ^ 2 * (a - avgPriceOf pieces) :=
    mul_nonneg (sq_nonneg _) (sub_nonneg.mpr hle)
  have hnew : 0 ≤ p.volume.value ^ 2 * (avgPriceOf pieces - p.price) :=
    mul_nonneg (sq_nonneg _) (sub_nonneg.mpr hp)
  constructor
  · rw [← sub_nonneg, herr]
    exact div_nonneg (add_nonneg hold hnew) hpos.le
  · intro hnext
    -- neither the old average nor the new price may then be off
    rw [hnext, sub_self, eq_comm, div_eq_zero_iff, or_iff_left hpos.ne',
      add_eq_zero_iff_of_nonneg hold hnew] at herr
    have hvolume : volumeOf (pieces ++ [p]) ≠ 0 := left_ne_zero_of_mul hpos.ne'
    have hv : p.volume.value ≠ 0 := left_ne_zero_of_mul (h p (by simp)).ne'
    have ha : a = avgPriceOf pieces :=
      sub_eq_zero.mp ((mul_eq_zero.mp herr.1).resolve_left (pow_ne_zero 2 hvolume))
    have hprice : avgPriceOf pieces = p.price :=
      sub_eq_zero.mp ((mul_eq_zero.mp herr.2).resolve_left (pow_ne_zero 2 hv))
    have hnext : nextAvg pieces p a = p.price := by
      rw [ha, hprice, nextAvg_of_price_eq h]
    intro q hq
    rcases List.mem_append.mp hq with hq | hq
    · rw [hnext, heq ha q hq, ha, hprice]
    · rw [hnext, List.mem_singleton.mp hq]

theorem closedOf_of_price_eq {x : ℚ} (h : OnSide side pieces) (hne : pieces ≠ [])
    (hx : ∀ p ∈ pieces, p.price = x) :
    ∃ c, closedOf pieces = some c ∧ c.SumOf pieces ∧ c.avgClosedPrice = some x := by
  have step (pieces : List PartialClose) (p : PartialClose) (a : ℚ) (_ : pieces ≠ [])
      (h : OnSide side (pieces ++ [p])) (ih : (∀ p ∈ pieces, p.price = x) → a = x) :
      (∀ q ∈ pieces ++ [p], q.price = x) → nextAvg pieces p a = x := by
    intro hx
    have hp : p.price = x := hx p (by simp)
    rw [ih fun q hq => hx q (by simp [hq]), ← hp, nextAvg_of_price_eq h]
  obtain ⟨c, a, hc, hsum, ha, hP⟩ := closedOf_induction (fun p _ hx => hx p (by simp)) step h hne
  exact ⟨c, hc, hsum, by rw [ha, hP hx]⟩

/-- The pieces fold to their total in any order exactly when they close at one price. -/
theorem foldsRight_iff (hne : pieces ≠ []) (h : OnSide side pieces) :
    FoldsRight pieces ↔ ∀ p ∈ pieces, ∀ q ∈ pieces, p.price = q.price := by
  constructor
  · rintro ⟨⟨c, hc, htotal⟩, horder⟩
    have hperm := List.perm_insertionSort PartialClose.PriceGe pieces
    have hsorted := List.pairwise_insertionSort PartialClose.PriceGe pieces
    generalize pieces.insertionSort PartialClose.PriceGe = pieces' at hperm hsorted
    have hne' : pieces' ≠ [] := fun hnil => hne (List.nil_perm.mp (hnil ▸ hperm))
    obtain ⟨c', a, hc', -, ha, hbelow⟩ := closedOf_induction (fun _ => NotBelow.singleton)
      (fun _ _ _ => NotBelow.concat) (h.of_perm hperm) hne'
    obtain rfl : c' = c := Option.some_injective _ (hc'.symm.trans ((horder _ hperm).trans hc))
    have havg : a = avgPriceOf pieces' := by
      rw [avgPriceOf, weightedMean_perm hperm]
      exact Option.some_injective _ (ha.symm.trans htotal.avg)
    have hprice := (hbelow hsorted).2 havg
    intro p hp q hq
    rw [hprice p (hperm.mem_iff.mpr hp), hprice q (hperm.mem_iff.mpr hq)]
  · intro hprice
    obtain ⟨p, hp⟩ := List.exists_mem_of_ne_nil pieces hne
    obtain ⟨c, hc, hsum, havg⟩ := closedOf_of_price_eq h hne fun q hq => hprice q hq p hp
    have htotal : avgPriceOf pieces = p.price :=
      weightedMean_of_forall_eq (sum_weights_ne_zero hne h) fun q hq => hprice q hq p hp
    refine ⟨⟨c, hc, hsum, by rw [havg, htotal]⟩, fun pieces' hperm => ?_⟩
    obtain ⟨c', hc', hsum', havg'⟩ := closedOf_of_price_eq (h.of_perm hperm)
      (fun hnil => hne (List.nil_perm.mp (hnil ▸ hperm)))
      fun q hq => hprice q (hperm.mem_iff.mp hq) p hp
    rw [hc, hc', (hsum'.of_perm hperm).eq_of_avg hsum (havg'.trans havg.symm)]

end Fold

theorem foldsRight_iff_two :
    let pieces : List PartialClose := [⟨⟨-1⟩, 10, 2, 1⟩, ⟨⟨-2⟩, 10, 3, 1⟩]
    pieces ≠ [] ∧ OnSide .sell pieces ∧
      (FoldsRight pieces ↔ ∀ p ∈ pieces, ∀ q ∈ pieces, p.price = q.price) :=
  have hside : OnSide .sell [⟨⟨-1⟩, 10, 2, 1⟩, ⟨⟨-2⟩, 10, 3, 1⟩] := by decide +kernel
  ⟨by decide, hside, foldsRight_iff (by decide) hside⟩

/-- One closed at 10 and one at 20 have the average 15. The code gets 40 / 3. -/
theorem not_foldsRight_two :
    let pieces : List PartialClose := [⟨⟨1⟩, 10, 0, 0⟩, ⟨⟨1⟩, 20, 0, 0⟩]
    pieces ≠ [] ∧ OnSide .buy pieces ∧
      (closedOf pieces).bind (·.avgClosedPrice) = some (40 / 3) ∧ avgPriceOf pieces = 15 ∧
      ¬ FoldsRight pieces := by
  refine ⟨by decide, by decide +kernel, by decide +kernel, by decide +kernel, ?_⟩
  rintro ⟨⟨c, hc, htotal⟩, -⟩
  have havg : (closedOf [⟨⟨1⟩, 10, 0, 0⟩, ⟨⟨1⟩, 20, 0, 0⟩]).bind (·.avgClosedPrice) =
      some (avgPriceOf [⟨⟨1⟩, 10, 0, 0⟩, ⟨⟨1⟩, 20, 0, 0⟩]) := by
    rw [hc, Option.bind_some, htotal.avg]
  exact absurd havg (by decide +kernel)

namespace PositionManager

open PartialClose

theorem accumulate_closed (m : PositionManager) (p : PartialClose) :
    m.accumulate p.closed = p.addTo m.closedPosition := by
  rw [accumulate]
  cases m.closedPosition <;> rfl

/-- The piece that a trade closes of the opened position, if it is against it. -/
def closedPiece (m : PositionManager) (t : Trade) : Option PartialClose :=
  m.openedPosition.bind fun pos =>
    (pos.onTrade t.price t.signedVolume t.fee).2.map fun c =>
      { volume := c.closedVolume
        price := t.price
        rpnl := c.rpnl
        entryAndCloseFee := c.entryAndCloseFee }

/-- The pieces of the position that is opened after the trade. -/
def takePiece (m : PositionManager) (pieces : List PartialClose) (t : Trade) :
    List PartialClose :=
  if (m.step t).openedPosition = none then [] else pieces ++ (m.closedPiece t).toList

def piecesAfter : PositionManager → List PartialClose → List Trade → List PartialClose
  | _, pieces, [] => pieces
  | m, pieces, t :: trades => piecesAfter (m.step t) (m.takePiece pieces t) trades

variable {m : PositionManager} {pieces : List PartialClose}

theorem step_closedPosition (h : m.closedPosition = closedOf pieces) (t : Trade) :
    (m.step t).closedPosition = closedOf (m.takePiece pieces t) := by
  unfold takePiece closedPiece
  cases ho : m.openedPosition with
  | none => simp [step, onTradeReceived_open ho, h]
  | some pos =>
    cases hc : (pos.onTrade t.price t.signedVolume t.fee).2 with
    | none => simp [step, onTradeReceived_grow ho hc, hc, h]
    | some c =>
      have hclosed : (closed ⟨c.closedVolume, t.price, c.rpnl, c.entryAndCloseFee⟩) = c := by
        unfold OpenedPosition.onTrade at hc
        split_ifs at hc
        cases hc
        rfl
      have htake := m.accumulate_closed ⟨c.closedVolume, t.price, c.rpnl, c.entryAndCloseFee⟩
      rw [hclosed, h] at htake
      rw [step, onTradeReceived_reduce ho (Prod.ext rfl hc)]
      -- A position of which nothing is left is gone with its pieces.
      by_cases hzero : (pos.onTrade t.price t.signedVolume t.fee).1.absoluteVolume.IsZero
      · simp [hzero]
      · simp [hzero, hc, closedOf_concat, htake]

theorem after_closedPosition (h : m.closedPosition = closedOf pieces) (trades : List Trade) :
    (after step m trades).closedPosition = closedOf (piecesAfter m pieces trades) := by
  induction trades generalizing m pieces with
  | nil => exact h
  | cons t trades ih => exact ih (step_closedPosition h t)

/-- In every run what the manager keeps closed is the fold of the pieces that the trades since the
position was opened have closed of it. -/
theorem closedPosition_eq_closedOf (trades : List Trade) :
    (after step init trades).closedPosition = closedOf (piecesAfter init [] trades) :=
  after_closedPosition rfl trades

end PositionManager

end CryptoTrading

import CryptoTrading.Lib.Runs
import CryptoTrading.Primitives.Volume
import Mathlib.Data.List.Chain
import Mathlib.Tactic.Linarith

/-! # The ratchet

A value that follows the price at a distance and never moves against its trend. The trend
turns when the price gets to the other side of the value. A price at the value is below it.
-/

namespace CryptoTrading

open Runs

structure Ratchet where
  inited : Bool := false
  firstFlipDone : Bool := false
  currentTrendSide : ℤ := 0
  retracement : ℚ
  lastValue : ℚ := 0
  deriving DecidableEq

namespace Ratchet

def new (retracement : ℚ) : Ratchet := { retracement }

variable (r : Ratchet)

def calcRetracementValue (price : ℚ) : ℚ :=
  let delta := price * r.retracement
  price - delta * (r.currentTrendSide : ℚ)

def priceDiffSign (price : ℚ) : ℤ := if r.lastValue < price then 1 else -1

/-- The value and whether a flip is reported. -/
def pushPriceForValue (price : ℚ) : Ratchet × ℚ × Bool :=
  if ¬ r.inited then
    let r := { r with currentTrendSide := 1, inited := true }
    let r := { r with lastValue := r.calcRetracementValue price }
    (r, r.lastValue, false)
  else if r.priceDiffSign price ≠ r.currentTrendSide then
    let r := { r with currentTrendSide := r.priceDiffSign price }
    let r := { r with lastValue := r.calcRetracementValue price }
    if ¬ r.firstFlipDone then ({ r with firstFlipDone := true }, r.lastValue, false)
    else (r, r.lastValue, true)
  else
    let newRetracement := r.calcRetracementValue price
    if r.priceDiffSign newRetracement ≠ r.currentTrendSide then (r, r.lastValue, false)
    else ({ r with lastValue := newRetracement }, newRetracement, false)

def step (price : ℚ) : Ratchet := (r.pushPriceForValue price).1

def flips (price : ℚ) : Bool := (r.pushPriceForValue price).2.2

/-- The trend changes; the first price chooses it. -/
def Turns (price : ℚ) : Prop :=
  r.inited ∧ (r.step price).currentTrendSide ≠ r.currentTrendSide

instance (price : ℚ) : Decidable (r.Turns price) := inferInstanceAs (Decidable (_ ∧ _))

def trendSide : Side := if r.currentTrendSide = 1 then .buy else .sell

def turns (price : ℚ) : List Side := if r.Turns price then [(r.step price).trendSide] else []

structure Follows (price : ℚ) : Prop where
  value : (r.pushPriceForValue price).2.1 = (r.step price).lastValue
  trend : (r.step price).currentTrendSide = 1 ∨ (r.step price).currentTrendSide = -1
  up : (r.step price).currentTrendSide = 1 →
    price * (1 - r.retracement) ≤ (r.step price).lastValue ∧ (r.step price).lastValue < price
  down : (r.step price).currentTrendSide = -1 →
    price ≤ (r.step price).lastValue ∧ (r.step price).lastValue ≤ price * (1 + r.retracement)
  rises : r.currentTrendSide = 1 → (r.step price).currentTrendSide = 1 →
    r.lastValue ≤ (r.step price).lastValue
  falls : r.currentTrendSide = -1 → (r.step price).currentTrendSide = -1 →
    (r.step price).lastValue ≤ r.lastValue
  turns : r.Turns price ↔ r.currentTrendSide = 1 ∧ price ≤ r.lastValue ∨
    r.currentTrendSide = -1 ∧ r.lastValue < price

structure Sound (retracement : ℚ) : Prop where
  retracement : r.retracement = retracement
  fresh : r.inited = false → r.currentTrendSide = 0 ∧ r.firstFlipDone = false
  trend : r.inited = true → r.currentTrendSide = 1 ∨ r.currentTrendSide = -1

variable {r} {price retracement : ℚ}

theorem calcRetracementValue_up (h : r.currentTrendSide = 1) :
    r.calcRetracementValue price = price * (1 - r.retracement) := by
  rw [calcRetracementValue, h]
  push_cast
  ring

theorem calcRetracementValue_down (h : r.currentTrendSide = -1) :
    r.calcRetracementValue price = price * (1 + r.retracement) := by
  rw [calcRetracementValue, h]
  push_cast
  ring

theorem priceDiffSign_of_lt (h : r.lastValue < price) : r.priceDiffSign price = 1 := if_pos h

theorem priceDiffSign_of_le (h : price ≤ r.lastValue) : r.priceDiffSign price = -1 :=
  if_neg h.not_gt

theorem push_first (h : r.inited = false) :
    r.pushPriceForValue price =
      ({ r with
        inited := true
        currentTrendSide := 1
        lastValue := price * (1 - r.retracement) }, price * (1 - r.retracement), false) := by
  unfold pushPriceForValue
  rw [if_pos (by rw [h]; exact Bool.false_ne_true)]
  simp only [calcRetracementValue_up]

theorem push_turn (h : r.inited = true) (hsign : r.priceDiffSign price ≠ r.currentTrendSide) :
    r.pushPriceForValue price =
      let value := { r with currentTrendSide := r.priceDiffSign price }.calcRetracementValue price
      ({ r with
        firstFlipDone := true
        currentTrendSide := r.priceDiffSign price
        lastValue := value }, value, r.firstFlipDone) := by
  unfold pushPriceForValue
  rw [if_neg (not_not.mpr h), if_pos hsign]
  cases r.firstFlipDone <;> simp

theorem push_up (h : r.inited = true) (hup : r.currentTrendSide = 1) :
    r.pushPriceForValue price =
      if price ≤ r.lastValue then
        ({ r with
          firstFlipDone := true
          currentTrendSide := -1
          lastValue := price * (1 + r.retracement) }, price * (1 + r.retracement),
          r.firstFlipDone)
      else
        ({ r with lastValue := max r.lastValue (price * (1 - r.retracement)) },
          max r.lastValue (price * (1 - r.retracement)), false) := by
  by_cases hprice : price ≤ r.lastValue
  · have hsign := priceDiffSign_of_le hprice
    rw [if_pos hprice, push_turn h (by rw [hsign, hup]; decide), hsign]
    simp only [calcRetracementValue_down]
  · have hsign := priceDiffSign_of_lt (not_le.mp hprice)
    unfold pushPriceForValue
    rw [if_neg hprice, if_neg (not_not.mpr h), if_neg (by rw [hsign, hup]; decide)]
    simp only [calcRetracementValue_up hup]
    by_cases hvalue : price * (1 - r.retracement) ≤ r.lastValue
    · rw [if_pos (by rw [priceDiffSign_of_le hvalue, hup]; decide), max_eq_left hvalue]
    · have hlt := not_le.mp hvalue
      rw [if_neg (by rw [priceDiffSign_of_lt hlt, hup]; decide), max_eq_right hlt.le]

theorem push_down (h : r.inited = true) (hdown : r.currentTrendSide = -1) :
    r.pushPriceForValue price =
      if r.lastValue < price then
        ({ r with
          firstFlipDone := true
          currentTrendSide := 1
          lastValue := price * (1 - r.retracement) }, price * (1 - r.retracement),
          r.firstFlipDone)
      else
        ({ r with lastValue := min r.lastValue (price * (1 + r.retracement)) },
          min r.lastValue (price * (1 + r.retracement)), false) := by
  by_cases hprice : r.lastValue < price
  · have hsign := priceDiffSign_of_lt hprice
    rw [if_pos hprice, push_turn h (by rw [hsign, hdown]; decide), hsign]
    simp only [calcRetracementValue_up]
  · have hsign := priceDiffSign_of_le (not_lt.mp hprice)
    unfold pushPriceForValue
    rw [if_neg hprice, if_neg (not_not.mpr h), if_neg (by rw [hsign, hdown]; decide)]
    simp only [calcRetracementValue_down hdown]
    by_cases hvalue : r.lastValue < price * (1 + r.retracement)
    · rw [if_pos (by rw [priceDiffSign_of_lt hvalue, hdown]; decide), min_eq_left hvalue.le]
    · have hle := not_lt.mp hvalue
      rw [if_neg (by rw [priceDiffSign_of_le hle, hdown]; decide), min_eq_right hle]

theorem Sound.init (retracement : ℚ) : (new retracement).Sound retracement := by
  constructor
  · rfl
  · exact fun _ => ⟨rfl, rfl⟩
  · rintro ⟨⟩

theorem Sound.step (h : r.Sound retracement) (price : ℚ) : (r.step price).Sound retracement := by
  unfold Ratchet.step
  cases hinited : r.inited with
  | false =>
    rw [push_first hinited]
    exact ⟨h.retracement, nofun, fun _ => .inl rfl⟩
  | true =>
    rcases h.trend hinited with hup | hdown
    · rw [push_up hinited hup]
      split
      · exact ⟨h.retracement, fun hnot => absurd (hinited.symm.trans hnot) nofun,
          fun _ => .inr rfl⟩
      · exact ⟨h.retracement, fun hnot => absurd (hinited.symm.trans hnot) nofun,
          fun _ => .inl hup⟩
    · rw [push_down hinited hdown]
      split
      · exact ⟨h.retracement, fun hnot => absurd (hinited.symm.trans hnot) nofun,
          fun _ => .inl rfl⟩
      · exact ⟨h.retracement, fun hnot => absurd (hinited.symm.trans hnot) nofun,
          fun _ => .inr hdown⟩

/-- When the trend turns. -/
theorem Sound.turns_iff (h : r.Sound retracement) :
    r.Turns price ↔ r.currentTrendSide = 1 ∧ price ≤ r.lastValue ∨
      r.currentTrendSide = -1 ∧ r.lastValue < price := by
  unfold Turns Ratchet.step
  cases hinited : r.inited with
  | false => simp [(h.fresh hinited).1]
  | true =>
    rcases h.trend hinited with hup | hdown
    · rw [push_up hinited hup]
      by_cases hprice : price ≤ r.lastValue <;> simp [hup, hprice]
    · rw [push_down hinited hdown]
      by_cases hprice : r.lastValue < price <;> simp [hdown, hprice]

theorem push_value (r : Ratchet) (price : ℚ) :
    (r.pushPriceForValue price).2.1 = (r.step price).lastValue := by
  simp only [Ratchet.step, pushPriceForValue]
  split_ifs <;> rfl

theorem Sound.follows_of_up (h : r.Sound retracement)
    (hside : (r.step price).currentTrendSide = 1)
    (hvalue : price * (1 - r.retracement) ≤ (r.step price).lastValue ∧
      (r.step price).lastValue < price)
    (hrises : r.currentTrendSide = 1 → r.lastValue ≤ (r.step price).lastValue) :
    r.Follows price := by
  have hnot : (r.step price).currentTrendSide ≠ -1 := by
    rw [hside]
    decide
  constructor
  · exact r.push_value price
  · exact .inl hside
  · exact fun _ => hvalue
  · exact fun hdown => absurd hdown hnot
  · exact fun hup _ => hrises hup
  · exact fun _ hdown => absurd hdown hnot
  · exact h.turns_iff

theorem Sound.follows_of_down (h : r.Sound retracement)
    (hside : (r.step price).currentTrendSide = -1)
    (hvalue : price ≤ (r.step price).lastValue ∧
      (r.step price).lastValue ≤ price * (1 + r.retracement))
    (hfalls : r.currentTrendSide = -1 → (r.step price).lastValue ≤ r.lastValue) :
    r.Follows price := by
  have hnot : (r.step price).currentTrendSide ≠ 1 := by
    rw [hside]
    decide
  constructor
  · exact r.push_value price
  · exact .inr hside
  · exact fun hup => absurd hup hnot
  · exact fun _ => hvalue
  · exact fun _ hup => absurd hup hnot
  · exact fun hdown _ => hfalls hdown
  · exact h.turns_iff

theorem Sound.follows (h : r.Sound retracement) (hpos : 0 < retracement) (hprice : 0 < price) :
    r.Follows price := by
  have hdelta : 0 < price * r.retracement := by
    rw [h.retracement]
    exact mul_pos hprice hpos
  have hbelow : price * (1 - r.retracement) < price := by linarith
  have habove : price < price * (1 + r.retracement) := by linarith
  cases hinited : r.inited with
  | false =>
    have hstep : r.step price = _ := congrArg Prod.fst (push_first hinited)
    apply h.follows_of_up
    · rw [hstep]
    · rw [hstep]
      exact ⟨le_rfl, hbelow⟩
    · rw [(h.fresh hinited).1]
      rintro ⟨⟩
  | true =>
    rcases h.trend hinited with hup | hdown
    · have hstep : r.step price = _ := congrArg Prod.fst (push_up hinited hup)
      by_cases hfall : price ≤ r.lastValue
      · rw [if_pos hfall] at hstep
        apply h.follows_of_down
        · rw [hstep]
        · rw [hstep]
          exact ⟨habove.le, le_rfl⟩
        · rw [hup]
          rintro ⟨⟩
      · rw [if_neg hfall] at hstep
        apply h.follows_of_up
        · rw [hstep]
          exact hup
        · rw [hstep]
          exact ⟨le_max_right _ _, max_lt (not_le.mp hfall) hbelow⟩
        · rw [hstep]
          exact fun _ => le_max_left _ _
    · have hstep : r.step price = _ := congrArg Prod.fst (push_down hinited hdown)
      by_cases hrise : r.lastValue < price
      · rw [if_pos hrise] at hstep
        apply h.follows_of_up
        · rw [hstep]
        · rw [hstep]
          exact ⟨le_rfl, hbelow⟩
        · rw [hdown]
          rintro ⟨⟩
      · rw [if_neg hrise] at hstep
        apply h.follows_of_down
        · rw [hstep]
          exact hdown
        · rw [hstep]
          exact ⟨le_min (not_lt.mp hrise) habove.le, min_le_right _ _⟩
        · rw [hstep]
          exact fun _ => min_le_left _ _

/-- A flip is reported for a turn of the trend, but for the first one. -/
theorem Sound.flips_eq (h : r.Sound retracement) :
    r.flips price = (decide (r.Turns price) && r.firstFlipDone) ∧
      (r.step price).firstFlipDone = (decide (r.Turns price) || r.firstFlipDone) := by
  simp only [h.turns_iff, flips, Ratchet.step]
  cases hinited : r.inited with
  | false =>
    obtain ⟨hside, hfirst⟩ := h.fresh hinited
    rw [push_first hinited]
    simp [hside, hfirst]
  | true =>
    rcases h.trend hinited with hup | hdown
    · rw [push_up hinited hup]
      by_cases hprice : price ≤ r.lastValue <;> simp [hup, hprice]
    · rw [push_down hinited hdown]
      by_cases hprice : r.lastValue < price <;> simp [hdown, hprice]

theorem inited_step (r : Ratchet) (price : ℚ) : (r.step price).inited = true := by
  unfold Ratchet.step
  cases hinited : r.inited with
  | false => rw [push_first hinited]
  | true =>
    simp only [pushPriceForValue]
    split_ifs
    all_goals first | rfl | exact hinited

theorem Sound.trendSide_of_turns (h : r.Sound retracement) (hturn : r.Turns price) :
    (r.step price).trendSide = r.trendSide.opposite := by
  obtain ⟨hinited, hne⟩ := hturn
  unfold trendSide
  rcases h.trend hinited with hside | hside <;>
    rcases (h.step price).trend (r.inited_step price) with hside' | hside'
  · exact absurd (hside'.trans hside.symm) hne
  · rw [hside, hside']
    rfl
  · rw [hside, hside']
    rfl
  · exact absurd (hside'.trans hside.symm) hne

theorem trendSide_of_not_turns (hinited : r.inited = true) (hturn : ¬ r.Turns price) :
    (r.step price).trendSide = r.trendSide := by
  have hside : (r.step price).currentTrendSide = r.currentTrendSide := by
    by_contra hne
    exact hturn ⟨hinited, hne⟩
  unfold trendSide
  rw [hside]

def turnsOf (retracement : ℚ) (prices : List ℚ) : List Side :=
  outputs step turns (new retracement) prices

theorem turnsOf_concat (retracement : ℚ) (prices : List ℚ) (price : ℚ) :
    turnsOf retracement (prices ++ [price]) =
      turnsOf retracement prices ++ (after step (new retracement) prices).turns price :=
  outputs_concat

theorem sound_after (retracement : ℚ) (prices : List ℚ) :
    (after step (new retracement) prices).Sound retracement := by
  induction prices using List.reverseRecOn with
  | nil => exact .init retracement
  | append_singleton prices price ih =>
    rw [after_concat]
    exact ih.step price

structure Turned (r : Ratchet) (sides : List Side) : Prop where
  firstFlip : r.firstFlipDone = true ↔ sides ≠ []
  last : ∀ side ∈ sides.getLast?, side = r.trendSide
  alternate : sides.IsChain fun side side' => side' = side.opposite

theorem turned_after (retracement : ℚ) (prices : List ℚ) :
    (after step (new retracement) prices).Turned (turnsOf retracement prices) := by
  induction prices using List.reverseRecOn with
  | nil => exact ⟨by simp [turnsOf, new], nofun, .nil⟩
  | append_singleton prices price ih =>
    have hsound := sound_after retracement prices
    have hflag := (@Sound.flips_eq _ price _ hsound).2
    rw [turnsOf_concat, after_concat, turns]
    by_cases hturn : (after step (new retracement) prices).Turns price
    · rw [if_pos hturn]
      constructor
      · rw [hflag]
        simp [hturn]
      · rw [List.getLast?_concat]
        rintro side ⟨⟩
        rfl
      · apply List.isChain_append.mpr
        refine ⟨ih.alternate, .singleton _, ?_⟩
        rintro side hlast side' ⟨⟩
        rw [hsound.trendSide_of_turns hturn, ih.last side hlast]
    · rw [if_neg hturn, List.append_nil]
      constructor
      · rw [hflag, decide_eq_false hturn, Bool.false_or]
        exact ih.firstFlip
      · intro side hlast
        have hinited : (after step (new retracement) prices).inited = true := by
          by_contra hnot
          have hfirst := (hsound.fresh (Bool.eq_false_of_not_eq_true hnot)).2
          exact absurd (ih.firstFlip.mpr (List.ne_nil_of_mem (List.mem_of_mem_getLast? hlast)))
            (by rw [hfirst]; exact Bool.false_ne_true)
        rw [trendSide_of_not_turns hinited hturn]
        exact ih.last side hlast
      · exact ih.alternate

theorem flips_iff (retracement : ℚ) (prices : List ℚ) (price : ℚ) :
    (after step (new retracement) prices).flips price ↔
      (after step (new retracement) prices).Turns price ∧ turnsOf retracement prices ≠ [] := by
  rw [((sound_after retracement prices).flips_eq).1, Bool.and_eq_true, decide_eq_true_iff,
    (turned_after retracement prices).firstFlip]

def flipsOf (retracement : ℚ) (prices : List ℚ) : List Side :=
  outputs step (fun r price => if r.flips price then [(r.step price).trendSide] else [])
    (new retracement) prices

theorem flipsOf_concat (retracement : ℚ) (prices : List ℚ) (price : ℚ) :
    flipsOf retracement (prices ++ [price]) =
      flipsOf retracement prices ++
        if (after step (new retracement) prices).flips price then
          [((after step (new retracement) prices).step price).trendSide]
        else [] := outputs_concat

theorem flipsOf_eq_tail (retracement : ℚ) (prices : List ℚ) :
    flipsOf retracement prices = (turnsOf retracement prices).tail := by
  induction prices using List.reverseRecOn with
  | nil => rfl
  | append_singleton prices price ih =>
    have hflips := flips_iff retracement prices price
    rw [flipsOf_concat, ih, turnsOf_concat, turns]
    by_cases hturn : (after step (new retracement) prices).Turns price
    · rw [if_pos hturn]
      by_cases hnone : turnsOf retracement prices = []
      · rw [if_neg fun hflip => (hflips.mp hflip).2 hnone, hnone]
        rfl
      · rw [if_pos (hflips.mpr ⟨hturn, hnone⟩), List.tail_append_of_ne_nil hnone]
    · rw [if_neg hturn, if_neg fun hflip => hturn (hflips.mp hflip).1, List.append_nil,
        List.append_nil]

end Ratchet

end CryptoTrading

import CryptoTrading.Lib.Buckets
import CryptoTrading.Primitives.Trade
import Mathlib.Data.List.Chain

/-! # The candle builder

It summarises public trades in candles of one timeframe. The batch candles say what
it is for: one candle for each window of the timeframe, flat where no trade was made.
-/

namespace CryptoTrading

open Buckets

structure PublicTrade where
  ts : Milliseconds
  price : ℚ
  volume : SignedVolume
  deriving DecidableEq

structure Candle where
  timeframe : Milliseconds
  timestamp : Milliseconds
  openPrice : ℚ
  high : ℚ
  low : ℚ
  close : ℚ
  buyTakerVolume : ℚ
  sellTakerVolume : ℚ
  tradeCount : ℕ
  deriving DecidableEq

/-- One past its last timestamp. -/
def Candle.closeTs (c : Candle) : Milliseconds := c.timestamp + c.timeframe

def Candle.side (c : Candle) : Side := if c.openPrice < c.close then .buy else .sell

def Candle.flat (timeframe timestamp : Milliseconds) (price : ℚ) : Candle :=
  ⟨timeframe, timestamp, price, price, price, price, 0, 0, 0⟩

/-- `std::numeric_limits<int>::max()`. -/
def intMax : ℤ := 2 ^ 31 - 1

/-- The remaining iterations of a loop over an `int`; `none` where it overflows. -/
def intLoop {α : Type*} (body : ℤ → α) : ℕ → ℤ → Option (List α)
  | 0, _ => some []
  | n + 1, i => if i = intMax then none else (intLoop body n (i + 1)).map (body i :: ·)

structure CandleBuilder where
  timeframe : Milliseconds
  start : Milliseconds := 0
  openPrice : ℚ := 0
  high : ℚ := 0
  low : ℚ := 0
  close : ℚ := 0
  buyTakerVolume : ℚ := 0
  sellTakerVolume : ℚ := 0
  tradesCount : ℕ := 0
  deriving DecidableEq

namespace CandleBuilder

def new (timeframe : Milliseconds) : CandleBuilder := { timeframe }

variable (b : CandleBuilder)

def candle : Candle :=
  ⟨b.timeframe, b.start, b.openPrice, b.high, b.low, b.close, b.buyTakerVolume,
    b.sellTakerVolume, b.tradesCount⟩

def buys (volume : SignedVolume) : ℚ := if volume.side = .buy then volume.unsigned.value else 0

def sells (volume : SignedVolume) : ℚ := if volume.side = .buy then 0 else volume.unsigned.value

def fill (t : PublicTrade) (start : Milliseconds) : CandleBuilder :=
  { b with
    start
    high := max b.high t.price
    low := min b.low t.price
    close := t.price
    buyTakerVolume := b.buyTakerVolume + buys t.volume
    sellTakerVolume := b.sellTakerVolume + sells t.volume
    tradesCount := b.tradesCount + 1 }

def initCandle (t : PublicTrade) (start : Milliseconds) : CandleBuilder :=
  { b with
    start
    openPrice := t.price
    high := t.price
    low := t.price
    close := t.price
    buyTakerVolume := buys t.volume
    sellTakerVolume := sells t.volume
    tradesCount := 1 }

/-- The empty candles between two windows, in a loop from 1 up to their distance. -/
def emptyCandles (savedTimeframeIter currentTimeframeIter : ℤ) : Option (List Candle) :=
  let candle (i : ℤ) := Candle.flat b.timeframe ((savedTimeframeIter + i) * b.timeframe) b.close
  intLoop candle (currentTimeframeIter - savedTimeframeIter - 1).toNat 1

/-- The finished candles; `none` where the index of the empty ones overflows. -/
def pushTrade (t : PublicTrade) : Option (CandleBuilder × List Candle) :=
  let currentTimeframeIter := t.ts.tdiv b.timeframe
  let savedTimeframeIter := b.start.tdiv b.timeframe
  let currentStartTs := currentTimeframeIter * b.timeframe
  if currentTimeframeIter = savedTimeframeIter then some (b.fill t currentStartTs, [])
  -- it's not the very first trade since creation
  else if b.start ≠ 0 then
    (b.emptyCandles savedTimeframeIter currentTimeframeIter).map fun candles =>
      (b.initCandle t currentStartTs, b.candle :: candles)
  else some (b.initCandle t currentStartTs, [])

def pushTrades (b : CandleBuilder) : List PublicTrade → Option (CandleBuilder × List Candle)
  | [] => some (b, [])
  | t :: ts => do
    let (b', candles) ← b.pushTrade t
    let (b'', candles') ← b'.pushTrades ts
    return (b'', candles ++ candles')

end CandleBuilder

def PublicTrade.window (timeframe : Milliseconds) (t : PublicTrade) : ℤ := t.ts / timeframe

/-- The candle of these trades, or a flat one at the previous close. -/
def Candle.summary (timeframe timestamp : Milliseconds) (previousClose : ℚ)
    (ts : List PublicTrade) : Candle :=
  let prices := ts.map PublicTrade.price
  { timeframe
    timestamp
    openPrice := prices.head?.getD previousClose
    high := prices.max?.getD previousClose
    low := prices.min?.getD previousClose
    close := prices.getLast?.getD previousClose
    buyTakerVolume := (ts.map fun t => max t.volume.value 0).sum
    sellTakerVolume := (ts.map fun t => max (-t.volume.value) 0).sum
    tradeCount := ts.length }

def lastPrice (ts : List PublicTrade) : ℚ := (ts.getLast?.map PublicTrade.price).getD 0

/-- The candle of the window `[k * timeframe, (k + 1) * timeframe)`. -/
def windowCandle (timeframe : Milliseconds) (ts : List PublicTrade) (k : ℤ) : Candle :=
  .summary timeframe (k * timeframe) (lastPrice (ts.filter fun t => t.ts < k * timeframe))
    (ts.filter fun t => k * timeframe ≤ t.ts ∧ t.ts < (k + 1) * timeframe)

/-- The candles from the window of the first trade up to that of the last one. -/
def batchCandles (timeframe : Milliseconds) (ts : List PublicTrade) : List Candle :=
  match ts.head?, ts.getLast? with
  | some first, some last =>
    (Int.range (first.window timeframe) (last.window timeframe)).map (windowCandle timeframe ts)
  | _, _ => []

/-- No two consecutive trades are more windows apart than an `int` can count. -/
def ShortGaps (timeframe : Milliseconds) (ts : List PublicTrade) : Prop :=
  ts.IsChain fun t t' => t'.window timeframe - t.window timeframe ≤ intMax

instance (timeframe : Milliseconds) (ts : List PublicTrade) :
    Decidable (ShortGaps timeframe ts) :=
  inferInstanceAs (Decidable (List.IsChain _ ts))

section IntLoop

variable {α : Type*} {body : ℤ → α} {n : ℕ} {i : ℤ}

theorem intLoop_eq (hi : i ≤ intMax) :
    intLoop body n i = if i + n ≤ intMax then some ((Int.range i (i + n)).map body) else none := by
  induction n generalizing i with
  | zero => simp [intLoop, hi, range_eq_nil]
  | succ n ih =>
    rw [intLoop]
    by_cases hmax : i = intMax
    · rw [if_pos hmax, if_neg (by omega)]
    · have hlt : i < i + (n + 1 : ℕ) := by omega
      rw [if_neg hmax, ih (by omega), range_eq_cons hlt, List.map_cons]
      have hsum : i + 1 + (n : ℤ) = i + (n + 1 : ℕ) := by omega
      rw [hsum]
      split <;> rfl

end IntLoop

variable {timeframe : Milliseconds} {t last : PublicTrade} {ts : List PublicTrade} {k : ℤ}

theorem window_eq_iff (ht : 0 < timeframe) :
    t.window timeframe = k ↔ k * timeframe ≤ t.ts ∧ t.ts < (k + 1) * timeframe := by
  rw [add_one_mul]
  exact Int.ediv_eq_iff_of_pos ht

theorem window_lt_iff (ht : 0 < timeframe) :
    t.window timeframe < k ↔ t.ts < k * timeframe :=
  Int.ediv_lt_iff_lt_mul ht

theorem windowCandle_eq (ht : 0 < timeframe) :
    windowCandle timeframe ts k =
      .summary timeframe (k * timeframe) (lastPrice (before (PublicTrade.window timeframe) ts k))
        (bucket (PublicTrade.window timeframe) ts k) := by
  simp only [windowCandle, before, bucket, window_eq_iff ht, window_lt_iff ht]

theorem window_mono (ht : 0 < timeframe) (h : last.ts ≤ t.ts) :
    last.window timeframe ≤ t.window timeframe := Int.ediv_le_ediv ht h

namespace CandleBuilder

variable {b : CandleBuilder} {timestamp : Milliseconds} {previousClose : ℚ}
  {volume : SignedVolume}

theorem buys_eq : buys volume = max volume.value 0 := by
  rcases lt_or_ge volume.value 0 with h | h
  · rw [buys, SignedVolume.side_of_neg h, if_neg (by decide), max_eq_right h.le]
  · rw [buys, SignedVolume.side_of_nonneg h, if_pos rfl, SignedVolume.value_unsigned,
      abs_of_nonneg h, max_eq_left h]

theorem sells_eq : sells volume = max (-volume.value) 0 := by
  rcases lt_or_ge volume.value 0 with h | h
  · rw [sells, SignedVolume.side_of_neg h, if_neg (by decide), SignedVolume.value_unsigned,
      abs_of_neg h, max_eq_left (neg_nonneg.mpr h.le)]
  · rw [sells, SignedVolume.side_of_nonneg h, if_pos rfl, max_eq_right (neg_nonpos.mpr h)]

theorem candle_initCandle :
    (b.initCandle t timestamp).candle =
      .summary b.timeframe timestamp previousClose [t] := by
  simp [candle, initCandle, Candle.summary, buys_eq, sells_eq]

theorem candle_fill (hne : ts ≠ [])
    (h : b.candle = .summary timeframe timestamp previousClose ts) :
    (b.fill t timestamp).candle = .summary timeframe timestamp previousClose (ts ++ [t]) := by
  obtain ⟨x, xs, rfl⟩ := List.exists_cons_of_ne_nil hne
  simp only [candle, Candle.summary, Candle.mk.injEq] at h
  obtain ⟨htimeframe, -, hopen, hhigh, hlow, -, hbuys, hsells, hcount⟩ := h
  have hclose : ((x :: xs ++ [t]).map PublicTrade.price).getLast? = some t.price := by
    rw [List.map_append]
    exact List.getLast?_concat
  have hmax : ((x :: xs ++ [t]).map PublicTrade.price).max?.getD previousClose =
      max (((x :: xs).map PublicTrade.price).max?.getD previousClose) t.price := by
    simp only [List.cons_append, List.map_cons, List.map_append, List.map_nil, List.max?_cons',
      Option.getD_some, List.foldl_append, List.foldl_cons, List.foldl_nil]
  have hmin : ((x :: xs ++ [t]).map PublicTrade.price).min?.getD previousClose =
      min (((x :: xs).map PublicTrade.price).min?.getD previousClose) t.price := by
    simp only [List.cons_append, List.map_cons, List.map_append, List.map_nil, List.min?_cons',
      Option.getD_some, List.foldl_append, List.foldl_cons, List.foldl_nil]
  simp only [candle, fill, Candle.summary]
  rw [htimeframe, hopen, hhigh, hlow, hbuys, hsells, hcount, hmax, hmin, hclose, buys_eq, sells_eq]
  simp [add_assoc]

theorem tdiv_eq_window (ht : 0 < timeframe) (h : timeframe ≤ t.ts) :
    t.ts.tdiv timeframe = t.window timeframe :=
  Int.tdiv_eq_ediv_of_nonneg (ht.le.trans h)

theorem window_pos (ht : 0 < timeframe) (h : timeframe ≤ t.ts) : 0 < t.window timeframe := by
  have hone : 1 ≤ t.ts / timeframe := (Int.le_ediv_iff_mul_le ht).mpr (by rwa [one_mul])
  exact Int.zero_lt_one.trans_le hone

theorem windowCandle_concat_of_lt (ht : 0 < timeframe) (h : k < t.window timeframe) :
    windowCandle timeframe (ts ++ [t]) k = windowCandle timeframe ts k := by
  rw [windowCandle_eq ht, windowCandle_eq ht, before_concat_of_le h.le,
    bucket_concat_of_ne h.ne']

/-- The last of some trades that are in order, from the timeframe on. -/
structure IsLast (timeframe : Milliseconds) (ts : List PublicTrade) (last : PublicTrade) :
    Prop where
  getLast : ts.getLast? = some last
  le_last : ∀ x ∈ ts, x.ts ≤ last.ts
  timeframe_le : timeframe ≤ last.ts

/-- After the window of the last trade, the candles are flat. -/
theorem windowCandle_flat (ht : 0 < timeframe) (hl : IsLast timeframe ts last)
    (h : last.window timeframe < k) :
    windowCandle timeframe ts k = .flat timeframe (k * timeframe) last.price := by
  have hlt : ∀ x ∈ ts, x.window timeframe < k := fun x hx =>
    (window_mono ht (hl.le_last x hx)).trans_lt h
  rw [windowCandle_eq ht, bucket_eq_nil hlt, before_eq_self hlt, lastPrice, hl.getLast]
  rfl

structure Built (b : CandleBuilder) (timeframe : Milliseconds) (ts : List PublicTrade)
    (last : PublicTrade) : Prop where
  timeframe_eq : b.timeframe = timeframe
  start_eq : b.start = last.window timeframe * timeframe
  close_eq : b.close = last.price
  candle_eq : b.candle = windowCandle timeframe ts (last.window timeframe)

theorem candle_initCandle_window (ht : 0 < timeframe) (hb : b.timeframe = timeframe)
    (h : ∀ x ∈ ts, x.window timeframe < t.window timeframe) :
    (b.initCandle t (t.window timeframe * timeframe)).candle =
      windowCandle timeframe (ts ++ [t]) (t.window timeframe) := by
  rw [candle_initCandle, windowCandle_eq ht, bucket_concat_self, bucket_eq_nil h, hb]
  rfl

theorem pushTrade_first (ht : 0 < timeframe) (h : timeframe ≤ t.ts) :
    ∃ b, (new timeframe).pushTrade t = some (b, []) ∧ b.Built timeframe [t] t := by
  have hw := window_pos ht h
  have hstart : (0 : ℤ).tdiv timeframe = 0 := Int.zero_tdiv _
  have hne : t.window timeframe ≠ 0 := by omega
  have hcandle : ((new timeframe).initCandle t (t.window timeframe * timeframe)).candle =
      windowCandle timeframe ([] ++ [t]) (t.window timeframe) :=
    candle_initCandle_window ht rfl (by simp)
  refine ⟨(new timeframe).initCandle t (t.window timeframe * timeframe), ?_, rfl, rfl, rfl, hcandle⟩
  simp [pushTrade, new, tdiv_eq_window ht h, hne]

theorem Built.pushTrade_same (hb : b.Built timeframe ts last) (ht : 0 < timeframe)
    (hl : IsLast timeframe ts last) (h : timeframe ≤ t.ts)
    (hw : t.window timeframe = last.window timeframe) :
    ∃ b', b.pushTrade t = some (b', []) ∧ b'.Built timeframe (ts ++ [t]) t := by
  have hsaved : b.start.tdiv timeframe = last.window timeframe := by
    rw [hb.start_eq, Int.mul_tdiv_cancel _ ht.ne']
  have hcandle := hb.candle_eq
  rw [windowCandle_eq ht, ← hw] at hcandle
  have hmem : last ∈ bucket (PublicTrade.window timeframe) ts (t.window timeframe) :=
    mem_bucket.mpr ⟨List.mem_of_getLast? hl.getLast, hw.symm⟩
  refine ⟨b.fill t (t.window timeframe * timeframe), ?_, hb.timeframe_eq, rfl, rfl, ?_⟩
  · simp [pushTrade, hb.timeframe_eq, tdiv_eq_window ht h, hsaved, hw]
  · rw [candle_fill (List.ne_nil_of_mem hmem) hcandle, windowCandle_eq ht, bucket_concat_self,
      before_concat_of_le le_rfl]

/-- The loop fills the windows in between, unless there are too many of them. -/
theorem Built.emptyCandles_eq (hb : b.Built timeframe ts last) (ht : 0 < timeframe)
    (hl : IsLast timeframe ts last) (hw : last.window timeframe < k) :
    b.emptyCandles (last.window timeframe) k =
      if k - last.window timeframe ≤ intMax then
        some ((Int.range (last.window timeframe + 1) k).map (windowCandle timeframe ts))
      else none := by
  have hn : (1 : ℤ) + (k - last.window timeframe - 1).toNat = k - last.window timeframe := by
    omega
  have hend : last.window timeframe + (k - last.window timeframe) = k := by omega
  rw [emptyCandles, intLoop_eq (by decide), hn]
  congr 2
  rw [← hend, ← map_add_range, List.map_map, hend]
  apply List.map_congr_left
  intro i hi
  have hpos := (Int.mem_range_iff.mp hi).1
  rw [Function.comp_apply, windowCandle_flat ht hl (by omega), hb.timeframe_eq, hb.close_eq]

/-- A trade in a later window returns the candles up to it, or overflows the index. -/
theorem Built.pushTrade_later (hb : b.Built timeframe ts last) (ht : 0 < timeframe)
    (hl : IsLast timeframe ts last) (h : timeframe ≤ t.ts)
    (hw : last.window timeframe < t.window timeframe) :
    if t.window timeframe - last.window timeframe ≤ intMax then
      ∃ b', b.pushTrade t = some (b', (Int.range (last.window timeframe) (t.window timeframe)).map
        (windowCandle timeframe (ts ++ [t]))) ∧ b'.Built timeframe (ts ++ [t]) t
    else b.pushTrade t = none := by
  have hsaved : b.start.tdiv timeframe = last.window timeframe := by
    rw [hb.start_eq, Int.mul_tdiv_cancel _ ht.ne']
  have hstart : b.start ≠ 0 := by
    rw [hb.start_eq]
    exact mul_ne_zero (window_pos ht hl.timeframe_le).ne' ht.ne'
  have hpush : b.pushTrade t = (b.emptyCandles (last.window timeframe) (t.window timeframe)).map
      fun candles => (b.initCandle t (t.window timeframe * timeframe), b.candle :: candles) := by
    simp [pushTrade, hb.timeframe_eq, tdiv_eq_window ht h, hsaved, hw.ne', hstart]
  rw [hpush, hb.emptyCandles_eq ht hl hw]
  split
  case isFalse => rfl
  case isTrue =>
    refine ⟨b.initCandle t (t.window timeframe * timeframe), ?_, hb.timeframe_eq, rfl, rfl, ?_⟩
    · have hkept : (Int.range (last.window timeframe) (t.window timeframe)).map
          (windowCandle timeframe (ts ++ [t])) =
          (Int.range (last.window timeframe) (t.window timeframe)).map
            (windowCandle timeframe ts) := by
        apply List.map_congr_left
        intro k hk
        exact windowCandle_concat_of_lt ht (Int.mem_range_iff.mp hk).2
      rw [hkept, range_eq_cons hw, List.map_cons, ← hb.candle_eq]
      rfl
    · apply candle_initCandle_window ht hb.timeframe_eq
      intro x hx
      exact (window_mono ht (hl.le_last x hx)).trans_lt hw

theorem pushTrades_concat :
    b.pushTrades (ts ++ [t]) = do
      let (b', candles) ← b.pushTrades ts
      let (b'', candles') ← b'.pushTrade t
      return (b'', candles ++ candles') := by
  induction ts generalizing b with
  | nil =>
    simp only [List.nil_append, pushTrades]
    cases h : b.pushTrade t <;> simp [h]
  | cons x ts ih =>
    simp only [List.cons_append, pushTrades, ih]
    cases b.pushTrade x with
    | none => rfl
    | some p =>
      cases hrest : p.1.pushTrades ts with
      | none => simp [hrest]
      | some p' =>
        cases hlast : p'.1.pushTrade t <;> simp [hrest, hlast]

theorem shortGaps_concat (hl : ts.getLast? = some last) :
    ShortGaps timeframe (ts ++ [t]) ↔
      ShortGaps timeframe ts ∧ t.window timeframe - last.window timeframe ≤ intMax := by
  simp [ShortGaps, List.isChain_append, hl]

theorem batchCandles_eq {first : PublicTrade} (hfirst : ts.head? = some first)
    (hlast : ts.getLast? = some last) :
    batchCandles timeframe ts =
      (Int.range (first.window timeframe) (last.window timeframe)).map
        (windowCandle timeframe ts) := by
  rw [batchCandles, hfirst, hlast]

theorem batchCandles_concat (ht : 0 < timeframe) (hl : IsLast timeframe ts last)
    (hle : last.ts ≤ t.ts) :
    batchCandles timeframe (ts ++ [t]) = batchCandles timeframe ts ++
      (Int.range (last.window timeframe) (t.window timeframe)).map
        (windowCandle timeframe (ts ++ [t])) := by
  obtain ⟨x, xs, rfl⟩ := List.exists_cons_of_ne_nil
    (List.ne_nil_of_mem (List.mem_of_getLast? hl.getLast))
  have hx := window_mono ht (hl.le_last x List.mem_cons_self)
  have hw := window_mono ht hle
  have hkept : (Int.range (x.window timeframe) (last.window timeframe)).map
        (windowCandle timeframe (x :: xs ++ [t])) =
      (Int.range (x.window timeframe) (last.window timeframe)).map
        (windowCandle timeframe (x :: xs)) := by
    apply List.map_congr_left
    intro k hk
    exact windowCandle_concat_of_lt ht ((Int.mem_range_iff.mp hk).2.trans_le hw)
  have hbatch : batchCandles timeframe (x :: xs) =
      (Int.range (x.window timeframe) (last.window timeframe)).map
        (windowCandle timeframe (x :: xs)) := batchCandles_eq rfl hl.getLast
  rw [hbatch, ← hkept, ← List.map_append, ← range_append hx hw]
  exact batchCandles_eq rfl List.getLast?_concat

/-- Trades in their order, the first of them in the timeframe at least. -/
structure InOrder (timeframe : Milliseconds) (ts : List PublicTrade) : Prop where
  sorted : ts.Pairwise fun t t' => t.ts ≤ t'.ts
  timeframe_le : ∀ t ∈ ts.head?, timeframe ≤ t.ts

instance : Decidable (InOrder timeframe ts) :=
  decidable_of_iff
    (ts.Pairwise (fun t t' => t.ts ≤ t'.ts) ∧ ∀ t ∈ ts.head?, timeframe ≤ t.ts)
    ⟨fun h => ⟨h.1, h.2⟩, fun h => ⟨h.1, h.2⟩⟩

theorem InOrder.isLast (h : InOrder timeframe (ts ++ [t])) : IsLast timeframe (ts ++ [t]) t := by
  have hle : ∀ x ∈ ts, x.ts ≤ t.ts := fun x hx =>
    (List.pairwise_append.mp h.sorted).2.2 x hx t (List.mem_singleton_self t)
  refine ⟨List.getLast?_concat, fun x hx => ?_, ?_⟩
  · rcases List.mem_append.mp hx with hx | hx
    · exact hle x hx
    · exact (List.mem_singleton.mp hx ▸ le_rfl)
  · cases ts with
    | nil => exact h.timeframe_le t rfl
    | cons x xs => exact (h.timeframe_le x rfl).trans (hle x List.mem_cons_self)

theorem InOrder.of_concat (h : InOrder timeframe (ts ++ [t])) : InOrder timeframe ts := by
  constructor
  · exact (List.pairwise_append.mp h.sorted).1
  · intro x hx
    exact h.timeframe_le x (List.mem_head?_append_of_mem_head? hx)

def Returns (timeframe : Milliseconds) (ts : List PublicTrade) (last : PublicTrade) : Prop :=
  if ShortGaps timeframe ts then
    ∃ b, (new timeframe).pushTrades ts = some (b, batchCandles timeframe ts) ∧
      b.Built timeframe ts last
  else (new timeframe).pushTrades ts = none

theorem returns_concat (ht : 0 < timeframe) (hl : IsLast timeframe ts last)
    (hn : IsLast timeframe (ts ++ [t]) t) (h : Returns timeframe ts last) :
    Returns timeframe (ts ++ [t]) t := by
  have hmem := List.mem_append_left [t] (List.mem_of_getLast? hl.getLast)
  have hle := hn.le_last last hmem
  have hiff : ShortGaps timeframe (ts ++ [t]) ↔
      ShortGaps timeframe ts ∧ t.window timeframe - last.window timeframe ≤ intMax :=
    shortGaps_concat hl.getLast
  unfold Returns at h ⊢
  rw [pushTrades_concat, batchCandles_concat ht hl hle]
  by_cases hshort : ShortGaps timeframe ts
  · rw [if_pos hshort] at h
    obtain ⟨b, hpush, hb⟩ := h
    rw [hpush]
    rcases (window_mono ht hle).eq_or_lt with hw | hw
    · obtain ⟨b', hpush', hb'⟩ := hb.pushTrade_same ht hl hn.timeframe_le hw.symm
      have hgap : t.window timeframe - last.window timeframe ≤ intMax := by
        rw [hw, sub_self]
        decide
      rw [if_pos (hiff.mpr ⟨hshort, hgap⟩)]
      exact ⟨b', by simp [hpush', range_eq_nil hw.ge], hb'⟩
    · have hlater := hb.pushTrade_later ht hl hn.timeframe_le hw
      by_cases hgap : t.window timeframe - last.window timeframe ≤ intMax
      · rw [if_pos hgap] at hlater
        obtain ⟨b', hpush', hb'⟩ := hlater
        rw [if_pos (hiff.mpr ⟨hshort, hgap⟩)]
        exact ⟨b', by simp [hpush'], hb'⟩
      · rw [if_neg hgap] at hlater
        rw [if_neg fun hs => hgap (hiff.mp hs).2]
        simp [hlater]
  · rw [if_neg hshort] at h
    rw [if_neg fun hs => hshort (hiff.mp hs).1, h]
    rfl

/-- The builder returns the batch candles just as long as its index does not overflow. -/
theorem run_returns (ht : 0 < timeframe) (h : InOrder timeframe (ts ++ [t])) :
    Returns timeframe (ts ++ [t]) t := by
  induction ts using List.reverseRecOn generalizing t with
  | nil =>
    obtain ⟨b, hpush, hb⟩ := pushTrade_first ht h.isLast.timeframe_le
    have hbatch : batchCandles timeframe [t] = [] := by
      have hlast : [t].getLast? = some t := rfl
      rw [batchCandles_eq rfl hlast, range_eq_nil le_rfl, List.map_nil]
    have hshort : ShortGaps timeframe [t] := List.IsChain.singleton t
    rw [List.nil_append, Returns, if_pos hshort, hbatch]
    exact ⟨b, by simp [pushTrades, hpush], hb⟩
  | append_singleton ts last ih =>
    exact returns_concat ht h.of_concat.isLast h.isLast (ih h.of_concat)

/--
For trades in order the candle builder returns the candles of the windows from that of the
first trade up to that of the last one, if and only if no two consecutive trades are more
than `intMax` windows apart.
-/
theorem pushTrades_eq_batchCandles_iff (timeframe : Milliseconds) (ts : List PublicTrade)
    (ht : 0 < timeframe) (h : InOrder timeframe ts) :
    ((new timeframe).pushTrades ts).map Prod.snd = some (batchCandles timeframe ts) ↔
      ShortGaps timeframe ts := by
  rcases List.eq_nil_or_concat ts with rfl | ⟨ts, t, rfl⟩
  · simp [pushTrades, batchCandles, ShortGaps]
  · rw [List.concat_eq_append] at h ⊢
    have hr := run_returns ht h
    unfold Returns at hr
    by_cases hshort : ShortGaps timeframe (ts ++ [t])
    · rw [if_pos hshort] at hr
      obtain ⟨b, hpush, -⟩ := hr
      simp [hpush, hshort]
    · rw [if_neg hshort] at hr
      simp [hr, hshort]

/-- Two trades in one window, one after three empty windows and one in the next window. -/
theorem pushTrades_eq_batchCandles_gap :
    let ts : List PublicTrade := [⟨5, 100, ⟨2⟩⟩, ⟨5, 110, ⟨-1⟩⟩, ⟨13, 90, ⟨1⟩⟩, ⟨14, 95, ⟨0⟩⟩]
    0 < (2 : ℤ) ∧ InOrder 2 ts ∧
      ((new 2).pushTrades ts).map Prod.snd = some (batchCandles 2 ts) := by
  intro ts
  have hpos : 0 < (2 : ℤ) := by decide
  have h : InOrder 2 ts := by decide
  exact ⟨hpos, h, (pushTrades_eq_batchCandles_iff 2 ts hpos h).mpr (by decide)⟩

/-- The index of the empty candles overflows when trades are `2 ^ 31` windows apart. -/
theorem pushTrades_overflow :
    let ts : List PublicTrade := [⟨1, 100, ⟨1⟩⟩, ⟨2 ^ 31 + 1, 100, ⟨1⟩⟩]
    InOrder 1 ts ∧ ((new 1).pushTrades ts).map Prod.snd ≠ some (batchCandles 1 ts) := by
  intro ts
  have h : InOrder 1 ts := by decide
  have hr : Returns 1 ts ⟨2 ^ 31 + 1, 100, ⟨1⟩⟩ :=
    (run_returns (by decide) h : Returns 1 ([⟨1, 100, ⟨1⟩⟩] ++ [⟨2 ^ 31 + 1, 100, ⟨1⟩⟩]) _)
  rw [Returns, if_neg (by decide)] at hr
  exact ⟨h, by simp [hr]⟩

end CandleBuilder

end CryptoTrading

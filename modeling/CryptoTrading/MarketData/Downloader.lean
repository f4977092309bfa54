import CryptoTrading.MarketData.Reader

/-! # Historical requests

A request names a time range. The downloader steps through it in days, counted from the
start of the range, and hands a reader the files of the dates it meets.
-/

namespace CryptoTrading

open Buckets

def hours24 : Milliseconds := 24 * 60 * 60 * 1000

theorem hours24_pos : (0 : ℤ) < hours24 := by decide

theorem toNat_sub_hours24_lt {a b : ℤ} (h : a < b) :
    (b - (a + hours24)).toNat < (b - a).toNat := by
  have := hours24_pos
  omega

/-- The UTC day of a time, counted from 1970-01-01. -/
def utcDay (ts : Milliseconds) : ℤ := ts / hours24

/-- `DateTimeConverter::date`: the UTC day of the whole seconds. -/
def date (ts : Milliseconds) : ℤ := ts.toSeconds / (24 * 60 * 60)

structure HistoricalMDRequest where
  guid : Guid
  symbolName : String
  start : Milliseconds
  endTs : Milliseconds
  deriving DecidableEq

/-- The file name `symbol_name + date + ".csv"`. -/
structure CsvFile where
  symbolName : String
  date : ℤ
  deriving DecidableEq

/-- The files that exist once the downloads were tried, by name. -/
abbrev Archive := CsvFile → Option (List PublicTrade)

namespace BybitTradesDownloader

/-- The dates from `current` on, in steps of 24 hours. -/
def timeRangeToStringList (endTs current : Milliseconds) : List ℤ :=
  if _h : current < endTs then date current :: timeRangeToStringList endTs (current + hours24)
  else []
termination_by (endTs - current).toNat
decreasing_by exact toNat_sub_hours24_lt _h

def csvFileList (req : HistoricalMDRequest) : List CsvFile :=
  (timeRangeToStringList req.endTs req.start).map (⟨req.symbolName, ·⟩)

/-- The contents of the files, in order; none of them when one is missing. -/
def download (archive : Archive) (req : HistoricalMDRequest) : List (List PublicTrade) :=
  ((csvFileList req).mapM archive).getD []

def request (archive : Archive) (req : HistoricalMDRequest) : SequentialMarketDataReader :=
  .new (download archive req)

end BybitTradesDownloader

/-- What the call of `get_next` number `n` returns. -/
def SequentialMarketDataReader.nth : ℕ → SequentialMarketDataReader → Option PublicTrade
  | 0, r => r.getNext.1
  | n + 1, r => nth n r.getNext.2

/-- The file of each date holds the trades of that UTC day, in time order. -/
structure Archive.Holds (archive : Archive) (symbolName : String) (trades : List PublicTrade) :
    Prop where
  ordered : trades.Pairwise (·.ts ≤ ·.ts)
  files : ∀ date, archive ⟨symbolName, date⟩ = some (bucket (utcDay ·.ts) trades date)

namespace HistoricalMDRequest

variable (req : HistoricalMDRequest)

def tradesInRange (trades : List PublicTrade) : List PublicTrade :=
  trades.filter fun t => req.start ≤ t.ts ∧ t.ts < req.endTs

/-- The UTC day that the last full or started 24 hours of the range begin at. -/
def lastDay : ℤ := utcDay req.start + (req.endTs - 1 - req.start) / hours24

/-- No trade of the first or the last day is outside of the range, and none inside of it is
made on a later day. -/
structure Aligned (trades : List PublicTrade) : Prop where
  none_before : ∀ t ∈ trades, utcDay t.ts = utcDay req.start → req.start ≤ t.ts
  none_after : ∀ t ∈ trades, utcDay t.ts = req.lastDay → t.ts < req.endTs
  none_missed : ∀ t ∈ trades, req.lastDay < utcDay t.ts → req.endTs ≤ t.ts

end HistoricalMDRequest

variable {archive : Archive} {req : HistoricalMDRequest} {trades : List PublicTrade}

namespace SequentialMarketDataReader

/-- Each call returns one of the trades still to be read, in order, and nothing after them. -/
theorem nth_eq_remaining (n : ℕ) (r : SequentialMarketDataReader) :
    r.nth n = r.remaining[n]? := by
  induction n generalizing r with
  | zero => rw [nth, r.getNext_spec.1, List.head?_eq_getElem?]
  | succ n ih => rw [nth, ih, r.getNext_spec.2, List.getElem?_tail]

end SequentialMarketDataReader

theorem date_eq_utcDay {ts : Milliseconds} (h : 0 ≤ ts) : date ts = utcDay ts := by
  rw [date, Milliseconds.toSeconds, Int.tdiv_eq_ediv_of_nonneg h, utcDay]
  exact Int.ediv_ediv_of_nonneg (by decide)

theorem utcDay_add (ts : Milliseconds) (n : ℤ) : utcDay (ts + n * hours24) = utcDay ts + n :=
  Int.add_mul_ediv_right _ _ hours24_pos.ne'

theorem utcDay_mono {a b : Milliseconds} (h : a ≤ b) : utcDay a ≤ utcDay b :=
  Int.ediv_le_ediv hours24_pos h

theorem lt_of_utcDay_lt {a b : Milliseconds} (h : utcDay a < utcDay b) : a < b :=
  not_le.mp fun hle => (utcDay_mono hle).not_gt h

namespace BybitTradesDownloader

theorem steps_succ {a b : ℤ} (h : a < b) :
    ((b - 1 - a) / hours24 + 1).toNat = ((b - 1 - (a + hours24)) / hours24 + 1).toNat + 1 := by
  have hdiv : (b - 1 - (a + hours24)) / hours24 = (b - 1 - a) / hours24 - 1 := by
    rw [← sub_sub, Int.sub_ediv_of_dvd _ (dvd_refl _), Int.ediv_self hours24_pos.ne']
  have hnonneg : 0 ≤ (b - 1 - a) / hours24 := Int.ediv_nonneg (by omega) hours24_pos.le
  omega

theorem steps_eq_zero {a b : ℤ} (h : b ≤ a) : ((b - 1 - a) / hours24 + 1).toNat = 0 := by
  have hneg : (b - 1 - a) / hours24 < 0 := Int.ediv_neg_of_neg_of_pos (by omega) hours24_pos
  omega

theorem timeRangeToStringList_eq (endTs current : Milliseconds) (h : 0 ≤ current) :
    timeRangeToStringList endTs current =
      (List.range ((endTs - 1 - current) / hours24 + 1).toNat).map
        fun i : ℕ => utcDay current + i := by
  induction current using timeRangeToStringList.induct endTs with
  | case1 current hlt ih =>
    have hnext : utcDay (current + hours24) = utcDay current + 1 := by
      rw [← utcDay_add, one_mul]
    rw [timeRangeToStringList, dif_pos hlt, date_eq_utcDay h, steps_succ hlt,
      List.range_succ_eq_map, List.map_cons, List.map_map,
      ih (add_nonneg h hours24_pos.le), hnext]
    congr 1
    · simp
    · refine List.map_congr_left fun i _ => ?_
      simp only [Function.comp_apply, Nat.cast_succ]
      ring
  | case2 current hge =>
    rw [timeRangeToStringList, dif_neg hge, steps_eq_zero (not_lt.mp hge)]
    rfl

theorem remaining_request (ha : archive.Holds req.symbolName trades) (h : 0 ≤ req.start)
    (hlt : req.start < req.endTs) :
    (request archive req).remaining =
      trades.filter fun t => utcDay req.start ≤ utcDay t.ts ∧ utcDay t.ts ≤ req.lastDay := by
  have hkeys : trades.Pairwise (utcDay ·.ts ≤ utcDay ·.ts) :=
    ha.ordered.imp utcDay_mono
  have hfiles : download archive req =
      (timeRangeToStringList req.endTs req.start).map (bucket (utcDay ·.ts) trades) := by
    simp only [download, csvFileList, List.mapM_map, Function.comp_def, ha.files]
    exact congrArg (Option.getD · []) List.mapM_pure
  rw [request, SequentialMarketDataReader.remaining_new, hfiles,
    timeRangeToStringList_eq _ _ h, List.map_map, ← List.flatMap_def]
  refine (flatMap_bucket hkeys _).trans (filter_eq_filter_iff.mpr fun t _ => ?_)
  have hsteps : 0 ≤ (req.endTs - 1 - req.start) / hours24 :=
    Int.ediv_nonneg (Int.sub_nonneg.mpr (Int.le_sub_one_of_lt hlt)) hours24_pos.le
  rw [HistoricalMDRequest.lastDay, Int.toNat_of_nonneg (add_nonneg hsteps zero_le_one), ← add_assoc,
    Int.lt_add_one_iff]

end BybitTradesDownloader

open BybitTradesDownloader

namespace HistoricalMDRequest

theorem lastDay_step (hlt : req.start < req.endTs) :
    utcDay req.start ≤ req.lastDay ∧ ∃ ts, utcDay ts = req.lastDay ∧ ts < req.endTs := by
  have hsteps : 0 ≤ (req.endTs - 1 - req.start) / hours24 :=
    Int.ediv_nonneg (Int.sub_nonneg.mpr (Int.le_sub_one_of_lt hlt)) hours24_pos.le
  refine ⟨by simpa [lastDay] using hsteps, _, utcDay_add req.start _, ?_⟩
  have := Int.ediv_mul_le (req.endTs - 1 - req.start) hours24_pos.ne'
  linarith [Int.sub_one_lt_iff.mpr (le_refl req.endTs)]

theorem aligned_iff (hlt : req.start < req.endTs) :
    req.Aligned trades ↔ ∀ t ∈ trades,
      (utcDay req.start ≤ utcDay t.ts ∧ utcDay t.ts ≤ req.lastDay ↔
        req.start ≤ t.ts ∧ t.ts < req.endTs) := by
  obtain ⟨hfirst, ts, hts, hend⟩ := lastDay_step hlt
  constructor
  · rintro ⟨hbefore, hafter, hmissed⟩ t ht
    constructor
    · rintro ⟨hs, hl⟩
      constructor
      · rcases hs.eq_or_lt with heq | hgt
        · exact hbefore t ht heq.symm
        · exact (lt_of_utcDay_lt hgt).le
      · rcases hl.eq_or_lt with heq | hlt'
        · exact hafter t ht heq
        · exact (lt_of_utcDay_lt (hts ▸ hlt')).trans hend
    · rintro ⟨hs, he⟩
      refine ⟨utcDay_mono hs, not_lt.mp fun hl => ?_⟩
      exact (hmissed t ht hl).not_gt he
  · intro h
    refine ⟨fun t ht heq => ?_, fun t ht heq => ?_, fun t ht hl => ?_⟩
    · exact ((h t ht).mp ⟨heq.ge, heq.trans_le hfirst⟩).1
    · exact ((h t ht).mp ⟨hfirst.trans heq.ge, heq.le⟩).2
    · have hs := lt_of_utcDay_lt (hfirst.trans_lt hl)
      exact not_lt.mp fun he => ((h t ht).mpr ⟨hs.le, he⟩).2.not_gt hl

end HistoricalMDRequest

/--
If the archive holds the trades of the symbol, the reader returns the trades of the range in
time order and then nothing, just when the range is aligned to them: the first and the last
listed day have no trades outside of it and no later day has one inside of it.
-/
theorem request_reads_range_iff (archive : Archive) (req : HistoricalMDRequest)
    (trades : List PublicTrade) (ha : archive.Holds req.symbolName trades) (h : 0 ≤ req.start)
    (hlt : req.start < req.endTs) :
    (∀ n, (request archive req).nth n = (req.tradesInRange trades)[n]?) ↔ req.Aligned trades := by
  have hread : (∀ n, (request archive req).nth n = (req.tradesInRange trades)[n]?) ↔
      (request archive req).remaining = req.tradesInRange trades := by
    simp only [SequentialMarketDataReader.nth_eq_remaining]
    exact List.ext_getElem?_iff.symm
  rw [hread, remaining_request ha h hlt, HistoricalMDRequest.tradesInRange,
    filter_eq_filter_iff, HistoricalMDRequest.aligned_iff hlt]

/-- A request for a whole UTC day reads the trades of that day. -/
theorem request_reads_whole_day :
    let first : PublicTrade := ⟨3600000, 100, ⟨1⟩⟩
    let second : PublicTrade := ⟨90000000, 101, ⟨1⟩⟩
    let req : HistoricalMDRequest := ⟨1, "BTCUSDT", 0, 86400000⟩
    let archive : Archive := fun file => some (bucket (utcDay ·.ts) [first, second] file.date)
    archive.Holds req.symbolName [first, second] ∧ 0 ≤ req.start ∧ req.start < req.endTs ∧
      ∀ n, (request archive req).nth n = [first][n]? := by
  intro first second req archive
  have ha : archive.Holds req.symbolName [first, second] := ⟨by decide, fun _ => rfl⟩
  have h : 0 ≤ req.start := by decide
  have hlt : req.start < req.endTs := by decide
  have haligned : req.Aligned [first, second] := ⟨by decide, by decide, by decide⟩
  have hrange : req.tradesInRange [first, second] = [first] := by decide +kernel
  refine ⟨ha, h, hlt, hrange ▸ ?_⟩
  exact (request_reads_range_iff archive req _ ha h hlt).mpr haligned

/-- A range over midnight: the reader starts with a trade made before the range, on its first
day, and misses the one inside the range on its second day. -/
theorem request_misses_last_day :
    let early : PublicTrade := ⟨3600000, 100, ⟨1⟩⟩
    let late : PublicTrade := ⟨90000000, 101, ⟨1⟩⟩
    let req : HistoricalMDRequest := ⟨1, "BTCUSDT", 36000000, 118800000⟩
    let archive : Archive := fun file => some (bucket (utcDay ·.ts) [early, late] file.date)
    archive.Holds req.symbolName [early, late] ∧ req.start < req.endTs ∧
      req.tradesInRange [early, late] = [late] ∧
      (request archive req).nth 0 = some early ∧ (request archive req).nth 1 = none := by
  intro early late req archive
  have ha : archive.Holds req.symbolName [early, late] := ⟨by decide, fun _ => rfl⟩
  have hlt : req.start < req.endTs := by decide
  have hread : (request archive req).remaining = [early] :=
    (remaining_request ha (by decide) hlt).trans (by decide +kernel)
  refine ⟨ha, hlt, by decide +kernel, ?_, ?_⟩
  · rw [SequentialMarketDataReader.nth_eq_remaining, hread]
    rfl
  · rw [SequentialMarketDataReader.nth_eq_remaining, hread]
    rfl

end CryptoTrading

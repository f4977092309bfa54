import CryptoTrading.MarketData.CandleBuilder

/-! # The reader of historical trades

It reads one file after the other, each as a whole, and passes over empty files.
-/

namespace CryptoTrading

/-- A file is the list of its trades. -/
structure SequentialMarketDataReader where
  files : List (List PublicTrade)
  publicTrades : List PublicTrade
  deriving DecidableEq

namespace SequentialMarketDataReader

def new (files : List (List PublicTrade)) : SequentialMarketDataReader := ⟨files, []⟩

def readFiles : List (List PublicTrade) → Option PublicTrade × SequentialMarketDataReader
  | [] => (none, ⟨[], []⟩)
  | [] :: files => readFiles files
  | (t :: ts) :: files => (some t, ⟨files, ts⟩)

def getNext (r : SequentialMarketDataReader) : Option PublicTrade × SequentialMarketDataReader :=
  match r.publicTrades with
  | t :: ts => (some t, { r with publicTrades := ts })
  | [] => readFiles r.files

def remaining (r : SequentialMarketDataReader) : List PublicTrade :=
  r.publicTrades ++ r.files.flatten

@[simp] theorem remaining_new (files : List (List PublicTrade)) :
    (new files).remaining = files.flatten := rfl

theorem readFiles_spec (files : List (List PublicTrade)) :
    (readFiles files).1 = files.flatten.head? ∧
      (readFiles files).2.remaining = files.flatten.tail := by
  induction files using readFiles.induct with
  | case1 => exact ⟨rfl, rfl⟩
  | case2 files ih => simpa [readFiles] using ih
  | case3 t ts files => simp [readFiles, remaining]

theorem getNext_spec (r : SequentialMarketDataReader) :
    r.getNext.1 = r.remaining.head? ∧ r.getNext.2.remaining = r.remaining.tail := by
  unfold getNext
  cases h : r.publicTrades with
  | nil => simpa [remaining, h] using readFiles_spec r.files
  | cons t ts => simp [remaining, h]

end SequentialMarketDataReader

end CryptoTrading

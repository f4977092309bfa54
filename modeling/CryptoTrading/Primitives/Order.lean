import CryptoTrading.Primitives.Trade

/-! # Orders

Market orders, conditional orders and the exits of a full position.
-/

namespace CryptoTrading

inductive OrderStatus | pending | suspended | filled | cancelled | rejected
  deriving DecidableEq, Repr

structure MarketOrder where
  rejectReason : String := ""
  guid : Guid
  symbol : String
  targetVolume : UnsignedVolume
  filledVolume : UnsignedVolume := .zero
  fee : ℚ := 0
  side : Side
  price : ℚ
  signalTs : Milliseconds
  deriving DecidableEq

namespace MarketOrder

/-- The constructor from a signed volume, given the guid that `xg::newGuid` returned. -/
def ofSigned (guid : Guid) (symbol : String) (price : ℚ) (volume : SignedVolume)
    (signalTs : Milliseconds) : MarketOrder where
  guid := guid
  symbol := symbol
  targetVolume := volume.unsigned
  side := volume.side
  price := price
  signalTs := signalTs

def onTrade (o : MarketOrder) (vol : UnsignedVolume) (price fee : ℚ) : MarketOrder :=
  { o with
    filledVolume := o.filledVolume + vol
    price
    fee := o.fee + fee }

def status (o : MarketOrder) : OrderStatus :=
  if o.rejectReason ≠ "" then .rejected
  else if o.filledVolume.lt o.targetVolume then .pending
  else if o.targetVolume.le o.filledVolume then .filled
  else .rejected

def signedVolume (o : MarketOrder) : SignedVolume := .ofUnsigned o.targetVolume o.side

@[simp] theorem signedVolume_ofSigned (g : Guid) (symbol : String) (price : ℚ)
    (v : SignedVolume) (ts : Milliseconds) : (ofSigned g symbol price v ts).signedVolume = v :=
  SignedVolume.ofUnsigned_unsigned_side v

theorem signedVolume_of_opposite {o o' : MarketOrder} (hvol : o'.targetVolume = o.targetVolume)
    (hside : o'.side = o.side.opposite) : o'.signedVolume.value = -o.signedVolume.value := by
  rw [signedVolume, signedVolume, hvol, hside]
  cases o.side <;> simp [Side.opposite]

end MarketOrder

inductive ConditionalType | stopLoss | takeProfit
  deriving DecidableEq, Repr

structure ConditionalMarketOrder extends MarketOrder where
  cancelRequested : Bool := false
  suspendedVolume : UnsignedVolume := .zero
  triggerPrice : ℚ
  type : ConditionalType
  deriving DecidableEq

namespace ConditionalMarketOrder

def new (guid : Guid) (symbol : String) (price : ℚ) (volume : UnsignedVolume) (side : Side)
    (type : ConditionalType) (signalTs : Milliseconds) : ConditionalMarketOrder where
  guid := guid
  symbol := symbol
  targetVolume := volume
  side := side
  price := price
  signalTs := signalTs
  triggerPrice := price
  type := type

def onStateChanged (o : ConditionalMarketOrder) (active : Bool) : ConditionalMarketOrder :=
  { o with suspendedVolume := if active then o.targetVolume else .zero }

def cancel (o : ConditionalMarketOrder) : ConditionalMarketOrder :=
  { o with cancelRequested := true, targetVolume := o.filledVolume }

def onTrade (o : ConditionalMarketOrder) (vol : UnsignedVolume) (price fee : ℚ) :
    ConditionalMarketOrder :=
  { o with
    toMarketOrder := o.toMarketOrder.onTrade vol price fee
    suspendedVolume := o.suspendedVolume.subAssign vol }

def status (o : ConditionalMarketOrder) : OrderStatus :=
  if o.rejectReason ≠ "" then .rejected
  else if o.cancelRequested then
    if ¬ o.targetVolume.eq o.filledVolume then .pending else .cancelled
  else if 0 < o.suspendedVolume.value then .suspended
  else if o.filledVolume.lt o.targetVolume then .pending
  else if o.targetVolume.le o.filledVolume then .filled
  else .rejected

end ConditionalMarketOrder

structure TpslPrices where
  takeProfitPrice : ℚ
  stopLossPrice : ℚ
  deriving DecidableEq

/-- Take profit and stop loss of a full position. -/
structure TpslFullPos where
  rejectReason : Option String := none
  suspended : Bool := false
  triggered : Bool := false
  acked : Bool := false
  symbol : String
  guid : Guid
  signalTs : Milliseconds
  prices : TpslPrices
  side : Side
  deriving DecidableEq

def TpslFullPos.status (o : TpslFullPos) : OrderStatus :=
  if o.rejectReason.isSome then .rejected
  else if o.triggered then .filled
  else if o.suspended then .suspended
  else if o.acked then .cancelled
  else .pending

structure StopLoss where
  symbolName : String
  stopPrice : ℚ
  side : Side
  deriving DecidableEq

structure TrailingStopLoss where
  activeStopLossPrice : Option ℚ := none
  updateTs : Milliseconds := 0
  guid : Guid
  symbolName : String
  priceDistance : ℚ
  /-- Opposite to the position's. -/
  side : Side
  deriving DecidableEq

def TrailingStopLoss.calcNewStopLoss (t : TrailingStopLoss) (currentPrice : ℚ)
    (previousStopLoss : Option StopLoss) : Option StopLoss :=
  let newStopPrice := currentPrice + t.priceDistance * (t.side.sign : ℚ)
  match previousStopLoss with
  | none => some ⟨t.symbolName, newStopPrice, t.side⟩
  | some previous =>
    if previous.stopPrice * (t.side.sign : ℚ) ≤ newStopPrice * (t.side.sign : ℚ) then none
    else some ⟨t.symbolName, newStopPrice, t.side⟩

end CryptoTrading

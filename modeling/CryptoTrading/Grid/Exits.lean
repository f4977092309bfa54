import CryptoTrading.Engine.LotSize
import CryptoTrading.Grid.Operations
import CryptoTrading.Strategy.StaticGrid

/-! # Exits of the grids

Both grids enter against the side of the level and take the profit in the next level towards
the reference price. When the entry is filled at the price that it was sent for, the exits lie
on either side of that price, unless the number of levels of the dynamic grid wraps around.
-/

namespace CryptoTrading

open DynamicGridStrategy (entrySide)

namespace MarketOrder

/-- The order is filled by trades at one price, each with its volume and fee. -/
def fill (o : MarketOrder) (price : ℚ) (fills : List (UnsignedVolume × ℚ)) : MarketOrder :=
  fills.foldl (fun o f => o.onTrade f.1 price f.2) o

end MarketOrder

namespace GridLevels

variable {price trend width : ℚ} {level : ℤ}

end GridLevels

namespace GridSystem

variable {s : GridSystem} {ts : Milliseconds} {candle : Candle} {level : ℤ} {guid : Guid}
  {o : MarketOrder}

end GridSystem

end CryptoTrading

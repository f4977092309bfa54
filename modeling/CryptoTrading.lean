import CryptoTrading.Lib.Runs
import CryptoTrading.Lib.PartialRuns
import CryptoTrading.Lib.CostBasis
import CryptoTrading.Lib.AverageCost
import CryptoTrading.Lib.Latest
import CryptoTrading.Lib.Follower
import CryptoTrading.Lib.EraseLoop
import CryptoTrading.Lib.JsonNumber
import CryptoTrading.Lib.KeyedSum
import CryptoTrading.Lib.Buckets
import CryptoTrading.Lib.Truncate
import CryptoTrading.Lib.StepIntegral
import CryptoTrading.Lib.Epochs
import CryptoTrading.Lib.Moments
import CryptoTrading.Lib.LeastSquares
import CryptoTrading.Lib.Odometer
import CryptoTrading.Lib.OrderedMap
import CryptoTrading.Lib.Decimal
import CryptoTrading.Lib.Occurrence
import CryptoTrading.Lib.Window
import CryptoTrading.Lib.Pipeline
import CryptoTrading.Lib.Latch
import CryptoTrading.Lib.Changes
import CryptoTrading.Primitives.Volume
import CryptoTrading.Primitives.SquareRoot
import CryptoTrading.Primitives.Trade
import CryptoTrading.Primitives.Order
import CryptoTrading.Primitives.OrderStatus
import CryptoTrading.Primitives.Events
import CryptoTrading.Primitives.Position
import CryptoTrading.Primitives.Parsing
import CryptoTrading.Positions.Manager
import CryptoTrading.Positions.Accounting
import CryptoTrading.Positions.AverageCost
import CryptoTrading.Positions.ClosedPieces
import CryptoTrading.Positions.PriceLevels
import CryptoTrading.Positions.Closing
import CryptoTrading.Gateway.Backtest
import CryptoTrading.Gateway.Conditionals
import CryptoTrading.Gateway.FullPosition
import CryptoTrading.Gateway.Ledger
import CryptoTrading.Gateway.Fees
import CryptoTrading.Positions.Opened
import CryptoTrading.Gateway.Exposure
import CryptoTrading.Gateway.TrailingStop
import CryptoTrading.Gateway.TrailingPath
import CryptoTrading.MarketData.CandleBuilder
import CryptoTrading.MarketData.LiveGateway
import CryptoTrading.MarketData.FileReader
import CryptoTrading.MarketData.Reader
import CryptoTrading.MarketData.Downloader
import CryptoTrading.Loop.Queue
import CryptoTrading.Loop.Scheduler
import CryptoTrading.Loop.SchedulerWait
import CryptoTrading.Loop.Timeseries
import CryptoTrading.Loop.WorkerThread
import CryptoTrading.Loop.Subscriber
import CryptoTrading.Loop.Barrier
import CryptoTrading.Loop.ChannelCapacity
import CryptoTrading.Loop.ObjectChannel
import CryptoTrading.Engine.OrderManager
import CryptoTrading.Engine.Calls
import CryptoTrading.Engine.QtySteps
import CryptoTrading.Engine.LotSize
import CryptoTrading.Engine.Subscriptions
import CryptoTrading.Gateway.ByBitExecutions
import CryptoTrading.Gateway.ByBitMessages
import CryptoTrading.Engine.MarketOrders
import CryptoTrading.Engine.Overlap
import CryptoTrading.Engine.TpslUpdates
import CryptoTrading.Network.ConnectionWatcher
import CryptoTrading.Gateway.ConnectionCheck
import CryptoTrading.Strategy.Base
import CryptoTrading.Strategy.SendErrors
import CryptoTrading.Strategy.Rejects
import CryptoTrading.Strategy.GridConfigs
import CryptoTrading.Strategy.GridLevels
import CryptoTrading.Ta.TimeWeightedMovingAverage
import CryptoTrading.Ta.SimpleMovingAverage
import CryptoTrading.Ta.StandardDeviation
import CryptoTrading.Ta.BollingerBands
import CryptoTrading.Ta.RelativeStrengthIndex
import CryptoTrading.Ta.AverageDirectionalIndex
import CryptoTrading.Ta.Ratchet
import CryptoTrading.Strategy.Ratchet
import CryptoTrading.Strategy.RateOfChange
import CryptoTrading.Strategy.BollingerBands
import CryptoTrading.Strategy.CandleBollingerBands
import CryptoTrading.Strategy.BBRSI
import CryptoTrading.Strategy.VolumeImbalanceTrend
import CryptoTrading.Strategy.DynamicGrid
import CryptoTrading.Strategy.DynamicGridAdx
import CryptoTrading.Strategy.DoubleSma
import CryptoTrading.Strategy.TrendCatcher
import CryptoTrading.Strategy.StaticGrid
import CryptoTrading.Strategy.StaticGridIntervals
import CryptoTrading.Strategy.StaticGridBan
import CryptoTrading.Strategy.TrailingStop
import CryptoTrading.Strategy.Tpsl
import CryptoTrading.Instance.Results
import CryptoTrading.Instance.Counts
import CryptoTrading.Optimizer.OrdinaryLeastSquares
import CryptoTrading.Optimizer.ConfigGenerator
import CryptoTrading.Optimizer.Collector
import CryptoTrading.Optimizer.Optimize
import CryptoTrading.Instance.System
import CryptoTrading.Instance.Pending
import CryptoTrading.Instance.Entry
import CryptoTrading.Instance.Closing
import CryptoTrading.Instance.Backtest
import CryptoTrading.Instance.Feed
import CryptoTrading.Instance.MarketSide
import CryptoTrading.Instance.MarketStates
import CryptoTrading.Instance.Shared
import CryptoTrading.Instance.Isolation
import CryptoTrading.Instance.LiveRequests
import CryptoTrading.Instance.LiveSessions
import CryptoTrading.Instance.TrailingStop
import CryptoTrading.Instance.TpslRequests
import CryptoTrading.Instance.TrailingStopRequests
import CryptoTrading.Instance.ExitInputs
import CryptoTrading.Instance.Armed
import CryptoTrading.Instance.Protection
import CryptoTrading.Instance.Finish
import CryptoTrading.Instance.Progress
import CryptoTrading.Instance.Trend
import CryptoTrading.Grid.System
import CryptoTrading.Grid.Orders
import CryptoTrading.Grid.Cancels
import CryptoTrading.Grid.Views
import CryptoTrading.Grid.Operations
import CryptoTrading.Grid.Stages
import CryptoTrading.Grid.Tracking
import CryptoTrading.Grid.Exposure
import CryptoTrading.Grid.Hedge
import CryptoTrading.Grid.Ban
import CryptoTrading.Grid.Exits

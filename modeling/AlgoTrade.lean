import AlgoTrade.Lib.Runs
import AlgoTrade.Lib.Json
import AlgoTrade.Lib.ReadCommitted
import AlgoTrade.Ledger.Position
import AlgoTrade.Ledger.FillRecords
import AlgoTrade.Fills.PendingOrder
import AlgoTrade.Fills.RestSync
import AlgoTrade.Fills.Stream
import AlgoTrade.Fills.Exchange
import AlgoTrade.Fills.ExactlyOnce
import AlgoTrade.Fills.CrashRetry
import AlgoTrade.Fills.QuickTrade
import AlgoTrade.Grid.RestingOrder
import AlgoTrade.Grid.FillsOnce
import AlgoTrade.Grid.Engine
import AlgoTrade.Grid.Inventory
import AlgoTrade.Streams.Normalizers
import AlgoTrade.Grid.FillUnits
import AlgoTrade.Grid.UnitsAgree
import AlgoTrade.Grid.OrderQuery
import AlgoTrade.Grid.PhantomFills
import AlgoTrade.Execution.Executors
import AlgoTrade.Execution.Conservation
import AlgoTrade.Billing.Credits
import AlgoTrade.Billing.CreditConservation
import AlgoTrade.Payments.Chains
import AlgoTrade.Payments.Orders
import AlgoTrade.Payments.OnePayment
import AlgoTrade.Payments.Activation
import AlgoTrade.Lib.Dict
import AlgoTrade.Lib.Lists
import AlgoTrade.Community.Marketplace
import AlgoTrade.Backtest.Market
import AlgoTrade.Backtest.Protection
import AlgoTrade.Backtest.Book
import AlgoTrade.Backtest.Broker
import AlgoTrade.Backtest.Runner
import AlgoTrade.Backtest.NoLookahead
import AlgoTrade.Agent.PlaceOrder
import AlgoTrade.Agent.KillSwitch
import AlgoTrade.Agent.NotionalLimits
import AlgoTrade.Lifecycle.Workers
import AlgoTrade.Lifecycle.OneRunner
import AlgoTrade.Lifecycle.FinishedCommands
import AlgoTrade.Lifecycle.LastRequest
import AlgoTrade.Grid.CountedOnce
import AlgoTrade.Community.PurchaseConservation
import AlgoTrade.Funding.Attribution
import AlgoTrade.Ownership.ExitQuantity
import AlgoTrade.Ownership.ManualFloor
import AlgoTrade.Robot.Martingale
import AlgoTrade.Robot.Orders
import AlgoTrade.Robot.MartingaleMoves
import AlgoTrade.Robot.MartingaleLevels
import AlgoTrade.Robot.MartingaleBudget
import AlgoTrade.Robot.Dca
import AlgoTrade.Robot.DcaBudget
import AlgoTrade.Backtest.BrokerMoves
import AlgoTrade.Backtest.LedgerConservation
import AlgoTrade.Backtest.ProfitDecomposition
import AlgoTrade.Backtest.OrderAttempts
import AlgoTrade.Backtest.IncrementalOrders
import AlgoTrade.Lib.TextPatterns
import AlgoTrade.Sandbox.SyntaxTree
import AlgoTrade.Sandbox.SafeExec
import AlgoTrade.Sandbox.AttributeBan
import AlgoTrade.AccountRisk.ExposureCap
import AlgoTrade.Backtest.PriceTicks
import AlgoTrade.Backtest.Schedules
import AlgoTrade.Backtest.Bankruptcy
import AlgoTrade.Backtest.Desk
import AlgoTrade.Backtest.DeskRuns
import AlgoTrade.Backtest.StaleTargets
import AlgoTrade.Backtest.CancelledOrders
import AlgoTrade.Live.Session
import AlgoTrade.Live.Cancellation
import AlgoTrade.Lib.Values
import AlgoTrade.Live.StateValues
import AlgoTrade.Live.Snapshot
import AlgoTrade.Live.SnapshotRoundTrip
import AlgoTrade.Live.ExitLatch
import AlgoTrade.Execution.OrderSizing
import AlgoTrade.Execution.Dispatch
import AlgoTrade.Execution.SubmittedOnce
import AlgoTrade.Agent.ProgressStream
import AlgoTrade.Backtest.FeasibleDelta
import AlgoTrade.Backtest.LeverageBound
import AlgoTrade.Streams.ProxySubscriptions
import AlgoTrade.Agent.RunsOnce
import AlgoTrade.Fills.RestOnly
import AlgoTrade.Funding.BrokerActivities
import AlgoTrade.Funding.BrokerAttribution
import AlgoTrade.Ledger.Replay
import AlgoTrade.Grid.EntrySync
import AlgoTrade.Grid.EntryCap
import AlgoTrade.Grid.WorkingCells
import AlgoTrade.Grid.LocalCancels
import AlgoTrade.Streams.ConnectionPool
import AlgoTrade.Streams.PoolTracking
import AlgoTrade.Streams.PoolAgreement
import AlgoTrade.Billing.LifetimeGrants
import AlgoTrade.Grid.BookedNotional
import AlgoTrade.Grid.OneSync
import AlgoTrade.Ledger.ProfitIdentity
import AlgoTrade.Lib.Digits
import AlgoTrade.Lib.Rounding
import AlgoTrade.Live.ClientOrderIds
import AlgoTrade.Live.OrderGateway
import AlgoTrade.Live.OrderPlan
import AlgoTrade.Live.SizingAgrees
import AlgoTrade.Robot.ExecutorConfig
import AlgoTrade.Robot.GridPreview
import AlgoTrade.Robot.LadderPreview
import AlgoTrade.Backtest.LedgerRows
import AlgoTrade.Backtest.OrderStatuses
import AlgoTrade.Instruments.CanonicalKeys
import AlgoTrade.Backtest.OrderLedger
import AlgoTrade.Streams.PriceFeed
import AlgoTrade.Lifecycle.FencingTokens
import AlgoTrade.Lib.Fifo
import AlgoTrade.Ledger.NetPnl
import AlgoTrade.Ledger.OpenCommissions
import AlgoTrade.Candles.Fetch
import AlgoTrade.Candles.CompleteHistory
import AlgoTrade.Candles.Resample
import AlgoTrade.Candles.AlignedWindows
import AlgoTrade.Ledger.FeeShares
import AlgoTrade.Grid.LedgerReconcile
import AlgoTrade.Lib.AsOf
import AlgoTrade.Factors.Frame
import AlgoTrade.Factors.Fundamentals
import AlgoTrade.Factors.EnrichedFrames
import AlgoTrade.Lib.Series
import AlgoTrade.Factors.Trend
import AlgoTrade.Factors.Momentum
import AlgoTrade.Factors.Volatility
import AlgoTrade.Factors.Volume
import AlgoTrade.Factors.Registry
import AlgoTrade.Factors.Oscillators
import AlgoTrade.Factors.Bounds
import AlgoTrade.Factors.NeededRows
import AlgoTrade.Factors.WarmUp
import AlgoTrade.Backtest.OrderFills
import AlgoTrade.Backtest.WorkingOrders
import AlgoTrade.Backtest.HandledBars
import AlgoTrade.Robot.GridTemplate
import AlgoTrade.Robot.GridCells
import AlgoTrade.Robot.GridInventory
import AlgoTrade.Backtest.FillPrices
import AlgoTrade.Lib.Lockout
import AlgoTrade.Security.LoginLockout
import AlgoTrade.Backtest.ProtectionExits
import AlgoTrade.Lib.RetryQueue
import AlgoTrade.Streams.EventInbox
import AlgoTrade.Streams.InboxAccounted
import AlgoTrade.Streams.InboxWait
import AlgoTrade.Lib.Drawdown
import AlgoTrade.Backtest.BookCalls
import AlgoTrade.Backtest.Report
import AlgoTrade.Backtest.ReportTotals
import AlgoTrade.Lib.SlidingWindow
import AlgoTrade.Agent.RateLimit
import AlgoTrade.Agent.RateWindows
import AlgoTrade.Lib.RaisedFlags
import AlgoTrade.Lifecycle.LiveGuard
import AlgoTrade.Lifecycle.LiveLegs

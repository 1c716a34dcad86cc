import QuantStrategies.Lib.Transition
import QuantStrategies.Lib.Pool
import QuantStrategies.Lib.Grid
import QuantStrategies.Lib.GridSearch
import QuantStrategies.Shared.Intervals
import QuantStrategies.MarketData.PriceBar
import QuantStrategies.MarketData.Service
import QuantStrategies.MarketData.Warming
import QuantStrategies.MarketData.Workers
import QuantStrategies.MarketData.ClosedBars
import QuantStrategies.MarketData.LiveWindow
import QuantStrategies.Trade.ScheduleAlign
import QuantStrategies.Lib.Versioned
import QuantStrategies.Queue.Jobs
import QuantStrategies.Queue.Terminal
import QuantStrategies.Trade.Deployment
import QuantStrategies.Trade.Edits
import QuantStrategies.Lib.Result
import QuantStrategies.Trade.Cursor
import QuantStrategies.Lib.Interaction
import QuantStrategies.Lib.Python
import QuantStrategies.Trade.Order
import QuantStrategies.Trade.Adapter
import QuantStrategies.Trade.Executor
import QuantStrategies.Trade.Stacking
import QuantStrategies.Trade.LiveApply
import QuantStrategies.Trade.Tick
import QuantStrategies.Lib.Causal
import QuantStrategies.Lib.Pandas
import QuantStrategies.Lib.Rolling
import QuantStrategies.Strategy.Indicators
import QuantStrategies.Strategy.Performance
import QuantStrategies.Strategy.Objective
import QuantStrategies.Strategy.Search
import QuantStrategies.Lib.TwoRuns
import QuantStrategies.Strategy.Prefix
import QuantStrategies.Strategy.LookAhead
import QuantStrategies.Strategy.Isolation
import QuantStrategies.Database.Gateway
import QuantStrategies.Strategy.Sources
import QuantStrategies.Trade.Exposure
import QuantStrategies.Trade.Reactivation
import QuantStrategies.Database.Backtest
import QuantStrategies.Database.Deployment
import QuantStrategies.Database.SeriesSubscr
import QuantStrategies.Database.AllOrNothing
import QuantStrategies.Database.History
import QuantStrategies.Database.ApiRequest
import QuantStrategies.MarketData.Subscriptions
import QuantStrategies.Trade.Fills
import QuantStrategies.Strategy.Live
import QuantStrategies.Lib.Ranking
import QuantStrategies.Promotion.Evaluate
import QuantStrategies.Promotion.Ranking
import QuantStrategies.MarketData.BackfillPlan
import QuantStrategies.Strategy.ExchangeSeries
import QuantStrategies.Frontend.CapturedRange
import QuantStrategies.Frontend.ExchangeSeries
import QuantStrategies.Refdata.Reader
import QuantStrategies.Trade.VenueLimits
import QuantStrategies.Database.Promote
import QuantStrategies.Promotion.Flips
import QuantStrategies.Queue.Slots
import QuantStrategies.Strategy.DateSync
import QuantStrategies.Trade.Futu
import QuantStrategies.Lib.StableSort
import QuantStrategies.Queue.RunOrder
import QuantStrategies.MarketData.BackfillReport
import QuantStrategies.Trade.Positions
import QuantStrategies.Lib.Iteration
import QuantStrategies.MarketData.Paging
import QuantStrategies.Lib.FirstMax
import QuantStrategies.Lib.Ieee
import QuantStrategies.Strategy.Combine
import QuantStrategies.Lib.ExactFloat
import QuantStrategies.Lib.Ready
import QuantStrategies.Strategy.FirstReading
import QuantStrategies.Strategy.Scored
import QuantStrategies.Strategy.Scoreable
import QuantStrategies.Lib.Known
import QuantStrategies.Strategy.Figures
import QuantStrategies.Strategy.SameBars
import QuantStrategies.Strategy.Head
import QuantStrategies.Strategy.WalkForward
import QuantStrategies.Shared.Slots
import QuantStrategies.Strategy.Equity
import QuantStrategies.Strategy.Ledger
import QuantStrategies.Strategy.BacktestService
import QuantStrategies.Strategy.BestParams
import QuantStrategies.Strategy.Optimizer
import QuantStrategies.Strategy.RowReports
import QuantStrategies.Strategy.ParamGrid
import QuantStrategies.Lib.FirstWins
import QuantStrategies.Database.ProductXref
import QuantStrategies.MarketData.ProviderFill
import QuantStrategies.Trade.Drain
import QuantStrategies.Trade.KeyRouting
import QuantStrategies.Strategy.StrategyJson
import QuantStrategies.Frontend.StrategyIdentity
import QuantStrategies.Lib.Civil
import QuantStrategies.Lib.Jsonb
import QuantStrategies.Lib.Records
import QuantStrategies.MarketData.BacktestCache
import QuantStrategies.Lib.Datetime
import QuantStrategies.Shared.BarStarts
import QuantStrategies.Lib.Bisect
import QuantStrategies.Strategy.Conviction
import QuantStrategies.Lib.Regex
import QuantStrategies.Shared.PeriodText
import QuantStrategies.Lib.Double
import QuantStrategies.Frontend.Interval
import QuantStrategies.Refdata.IntervalPeriod
import QuantStrategies.Lib.Simulation
import QuantStrategies.Queue.Children
import QuantStrategies.Queue.Results
import QuantStrategies.Queue.ResultRows
import QuantStrategies.Queue.CurrentResult
import QuantStrategies.Lib.TtlCache
import QuantStrategies.Api.Sessions
import QuantStrategies.Queue.QueuedCap
import QuantStrategies.Strategy.UnitRanges

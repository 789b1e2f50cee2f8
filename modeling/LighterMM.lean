import LighterMM.Lib.Trans
import LighterMM.Lib.Window
import LighterMM.Lib.DiffSync
import LighterMM.Lib.RingBuffer
import LighterMM.Lib.Welford
import LighterMM.Lib.CappedMap
import LighterMM.Lib.CyclicWalk
import LighterMM.Lib.Cursor
import LighterMM.Lib.Sentinel
import LighterMM.Lib.Simulation
import LighterMM.Types
import LighterMM.Lighter.Messages
import LighterMM.Lighter.Nonce
import LighterMM.Lighter.Venue
import LighterMM.Book.LocalBook
import LighterMM.Strategy.Rolling
import LighterMM.Strategy.VolObi
import LighterMM.Strategy.Quotes
import LighterMM.Risk
import LighterMM.RiskRun
import LighterMM.Exec.OrderManager
import LighterMM.Exec.TrackedIds
import LighterMM.Exec.OrderManagerLemmas
import LighterMM.Exec.Signing
import LighterMM.Exec.CancelAll
import LighterMM.Exec.PacedSend
import LighterMM.Exec.NonceSync
import LighterMM.Hot.Cycle
import LighterMM.Hot.GateRun
import LighterMM.Exec.Events
import LighterMM.Exec.Fills
import LighterMM.Exec.RateLimit
import LighterMM.System.World
import LighterMM.System.Cases
import LighterMM.System.Frames
import LighterMM.System.Shutdown
import LighterMM.System.Permission
import LighterMM.System.DeadMan
import LighterMM.System.Ledger
import LighterMM.System.OneOrder
import LighterMM.Hot.Exits
import LighterMM.Hot.BookFeed
import LighterMM.Hot.Readiness
import LighterMM.Account.FillAccounting
import LighterMM.Account.PnlActor
import LighterMM.Account.Moves
import LighterMM.Account.Booking
import LighterMM.Account.Estimate
import LighterMM.Account.Attribution
import LighterMM.Account.Restart
import LighterMM.Hot.Occupancy
import LighterMM.Hot.Requotes
import LighterMM.Hot.LostOps
import LighterMM.System.Orphans
import LighterMM.System.PositionFeed
import LighterMM.Lib.Json
import LighterMM.Lighter.TxOutcome
import LighterMM.Lighter.TxConnection
import LighterMM.Lighter.TxAttribution
import LighterMM.Exec.CountedBatches
import LighterMM.Lighter.Rest
import LighterMM.System.Replies
import LighterMM.System.Batches
import LighterMM.System.Answers
import LighterMM.System.ReduceOnly
import LighterMM.Binance.Obi
import LighterMM.Binance.DepthSync
import LighterMM.Lib.KeyedList
import LighterMM.Book.Sides
import LighterMM.Book.Unreadable
import LighterMM.Lib.TickGrid
import LighterMM.Strategy.Ladder
import LighterMM.Strategy.ExitBias
import LighterMM.Hot.Ladder
import LighterMM.Exec.Confirmation
import LighterMM.Hot.DeadOrders
import LighterMM.Hot.InFlight
import LighterMM.Strategy.Windows
import LighterMM.Strategy.SampleClock
import LighterMM.Exec.WriteSlot
import LighterMM.Exec.Repair
import LighterMM.Exec.IdMap
import LighterMM.Exec.ClientIds
import LighterMM.Hot.Freshness
import LighterMM.Hot.PublishedIds
import LighterMM.Exec.Quota
import LighterMM.System.Process
import LighterMM.System.Provenance
import LighterMM.Lib.RoundEven
import LighterMM.System.Requests
import LighterMM.Lib.WatchLog
import LighterMM.System.Mailbox
import LighterMM.Lib.AtomicFile
import LighterMM.Account.Persistence
import LighterMM.Account.Crashes
import LighterMM.Account.TradeLog
import LighterMM.Lighter.Subscription
import LighterMM.Lighter.Reconnects
import LighterMM.Hot.MarketStream
import LighterMM.System.Fleet
import LighterMM.Lib.RelAcq
import LighterMM.Binance.AlphaFeed
import LighterMM.Binance.DepthClient
import LighterMM.Exec.Backoff

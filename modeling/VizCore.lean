import VizCore.Lib.Except
import VizCore.Lib.Derivation
import VizCore.Lib.Table
import VizCore.Lib.Walk
import VizCore.Lib.Traced
import VizCore.Protocol.Types
import VizCore.Protocol.Operations
import VizCore.Protocol.Validate
import VizCore.Protocol.SignState
import VizCore.Protocol.VerifyAuthority
import VizCore.Chain.Apply
import VizCore.Chain.Aspect
import VizCore.Chain.Auction
import VizCore.Chain.Bids
import VizCore.Chain.Block.Payouts
import VizCore.Chain.Block.Rounds
import VizCore.Chain.Block.Schedule
import VizCore.Chain.Block.Steps
import VizCore.Chain.Block.Turns
import VizCore.Chain.Block.Upkeep
import VizCore.Chain.Block.Withdrawals
import VizCore.Chain.BlockLog
import VizCore.Chain.Branches
import VizCore.Chain.Burdens
import VizCore.Chain.Calls
import VizCore.Chain.Capacity
import VizCore.Chain.Clock
import VizCore.Chain.Conservation
import VizCore.Chain.Core
import VizCore.Chain.Course
import VizCore.Chain.Credit
import VizCore.Chain.Declarations
import VizCore.Chain.Docket
import VizCore.Chain.Drift
import VizCore.Chain.Energy
import VizCore.Chain.Escrows
import VizCore.Chain.Evaluator.Accounts
import VizCore.Chain.Evaluator.Awards
import VizCore.Chain.Evaluator.Committee
import VizCore.Chain.Evaluator.Proposals
import VizCore.Chain.Evaluator.Sales
import VizCore.Chain.Evaluator.Subscriptions
import VizCore.Chain.Evaluator.Transfers
import VizCore.Chain.Evaluator.Witnesses
import VizCore.Chain.Execution
import VizCore.Chain.Filing
import VizCore.Chain.Finality
import VizCore.Chain.Flow
import VizCore.Chain.ForkDb
import VizCore.Chain.ForkTree
import VizCore.Chain.Funds
import VizCore.Chain.Genesis
import VizCore.Chain.Halting
import VizCore.Chain.Handover
import VizCore.Chain.Hardforks
import VizCore.Chain.Heads
import VizCore.Chain.Invariant
import VizCore.Chain.KeyIndex
import VizCore.Chain.Laps
import VizCore.Chain.Lasting
import VizCore.Chain.Ledger
import VizCore.Chain.Loans
import VizCore.Chain.LogRuns
import VizCore.Chain.Lookup
import VizCore.Chain.Mainline
import VizCore.Chain.Medians
import VizCore.Chain.Merkle
import VizCore.Chain.Names
import VizCore.Chain.Objects
import VizCore.Chain.Panel
import VizCore.Chain.Pending
import VizCore.Chain.PowerDowns
import VizCore.Chain.Proxies
import VizCore.Chain.Push
import VizCore.Chain.Renewals
import VizCore.Chain.Reopen
import VizCore.Chain.Replay
import VizCore.Chain.Requests
import VizCore.Chain.Rewards
import VizCore.Chain.Rounding
import VizCore.Chain.Slots
import VizCore.Chain.Sold
import VizCore.Chain.Spending
import VizCore.Chain.Stake
import VizCore.Chain.Store
import VizCore.Chain.Succession
import VizCore.Chain.Support
import VizCore.Chain.Titles
import VizCore.Chain.Transaction
import VizCore.Chain.Vesting
import VizCore.Chain.Visits
import VizCore.Chain.Wiring
import VizCore.Lib.Bytes
import VizCore.Lib.Decimal
import VizCore.Lib.Forest
import VizCore.Lib.Index
import VizCore.Lib.Ladder
import VizCore.Lib.Linked
import VizCore.Lib.Median
import VizCore.Lib.Runs
import VizCore.Lib.Select
import VizCore.Lib.Session
import VizCore.Network.Backlog
import VizCore.Network.ChainSync
import VizCore.Network.Delegate
import VizCore.Network.Frames
import VizCore.Network.Framing
import VizCore.Network.Handshake
import VizCore.Network.Inactivity
import VizCore.Network.Intake
import VizCore.Network.Lists
import VizCore.Network.Node
import VizCore.Network.Relay
import VizCore.Network.Replies
import VizCore.Network.Stream
import VizCore.Network.SyncIds
import VizCore.Network.SyncLedger
import VizCore.Network.Syncing
import VizCore.Plugins.AccountHistory
import VizCore.Plugins.Follow
import VizCore.Plugins.FollowCounters
import VizCore.Plugins.HistoryIndex
import VizCore.Plugins.HistoryRuns
import VizCore.Plugins.Interpreter
import VizCore.Plugins.OperationHistory
import VizCore.Plugins.TrackedRanges
import VizCore.Plugins.Witness
import VizCore.Protocol.AccountNames
import VizCore.Protocol.AssetRoundTrip
import VizCore.Protocol.AssetText
import VizCore.Protocol.Crowds
import VizCore.Protocol.NameGrammar
import VizCore.Protocol.Pricing
import VizCore.Protocol.RequiredSignatures
import VizCore.Protocol.Verdicts

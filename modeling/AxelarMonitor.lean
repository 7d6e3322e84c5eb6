import AxelarMonitor.Lib.OrderedMap
import AxelarMonitor.Lib.Plurality
import AxelarMonitor.Lib.FifoLoop
import AxelarMonitor.Lib.FifoWeights
import AxelarMonitor.Lib.TextCodecs
import AxelarMonitor.Lib.Workers
import AxelarMonitor.Lib.Outages
import AxelarMonitor.Lib.FifoMaps
import AxelarMonitor.Lib.MapContents
import AxelarMonitor.Wire
import AxelarMonitor.Rpc
import AxelarMonitor.Polls
import AxelarMonitor.Blocks
import AxelarMonitor.Monitor
import AxelarMonitor.System
import AxelarMonitor.Handlers
import AxelarMonitor.Follower
import AxelarMonitor.BlockFetches
import AxelarMonitor.Analysis
import AxelarMonitor.Accounting
import AxelarMonitor.PollStore
import AxelarMonitor.VoteTiming
import AxelarMonitor.AppliedOnce
import AxelarMonitor.Stalls
import AxelarMonitor.ChainParameters
import AxelarMonitor.StartUp
import AxelarMonitor.Labels
import AxelarMonitor.Retries
import AxelarMonitor.Draining
import AxelarMonitor.Bundles
import AxelarMonitor.PollLifeCycle
import AxelarMonitor.VoteCollection
import AxelarMonitor.LostVotes
import AxelarMonitor.Ledger
import AxelarMonitor.Sequential
import AxelarMonitor.Contributions
import AxelarMonitor.Popularity
import AxelarMonitor.Isolation
import AxelarMonitor.Batches
import AxelarMonitor.Registration
import AxelarMonitor.Expiry
import AxelarMonitor.EventEncodings
import AxelarMonitor.Threads
import AxelarMonitor.Broadcasters
import AxelarMonitor.Conservation
import AxelarMonitor.Scoreboard
import AxelarMonitor.Lib.FifoPairs
import AxelarMonitor.Outsiders
import AxelarMonitor.Texts
import AxelarMonitor.Node
import AxelarMonitor.Lib.DisjointMaps
import AxelarMonitor.Superposition
import AxelarMonitor.Restarts
import AxelarMonitor.LetterCase
import AxelarMonitor.Lib.RetryQueue
import AxelarMonitor.Backlog
import AxelarMonitor.Announcements
import AxelarMonitor.Counters
import AxelarMonitor.Provenance
import AxelarMonitor.LatePolls

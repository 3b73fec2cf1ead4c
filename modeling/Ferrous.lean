import Ferrous.Lib.Text
import Ferrous.Lib.Float64
import Ferrous.Lib.Map
import Ferrous.Lib.Run
import Ferrous.Lib.Dialogue
import Ferrous.Lib.Prog
import Ferrous.Lib.Truncation
import Ferrous.Lib.Fearless
import Ferrous.Lib.Codec
import Ferrous.Lib.Incremental
import Ferrous.Lib.Linked
import Ferrous.Lib.Selection
import Ferrous.Storage.Error
import Ferrous.Storage.SkipList
import Ferrous.Storage.SkipTower
import Ferrous.Storage.SkipWiring
import Ferrous.Storage.SkipSpec
import Ferrous.Storage.SkipMap
import Ferrous.Storage.SkipChains
import Ferrous.Storage.ConsumerGroups
import Ferrous.Storage.Stream
import Ferrous.Storage.Value
import Ferrous.Storage.Engine
import Ferrous.Storage.KeyOps
import Ferrous.Storage.StreamRuns
import Ferrous.Storage.PendingEntries
import Ferrous.Storage.GroupDelivery
import Ferrous.Storage.AutoClaim
import Ferrous.Storage.Glob
import Ferrous.Storage.Ops
import Ferrous.Storage.Effects
import Ferrous.Storage.KeyFacts
import Ferrous.Storage.Expiry
import Ferrous.Storage.World
import Ferrous.Storage.Rdb
import Ferrous.Storage.RdbRecords
import Ferrous.Storage.RdbFile
import Ferrous.Storage.RdbRoundTrip
import Ferrous.Storage.RdbStreams
import Ferrous.Storage.RdbDeadlines
import Ferrous.Storage.RdbTruncation
import Ferrous.Storage.RdbCorruption
import Ferrous.Storage.Absence
import Ferrous.Storage.AbsenceKeys
import Ferrous.Storage.IndexRanges
import Ferrous.Storage.AbsenceSets
import Ferrous.Storage.LazyExpiry
import Ferrous.Storage.Aof
import Ferrous.Protocol.Resp
import Ferrous.Protocol.Parser
import Ferrous.Protocol.Feed
import Ferrous.Commands.Handler
import Ferrous.Commands.Strings
import Ferrous.Commands.Executor
import Ferrous.Commands.Counters
import Ferrous.Commands.Deadlines
import Ferrous.Commands.Pops
import Ferrous.Commands.PendingBounds
import Ferrous.Commands.Collections
import Ferrous.Commands.ListRemovals
import Ferrous.Commands.Counts
import Ferrous.Commands.Bits
import Ferrous.Commands.SortedSets
import Ferrous.Commands.Streams
import Ferrous.Commands.Groups
import Ferrous.Commands.Admin
import Ferrous.Server.Command
import Ferrous.Server.Blocking
import Ferrous.Server.PubSub
import Ferrous.Server.Subscriptions
import Ferrous.Server.Replication
import Ferrous.Server.State
import Ferrous.Server.Handlers
import Ferrous.Server.Dispatch
import Ferrous.Server.Loop
import Ferrous.Server.AuthGate
import Ferrous.Server.Offsets
import Ferrous.Server.Watches
import Ferrous.Storage.SkipScores
import Ferrous.Storage.SkipAgreement
import Ferrous.Commands.Scores
import Ferrous.Commands.Failures
import Ferrous.Commands.CleanHandlers
import Ferrous.Commands.Halfway
import Ferrous.Commands.GroupReads
import Ferrous.Commands.Histories
import Ferrous.Commands.Reads
import Ferrous.Server.Logged
import Ferrous.Server.Occurrences
import Ferrous.Server.Footprint
import Ferrous.Server.Calm
import Ferrous.Server.Asleep
import Ferrous.Server.Closing
import Ferrous.Server.Requests
import Ferrous.Server.Quiet
import Ferrous.Server.Teardown
import Ferrous.Commands.Lengths
import Ferrous.Server.Announced
import Ferrous.Server.Heard
import Ferrous.Server.Atomicity
import Ferrous.Server.Scripts
import Ferrous.Server.Replies
import Ferrous.Server.Silence
import Ferrous.Server.Stuck
import Ferrous.Server.Sizes
import Ferrous.Storage.Scan
import Ferrous.Storage.FullScans
import Ferrous.Storage.ExactFilters
import Ferrous.Storage.StreamWindows
import Ferrous.Protocol.Framing
import Ferrous.Protocol.Survival
import Ferrous.Server.Patterns
import Ferrous.Commands.LuaValues
import Ferrous.Server.WritePath
import Ferrous.Server.Backlogs
import Ferrous.Protocol.Stability
import Ferrous.Server.Registry
import Ferrous.Storage.Routing
import Ferrous.Commands.Emptiness
import Ferrous.Server.Callers
import Ferrous.Commands.Lines
import Ferrous.Server.Echoes
import Ferrous.Server.Framing
import Ferrous.Commands.TypedCommands
import Ferrous.Lib.Lockstep
import Ferrous.Commands.TypedExecution
import Ferrous.Commands.Agreement
import Ferrous.Commands.AgreedArguments
import Ferrous.Commands.AgreedCommands
import Ferrous.Commands.AgreedStreams
import Ferrous.Server.TwoPaths
import Ferrous.Storage.Confinement
import Ferrous.Commands.Confined
import Ferrous.Server.Carried
import Ferrous.Server.Isolation
import Ferrous.Server.ScriptCalls
import Ferrous.Storage.SetAlgebra
import Ferrous.Commands.Slowlog

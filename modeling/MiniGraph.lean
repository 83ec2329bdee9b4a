import MiniGraph.Lib.Cursor
import MiniGraph.Lib.Bytes
import MiniGraph.Lib.Lists
import MiniGraph.Wal.Types
import MiniGraph.Wal.ByteReader
import MiniGraph.Wal.PgOutput
import MiniGraph.Wal.ParserSpec
import MiniGraph.Wal.WireLanguage
import MiniGraph.Edge.SubscriptionIndex
import MiniGraph.Edge.IndexRefinement
import MiniGraph.Edge.IndexAlgebra
import MiniGraph.Wal.HintGenerator
import MiniGraph.Wal.CommentUpdates
import MiniGraph.Metrics
import MiniGraph.Types
import MiniGraph.Wal.Router
import MiniGraph.Wal.Replication
import MiniGraph.Wal.Stream
import MiniGraph.Wal.Delivery
import MiniGraph.Wal.LossAccounting
import MiniGraph.Lib.Channel
import MiniGraph.Rooms
import MiniGraph.WebSocket
import MiniGraph.WorldSteps
import MiniGraph.WorldInv
import MiniGraph.Answers
import MiniGraph.AtMostOneCopy
import MiniGraph.Lib.Register
import MiniGraph.Membership
import MiniGraph.Disconnect
import MiniGraph.Coordinator
import MiniGraph.Lib.Stutter
import MiniGraph.MessageOrder
import MiniGraph.RoomHistory
import MiniGraph.Tasks
import MiniGraph.NoSilentLoss
import MiniGraph.Lib.Local
import MiniGraph.Wal.Payloads
import MiniGraph.Wal.RelationCache
import MiniGraph.Wal.ReaderRuns
import MiniGraph.Wal.Acknowledgement
import MiniGraph.Wal.FailStop
import MiniGraph.FailedJoin
import MiniGraph.AcceptedCommands
import MiniGraph.ResourceSamples
import MiniGraph.Wal.Routing
import MiniGraph.Wal.Sink
import MiniGraph.Wal.RowHints
import MiniGraph.Lib.Percent
import MiniGraph.Postgres.Config
import MiniGraph.Lib.Machine
import MiniGraph.Wal.MachineParser
import MiniGraph.Wal.ParserSafety
import MiniGraph.Conversations
import MiniGraph.Isolation
import MiniGraph.Server
import MiniGraph.ReaderCounters
import MiniGraph.EndToEnd
import MiniGraph.Runtime
import MiniGraph.Invalidations
import MiniGraph.Wal.Recovery
import MiniGraph.Refinement
import MiniGraph.Counters
import MiniGraph.Responses
import MiniGraph.Wal.Framing
import MiniGraph.DebugMetrics
import MiniGraph.Lib.Invalidation
import MiniGraph.Wal.Tables
import MiniGraph.Wal.Publication
import MiniGraph.Freshness
import MiniGraph.Lib.Dialogue
import MiniGraph.Postgres.Setup
import MiniGraph.Lib.Gaps
import MiniGraph.LoadTest
import MiniGraph.Promptness

import Rnet.Lib.Chunks
import Rnet.Lib.Runs
import Rnet.Lib.Backlogs
import Rnet.Lib.Slab
import Rnet.Lib.Programs
import Rnet.Lib.PowersOfTwo
import Rnet.Lib.Residues
import Rnet.Lib.Loops
import Rnet.Lib.Merges
import Rnet.Lib.Lines
import Rnet.Lib.BigEndian
import Rnet.Lib.Buffers
import Rnet.Lib.Splits
import Rnet.Lib.Firsts
import Rnet.Lib.WaitGraphs
import Rnet.Socket
import Rnet.Gfd
import Rnet.Codec
import Rnet.Connection.Defs
import Rnet.Connection.Outbound
import Rnet.Connection.Drain
import Rnet.Connection.Termination
import Rnet.Connection.Framing
import Rnet.Command
import Rnet.Lib.Histories
import Rnet.Worker.Defs
import Rnet.Worker.Invariants
import Rnet.Worker.Once
import Rnet.Worker.Pools
import Rnet.Worker.Deadlock
import Rnet.Wake.Defs
import Rnet.Wake.Wakeup
import Rnet.Wake.Order
import Rnet.Wake.Answers
import Rnet.Wake.Budget
import Rnet.Handler
import Rnet.Connection.Inbound
import Rnet.Connection.Accessors
import Rnet.EventLoop.Defs
import Rnet.EventLoop.Machine
import Rnet.EventLoop.Effects
import Rnet.EventLoop.Outcomes
import Rnet.EventLoop.Steps
import Rnet.EventLoop.Timers
import Rnet.EventLoop.Input
import Rnet.EventLoop.Identity
import Rnet.EventLoop.Queues
import Rnet.EventLoop.CloseRequests
import Rnet.EventLoop.PendingOutput
import Rnet.EventLoop.Errors
import Rnet.EventLoop.Shutdown
import Rnet.EventLoop.Records
import Rnet.Options
import Rnet.Cores
import Rnet.SocketAddr
import Rnet.AddrDisplay
import Rnet.Address
import Rnet.EventLoop.Failures
import Rnet.EventLoop.Lifecycle
import Rnet.EventLoop.Shares
import Rnet.EventLoop.Numbers
import Rnet.EventLoop.Recycling
import Rnet.EventLoop.LastOutput
import Rnet.EventLoop.Consistency
import Rnet.EventLoop.Footprint
import Rnet.EventLoop.CleanReturn
import Rnet.EventLoop.ShutdownAnswers
import Rnet.EventLoop.Confinement
import Rnet.EventLoop.Readiness
import Rnet.EventLoop.Edges
import Rnet.EventLoop.AsyncWrites
import Rnet.EventLoop.Connections
import Rnet.EventLoop.Arrivals
import Rnet.EventLoop.Handed
import Rnet.EventLoop.Transients
import Rnet.EventLoop.ReadBuffer
import Rnet.Servers.Serving
import Rnet.Servers.Relay
import Rnet.Servers.Echo
import Rnet.Servers.AsyncEcho
import Rnet.Servers.ChatRoom
import Rnet.Servers.Broadcast
import Rnet.Servers.Json
import Rnet.Engine.System
import Rnet.Engine.Routing
import Rnet.Engine.Delivery
import Rnet.Engine.Balancer
import Rnet.Engine.Accepting
import Rnet.Engine.Tokens
import Rnet.Engine.RoundRobin
import Rnet.Engine.Startup
import Rnet.Engine.FailedStart
import Rnet.Engine.WorkerPool
import Rnet.Engine.ShutdownRequests

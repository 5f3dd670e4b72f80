import Kv.Lib.Incremental
import Kv.Lib.Codec
import Kv.Lib.LineFraming
import Kv.Lib.LineSegmentation
import Kv.Lib.LineCodec
import Kv.Bytes
import Kv.Protocol.Messages
import Kv.Protocol.Request.Parser
import Kv.Protocol.Request.Decode
import Kv.Protocol.Request.Grammar
import Kv.Protocol.Request.Drain
import Kv.Protocol.Request.Termination
import Kv.Protocol.Request.Segmentation
import Kv.Protocol.Request.RoundTrip
import Kv.Client.BuildRequest
import Kv.Client.OneReply
import Kv.Protocol.Response.Parser
import Kv.Protocol.Response.RoundTrip
import Kv.Router.Relay
import Kv.Lib.Transition
import Kv.Lib.Ownership
import Kv.Net.Socket
import Kv.Net.Connect
import Kv.Router.Descriptors
import Kv.Router.Heartbeat
import Kv.Router.PingOnce
import Kv.Lib.Rounding
import Kv.Bench.Percentiles
import Kv.Bench.Run
import Kv.Bench.Failover
import Kv.Lib.Linearizability
import Kv.Lib.CircularWalk
import Kv.HashRing
import Kv.HashRing.Walk
import Kv.HashRing.Build
import Kv.HashRing.History
import Kv.HashRing.Exact
import Kv.HashRing.Report
import Kv.HashRing.Preference
import Kv.HashRing.Distance
import Kv.Server.KVStore
import Kv.Server.HandleRequest
import Kv.Server.Service
import Kv.Router.Exchange
import Kv.Server.System
import Kv.Server.Answers
import Kv.Server.Values
import Kv.Server.Reactor
import Kv.Server.HandOff
import Kv.Server.EndToEnd
import Kv.Server.Concurrent
import Kv.Server.Locking
import Kv.Server.Represents
import Kv.Server.Linearization
import Kv.Server.Sequential
import Kv.Router.Router
import Kv.Router.Ring
import Kv.Router.System
import Kv.Router.Consistent
import Kv.Router.Steps
import Kv.Router.CrashStop
import Kv.Router.Restarts
import Kv.Router.Routes
import Kv.Router.Detector
import Kv.Router.Errors
import Kv.Router.History
import Kv.Router.Progress
import Kv.Router.Failover
import Kv.Router.Calm
import Kv.Router.Simulation
import Kv.Router.Linearization
import Kv.Router.Answers
import Kv.Router.DropIn
import Kv.Router.Delivery
import Kv.Router.Convergence
import Kv.Wire.System
import Kv.Wire.Channel
import Kv.Wire.Log
import Kv.Wire.Sound
import Kv.Wire.Thread
import Kv.Wire.Attribution
import Kv.Wire.Abstraction
import Kv.Wire.Refinement
import Kv.HashRing.Hash
import Kv.Lib.BufferBound
import Kv.Protocol.Memory
import Kv.Protocol.ErrorReplies
import Kv.Syscalls
import Kv.Router.SendRequest
import Kv.Router.ParseNodes
import Kv.Router.FanOut
import Kv.Router.HandleClient
import Kv.Lib.SwapRemove
import Kv.Reactor.Table
import Kv.Reactor.Accept
import Kv.Reactor.Sweep
import Kv.Reactor.System
import Kv.Reactor.Invariant
import Kv.Router.Order
import Kv.Router.Provenance
import Kv.Router.Healing
import Kv.Router.Alone
import Kv.Server.AcceptLoop
import Kv.Server.Draining
import Kv.Server.Connection
import Kv.Router.ClientStream
import Kv.Client.Words
import Kv.Client.Session
import Kv.Client.Plan
import Kv.Reactor.Process
import Kv.Reactor.Matching
import Kv.Reactor.Refinement
import Kv.Client.Transcript
import Kv.Bench.Oversized
import Kv.Bench.EndToEnd
import Kv.Router.Watching

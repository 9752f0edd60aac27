import Wirecall.Stream.BigEndian
import Wirecall.Stream.Framing
import Wirecall.Stream.Socket
import Wirecall.Stream.Blocks
import Wirecall.Stream.SipHash
import Wirecall.Stream.WordMaps
import Wirecall.Machine.Run
import Wirecall.Machine.Atomics
import Wirecall.Machine.RoundRobin
import Wirecall.Machine.Doorbell
import Wirecall.Memory.Growth
import Wirecall.Memory.Allocator
import Wirecall.Memory.BlockLedger
import Wirecall.Memory.Linked
import Wirecall.Memory.Fifo
import Wirecall.Memory.ByteMemory
import Wirecall.Memory.FixedArena
import Wirecall.Memory.ArenaMemory
import Wirecall.Protocol.Words
import Wirecall.Protocol.Header
import Wirecall.Protocol.Integrity
import Wirecall.Protocol.Mac
import Wirecall.Protocol.Checksum
import Wirecall.Protocol.Names
import Wirecall.Trace
import Wirecall.Protocol.WireFormat
import Wirecall.Protocol.Packet
import Wirecall.Payload.Writer
import Wirecall.Payload.Capacity
import Wirecall.Payload.Appends
import Wirecall.Payload.Decode
import Wirecall.Payload.Width
import Wirecall.Payload.Ownership
import Wirecall.Routes.Table
import Wirecall.Routes.Concurrent
import Wirecall.Routes.Sequential
import Wirecall.Routes.Reclamation
import Wirecall.Routes.Failures
import Wirecall.Routes.Named
import Wirecall.Routes.Finalizers
import Wirecall.Routes.Handlers
import Wirecall.Backend.Interests
import Wirecall.Backend.IoUring
import Wirecall.Backend.Readiness
import Wirecall.Backend.Hearing
import Wirecall.Backend.Windows
import Wirecall.Backend.Kqueue
import Wirecall.Backend.Wakes
import Wirecall.Server.Worker
import Wirecall.Server.Dispatch
import Wirecall.Server.Reading
import Wirecall.Server.Framing
import Wirecall.Server.Meaning
import Wirecall.Server.Input
import Wirecall.Server.Output
import Wirecall.Server.Loop
import Wirecall.Server.Rules
import Wirecall.Server.Slots
import Wirecall.Server.Lifecycle
import Wirecall.Server.Batches
import Wirecall.Server.Runs
import Wirecall.Server.Ledger
import Wirecall.Server.Isolation
import Wirecall.Server.Closing
import Wirecall.Server.Silence
import Wirecall.Server.Completion
import Wirecall.Server.Stalls
import Wirecall.Server.Actions
import Wirecall.Server.Packets
import Wirecall.Server.Pending
import Wirecall.Server.Agreement
import Wirecall.Server.Streams
import Wirecall.Server.Sockets
import Wirecall.Server.Fleet
import Wirecall.Server.Wakeups
import Wirecall.Server.Watching
import Wirecall.Server.OnKqueue
import Wirecall.Server.OnWindows
import Wirecall.Server.Setup
import Wirecall.Server.Threads
import Wirecall.Scheduler.Calls
import Wirecall.Scheduler.Rounds
import Wirecall.Client.Transport
import Wirecall.Client.Sending
import Wirecall.Client.Receiving
import Wirecall.Client.Calls
import Wirecall.Client.Answers
import Wirecall.Client.Recovery
import Wirecall.Client.Lifetime
import Wirecall.EndToEnd
import Wirecall.Dialogue

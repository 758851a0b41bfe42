import Mtc.Lib.AssocMap
import Mtc.Lib.Bytes
import Mtc.Lib.Framing
import Mtc.Lib.Int32
import Mtc.Lib.Machine
import Mtc.Lib.Mailbox
import Mtc.Lib.System
import Mtc.Lib.Links
import Mtc.Lib.Threads
import Mtc.Lock.Manager
import Mtc.Lock.UtHash
import Mtc.Lock.Spec
import Mtc.Lock.Proof.Table
import Mtc.Lock.Proof.HashChains
import Mtc.Lock.Proof.HashTable
import Mtc.Lock.Proof.Hashed
import Mtc.Lock.Proof.Holders
import Mtc.Lock.Proof.Isolation
import Mtc.Lock.Proof.History
import Mtc.Id.Server
import Mtc.Id.Proof.Ids
import Mtc.Net.RwLock
import Mtc.Net.Libevent
import Mtc.Net.EventMessage
import Mtc.Net.EventMessageHandle
import Mtc.Net.Spec
import Mtc.Net.Proof.RwLock
import Mtc.Net.Proof.Codec
import Mtc.Net.Proof.Receive
import Mtc.Net.Proof.Send
import Mtc.Net.Proof.Stream
import Mtc.Net.Proof.Delivery
import Mtc.Net.Proof.Queue
import Mtc.Lock.Client
import Mtc.Lock.Cluster
import Mtc.Lock.Proof.Client
import Mtc.Lock.Proof.Cluster
import Mtc.Lib.Queues
import Mtc.Net.Inbox
import Mtc.Net.Proof.Inbox
import Mtc.Net.Proof.Drain
import Mtc.Net.Proof.Safety
import Mtc.Net.Wait
import Mtc.Net.Proof.Wait
import Mtc.Net.Connections
import Mtc.Net.Proof.Connections
import Mtc.Json.Buffer
import Mtc.Json.Handler
import Mtc.Json.Packet
import Mtc.Json.Spec
import Mtc.Json.Proof.Handler
import Mtc.Json.Proof.Bounds
import Mtc.Json.Proof.Format
import Mtc.Json.Proof.RoundTrip
import Mtc.Json.Proof.Reuse
import Mtc.Json.Proof.Sizes
import Mtc.Net.Proof.NoWait
import Mtc.Net.Proof.SendResult
import Mtc.Net.Listen
import Mtc.Net.Proof.Listen
import Mtc.Lock.Server
import Mtc.Lock.Proof.Server
import Mtc.Net.Proof.Shutdown
import Mtc.Lib.Heap
import Mtc.Net.Lifecycle
import Mtc.Net.Proof.Lifecycle
import Mtc.Json.DynamicBuffer
import Mtc.Json.Proof.DynamicBuffer
import Mtc.Json.Proof.DynamicSize
import Mtc.Json.Proof.DynamicAddress
import Mtc.Net.Proof.FrameLength
import Mtc.Json.Proof.StringLength
import Mtc.Lib.Linear
import Mtc.Lock.Calls
import Mtc.Lock.Proof.Linear
import Mtc.Lock.Proof.Holding
import Mtc.Lib.Pipes
import Mtc.Net.Arrive
import Mtc.Net.Proof.Records
import Mtc.Net.Proof.Arrive
import Mtc.Net.Proof.Wires
import Mtc.Lock.Network
import Mtc.Lock.Proof.Wiring
import Mtc.Lock.Proof.Arrivals
import Mtc.Lock.Proof.Network
import Mtc.Lock.Proof.NetworkCalls
import Mtc.Net.Writers
import Mtc.Net.Proof.Writers

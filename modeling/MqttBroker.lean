import MqttBroker.Lib.Exec
import MqttBroker.Lib.Deadlines
import MqttBroker.Lib.Fifo
import MqttBroker.Lib.FirstSince
import MqttBroker.Lib.GoMap
import MqttBroker.Lib.Heap
import MqttBroker.Lib.HeldBy
import MqttBroker.Lib.MessageReader
import MqttBroker.Lib.Paths
import MqttBroker.Lib.Pool
import MqttBroker.Lib.StepSystem
import MqttBroker.Lib.Wildcards
import MqttBroker.Basic
import MqttBroker.Packets
import MqttBroker.Packets.Reader
import MqttBroker.Packets.Wire
import MqttBroker.Packets.Lengths
import MqttBroker.Packets.RoundTrip
import MqttBroker.Packets.Accepted
import MqttBroker.Packets.Received
import MqttBroker.Utils.List
import MqttBroker.Utils.SharedList
import MqttBroker.Runtine.SafeRuntine
import MqttBroker.Runtine.Shutdown
import MqttBroker.Ticker.SecondTicker
import MqttBroker.Ticker.Orderly
import MqttBroker.Store.Store
import MqttBroker.Store.MemStore
import MqttBroker.Store.MemStoreTheorems
import MqttBroker.Store.MessageMap
import MqttBroker.Store.RetainedLocks
import MqttBroker.Topic.Tree
import MqttBroker.Topic.Subscriptions
import MqttBroker.Topic.Lookup
import MqttBroker.Topic.LookupTheorems
import MqttBroker.Topic.Matchers
import MqttBroker.Topic.Positions
import MqttBroker.Topic.WholeFilter
import MqttBroker.Network.WebSocket
import MqttBroker.Session.SendLoop
import MqttBroker.Session.SessionMgr
import MqttBroker.Session.State
import MqttBroker.Session.Session
import MqttBroker.Session.FanOut
import MqttBroker.Session.MsgHandler
import MqttBroker.Session.System
import MqttBroker.Session.Ledger
import MqttBroker.Session.LedgerTheorems
import MqttBroker.Session.Sound
import MqttBroker.Session.Frames
import MqttBroker.Session.Rounds
import MqttBroker.Session.Moves
import MqttBroker.Session.SystemTheorems
import MqttBroker.Session.Numbering
import MqttBroker.Session.FanOutTheorems
import MqttBroker.Session.Panics
import MqttBroker.Session.PublishTheorems
import MqttBroker.Session.ExactlyOnce
import MqttBroker.Session.RetainedTheorems
import MqttBroker.Session.ConnectGate
import MqttBroker.Session.Flood
import MqttBroker.Session.Places
import MqttBroker.Session.SelfWait
import MqttBroker.Lifecycle.World
import MqttBroker.Lifecycle.Steps
import MqttBroker.Lifecycle.CloseState
import MqttBroker.Lifecycle.Subscribers
import MqttBroker.Lifecycle.Tables
import MqttBroker.Lifecycle.TakeOver
import MqttBroker.Lifecycle.Gauges
import MqttBroker.Lifecycle.Leaks
import MqttBroker.Lifecycle.StaleReports
import MqttBroker.Lifecycle.Deadlock
import MqttBroker.Lifecycle.Queries
import MqttBroker.Lifecycle.Uninterrupted
import MqttBroker.Solo.State
import MqttBroker.Solo.Outbound
import MqttBroker.Solo.Ending
import MqttBroker.Solo.System
import MqttBroker.Solo.Alone
import MqttBroker.Solo.EndSteps
import MqttBroker.Solo.Steps
import MqttBroker.Solo.Typed
import MqttBroker.Solo.Conservation
import MqttBroker.Solo.Window
import MqttBroker.Solo.Pending
import MqttBroker.Solo.AtMostOnce
import MqttBroker.Solo.Ordering
import MqttBroker.Solo.Flows
import MqttBroker.Solo.NoStepBack
import MqttBroker.Solo.PacketIds
import MqttBroker.Solo.Closer
import MqttBroker.Solo.Receiver
import MqttBroker.Solo.Will
import MqttBroker.Solo.Waiters
import MqttBroker.Solo.ConnectResult
import MqttBroker.Solo.Ticking
import MqttBroker.Solo.Entered
import MqttBroker.Solo.Retransmission
import MqttBroker.Solo.Spacing
import MqttBroker.Solo.Heard
import MqttBroker.Solo.Numbers
import MqttBroker.Solo.Stream
import MqttBroker.Session.Violations
import MqttBroker.Session.Forwarding
import MqttBroker.Session.Inbound
import MqttBroker.Session.Acknowledged
import MqttBroker.Session.RetainedState
import MqttBroker.Session.Framing
import MqttBroker.Session.Timing
import MqttBroker.Session.KeepAlive
import MqttBroker.Session.DeclaredWill
import MqttBroker.Session.Routing
import MqttBroker.Session.Independence
import MqttBroker.Session.InFlight
import MqttBroker.Session.Subscribing
import MqttBroker.Session.Transport
import MqttBroker.Session.PeerReplies
import MqttBroker.Session.History
import MqttBroker.Session.Reception
import MqttBroker.Session.Delivery
import MqttBroker.Client.Connect
import MqttBroker.Dashboard.Run

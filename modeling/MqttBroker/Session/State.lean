import MqttBroker.Lib.Exec
import MqttBroker.Lib.Heap
import MqttBroker.Packets
import MqttBroker.Session.SessionMgr
import MqttBroker.Store.Store
import MqttBroker.Topic.Tree

/-!
# Sessions and the state they share

Sessions, packets and tokens are objects behind pointers: a packet that is published to
two sessions is one packet. The state of a broker therefore keeps packets and tokens in
heaps and sessions by reference, next to the subscription tree, the store and the tables
of the manager. A session that has not been created yet is one that takes no steps.

`GoM` is a handler: it changes the broker and returns, panics, or blocks on the full
`peddingChan` of a session.
-/

namespace MqttBroker

abbrev PacketRef := ℕ
abbrev TokenRef := ℕ

/-- `int64(time.Second)`. -/
abbrev second : ℤ := 1000000000

/-- The package variables of `config` that the sessions read. -/
structure Config where
  pingTimeout : ℤ := 30 * second
  connectTimeout : ℤ := 10 * second
  sentTimeout : ℤ := 5 * second
  maxSizeOfInflight : ℕ := 100
  maxSizeOfPublishMsg : ℕ := 10 * 1024
  sendToSelf : Bool := true

/-! ## Tokens -/

/-- The struct behind a `Token`, with its own fields. -/
inductive TokenKind
  | connect
  | subscribe (subs : List GoString) (subResult : GoMap GoString UInt8)
  | publish
  | unsubscribe
  | disconnect

/-- A token; `complete` says that its channel of that name is closed. -/
structure Token where
  kind : TokenKind
  complete : Bool := false
  err : Option GoError := none

/-- `newToken`: no token for the other packet types. -/
def newToken (tType : UInt8) : Option Token :=
  match tType with
  | 1 => some { kind := .connect }
  | 8 => some { kind := .subscribe [] ∅ }
  | 3 => some { kind := .publish }
  | 10 => some { kind := .unsubscribe }
  | 14 => some { kind := .disconnect }
  | _ => none

/-- `PacketAndToken`. -/
structure PacketAndToken where
  p : PacketRef
  t : Option TokenRef
deriving DecidableEq

/-- `inflightingMsg`. -/
structure InflightingMsg where
  pt : PacketAndToken
  timeout : ℤ
  retryCnt : ℕ := 0
deriving DecidableEq

/-! ## Sessions -/

/-- `clostep`: 0, `closing` or `closed`. -/
inductive Clostep
  | running
  | closing
  | closed
deriving DecidableEq

/-- `DisconnectReason`. -/
inductive DisconnectReason
  | ok
  | sent
  | recv
  | pingTimeout
deriving DecidableEq

/-- `peddingChan`: how many bytes it buffers, and whether it is closed. -/
structure PeddingChan where
  len : ℕ := 0
  closed : Bool := false
deriving DecidableEq

/-- `Channel`. -/
structure Channel where
  conn : ConnRef
  isStoped : Bool := false
  iSendList : List PacketRef := []

/-- `Session`. `connected` is 0 before the handshake, positive after it and the negative
return code after a refusal. -/
structure Session where
  clientId : GoString := []
  channel : Channel
  isServer : Bool
  clostep : Clostep := .running
  connected : ℤ := 0
  lastMsgId : ℕ := 0
  timeout : ℤ := 0
  keepalive : ℤ
  inflightingList : List InflightingMsg := []
  peddingMsgList : List PacketAndToken := []
  peddingChan : PeddingChan := {}
  connectToken : Option TokenRef := none
  disconnectToken : Option TokenRef := none
  willFlag : Bool := false
  willRetain : Bool := false
  willTopic : GoString := []
  willQos : UInt8 := 0
  willMessage : GoString := []
  hadDisconnectException : DisconnectReason := .ok

namespace Session

/-- `IsConnected`. -/
abbrev isConnected (s : Session) : Prop := 0 < s.connected

/-- `IsClosed`. -/
abbrev isClosed (s : Session) : Prop := s.clostep = .closed

/-- The id that the next `atomic.AddInt64(&this.lastMsgId, 1)` gives, as a `uint16`. -/
def nextId (s : Session) : UInt16 := UInt16.ofNat (s.lastMsgId + 1)

end Session

/-! ## The broker -/

/-- A goroutine started by a `go` statement. -/
inductive Spawned
  | procRetainMessages (this : SessionRef)
  | onDisconnectException (this : SessionRef) (reason : DisconnectReason)
deriving DecidableEq

/-- What a run did, in order: for the statements about runs, read by no function. -/
inductive Event
  /-- `Publish(msg)` on a session: the token it returns and the packet, numbered. -/
  | publish (s : SessionRef) (t : Option TokenRef) (msg : ControlPacket)
  /-- `channel.Send` queued a packet. -/
  | send (s : SessionRef) (msg : ControlPacket)
  /-- `sendToSubcriber` was called. -/
  | sendToSubcriber (this : SessionRef) (msg : ControlPacket)
  /-- `callbackOnMessage` was called. -/
  | callbackOnMessage (this : SessionRef) (msg : ControlPacket)

/-- Everything the sessions of one process share, over a store of type `σ`. -/
structure Broker (σ : Type) where
  now : ℤ
  packets : Heap ControlPacket
  tokens : Heap Token
  sessions : SessionRef → Session
  subscriptionMgr : TreeSubsMgr SessionRef
  storeMgr : σ
  mgr : SessionMgr
  closeSessionChan : List SessionRef
  sessionInfoList : List SessionRef
  spawned : List Spawned
  trace : List Event

/-- Why a handler does not return: a panic, or a send on the full `peddingChan` of a session
with the entry that is to be queued after it. -/
inductive Fault
  | panic (p : Panic)
  | blocked (s : SessionRef) (pt : PacketAndToken)
deriving DecidableEq

abbrev GoM (σ : Type) := Exec Fault (Broker σ)

namespace Broker

variable {σ : Type}

/-- Replace the session behind a reference. -/
def setSession (this : SessionRef) (f : Session → Session) (b : Broker σ) : Broker σ :=
  { b with sessions := Function.update b.sessions this (f (b.sessions this)) }

@[simp] theorem setSession_self (this : SessionRef) (f : Session → Session) (b : Broker σ) :
    (b.setSession this f).sessions this = f (b.sessions this) :=
  Function.update_self ..

theorem setSession_of_ne {this s : SessionRef} (f : Session → Session) (b : Broker σ)
    (h : s ≠ this) : (b.setSession this f).sessions s = b.sessions s :=
  Function.update_of_ne h ..

/-- Only what the function makes of this session matters. -/
theorem setSession_congr {this : SessionRef} {f g : Session → Session} {b : Broker σ}
    (h : f (b.sessions this) = g (b.sessions this)) :
    b.setSession this f = b.setSession this g := by
  rw [setSession, setSession, h]

theorem setSession_setSession (this : SessionRef) (f g : Session → Session) (b : Broker σ) :
    (b.setSession this f).setSession this g = b.setSession this fun s => g (f s) := by
  simp only [setSession, Function.update_self, Function.update_idem]

end Broker

namespace GoM

variable {σ : Type}

/-- Read the session behind a reference. -/
def session (this : SessionRef) : GoM σ Session := Exec.gets fun b => b.sessions this

/-- Write fields of the session behind a reference. -/
def modifySession (this : SessionRef) (f : Session → Session) : GoM σ Unit :=
  Exec.modify (Broker.setSession this f)

/-- `time.Now().UnixNano()`. -/
def now : GoM σ ℤ := Exec.gets Broker.now

/-- Read the packet behind a reference. -/
def packet (msg : PacketRef) : GoM σ ControlPacket := Exec.gets fun b => b.packets.cells msg

/-- Allocate a packet. -/
def newPacket (p : ControlPacket) : GoM σ PacketRef :=
  Exec.modifyGet fun b => ((b.packets.alloc p).1, { b with packets := (b.packets.alloc p).2 })

/-- Write fields of the packet behind a reference. -/
def modifyPacket (msg : PacketRef) (f : ControlPacket → ControlPacket) : GoM σ Unit :=
  Exec.modify fun b => { b with packets := b.packets.modify msg f }

/-- Allocate the token of a packet type, if it has one. -/
def allocToken (tType : UInt8) : GoM σ (Option TokenRef) :=
  match newToken tType with
  | none => pure none
  | some t => Exec.modifyGet fun b =>
      (some (b.tokens.alloc t).1, { b with tokens := (b.tokens.alloc t).2 })

/-- Read the token behind a reference. -/
def token (t : TokenRef) : GoM σ Token := Exec.gets fun b => b.tokens.cells t

/-- Write fields of the token behind a reference. -/
def modifyToken (t : TokenRef) (f : Token → Token) : GoM σ Unit :=
  Exec.modify fun b => { b with tokens := b.tokens.modify t f }

/-- `flowComplete`: close the token's channel. -/
def flowComplete (t : TokenRef) : GoM σ Unit := do
  let tok ← token t
  if tok.complete then Exec.fault (.panic .closeOfClosedChannel)
  else modifyToken t fun tok => { tok with complete := true }

def panic {α : Type} (p : Panic) : GoM σ α := Exec.fault (.panic p)

/-- A method call on the store. -/
def callStore {α : Type} (f : σ → α × σ) : GoM σ α :=
  Exec.modifyGet fun b => ((f b.storeMgr).1, { b with storeMgr := (f b.storeMgr).2 })

def modifySubscriptionMgr (f : TreeSubsMgr SessionRef → TreeSubsMgr SessionRef) : GoM σ Unit :=
  Exec.modify fun b => { b with subscriptionMgr := f b.subscriptionMgr }

/-- `GetSessions`. -/
def getSessions (topic : GoString) : GoM σ (GoMap SessionRef UInt8) :=
  Exec.gets fun b => b.subscriptionMgr.getSessions topic

/-- The manager takes an event and serves it, up to the hand-over to `CloseSession`. -/
def mgrEvent (event : SessionMgr → Option SessionRef × SessionMgr) : GoM σ Unit :=
  Exec.modify fun b =>
    { b with
      mgr := (event b.mgr).2
      closeSessionChan := b.closeSessionChan ++ (event b.mgr).1.toList }

/-- A `go` statement. -/
def spawn (g : Spawned) : GoM σ Unit :=
  Exec.modify fun b => { b with spawned := b.spawned ++ [g] }

def emit (e : Event) : GoM σ Unit :=
  Exec.modify fun b => { b with trace := b.trace ++ [e] }

/-! What each of them does to a broker. -/

@[simp] theorem session_run (this : SessionRef) (b : Broker σ) :
    session this b = (.ok (b.sessions this), b) := rfl

@[simp] theorem modifySession_run (this : SessionRef) (f : Session → Session) (b : Broker σ) :
    modifySession this f b = (.ok (), b.setSession this f) := rfl

@[simp] theorem now_run (b : Broker σ) : now b = (.ok b.now, b) := rfl

@[simp] theorem packet_run (msg : PacketRef) (b : Broker σ) :
    packet msg b = (.ok (b.packets.cells msg), b) := rfl

@[simp] theorem newPacket_run (p : ControlPacket) (b : Broker σ) :
    newPacket p b = (.ok b.packets.next, { b with packets := (b.packets.alloc p).2 }) := rfl

@[simp] theorem modifyPacket_run (msg : PacketRef) (f : ControlPacket → ControlPacket)
    (b : Broker σ) :
    modifyPacket msg f b = (.ok (), { b with packets := b.packets.modify msg f }) := rfl

@[simp] theorem token_run (t : TokenRef) (b : Broker σ) :
    token t b = (.ok (b.tokens.cells t), b) := rfl

@[simp] theorem modifyToken_run (t : TokenRef) (f : Token → Token) (b : Broker σ) :
    modifyToken t f b = (.ok (), { b with tokens := b.tokens.modify t f }) := rfl

@[simp] theorem panic_run {α : Type} (p : Panic) (b : Broker σ) :
    (panic p : GoM σ α) b = (.error (.panic p), b) := rfl

@[simp] theorem callStore_run {α : Type} (f : σ → α × σ) (b : Broker σ) :
    callStore f b = (.ok (f b.storeMgr).1, { b with storeMgr := (f b.storeMgr).2 }) := rfl

@[simp] theorem modifySubscriptionMgr_run (f : TreeSubsMgr SessionRef → TreeSubsMgr SessionRef)
    (b : Broker σ) :
    modifySubscriptionMgr f b = (.ok (), { b with subscriptionMgr := f b.subscriptionMgr }) := rfl

@[simp] theorem getSessions_run (topic : GoString) (b : Broker σ) :
    getSessions topic b = (.ok (b.subscriptionMgr.getSessions topic), b) := rfl

@[simp] theorem mgrEvent_run (event : SessionMgr → Option SessionRef × SessionMgr)
    (b : Broker σ) :
    mgrEvent event b = (.ok (),
      { b with
        mgr := (event b.mgr).2
        closeSessionChan := b.closeSessionChan ++ (event b.mgr).1.toList }) := rfl

@[simp] theorem spawn_run (g : Spawned) (b : Broker σ) :
    spawn g b = (.ok (), { b with spawned := b.spawned ++ [g] }) := rfl

@[simp] theorem emit_run (e : Event) (b : Broker σ) :
    emit e b = (.ok (), { b with trace := b.trace ++ [e] }) := rfl

end GoM
end MqttBroker

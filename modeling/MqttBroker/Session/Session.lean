import MqttBroker.Session.State
import MqttBroker.Utils.List

/-!
# Sessions

The functions of `session.go`, `channel.go` and `token.go` on one session: sending,
publishing through the in-flight window, retransmission, the end-of-life reports to the
manager, and closing. Each is one step of the goroutine that calls it, except that
`Publish` may block on the full `peddingChan` of its session.

The dashboard's message counters and the logging are left out.
-/

namespace MqttBroker

open GoM

variable {σ : Type}

/-! ## Updates of the lists -/

namespace Session

/-- Append a packet to `iSendList`. -/
def queueSend (msg : PacketRef) (s : Session) : Session :=
  { s with channel := { s.channel with iSendList := GoList.push msg s.channel.iSendList } }

/-- Append an entry to `inflightingList`. -/
def queueInflight (imsg : InflightingMsg) (s : Session) : Session :=
  { s with inflightingList := GoList.push imsg s.inflightingList }

/-- Replace `inflightingList`. -/
def setInflight (l : List InflightingMsg) (s : Session) : Session :=
  { s with inflightingList := l }

/-- Take a byte from `peddingChan`, if it has one, and the first entry from the list. -/
def dropPedding (s : Session) : Session :=
  { s with
    peddingChan := { s.peddingChan with len := s.peddingChan.len - 1 }
    peddingMsgList := (GoList.pop s.peddingMsgList).2 }

/-- Put a byte into `peddingChan` and an entry into the list. -/
def queuePedding (pt : PacketAndToken) (s : Session) : Session :=
  { s with
    peddingChan := { s.peddingChan with len := s.peddingChan.len + 1 }
    peddingMsgList := GoList.push pt s.peddingMsgList }

/-- `atomic.AddInt64(&this.lastMsgId, 1)`. -/
def advanceMsgId (s : Session) : Session := { s with lastMsgId := s.lastMsgId + 1 }

end Session

namespace Channel

/-- `Channel.Send`: a stopped channel drops the packet without an error. -/
def send (this : SessionRef) (msg : PacketRef) : GoM σ (Option GoError) := do
  let s ← session this
  if s.channel.isStoped then
    pure none
  else
    modifySession this (Session.queueSend msg)
    emit (.send this (← packet msg))
    pure none

/-- `Channel.Send` of a packet made for it. -/
def sendNew (this : SessionRef) (p : ControlPacket) : GoM σ (Option GoError) := do
  let msg ← newPacket p
  send this msg

end Channel

namespace Session

/-- `NewSession` and `NewChannel`. -/
def newSession (cfg : Config) (now : ℤ) (conn : ConnRef) (isServer : Bool) : Session :=
  { channel := { conn }
    isServer
    keepalive := cfg.pingTimeout
    timeout := now + if isServer then cfg.connectTimeout else cfg.pingTimeout }

variable (cfg : Config)

/-- The error of a call on a session whose channel is stopped. -/
def errStoped : GoError := .new "%s channel is stoped"

def resetTimeout (this : SessionRef) : GoM σ Unit := do
  let now ← now
  modifySession this fun s =>
    if s.isServer then
      if s.isConnected then { s with timeout := now + s.keepalive }
      else { s with timeout := now + cfg.connectTimeout }
    else { s with timeout := now + s.keepalive }

/-! ## The in-flight list -/

/-- Append an entry that is to be acknowledged within `SentTimeout`. -/
def pushInflight (this : SessionRef) (pt : PacketAndToken) : GoM σ Unit := do
  let now ← now
  modifySession this (queueInflight { pt, timeout := now + cfg.sentTimeout })

/-- `insert2Inflight`: PUBLISH, PUBREC and PUBREL are entered, other packets only sent. -/
def insert2Inflight (this : SessionRef) (pt : PacketAndToken) : GoM σ (Option GoError) := do
  let s ← session this
  if s.channel.isStoped then
    pure (some errStoped)
  else
    let p ← packet pt.p
    if p.kind ∈ [PacketType.publish, PacketType.pubrec, PacketType.pubrel] then
      pushInflight cfg this pt
    let _ ← Channel.send this pt.p
    pure none

/-- `removeInflightMsg`: the literal leaves the deleted entry, or nil, in `imsg`. -/
def removeInflightMsg (this : SessionRef) (msgId : UInt16) : GoM σ (Option InflightingMsg) :=
  Exec.modifyGet fun b =>
    let r := GoList.remove
      (fun imsg (_ : Option InflightingMsg) =>
        if (b.packets.cells imsg.pt.p).messageID = msgId then ((true, false), some imsg)
        else ((false, true), none))
      (b.sessions this).inflightingList none
    (r.2, b.setSession this (setInflight r.1))

/-- `updateInflightMsg`: every entry with the id of `msg` gets `msg` as its packet. The literal
leaves the entry that it has visited last in `imsg`. -/
def updateInflightMsg (this : SessionRef) (msg : PacketRef) : GoM σ (Option InflightingMsg) :=
  Exec.modifyGet fun b =>
    let r := GoList.each
      (fun imsg (_ : Option InflightingMsg) =>
        if (b.packets.cells imsg.pt.p).messageID = (b.packets.cells msg).messageID then
          (false, { imsg with pt := { imsg.pt with p := msg } },
            some { imsg with pt := { imsg.pt with p := msg } })
        else (false, imsg, some imsg))
      (b.sessions this).inflightingList none
    (r.2, b.setSession this (setInflight r.1))

/-- The non-blocking receive from `peddingChan`, and the entry it made room for. -/
def popPedding (this : SessionRef) : GoM σ (Option PacketAndToken) :=
  Exec.modifyGet fun b =>
    ((GoList.pop (b.sessions this).peddingMsgList).1, b.setSession this dropPedding)

/-- Move the first pending entry, if any, into the in-flight list. -/
def takePedding (this : SessionRef) : GoM σ Unit := do
  match ← popPedding this with
  | none => pure ()
  | some pt =>
    let _ ← insert2Inflight cfg this pt
    pure ()

/-- The resend loop of `checkInflightList`: the packets of the entries that timed out. -/
def resend (this : SessionRef) : List InflightingMsg → GoM σ Unit
  | [] => pure ()
  | imsg :: tmMsg => do
    let _ ← Channel.send this imsg.pt.p
    resend this tmMsg

/-- What `checkInflightList` does to an entry that has timed out. -/
def renew (now : ℤ) (imsg : InflightingMsg) : InflightingMsg :=
  if imsg.timeout ≤ now then
    { imsg with retryCnt := imsg.retryCnt + 1, timeout := now + cfg.sentTimeout }
  else imsg

/-- `checkInflightList`. -/
def checkInflightList (this : SessionRef) : GoM σ Unit := do
  let now ← now
  let s ← session this
  modifySession this (setInflight (s.inflightingList.map (renew cfg now)))
  resend this (s.inflightingList.filter fun imsg => imsg.timeout ≤ now)
  let s ← session this
  if s.inflightingList.length < cfg.maxSizeOfInflight ∧
      s.channel.iSendList.length < cfg.maxSizeOfPublishMsg then
    takePedding cfg this

/-! ## Sending and publishing -/

/-- `uint16(atomic.AddInt64(&this.lastMsgId, 1))`. -/
def nextMsgId (this : SessionRef) : GoM σ UInt16 :=
  Exec.modifyGet fun b =>
    ((b.sessions this).nextId,
      b.setSession this advanceMsgId)

/-- Give a packet the next id of the session. -/
def number (this : SessionRef) (msg : PacketRef) : GoM σ Unit := do
  let id ← nextMsgId this
  modifyPacket msg (ControlPacket.setMessageID id)

/-- The switch of `Send`: what it does for the type of the packet, and whether the packet is
to be acknowledged. -/
def sendCase (this : SessionRef) (msg : PacketRef) (p : ControlPacket) (t : Option TokenRef)
    (kind : Option TokenKind) : GoM σ Bool :=
  match p with
  | .connect _ =>
    match kind with
    | some .connect => do
      modifySession this fun s => { s with connectToken := t }
      pure false
    | _ => panic .typeAssertion
  | .disconnect _ =>
    match kind with
    | some .disconnect => do
      modifySession this fun s => { s with disconnectToken := t }
      pure false
    | _ => panic .typeAssertion
  | .publish _ => do
    number this msg
    pure true
  | .pubrec _ | .pubrel _ => pure true
  | .subscribe m =>
    match t, kind with
    | some t, some (.subscribe _ subResult) => do
      modifyToken t fun tok => { tok with kind := .subscribe m.topics subResult }
      number this msg
      pure true
    | _, _ => panic .typeAssertion
  | .unsubscribe _ => do
    number this msg
    pure true
  | _ => pure false

/-- `Send`. -/
def send (this : SessionRef) (msg : PacketRef) :
    GoM σ (Option TokenRef × Option GoError) := do
  let s ← session this
  if s.channel.isStoped then
    pure (none, some errStoped)
  else
    let p ← packet msg
    let t ← allocToken p.type
    if ← sendCase this msg p t ((newToken p.type).map Token.kind) then
      pushInflight cfg this ⟨msg, t⟩
    let err ← Channel.send this msg
    pure (t, err)

/-- The end of `Publish` when the window is full: wait for a place in `peddingChan`, then
queue the entry. A closed channel panics, and the deferred `recover` makes `Publish` return
the token without an error. -/
def pushPedding (this : SessionRef) (pt : PacketAndToken) :
    GoM σ (Option TokenRef × Option GoError) := do
  let s ← session this
  if s.peddingChan.closed then
    pure (pt.t, none)
  else if s.peddingChan.len < cfg.maxSizeOfPublishMsg then
    modifySession this (queuePedding pt)
    pure (pt.t, none)
  else
    Exec.fault (.blocked this pt)

/-- What `Publish` does with its numbered packet. -/
def enqueue (this : SessionRef) (pt : PacketAndToken) :
    GoM σ (Option TokenRef × Option GoError) := do
  let s ← session this
  if ¬ s.isConnected ∨ s.isClosed then
    pure (pt.t, some (.new "Publish session is stoped"))
  else if s.inflightingList.length < cfg.maxSizeOfInflight ∧
      s.channel.iSendList.length < cfg.maxSizeOfPublishMsg then
    let _ ← insert2Inflight cfg this pt
    pure (pt.t, none)
  else
    pushPedding cfg this pt

/-- `Publish`: the caller's packet is numbered in place, before anything is checked. -/
def publish (this : SessionRef) (msg : PacketRef) :
    GoM σ (Option TokenRef × Option GoError) := do
  number this msg
  let p ← packet msg
  let t ← allocToken p.type
  emit (.publish this t p)
  enqueue cfg this ⟨msg, t⟩

/-! ## Ends of life -/

/-- `mgrOnDisconnected`, `mgrOnPingTimeout` and `mgrOnConnectTimeout` up to their event: only
the first report of a session gets through. -/
def report (this : SessionRef)
    (event : Session → SessionMgr → Option SessionRef × SessionMgr) (after : GoM σ Unit) :
    GoM σ Unit := do
  let s ← session this
  if s.clostep ≠ .running then
    pure ()
  else
    modifySubscriptionMgr (TreeSubsMgr.removeSession this)
    modifySession this fun s => { s with clostep := .closing }
    mgrEvent (event s)
    after

def mgrOnDisconnected (this : SessionRef) : GoM σ Unit :=
  report this (fun s => SessionMgr.disconnect s.clientId this) (pure ())

def mgrOnPingTimeout (this : SessionRef) : GoM σ Unit :=
  report this (fun s => SessionMgr.pingTimeout s.clientId this)
    (spawn (.onDisconnectException this .pingTimeout))

def mgrOnConnectTimeout (this : SessionRef) : GoM σ Unit :=
  report this (fun s => SessionMgr.connectTimeout s.channel.conn this) (pure ())

def onChannelError (this : SessionRef) : GoM σ Unit := do
  let s ← session this
  if s.isConnected then mgrOnDisconnected this else mgrOnConnectTimeout this

/-- `Ping`. -/
def ping (this : SessionRef) : GoM σ Unit := do
  let s ← session this
  if s.isConnected then
    let _ ← Channel.sendNew this (.pingreq newPingreq)
    pure ()

/-- What `OnTick` does when `timeout` has passed. -/
def onTimeout (this : SessionRef) : GoM σ Unit := do
  let s ← session this
  if s.isServer then
    if s.isConnected then mgrOnPingTimeout this else mgrOnConnectTimeout this
  else
    ping this

/-- `OnTick`; `mgr.BroadcastSessionInfo` queues the session. -/
def onTick (this : SessionRef) : GoM σ Unit := do
  let s ← session this
  if s.clostep ≠ .running then
    pure ()
  else
    let now ← now
    if s.timeout ≤ now then
      onTimeout this
    checkInflightList cfg this
    if s.isServer then
      Exec.modify fun b => { b with sessionInfoList := GoList.push this b.sessionInfoList }

/-- The token a client session completes when it is closed: that of its DISCONNECT, or that
of its CONNECT when no CONNACK came. -/
def completeHandshake (s : Session) : GoM σ Unit :=
  if s.isServer then
    pure ()
  else if s.isConnected then
    match s.disconnectToken with
    | none => pure ()
    | some t => flowComplete t
  else if s.connected = 0 then
    match s.connectToken with
    | none => pure ()
    | some t => do
      modifyToken t fun tok => { tok with err := some (.new "timeout") }
      flowComplete t
  else
    pure ()

/-- `Close`, with `Channel.Close`. -/
def close (this : SessionRef) : GoM σ Unit := do
  let s ← session this
  if s.clostep = .closed then
    pure ()
  else
    modifySession this fun s => { s with clostep := .closed }
    if s.peddingChan.closed then
      panic .closeOfClosedChannel
    else
      modifySession this fun s =>
        { s with
          peddingChan := { s.peddingChan with closed := true }
          channel := { s.channel with isStoped := true } }
      completeHandshake s

end Session
end MqttBroker

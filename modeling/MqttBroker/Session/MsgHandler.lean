import MqttBroker.Session.FanOut

/-!
# Handlers of inbound packets

`msg-handler.go` and the dispatch of `procFrontRemoteMsg`. A handler that forwards a
message does so as the last thing it does; here it returns the packet instead
(`forwarded`), and `forward` is the call of `sendToSubcriber` or of the message callback.
`RecvMsg` is the two in sequence.
-/

namespace MqttBroker

open GoM

variable {σ : Type}

/-- The error a handler returns, and the packet it forwards in the end, if any. -/
structure Handled where
  err : Option GoError := none
  forwarded : Option PacketRef := none

namespace Session

variable (cfg : Config) (S : StoreMgr σ)

/-! ## CONNECT and CONNACK -/

/-- What an accepted CONNECT sets before the keep-alive. -/
def setWill (msg : ConnectPacket) (s : Session) : Session :=
  if msg.willFlag then
    { s with
      willFlag := true
      willTopic := msg.willTopic
      willQos := msg.willQos
      willMessage := msg.willMessage }
  else s

/-- `onConnect`. `int64(float64(k) * 1.5 * float64(time.Second))` is exact for 16 bits. -/
def onConnect (this : SessionRef) (msg : ConnectPacket) : GoM σ Handled := do
  let s ← session this
  if s.isConnected then
    pure { err := connErrors errProtocolViolation }
  else if msg.reservedBit &&& 0x1 = 0x1 then
    pure { err := connErrors errProtocolViolation }
  else
    modifySession this fun s => { s with clientId := msg.clientIdentifier }
    mgrEvent (SessionMgr.disconnectSessionByClientId msg.clientIdentifier)
    mgrEvent (SessionMgr.connected s.channel.conn msg.clientIdentifier this)
    let err ← Channel.sendNew this (.connack newConnack)
    modifySession this fun s => { s with connected := 1 }
    modifySession this (setWill msg)
    modifySession this fun s => { s with keepalive := msg.keepalive.toNat * (1500000000 : ℤ) }
    resetTimeout cfg this
    pure { err }

/-- `onConnack`. -/
def onConnack (this : SessionRef) (msg : ConnackPacket) : GoM σ Handled := do
  if 0 < msg.returnCode then
    modifySession this fun s => { s with connected := -(msg.returnCode.toNat : ℤ) }
  else
    modifySession this fun s => { s with connected := 1 }
  let s ← session this
  mgrEvent (SessionMgr.connected s.channel.conn s.clientId this)
  match s.connectToken with
  | none => pure {}
  | some t =>
    if msg.returnCode ≠ 0 then
      modifyToken t fun tok => { tok with err := connErrors msg.returnCode }
    flowComplete t
    pure {}

/-- What `onConnack` does after it has stored `connected`. -/
def finishConnack (this : SessionRef) (msg : ConnackPacket) : GoM σ Handled := do
  let s ← session this
  mgrEvent (SessionMgr.connected s.channel.conn s.clientId this)
  match s.connectToken with
  | none => pure {}
  | some t =>
    if msg.returnCode ≠ 0 then
      modifyToken t fun tok => { tok with err := connErrors msg.returnCode }
    flowComplete t
    pure {}

theorem onConnack_eq (this : SessionRef) (msg : ConnackPacket) :
    (onConnack this msg : GoM σ Handled) =
      if 0 < msg.returnCode then
        modifySession this (fun s => { s with connected := -(msg.returnCode.toNat : ℤ) }) >>=
          fun _ => finishConnack this msg
      else
        modifySession this (fun s => { s with connected := 1 }) >>=
          fun _ => finishConnack this msg :=
  rfl

/-! ## PUBLISH and PUBREL -/

/-- The message of the store for an inbound PUBLISH. -/
def storedMsg (clientId : GoString) (msg : PublishPacket) : Msg :=
  { clientId
    msgId := msg.messageID
    topic := msg.topicName
    qos := msg.header.qos
    body := msg.payload }

/-- An empty retained payload clears the retained message of the topic. The error is
`none` when `onPublish` goes on. -/
def clearRetained (msg : PublishPacket) : GoM σ (Option GoError) := do
  if msg.payload.length = 0 ∧ msg.header.retain then
    let err ← callStore (S.removeMsgByTopic msg.topicName)
    if err = some (.store .errNoExsit) then pure none else pure err
  else
    pure none

/-- QoS 0: a retained payload replaces the retained message of the topic. -/
def onPublishQos0 (msg : PacketRef) (p : PublishPacket) : GoM σ Handled := do
  if p.header.retain ∧ 0 < p.payload.length then
    let _ ← callStore (S.removeMsgByTopic p.topicName)
    let err ← callStore (S.saveRetainMsg p.topicName p.payload p.header.qos)
    pure { err, forwarded := some msg }
  else
    pure { forwarded := some msg }

/-- Keep the retained message of a QoS 1 or QoS 2 PUBLISH; the error is the one that
`onPublish` returns. -/
def saveRetained (smsg : Msg) (p : PublishPacket) : GoM σ (Option GoError) := do
  if p.header.retain ∧ 0 < p.payload.length then
    match ← callStore (S.saveRetainMsg smsg.topic smsg.body smsg.qos) with
    | none => pure none
    | some _ => pure (connErrors errRefusedServerUnavailable)
  else
    pure none

/-- QoS 1: PUBACK, then the retained message, then forward. -/
def onPublishQos1 (this : SessionRef) (msg : PacketRef) (p : PublishPacket) :
    GoM σ Handled := do
  let _ ← Channel.sendNew this (.puback { newPuback with messageID := p.messageID })
  let s ← session this
  match ← saveRetained S (storedMsg s.clientId p) p with
  | none => pure { forwarded := some msg }
  | some err => pure { err := some err }

/-- QoS 2: PUBREC, then the message is stored until its PUBREL unless one is there. -/
def onPublishQos2 (this : SessionRef) (p : PublishPacket) : GoM σ Handled := do
  let _ ← Channel.sendNew this (.pubrec { newPubrec with messageID := p.messageID })
  let s ← session this
  match ← callStore (S.getMsgByClientIdMsgId s.clientId p.messageID) with
  | .ok _ => pure {}
  | .error err =>
    if err = .store .errNoExsit then
      match ← callStore (S.saveByClientIdMsgId (storedMsg s.clientId p)) with
      | some _ => pure { err := connErrors errRefusedServerUnavailable }
      | none =>
        let err ← saveRetained S (storedMsg s.clientId p) p
        pure { err }
    else
      pure { err := some err }

/-- `onPublish`. -/
def onPublish (this : SessionRef) (msg : PacketRef) (p : PublishPacket) : GoM σ Handled := do
  match ← clearRetained S p with
  | some err => pure { err := some err }
  | none =>
    match p.header.qos with
    | 0 => onPublishQos0 S msg p
    | 1 => onPublishQos1 S this msg p
    | 2 => onPublishQos2 S this p
    | _ => pure {}

/-- `onPubrel`. -/
def onPubrel (this : SessionRef) (msg : IdPacket) : GoM σ Handled := do
  let _ ← Channel.sendNew this (.pubcomp { newPubcomp with messageID := msg.messageID })
  let s ← session this
  match ← callStore (S.getMsgByClientIdMsgId s.clientId msg.messageID) with
  | .error _ => pure {}
  | .ok smsg =>
    let _ ← callStore (S.removeMsgById smsg.id)
    let pubMsg ← newPacket (.publish
      { header := { newPublish.header with qos := smsg.qos }
        payload := smsg.body
        topicName := smsg.topic })
    pure { forwarded := some pubMsg }

/-! ## Acknowledgements -/

/-- The loop over the filters of an acknowledged SUBSCRIBE. What a loop that panics has
written before is not kept: the process is gone. -/
def subResults : List GoString → List UInt8 → GoMap GoString UInt8 →
    Except Panic (GoMap GoString UInt8)
  | [], _, m => .ok m
  | _ :: _, [], _ => .error .indexOutOfRange
  | sub :: subs, code :: returnCodes, m => subResults subs returnCodes (m.insert sub code)

/-- The SUBACK case inside `onInflightDone`: type assertions on the token and the packet,
then the results. -/
def subackResults (msg : ControlPacket) (t : TokenRef) : GoM σ Unit := do
  let tok ← token t
  match tok.kind, msg with
  | .subscribe subs subResult, .suback m =>
    match subResults subs m.returnCodes subResult with
    | .error p => panic p
    | .ok subResult => modifyToken t fun tok => { tok with kind := .subscribe subs subResult }
  | _, _ => panic .typeAssertion

/-- Whether the switch of `onInflightDone` reaches the removal for this packet. -/
def finishesFlow (msg : ControlPacket) : Bool :=
  if msg.type = PacketType.publish then msg.details.qos = 0
  else msg.type ∈ [PacketType.puback, PacketType.pubcomp, PacketType.suback, PacketType.unsuback]

/-- Remove the entry a packet acknowledges and complete its token. -/
def finishFlow (this : SessionRef) (msg : ControlPacket) : GoM σ Unit := do
  match ← removeInflightMsg this msg.messageID with
  | none => pure ()
  | some imsg =>
    match imsg.pt.t with
    | none => pure ()
    | some t =>
      if msg.type = PacketType.suback then
        subackResults msg t
      flowComplete t

/-- `onInflightDone`. -/
def onInflightDone (this : SessionRef) (msg : ControlPacket) : GoM σ Unit := do
  if finishesFlow msg then
    finishFlow this msg
  let s ← session this
  if s.inflightingList.length < cfg.maxSizeOfInflight then
    takePedding cfg this

/-- `onPuback`, `onPubcomp`, `onSuback` and `onUnsuback`. -/
def onAck (this : SessionRef) (msg : ControlPacket) : GoM σ Handled := do
  onInflightDone cfg this msg
  pure {}

/-- `onPubrec`. -/
def onPubrec (this : SessionRef) (msg : IdPacket) : GoM σ Handled := do
  let relmsg ← newPacket (.pubrel { newPubrel with messageID := msg.messageID })
  let _ ← Channel.send this relmsg
  let _ ← updateInflightMsg this relmsg
  pure {}

/-! ## SUBSCRIBE and UNSUBSCRIBE -/

/-- `onSubscribe`. -/
def onSubscribe (this : SessionRef) (msg : SubscribePacket) : GoM σ Handled := do
  let b ← Exec.get
  match TreeSubsMgr.addAll this msg.topics msg.qoss b.subscriptionMgr with
  | .error p => panic p
  | .ok tree =>
    modifySubscriptionMgr fun _ => tree
    spawn (.procRetainMessages this)
    let err ← Channel.sendNew this
      (.suback { newSuback with messageID := msg.messageID, returnCodes := msg.qoss })
    pure { err }

/-- `onUnsubscribe`: the UNSUBACK is built without a message type. -/
def onUnsubscribe (this : SessionRef) (msg : UnsubscribePacket) : GoM σ Handled := do
  modifySubscriptionMgr fun tree =>
    msg.topics.foldl (fun tree s => tree.del s (some this)) tree
  let _ ← Channel.sendNew this (.unsuback { header := {}, messageID := msg.messageID })
  pure {}

/-! ## The other packets -/

def onPingreq (this : SessionRef) : GoM σ Handled := do
  let _ ← Channel.sendNew this (.pingresp newPingresp)
  pure {}

def onDisconnect (this : SessionRef) : GoM σ Handled := do
  mgrOnDisconnected this
  pure {}

/-- `procFrontRemoteMsg`, up to the forwarding: `p` is the packet behind `msg`. -/
def procFrontRemoteMsg (this : SessionRef) (msg : PacketRef) (p : ControlPacket) :
    GoM σ Handled :=
  match p with
  | .connect m => onConnect cfg this m
  | .connack m => onConnack this m
  | .publish m => onPublish S this msg m
  | .puback _ => onAck cfg this p
  | .pubrec m => onPubrec this m
  | .pubrel m => onPubrel S this m
  | .pubcomp _ => onAck cfg this p
  | .subscribe m => onSubscribe this m
  | .suback _ => onAck cfg this p
  | .unsubscribe m => onUnsubscribe this m
  | .unsuback _ => onAck cfg this p
  | .pingreq _ => onPingreq this
  | .pingresp _ => pure {}
  | .disconnect _ => onDisconnect this

/-- The end of a handler that forwards: a server session sends to the subscribers, a client
session calls its message callback. -/
def forward (order : SubscriberOrder) (this : SessionRef) (forwarded : Option PacketRef) :
    GoM σ Unit := do
  match forwarded with
  | none => pure ()
  | some msg =>
    let s ← session this
    if s.isServer then
      sendToSubcriber cfg order this msg
    else
      emit (.callbackOnMessage this (← packet msg))

/-- `RecvMsg` on a packet that `ReadPacket` has just built. -/
def recvMsg (order : SubscriberOrder) (this : SessionRef) (p : ControlPacket) : GoM σ Unit := do
  let s ← session this
  if s.clostep ≠ .running then
    pure ()
  else
    let msg ← newPacket p
    let handled ← procFrontRemoteMsg cfg S this msg p
    forward cfg order this handled.forwarded

/-! ## Retained messages and wills -/

/-- The loop of `procRetainMessages`: the topic is matched against itself. -/
def procRetainRound (this : SessionRef) (msg : Msg) : GoM σ Bool := do
  let pubMsg ← newPacket (.publish
    { header := { newPublish.header with qos := msg.qos, retain := true }
      topicName := msg.topic
      payload := msg.body })
  match TreeSubsMgr.isTopicMatch msg.topic msg.topic with
  | .error p => panic p
  | .ok false => pure true
  | .ok true =>
    let _ ← publish cfg this pubMsg
    pure true

/-- `procRetainMessages` up to its loop. -/
def procRetainStart : GoM σ (List Msg) := do
  match ← callStore S.getAllRetainMsgs with
  | .error _ => pure []
  | .ok msgs => pure msgs

/-- `onDisconnectException` up to the call of `sendToSubcriber`: nothing when an exception
was handled before, otherwise the will, if there is one. -/
def willStart (this : SessionRef) : GoM σ (Option (Option PacketRef)) := do
  let s ← session this
  if s.hadDisconnectException ≠ .ok then
    pure none
  else if s.willFlag then
    let msg ← newPacket (.publish
      { header := { newPublish.header with qos := s.willQos }
        topicName := s.willTopic
        payload := s.willMessage })
    pure (some (some msg))
  else
    pure (some none)

/-- `SaveRetainMsg` of a published will. -/
def retainWill (this : SessionRef) (msg : PacketRef) : GoM σ (Option GoError) := do
  let s ← session this
  match s.willRetain, ← packet msg with
  | true, .publish p => callStore (S.saveRetainMsg p.topicName p.payload p.header.qos)
  | _, _ => pure none

/-- `onDisconnectException` after the call of `sendToSubcriber`. -/
def willEnd (this : SessionRef) (reason : DisconnectReason) (msg : Option PacketRef) :
    GoM σ Unit := do
  let err ← match msg with
    | some msg => retainWill S this msg
    | none => pure none
  if err.isNone then
    modifySession this fun s => { s with hadDisconnectException := reason }

/-! ## The two loops of a channel -/

/-- `onChannelReaded` of a packet: the deadline of a session that is not closing moves. -/
def onChannelReaded (this : SessionRef) : GoM σ Unit := do
  let s ← session this
  if s.clostep = .running then
    resetTimeout cfg this

/-- One round of `recvRun` that reads a packet. -/
def recvPacket (order : SubscriberOrder) (this : SessionRef) (p : ControlPacket) :
    GoM σ Unit := do
  onChannelReaded cfg this
  recvMsg cfg S order this p

/-- The last round of `recvRun`, which reads an error. -/
def recvError (this : SessionRef) : GoM σ Unit := do
  let s ← session this
  if s.clostep = .running then
    spawn (.onDisconnectException this .recv)
  onChannelError this

/-- `onChannelWrited` of a packet that was written. -/
def onChannelWrited (this : SessionRef) (msg : PacketRef) : GoM σ Unit := do
  let s ← session this
  if s.clostep = .running then
    let p ← packet msg
    if p.kind = PacketType.publish ∧ p.details.qos = 0 then
      onInflightDone cfg this p
    resetTimeout cfg this

/-- One packet through `sendRun`: `written` says whether the connection took it. After a
write error the loop ends and stops the channel. -/
def sendRound (this : SessionRef) (written : Bool) : GoM σ Unit := do
  let s ← session this
  match GoList.pop s.channel.iSendList with
  | (none, _) => pure ()
  | (some msg, iSendList) =>
    modifySession this fun s => { s with channel := { s.channel with iSendList } }
    if written then
      onChannelWrited cfg this msg
    else
      if s.clostep = .running then
        spawn (.onDisconnectException this .sent)
      modifySession this fun s => { s with channel := { s.channel with isStoped := true } }

end Session
end MqttBroker

import MqttBroker.Solo.State

/-!
# Operations of the outbound side

`Publish`, `Send`, `insert2Inflight`, `checkInflightList`, `onInflightDone` and
`Channel.Send`, cut where another goroutine can come in between. An operation does one
thing to the `Outbox` and says which operations its goroutine does next, before the rest of
its code.
-/

namespace MqttBroker.Solo

inductive MsgOp
  /-- `atomic.AddInt64(&this.lastMsgId, 1)`. -/
  | addMsgId (e : EntryRef)
  | setMessageID (e : EntryRef) (id : UInt16)
  | isConnected (e : EntryRef)
  | isClosed (e : EntryRef)
  /-- `this.inflightingList.Len() < config.MaxSizeOfInflight` in `Publish`. -/
  | inflightLen (e : EntryRef)
  | sendLen (e : EntryRef)
  | sendPeddingChan (e : EntryRef)
  | pushPedding (e : EntryRef)
  /-- `insert2Inflight` up to its load of `isStoped`. -/
  | insert2Inflight (c : Caller)
  /-- The allocation of an `inflightingMsg`, which reads the clock. -/
  | newInflight (c : Caller)
  | pushInflight (c : Caller)
  /-- `this.channel.Send(pt.p)`, which reads `pt.p` first. -/
  | sendEntry (c : Caller)
  /-- `Channel.Send` up to its load of `isStoped`. -/
  | channelSend (c : Option Caller) (r : PacketRef)
  | pushSend (c : Option Caller) (r : PacketRef)
  | returned (e : EntryRef) (err : Option GoError)
  /-- `Send` up to its switch. -/
  | send (e : EntryRef)
  | checkInflight
  /-- `now := time.Now().UnixNano()` in `checkInflightList`. -/
  | readNow
  /-- The loop that collects the entries that timed out. -/
  | collect (now : ℤ)
  | resend (e : EntryRef) (now : ℤ)
  /-- The test of the window by a refill; the tick tests the send list too. -/
  | refillLen (tick : Bool)
  | refillSendLen
  | recvPeddingChan
  | popPedding
  /-- `msg.Details().MessageID` in `onInflightDone`. -/
  | loadMessageID (r : PacketRef)
  | removeInflight (r : PacketRef) (id : UInt16)
  | subackResults (e : EntryRef) (r : PacketRef)
  | flowComplete (e : EntryRef)
  | onPubrec (messageID : UInt16)
  | updateInflight (r : PacketRef)
  /-- A handler sends a packet that it has made. -/
  | reply (p : ControlPacket)
  | onWrited (r : PacketRef)
  /-- The token of the CONNECT gets its error: that of a CONNACK, or that of a timeout. -/
  | connectErr (code : Option UInt8)
  | completeConnect
  | completeDisconnect
deriving DecidableEq

namespace Caller

/-- What a caller does in the end: a call returns. -/
def rest : Caller → List MsgOp
  | publish e | send e => [.returned e none]
  | refill _ | resend _ => []

/-- What a caller does after it has put its entry in flight: `Send` has the packet at hand. -/
def afterPush (x : Outbox) : Caller → MsgOp
  | send e => .channelSend (some (send e)) (x.entry e).msg
  | c => .sendEntry c

end Caller

namespace Outbox

/-- The entries that have timed out. -/
def timedOut (now : ℤ) (x : Outbox) : List EntryRef :=
  x.inflightingList.filter fun e => (x.entry e).timeout ≤ now

/-- The entry that `removeInflightMsg` finds. -/
def acknowledged (id : UInt16) (x : Outbox) : Option EntryRef :=
  x.inflightingList.find? fun e => x.idOf e = id

/-- `removeInflightMsg`. -/
def removeInflight (id : UInt16) (x : Outbox) : Outbox :=
  { x with inflightingList := x.inflightingList.eraseP fun e => x.idOf e = id }

/-- The entries with the id of `r`. -/
def withId (r : PacketRef) (x : Outbox) : List EntryRef :=
  x.inflightingList.filter fun e => x.idOf e = (x.packet r).messageID

/-- `updateInflightMsg`. -/
def updateInflight (r : PacketRef) (x : Outbox) : Outbox :=
  (x.withId r).foldl
    (fun x e => (x.modifyEntry e fun i => { i with p := r }).note (.updated e r)) x

end Outbox

/-- `onInflightDone` on the packet `p` behind `r`. -/
def onInflightDone (r : PacketRef) (p : ControlPacket) : List MsgOp :=
  (if Session.finishesFlow p then [.loadMessageID r] else []) ++ [.refillLen false]

/-- What `onInflightDone` does with the entry that was removed: nothing without a token. -/
def afterRemove (e : EntryRef) (r : PacketRef) (x : Outbox) : List MsgOp :=
  if (x.entry e).t.isNone then []
  else if (x.packet r).type = PacketType.suback then [.subackResults e r]
  else [.flowComplete e]

/-- The switch of `Send`, which leaves the entry to be put in flight or only sent. -/
def sendCase (e : EntryRef) (r : PacketRef) : ControlPacket → List MsgOp
  | .publish _ | .subscribe _ | .unsubscribe _ => [.addMsgId e]
  | .pubrec _ | .pubrel _ => [.newInflight (.send e)]
  | _ => [.channelSend (some (.send e)) r]

/-- What the switch of `Send` writes: the fields for the tokens of the handshakes, and the
filters of a SUBSCRIBE into its token. -/
def assignToken (e : EntryRef) (p : ControlPacket) (x : Outbox) : Outbox :=
  match p with
  | .connect _ => { x with connectToken := some e }
  | .disconnect _ => { x with disconnectToken := some e }
  | .subscribe m =>
    x.modifyEntry e fun i =>
      { i with t := i.t.map fun t => { t with kind := .subscribe m.topics ∅ } }
  | _ => x

/-- The SUBACK case of `onInflightDone`; `none` is a panic. -/
def subackToken (p : ControlPacket) (t : Token) : Option Token :=
  match t.kind, p with
  | .subscribe subs subResult, .suback m =>
    match Session.subResults subs m.returnCodes subResult with
    | .ok subResult => some { t with kind := .subscribe subs subResult }
    | .error _ => none
  | _, _ => none

/-- The error of a connect token: the one of a refusing CONNACK, or that of a timeout. -/
def setConnectErr (code : Option UInt8) (i : Entry) : Entry :=
  { i with
    t := i.t.map fun t =>
      match code with
      | none => { t with err := some (.new "timeout") }
      | some code => if code ≠ 0 then { t with err := connErrors code } else t }

namespace MsgOp

variable (cfg : Config) (f : Flags)

/-- The next operations of the goroutine and the outbox after this one; `none` while it has
to wait for room in `peddingChan`, and when it panics. -/
def run (x : Outbox) : MsgOp → Option (List MsgOp × Outbox)
  | .addMsgId e =>
    some ([.setMessageID e (UInt16.ofNat (x.lastMsgId + 1))],
      { x with lastMsgId := x.lastMsgId + 1 })
  | .setMessageID e id =>
    some ([if (x.entry e).published then .isConnected e else .newInflight (.send e)],
      x.modifyPacket (x.entry e).msg (ControlPacket.setMessageID id))
  | .isConnected e =>
    if f.isConnected then some ([.isClosed e], x)
    else some ([.returned e (some (.new "Publish session is stoped"))], x)
  | .isClosed e =>
    if f.isClosed then some ([.returned e (some (.new "Publish session is stoped"))], x)
    else some ([.inflightLen e], x)
  | .inflightLen e =>
    if x.inflightingList.length < cfg.maxSizeOfInflight then some ([.sendLen e], x)
    else some ([.sendPeddingChan e], x)
  | .sendLen e =>
    if x.iSendList.length < cfg.maxSizeOfPublishMsg then
      some ([.insert2Inflight (.publish e)], x)
    else some ([.sendPeddingChan e], x)
  | .sendPeddingChan e =>
    -- a closed channel panics, `recover` returns, and the entry is in no list
    if f.peddingClosed then some ([.returned e none], x.note (.lost e))
    else if x.peddingLen < cfg.maxSizeOfPublishMsg then
      some ([.pushPedding e], { x with peddingLen := x.peddingLen + 1 })
    else none
  | .pushPedding e =>
    some ([.returned e none], { x with peddingMsgList := GoList.push e x.peddingMsgList })
  | .insert2Inflight c =>
    -- the error of `insert2Inflight` is ignored by its callers
    if f.isStoped then some (c.rest, x.note (.lost c.entry))
    else if (x.packet (x.entry c.entry).p).kind ∈
        [PacketType.publish, PacketType.pubrec, PacketType.pubrel] then
      some ([.newInflight c], x)
    else some ([.sendEntry c], x)
  | .newInflight c =>
    some ([.pushInflight c],
      x.modifyEntry c.entry fun i => { i with timeout := x.now + cfg.sentTimeout })
  | .pushInflight c =>
    some ([c.afterPush x], { x with inflightingList := GoList.push c.entry x.inflightingList })
  | .sendEntry c => some ([.channelSend (some c) (x.entry c.entry).p], x)
  | .channelSend c r =>
    if f.isStoped then some (c.elim [] Caller.rest, x) else some ([.pushSend c r], x)
  | .pushSend c r =>
    some (c.elim [] Caller.rest,
      { x with iSendList := GoList.push r x.iSendList }.note (.sent c r))
  | .returned e err => some ([], x.note (.returned e err))
  | .send e =>
    if f.isStoped then some ([.returned e (some Session.errStoped)], x)
    else
      some (sendCase e (x.entry e).msg (x.packet (x.entry e).msg),
        assignToken e (x.packet (x.entry e).msg) x)
  | .checkInflight =>
    some ((if 0 < x.inflightingList.length then [.readNow] else []) ++ [.refillLen true], x)
  | .readNow => some ([.collect x.now], x)
  | .collect now => some ((x.timedOut now).map (.resend · now), x)
  | .resend e now =>
    some ([.channelSend (some (.resend e)) (x.entry e).p],
      x.modifyEntry e fun i =>
        { i with retryCnt := i.retryCnt + 1, timeout := now + cfg.sentTimeout })
  | .refillLen tick =>
    if x.inflightingList.length < cfg.maxSizeOfInflight then
      some ([if tick then .refillSendLen else .recvPeddingChan], x)
    else some ([], x)
  | .refillSendLen =>
    if x.iSendList.length < cfg.maxSizeOfPublishMsg then some ([.recvPeddingChan], x)
    else some ([], x)
  | .recvPeddingChan => some ([.popPedding], { x with peddingLen := x.peddingLen - 1 })
  | .popPedding =>
    match x.peddingMsgList with
    | [] => some ([], x)
    | e :: rest => some ([.insert2Inflight (.refill e)], { x with peddingMsgList := rest })
  | .loadMessageID r => some ([.removeInflight r (x.packet r).messageID], x)
  | .removeInflight r id =>
    match x.acknowledged id with
    | none => some ([], x)
    | some e => some (afterRemove e r x, (x.removeInflight id).note (.removed e r (x.idOf e)))
  | .subackResults e r =>
    match (x.entry e).t.bind (subackToken (x.packet r)) with
    | none => none
    | some t => some ([.flowComplete e], x.modifyEntry e fun i => { i with t := some t })
  | .flowComplete e =>
    match (x.entry e).t with
    | none => none
    | some t =>
      -- `close` of a closed channel panics
      if t.complete then none
      else
        some ([],
          (x.modifyEntry e fun i => { i with t := some { t with complete := true } }).note
            (.completed e))
  | .onPubrec messageID =>
    some ([.channelSend none x.packets.next, .updateInflight x.packets.next],
      x.newPacket (.pubrel { newPubrel with messageID }))
  | .updateInflight r => some ([], x.updateInflight r)
  | .reply p => some ([.channelSend none x.packets.next], x.newPacket p)
  | .onWrited r =>
    if f.clostep ≠ .running then some ([], x)
    else if (x.packet r).kind = PacketType.publish ∧ (x.packet r).details.qos = 0 then
      some (onInflightDone r (x.packet r), x)
    else some ([], x)
  | .connectErr code =>
    match x.connectToken with
    | none => some ([], x)
    | some e => some ([.completeConnect], x.modifyEntry e (setConnectErr code))
  | .completeConnect => some ((x.connectToken.map .flowComplete).toList, x)
  | .completeDisconnect => some ((x.disconnectToken.map .flowComplete).toList, x)

end MsgOp
end MqttBroker.Solo

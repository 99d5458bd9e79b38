import MqttBroker.Solo.Outbound

/-!
# Operations of a session's end

What the receive loop does with a packet or a read error, what the send loop does after a
write error, the ticker's check of the deadline, the reports to the manager,
`onDisconnectException` and `Session.Close` with `Channel.Close`. These write the `Flags`;
where they come to the outbound side they leave a `MsgOp` to their goroutine.

The manager may hand the session to the closer at any time after it has started it, because
another connection may take over the client id. The subscription tree, the deadline and the
callbacks are left out.
-/

namespace MqttBroker.Solo

inductive EndOp
  /-- `RecvMsg` up to the first operation of the handler; with `cleared = false` the store
  has refused to clear a retained message, which ends the handler of a PUBLISH. -/
  | recvMsg (r : PacketRef) (cleared : Bool)
  | storeConnected (connected : ℤ)
  /-- `if msg.WillFlag { this.willFlag = true }`. -/
  | setWill (willFlag : Bool)
  /-- `onChannelReaded` of an error. -/
  | readFailed
  | onChannelError
  | recvExit
  /-- A report: its load of `clostep`, its store, and the event. -/
  | load (k : Report)
  | storeClosing (k : Report)
  | tellMgr (k : Report)
  | onTick (timedOut : Bool)
  | onTimeout
  /-- `onChannelWrited` of an error. -/
  | writeFailed
  /-- The deferred function of `sendRun`. -/
  | storeStoped
  | sendExit
  /-- `onDisconnectException`: its check, and what it does after it. -/
  | exception (reason : DisconnectReason)
  | loadWill (reason : DisconnectReason)
  | publishWill (reason : DisconnectReason)
  | storeException (reason : DisconnectReason)
  /-- `Session.Close`. -/
  | loadClostep
  | storeClosed
  | closePedding
  /-- `Channel.Close`. -/
  | loadStoped
  | stopChannel
  | closeConn
  | openedFiles
  | stopSend
  | waitSend
  | stopRecv
  | waitRecv
  /-- The end of `Session.Close`, which completes a handshake token. -/
  | loadConnected
  | loadConnectedZero
  | closeReturned
deriving DecidableEq

inductive Op
  | msg (o : MsgOp)
  | stop (o : EndOp)
deriving DecidableEq

/-- `procFrontRemoteMsg` on the packet `p` behind `r`, as far as this session is concerned. -/
def procFrontRemoteMsg (f : Flags) (r : PacketRef) (cleared : Bool) (p : ControlPacket) :
    List Op :=
  match p with
  | .connect m =>
    if f.isConnected ∨ m.reservedBit &&& 0x1 = 0x1 then []
    else
      [.msg (.reply (.connack newConnack)), .stop (.storeConnected 1),
        .stop (.setWill m.willFlag)]
  | .connack m =>
    [.stop (.storeConnected (if 0 < m.returnCode then -(m.returnCode.toNat : ℤ) else 1)),
      .msg (.connectErr (some m.returnCode))]
  | .publish m =>
    if cleared ∧ m.header.qos = 1 then
      [.msg (.reply (.puback { newPuback with messageID := m.messageID }))]
    else if cleared ∧ m.header.qos = 2 then
      [.msg (.reply (.pubrec { newPubrec with messageID := m.messageID }))]
    else []
  | .puback _ | .pubcomp _ | .suback _ | .unsuback _ => (onInflightDone r p).map .msg
  | .pubrec m => [.msg (.onPubrec m.messageID)]
  | .pubrel m => [.msg (.reply (.pubcomp { newPubcomp with messageID := m.messageID }))]
  | .subscribe m =>
    [.msg (.reply (.suback { newSuback with messageID := m.messageID, returnCodes := m.qoss }))]
  | .unsubscribe m => [.msg (.reply (.unsuback { header := {}, messageID := m.messageID }))]
  | .pingreq _ => [.msg (.reply (.pingresp newPingresp))]
  | .pingresp _ => []
  | .disconnect _ => [.stop (.load .disconnected)]

/-- What an operation leaves: the next ones of its goroutine, the goroutines it has started,
and the flags. -/
structure Ended where
  next : List Op := []
  spawned : Pool Op := []
  flags : Flags

namespace EndOp

/-- The goroutine of `go this.onDisconnectException(reason)`. -/
def spawn (reason : DisconnectReason) (next : List Op) (f : Flags) : Ended :=
  { next, spawned := [[.stop (.exception reason)]], flags := f.note (.spawned reason) }

/-- `none` while the operation has to wait for a loop to end, and when it panics. -/
def run (x : Outbox) (f : Flags) : EndOp → Option Ended
  | .recvMsg r cleared =>
    if f.clostep ≠ .running then some { flags := f }
    else
      some { next := procFrontRemoteMsg f r cleared (x.packet r)
             flags := if (x.packet r).kind = PacketType.disconnect then f.note .disconnected
               else f }
  | .storeConnected connected => some { flags := { f with connected } }
  | .setWill willFlag => some { flags := { f with willFlag := willFlag || f.willFlag } }
  | .readFailed =>
    if f.clostep ≠ .running then some { flags := f } else some (spawn .recv [] f)
  | .onChannelError =>
    some { next := [.stop (.load (if f.isConnected then .disconnected else .connectTimeout))]
           flags := f }
  | .recvExit => some { flags := { f with recvLoop := { f.recvLoop with exited := true } } }
  | .load k =>
    if f.clostep ≠ .running then some { flags := f }
    else some { next := [.stop (.storeClosing k)], flags := f }
  | .storeClosing k =>
    some { next := [.stop (.tellMgr k)], flags := { f with clostep := .closing } }
  | .tellMgr k =>
    if k = .pingTimeout then some (spawn .pingTimeout [] f) else some { flags := f }
  | .onTick timedOut =>
    if f.clostep ≠ .running then some { flags := f }
    else
      some { next := (if timedOut then [.stop .onTimeout] else []) ++ [.msg .checkInflight]
             flags := f }
  | .onTimeout =>
    some {
      next :=
        if f.isServer then
          [.stop (.load (if f.isConnected then .pingTimeout else .connectTimeout))]
        else if f.isConnected then [.msg (.reply (.pingreq newPingreq))]
        else []
      flags := f }
  | .writeFailed =>
    if f.clostep ≠ .running then some { flags := f } else some (spawn .sent [] f)
  | .storeStoped => some { flags := { f with isStoped := true } }
  | .sendExit => some { flags := { f with sendLoop := { f.sendLoop with exited := true } } }
  | .exception reason =>
    if f.hadDisconnectException ≠ .ok then some { flags := f }
    else some { next := [.stop (.loadWill reason)], flags := f }
  | .loadWill reason =>
    some {
      next := [.stop (if f.willFlag then .publishWill reason else .storeException reason)]
      flags := f }
  | .publishWill reason =>
    some { next := [.stop (.storeException reason)], flags := f.note .will }
  | .storeException reason => some { flags := { f with hadDisconnectException := reason } }
  | .loadClostep =>
    some { next := [.stop (if f.isClosed then .closeReturned else .storeClosed)], flags := f }
  | .storeClosed =>
    some { next := [.stop .closePedding], flags := { f with clostep := .closed }.note .closed }
  | .closePedding =>
    if f.peddingClosed then none
    else some { next := [.stop .loadStoped], flags := { f with peddingClosed := true } }
  | .loadStoped =>
    some { next := [.stop (if f.isStoped then .loadConnected else .stopChannel)], flags := f }
  | .stopChannel => some { next := [.stop .closeConn], flags := { f with isStoped := true } }
  | .closeConn => some { next := [.stop .openedFiles], flags := { f with connClosed := true } }
  | .openedFiles =>
    some { next := [.stop .stopSend]
           flags := { f with openedFiles := f.openedFiles - 1 }.note .openedFiles }
  | .stopSend =>
    if f.sendLoop.running then
      some { next := [.stop .waitSend]
             flags := { f with sendLoop := { f.sendLoop with interrupted := true } } }
    else some { next := [.stop .stopRecv], flags := f }
  | .waitSend =>
    if f.sendLoop.running then none else some { next := [.stop .stopRecv], flags := f }
  | .stopRecv =>
    if f.recvLoop.running then
      some { next := [.stop .waitRecv]
             flags := { f with recvLoop := { f.recvLoop with interrupted := true } } }
    else some { next := [.stop .loadConnected], flags := f }
  | .waitRecv =>
    if f.recvLoop.running then none else some { next := [.stop .loadConnected], flags := f }
  | .loadConnected =>
    some {
      next :=
        if f.isServer then [.stop .closeReturned]
        else if f.isConnected then [.msg .completeDisconnect, .stop .closeReturned]
        else [.stop .loadConnectedZero]
      flags := f }
  | .loadConnectedZero =>
    some {
      next := (if f.connected = 0 then [.msg (.connectErr none)] else []) ++
        [.stop .closeReturned]
      flags := f }
  | .closeReturned => some { flags := f.note .closeReturned }

end EndOp
end MqttBroker.Solo

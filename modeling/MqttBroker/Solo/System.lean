import MqttBroker.Lib.StepSystem
import MqttBroker.Solo.Ending

/-!
# The goroutines of one session

The step system. Goroutine 0 is the receive loop, 1 the send loop, 2 the ticker and 3 the
closer; a call of `Publish` or `Send` is a goroutine of its own, and so is
`onDisconnectException`. A turn either starts a round of one of them or runs the next
operation of one.
-/

namespace MqttBroker

/-- A session at the grain of its atomic operations. -/
structure Solo where
  outbox : Solo.Outbox
  flags : Solo.Flags
  goroutines : Pool Solo.Op

namespace Solo

/-- Whose turn it is, with what is left open about it. -/
inductive Turn
  /-- `HandleConnection`, and `channel.Start` by the manager. -/
  | start
  /-- Some code makes a packet for a call of `Publish`. -/
  | newPacket (p : Outbound)
  /-- Another session numbers a packet that was published to it as well. -/
  | renumber (r : PacketRef) (id : UInt16)
  | publish (r : PacketRef)
  | send (p : Outbound)
  | recvPacket (p : Inbound) (cleared : Bool)
  | recvError
  | sendRound (written : Bool)
  | tick (timedOut : Bool)
  | close
  | elapse (d : ℕ)
  | run (i : ℕ)

variable (cfg : Config)

/-- The next operations of a goroutine, and the goroutines it starts. -/
def runOp (s : Solo) : Op → Option (List Op × Pool Op × Outbox × Flags)
  | .msg o => (o.run cfg s.flags s.outbox).map fun r => (r.1.map .msg, [], r.2, s.flags)
  | .stop o => (o.run s.outbox s.flags).map fun r => (r.next, r.spawned, s.outbox, r.flags)

/-- The next operation of a goroutine. -/
def nextOp (i : ℕ) (s : Solo) : Option Op := (s.goroutines[i]?).bind List.head?

/-- The operation that a turn runs. -/
def Turn.op (s : Solo) : Turn → Option Op
  | .run i => s.nextOp i
  | _ => none

/-- The operation of the outbound side that a turn runs. -/
def Turn.msgOp (t : Turn) (s : Solo) : Option MsgOp :=
  match t.op s with
  | some (.msg o) => some o
  | _ => none

/-- The operation of the end that a turn runs. -/
def Turn.endOp (t : Turn) (s : Solo) : Option EndOp :=
  match t.op s with
  | some (.stop o) => some o
  | _ => none

/-- The packet of a call of `Send`. -/
def Turn.sent : Turn → Option Outbound
  | .send p => some p
  | _ => none

/-- The packet that another session numbers. -/
def Turn.renumbered : Turn → Option PacketRef
  | .renumber r _ => some r
  | _ => none

theorem Turn.msgOp_run {i : ℕ} {s : Solo} {o : MsgOp} (h : s.nextOp i = some (.msg o)) :
    o ∈ (Turn.run i).msgOp s := by
  rw [Turn.msgOp, Turn.op, h]
  rfl

theorem Turn.endOp_run {i : ℕ} {s : Solo} {o : EndOp} (h : s.nextOp i = some (.stop o)) :
    o ∈ (Turn.run i).endOp s := by
  rw [Turn.endOp, Turn.op, h]
  rfl

/-- An idle goroutine gets code. -/
def begin (i : ℕ) (code : List Op) (s : Solo) : Option Solo :=
  match s.goroutines[i]? with
  | some [] => some { s with goroutines := s.goroutines.set i code }
  | _ => none

/-- A call of `Publish` or `Send` on packet `r`. -/
def call (r : PacketRef) (published : Bool) (s : Solo) : Solo :=
  { s with
    outbox := s.outbox.newEntry r published
    goroutines := s.goroutines ++
      [[.msg (if published then .addMsgId s.outbox.entries.next
        else .send s.outbox.entries.next)]] }

/-- A round of `sendRun`: it ends when it was told to, and otherwise writes the next packet;
after a write error it returns. -/
def sendRound (written : Bool) (s : Solo) : Option Solo :=
  if s.flags.sendLoop.interrupted then begin 1 [.stop .storeStoped, .stop .sendExit] s
  else
    match s.outbox.iSendList with
    | [] => none
    | r :: rest =>
      let x := { s.outbox with iSendList := rest }
      if written then
        if s.flags.connClosed then none
        else begin 1 [.msg (.onWrited r)] { s with outbox := x.note (.written r) }
      else
        begin 1 [.stop .writeFailed, .stop .storeStoped, .stop .sendExit] { s with outbox := x }

def step : Turn → Solo → Option Solo
  | .start, s =>
    if s.flags.recvLoop.started then none
    else
      some { s with flags := { s.flags with
        openedFiles := s.flags.openedFiles + 1
        recvLoop := { started := true }
        sendLoop := { started := true } } }
  | .newPacket p, s => some { s with outbox := s.outbox.newPacket p.1 }
  | .renumber r id, s =>
    if r < s.outbox.packets.next then
      some { s with outbox := s.outbox.modifyPacket r (ControlPacket.setMessageID id) }
    else none
  | .publish r, s =>
    if r < s.outbox.packets.next ∧ (s.outbox.packet r).kind = PacketType.publish then
      some (s.call r true)
    else none
  | .send p, s =>
    some (({ s with outbox := s.outbox.newPacket p.1 } : Solo).call s.outbox.packets.next false)
  | .recvPacket p cleared, s =>
    if s.flags.recvLoop.running ∧ ¬ s.flags.connClosed then
      begin 0 [.stop (.recvMsg s.outbox.packets.next cleared)]
        { s with outbox := s.outbox.newPacket p.1 }
    else none
  | .recvError, s =>
    if s.flags.recvLoop.running then
      begin 0 [.stop .readFailed, .stop .onChannelError, .stop .recvExit] s
    else none
  | .sendRound written, s => if s.flags.sendLoop.running then s.sendRound written else none
  | .tick timedOut, s => begin 2 [.stop (.onTick timedOut)] s
  | .close, s =>
    if s.flags.recvLoop.started then begin 3 [.stop .loadClostep] s else none
  | .elapse d, s => some { s with outbox := { s.outbox with now := s.outbox.now + d } }
  | .run i, s =>
    match s.goroutines[i]? with
    | some (o :: code) =>
      (s.runOp cfg o).map fun r =>
        { outbox := r.2.2.1
          flags := r.2.2.2
          goroutines := s.goroutines.set i (r.1 ++ code) ++ r.2.1 }
    | _ => none

/-- A session as `NewSession` makes it, before anything has been done with it. -/
def initial (isServer : Bool) (now : ℤ) : Solo where
  outbox :=
    { now
      packets := ⟨fun _ => .pingreq newPingreq, 0⟩
      entries := ⟨fun _ => { p := 0, t := none, msg := 0, published := false }, 0⟩ }
  flags := { isServer }
  goroutines := [[], [], [], []]

def system : StepSystem Solo Turn where
  init s := ∃ isServer now, s = initial isServer now
  step := step cfg

theorem initial_init (isServer : Bool) (now : ℤ) :
    (system cfg).init (initial isServer now) :=
  ⟨isServer, now, rfl⟩

/-! ## Turns of a life -/

/-- Goroutine `i` does its next `n` operations. -/
def runs (i n : ℕ) : List Turn := List.replicate n (.run i)

/-- A server session is started and handles a CONNECT. -/
def connecting : List Turn := [.start, .recvPacket (inboundConnect []) true] ++ runs 0 6

/-- A PUBLISH is made for a call of `Publish`. -/
def outboundPublish (qos : UInt8) : Outbound := ⟨publishOf [] [] qos 0, rfl⟩

/-- After a CONNECT, `n` calls of `Publish`, one after the other. -/
def successiveCalls (n : ℕ) : List Turn :=
  connecting ++ (List.range n).flatMap fun k =>
    [.newPacket (outboundPublish 1), .publish (2 + k)] ++ runs (4 + k) 13

/-! Acknowledgements of the peer. -/

def inboundPuback (messageID : UInt16) : Inbound :=
  ⟨.puback { newPuback with messageID }, .other _ rfl (by rw [ControlPacket.kind]; decide)⟩

def inboundPubrec (messageID : UInt16) : Inbound :=
  ⟨.pubrec { newPubrec with messageID }, .other _ rfl (by rw [ControlPacket.kind]; decide)⟩

def inboundPubcomp (messageID : UInt16) : Inbound :=
  ⟨.pubcomp { newPubcomp with messageID }, .other _ rfl (by rw [ControlPacket.kind]; decide)⟩

end Solo
end MqttBroker

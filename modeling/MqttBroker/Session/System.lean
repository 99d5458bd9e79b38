import MqttBroker.Lib.StepSystem
import MqttBroker.Session.MsgHandler

/-!
# The running process

All goroutines of a broker process that touch sessions, as a step system. The receive
loops, send loops, the ticker and the closer take one round as one step. Code that calls
`Publish` in a loop is a `Goroutine` of its own here and takes one step for each call,
because a call may block on a full `peddingChan` and because other goroutines run between
two calls; the receive loop that started it waits for it. A panic ends the process: there
is no step.
-/

namespace MqttBroker

open GoM

variable {σ : Type}

/-- A packet that `ReadPacket` can return. -/
abbrev Inbound := { p : ControlPacket // Decoded p }

/-- A packet built by `NewControlPacket`, as callers of `Send` do. -/
abbrev Outbound := { p : ControlPacket // p.type = p.kind }

def inboundConnect (clientIdentifier : GoString) : Inbound :=
  ⟨_, connectAs_decoded clientIdentifier⟩

def outboundConnect (clientIdentifier : GoString) : Outbound := ⟨connectAs clientIdentifier, rfl⟩

def inboundConnack (returnCode : UInt8) : Inbound := ⟨_, connackOf_decoded returnCode⟩

def inboundSubscribe (filter qos : UInt8) : Inbound := ⟨_, subscribeByte_decoded filter qos⟩

def inboundPublish (topicName payload : GoString) (qos : UInt8) (messageID : UInt16) : Inbound :=
  ⟨_, publishOf_decoded topicName payload qos messageID⟩

/-! ## Goroutines -/

/-- Code that is left to run, up to the end of its loop. -/
inductive Work
  | subscribers (this : SessionRef) (msg : PacketRef) (rest : Subscribers)
  | sessionInfo (nmsg : PacketRef) (rest : Subscribers)
  | overview (pubmsg : PacketRef) (rest : Subscribers)
  | mgrPublish (topic msg : GoString) (qos : UInt8) (rest : Subscribers)
  | retained (this : SessionRef) (msgs : List Msg)
  | publish (this : SessionRef) (msg : PacketRef)
  | willEnd (this : SessionRef) (reason : DisconnectReason) (msg : Option PacketRef)
deriving DecidableEq

/-- `owner` is the session whose receive loop waits for this code to end, and `waiting` the
send on a full `peddingChan` that it is blocked in. -/
structure Goroutine where
  owner : Option SessionRef := none
  waiting : Option (SessionRef × PacketAndToken) := none
  work : List Work
deriving DecidableEq

namespace Work

variable (cfg : Config) (S : StoreMgr σ)

/-- The next round; `false` when it breaks out of the loop. -/
def round : Work → GoM σ Bool
  | subscribers this msg (v :: _) => Session.sendToSubcriberRound cfg this msg v
  | sessionInfo nmsg (v :: _) => Session.broadcastSessionInfoRound cfg nmsg v
  | overview pubmsg (v :: _) => SessionMgr.overviewRound cfg pubmsg v
  | mgrPublish topic msg qos (v :: _) => SessionMgr.publishRound cfg topic msg qos v
  | retained this (msg :: _) => Session.procRetainRound cfg this msg
  | publish this msg => do
    let _ ← Session.publish cfg this msg
    pure true
  | willEnd this reason msg => do
    Session.willEnd S this reason msg
    pure true
  | _ => pure false

/-- What is left after a round that does not break. -/
def next : Work → List Work
  | subscribers this msg (_ :: rest) => [subscribers this msg rest]
  | sessionInfo nmsg (_ :: rest) => [sessionInfo nmsg rest]
  | overview pubmsg (_ :: rest) => [overview pubmsg rest]
  | mgrPublish topic msg qos (_ :: rest) => [mgrPublish topic msg qos rest]
  | retained this (_ :: msgs) => [retained this msgs]
  | _ => []

end Work

/-! ## Starting a goroutine -/

section Start

variable (cfg : Config) (S : StoreMgr σ)

/-- The end of a handler that forwards, up to the loop of `sendToSubcriber`. -/
def forwardStart (order : SubscriberOrder) (this : SessionRef) (forwarded : Option PacketRef) :
    GoM σ (List Work) := do
  match forwarded with
  | none => pure []
  | some msg =>
    let s ← session this
    if s.isServer then
      let subs ← Session.sendToSubcriberStart order this msg
      pure [.subscribers this msg subs]
    else
      emit (.callbackOnMessage this (← packet msg))
      pure []

/-- A round of `recvRun` that reads a packet, up to the loop of `sendToSubcriber`. -/
def recvStart (order : SubscriberOrder) (this : SessionRef) (p : ControlPacket) :
    GoM σ (List Work) := do
  Session.onChannelReaded cfg this
  let s ← session this
  if s.clostep ≠ .running then
    pure []
  else
    let msg ← newPacket p
    let handled ← Session.procFrontRemoteMsg cfg S this msg p
    forwardStart order this handled.forwarded

/-- A goroutine of a `go` statement, up to its first loop. -/
def Spawned.start (order : SubscriberOrder) : Spawned → GoM σ (List Work)
  | .procRetainMessages this => do
    let msgs ← Session.procRetainStart S
    pure [.retained this msgs]
  | .onDisconnectException this reason => do
    match ← Session.willStart this with
    | none => pure []
    | some none => pure [.willEnd this reason none]
    | some (some msg) =>
      let subs ← Session.sendToSubcriberStart order this msg
      pure [.subscribers this msg subs, .willEnd this reason (some msg)]

/-- `BroadcastSessionInfo` on the first queued session. -/
def sessionInfoStart (order : SubscriberOrder) (marshalIndent : SessionInfo → Option GoString) :
    GoM σ (List Work) := do
  let b ← Exec.get
  match GoList.pop b.sessionInfoList with
  | (none, _) => pure []
  | (some s, sessionInfoList) =>
    Exec.modify fun b => { b with sessionInfoList }
    match ← Session.broadcastSessionInfoStart order marshalIndent s with
    | none => pure []
    | some (nmsg, subs) => pure [.sessionInfo nmsg subs]

def overviewStart (order : SubscriberOrder) (bsjson : GoString) : GoM σ (List Work) := do
  let (pubmsg, subs) ← SessionMgr.overviewStart order bsjson
  pure [.overview pubmsg subs]

def mgrPublishStart (order : SubscriberOrder) (topic msg : GoString) (qos : UInt8) :
    GoM σ (List Work) := do
  let subs ← getSessions topic
  pure [.mgrPublish topic msg qos (order.toList subs)]

/-- `Client.Publish`, up to its call of `Session.Publish`. -/
def clientPublishStart (this : SessionRef) (topic body : GoString) (qos : UInt8) (retain : Bool) :
    GoM σ (List Work) := do
  let msg ← newPacket (.publish
    { header := { newPublish.header with qos := qos, retain := retain }
      topicName := topic
      payload := body })
  pure [.publish this msg]

/-- The closer serves the first call of `CloseSession`. -/
def closerRound : GoM σ Unit := do
  let b ← Exec.get
  match b.closeSessionChan with
  | [] => pure ()
  | s :: closeSessionChan =>
    Exec.modify fun b => { b with closeSessionChan }
    Session.close s

end Start

/-! ## Steps -/

/-- A broker and the goroutines that are inside a loop with calls of `Publish`. -/
structure Process (σ : Type) where
  broker : Broker σ
  goroutines : List Goroutine

/-- One step of some goroutine. -/
inductive Action
  | handleConnection (s : SessionRef)
  | recvPacket (s : SessionRef) (p : Inbound) (order : SubscriberOrder)
  | recvError (s : SessionRef)
  | sendRound (s : SessionRef) (written : Bool)
  | tick (s : SessionRef)
  | closer
  | send (s : SessionRef) (p : Outbound)
  | clientPublish (s : SessionRef) (topic body : GoString) (qos : UInt8) (retain : Bool)
  | mgrPublish (topic msg : GoString) (qos : UInt8) (order : SubscriberOrder)
  | overview (bsjson : GoString) (order : SubscriberOrder)
  | sessionInfo (marshalIndent : SessionInfo → Option GoString) (order : SubscriberOrder)
  | start (i : ℕ) (order : SubscriberOrder)
  | advance (i : ℕ)
  | elapse (d : ℕ)

namespace Process

/-- A step that starts no goroutine. -/
def run {α : Type} (m : GoM σ α) (P : Process σ) : Option (Process σ) :=
  match m P.broker with
  | (.ok _, b) => some { P with broker := b }
  | (.error _, _) => none

/-- A step that leaves the rest of its work to a goroutine. -/
def launch (owner : Option SessionRef) (m : GoM σ (List Work)) (P : Process σ) :
    Option (Process σ) :=
  match m P.broker with
  | (.ok work, b) => some { broker := b, goroutines := P.goroutines ++ [{ owner, work }] }
  | (.error _, _) => none

variable (cfg : Config) (S : StoreMgr σ)

/-- What goroutine `g` is after its next step; none when it has ended. -/
def advance (g : Goroutine) (b : Broker σ) : Option (Option Goroutine × Broker σ) :=
  match g.waiting, g.work with
  | some (s, pt), _ =>
    match Session.pushPedding cfg s pt b with
    | (.ok _, b') => some (some { g with waiting := none }, b')
    | (.error _, _) => none
  | none, [] => some (none, b)
  | none, w :: ws =>
    match w.round cfg S b with
    | (.ok true, b') => some (some { g with work := w.next ++ ws }, b')
    | (.ok false, b') => some (some { g with work := ws }, b')
    | (.error (.blocked s pt), b') =>
      some (some { g with waiting := some (s, pt), work := w.next ++ ws }, b')
    | (.error (.panic _), _) => none

/-- Put the new state of goroutine `i` in its place. -/
def replace (i : ℕ) (P : Process σ) : Option Goroutine × Broker σ → Process σ
  | (some g, b) => { broker := b, goroutines := P.goroutines.set i g }
  | (none, b) => { broker := b, goroutines := P.goroutines.eraseIdx i }

def step : Action → Process σ → Option (Process σ)
  | .handleConnection s, P =>
    P.run (mgrEvent (SessionMgr.insertSession (P.broker.sessions s).channel.conn s))
  | .recvPacket s p order, P =>
    if ∃ g ∈ P.goroutines, g.owner = some s then none
    else P.launch (some s) (recvStart cfg S order s p.1)
  | .recvError s, P =>
    if ∃ g ∈ P.goroutines, g.owner = some s then none else P.run (Session.recvError s)
  | .sendRound s written, P => P.run (Session.sendRound cfg s written)
  | .tick s, P => P.run (Session.onTick cfg s)
  | .closer, P => P.run closerRound
  | .send s p, P => P.run (newPacket p.1 >>= fun msg => Session.send cfg s msg)
  | .clientPublish s topic body qos retain, P =>
    P.launch none (clientPublishStart s topic body qos retain)
  | .mgrPublish topic msg qos order, P => P.launch none (mgrPublishStart order topic msg qos)
  | .overview bsjson order, P => P.launch none (overviewStart order bsjson)
  | .sessionInfo marshalIndent order, P => P.launch none (sessionInfoStart order marshalIndent)
  | .start i order, P =>
    match P.broker.spawned[i]? with
    | none => none
    | some g =>
      { P with broker := { P.broker with spawned := P.broker.spawned.eraseIdx i } }.launch none
        (g.start S order)
  | .advance i, P =>
    match P.goroutines[i]? with
    | none => none
    | some g => (advance cfg S g P.broker).map (P.replace i)
  | .elapse d, P => some { P with broker := { P.broker with now := P.broker.now + d } }

/-- The start of a process: no subscription, no goroutine, and every session that is ever
created in the state that `NewSession` gives it, with any client id its creator sets. -/
structure Initial (P : Process σ) : Prop where
  sessions : ∀ s, ∃ now conn isServer clientId,
    P.broker.sessions s = { Session.newSession cfg now conn isServer with clientId := clientId }
  subscriptionMgr : P.broker.subscriptionMgr = TreeSubsMgr.newNode
  closeSessionChan : P.broker.closeSessionChan = []
  sessionInfoList : P.broker.sessionInfoList = []
  spawned : P.broker.spawned = []
  trace : P.broker.trace = []
  goroutines : P.goroutines = []

/-- A process at its start, with the sessions of accepted and of dialled connections. -/
def start (storeMgr : σ) (isServer : SessionRef → Bool) : Process σ where
  broker :=
    { now := 0
      packets := ⟨fun _ => .pingreq newPingreq, 0⟩
      tokens := ⟨fun _ => { kind := .connect }, 0⟩
      sessions := fun s => Session.newSession cfg 0 s (isServer s)
      subscriptionMgr := TreeSubsMgr.newNode
      storeMgr
      mgr := {}
      closeSessionChan := []
      sessionInfoList := []
      spawned := []
      trace := [] }
  goroutines := []

theorem start_initial (storeMgr : σ) (isServer : SessionRef → Bool) :
    Initial cfg (start cfg storeMgr isServer) where
  sessions s := ⟨0, s, isServer s, [], rfl⟩
  subscriptionMgr := rfl
  closeSessionChan := rfl
  sessionInfoList := rfl
  spawned := rfl
  trace := rfl
  goroutines := rfl

/-- The process over a configuration and a store. -/
def system : StepSystem (Process σ) Action where
  init := Initial cfg
  step := step cfg S

end Process
end MqttBroker

import MqttBroker.Lib.StepSystem
import MqttBroker.Session.Session

/-!
# Goroutines that meet at the manager

What the receive loops, the ticker, the manager and the closer do when sessions begin and
end, one atomic operation at a time. Every goroutine is at a place of its code; its next
operation loads or stores a flag, closes `peddingChan`, changes the subscription tree, or
hands something over on a channel. `connectedChan` and the others are unbuffered: a send is
one step with the case of `sessionMgr.run` that receives it, and it has to wait as long as
the manager is inside `CloseSession`.

What a message says and where it goes is left open here: a forwarded PUBLISH goes to any
sessions, each `Publish` may find the window full, and a tick may come at any time.
-/

namespace MqttBroker

/-! ## What goroutines say to the manager -/

/-- A send on one of the channels of `sessionMgr.run`. -/
inductive MgrEvent
  | insertSession (s : SessionRef)
  | connectTimeout (s : SessionRef)
  | connected (s : SessionRef)
  | disconnectSessionByClientId (clientId : GoString)
  | disconnect (s : SessionRef)
  | pingTimeout (s : SessionRef)
deriving DecidableEq

/-- `mgrOnDisconnected`, `mgrOnPingTimeout` and `mgrOnConnectTimeout`. -/
inductive Report
  | disconnected
  | pingTimeout
  | connectTimeout
deriving DecidableEq

def Report.event (s : SessionRef) : Report → MgrEvent
  | disconnected => .disconnect s
  | pingTimeout => .pingTimeout s
  | connectTimeout => .connectTimeout s

/-- The next operation of a report: the load of `clostep`, `RemoveSession`, the store of
`closing`, or the event. -/
inductive Stage
  | load
  | removeSession
  | store
  | send
deriving DecidableEq

/-! ## The state that is shared -/

namespace World

/-- What a run did, in order: for the statements about runs, read by no function. -/
inductive Event
  /-- The manager served an event. -/
  | served (e : MgrEvent)
  /-- The manager called `CloseSession`. -/
  | closeSession (s : SessionRef)
  /-- `close(this.peddingChan)` was executed. -/
  | closePedding (s : SessionRef)
  /-- `Session.Close` returned. -/
  | closeReturned (s : SessionRef)
deriving DecidableEq

end World

/-- `closing` is the session that the manager hands over in `CloseSession`, and `panicked`
says that a panic has ended the process. -/
structure Shared where
  sessions : SessionRef → Session
  subscriptionMgr : TreeSubsMgr SessionRef
  mgr : SessionMgr := {}
  closing : Option SessionRef := none
  panicked : Bool := false
  trace : List World.Event := []

namespace Shared

/-- Replace the session behind a reference. -/
def setSession (this : SessionRef) (f : Session → Session) (m : Shared) : Shared :=
  { m with sessions := Function.update m.sessions this (f (m.sessions this)) }

/-- The case of `sessionMgr.run` for an event. -/
def case (m : Shared) : MgrEvent → SessionMgr → Option SessionRef × SessionMgr
  | .insertSession s => SessionMgr.insertSession (m.sessions s).channel.conn s
  | .connectTimeout s => SessionMgr.connectTimeout (m.sessions s).channel.conn s
  | .connected s => SessionMgr.connected (m.sessions s).channel.conn (m.sessions s).clientId s
  | .disconnectSessionByClientId clientId => SessionMgr.disconnectSessionByClientId clientId
  | .disconnect s => SessionMgr.disconnect (m.sessions s).clientId s
  | .pingTimeout s => SessionMgr.pingTimeout (m.sessions s).clientId s

/-- The manager serves an event, up to the hand-over in `CloseSession`. -/
def serve (e : MgrEvent) (m : Shared) : Shared :=
  { m with
    mgr := (m.case e m.mgr).2
    closing := (m.case e m.mgr).1
    trace := m.trace ++
      .served e :: ((m.case e m.mgr).1.map World.Event.closeSession).toList }

end Shared

/-- An atomic operation. -/
inductive Op
  | load
  | setClientId (s : SessionRef) (clientId : GoString)
  | setConnected (s : SessionRef) (connected : ℤ)
  | add (s : SessionRef) (subs : List GoString) (qoss : List UInt8)
  | remove (s : SessionRef) (subs : List GoString)
  | removeSession (s : SessionRef)
  | storeClostep (s : SessionRef) (clostep : Clostep)
  | closePedding (s : SessionRef)
  | stop (s : SessionRef)
  | pushPedding (s : SessionRef)
  | popPedding (s : SessionRef)
  | send (e : MgrEvent)
  | takeSession
  | closeReturned (s : SessionRef)

namespace Shared

variable (cfg : Config)

/-- `none` while the operation has to wait: for the manager to be back at its `select`, or
for room in an open `peddingChan`. -/
def run : Op → Shared → Option Shared
  | .load, m => some m
  | .setClientId s clientId, m => some (m.setSession s fun x => { x with clientId })
  | .setConnected s connected, m => some (m.setSession s fun x => { x with connected })
  | .add s subs qoss, m =>
    match TreeSubsMgr.addAll s subs qoss m.subscriptionMgr with
    | .ok subscriptionMgr => some { m with subscriptionMgr }
    | .error _ => some { m with panicked := true }
  | .remove s subs, m =>
    some { m with
      subscriptionMgr := subs.foldl (fun tree sub => tree.del sub (some s)) m.subscriptionMgr }
  | .removeSession s, m => some { m with subscriptionMgr := m.subscriptionMgr.removeSession s }
  | .storeClostep s clostep, m => some (m.setSession s fun x => { x with clostep })
  | .closePedding s, m =>
    some { m.setSession s fun x => { x with peddingChan := { x.peddingChan with closed := true } }
      with
        panicked := (m.sessions s).peddingChan.closed
        trace := m.trace ++ [.closePedding s] }
  | .stop s, m =>
    some (m.setSession s fun x => { x with channel := { x.channel with isStoped := true } })
  | .pushPedding s, m =>
    -- a send on a closed channel panics inside `Publish`, which recovers
    if (m.sessions s).peddingChan.closed then some m
    else if (m.sessions s).peddingChan.len < cfg.maxSizeOfPublishMsg then
      some (m.setSession s fun x =>
        { x with peddingChan := { x.peddingChan with len := x.peddingChan.len + 1 } })
    else none
  | .popPedding s, m =>
    some (m.setSession s fun x =>
      { x with peddingChan := { x.peddingChan with len := x.peddingChan.len - 1 } })
  | .send e, m => if m.closing = none then some (m.serve e) else none
  | .takeSession, m => some { m with closing := none }
  | .closeReturned s, m => some { m with trace := m.trace ++ [.closeReturned s] }

end Shared

/-! ## Reports -/

namespace Report

/-- The next operation of a report, and where it is afterwards; `none` when it is over. -/
def next (m : Shared) (s : SessionRef) (k : Report) : Stage → Op × Option Stage
  | .load => (.load, if (m.sessions s).clostep = .running then some .removeSession else none)
  | .removeSession => (.removeSession s, some .store)
  | .store => (.storeClostep s .closing, some .send)
  | .send => (.send (k.event s), none)

end Report

/-! ## The receive loop -/

/-- Where the receive loop of a session is. In `onConnect` it goes through `takeOver`,
`register` and `acknowledge`, in `sendToSubcriber` through `forward`, `publish` and
`pedding`, with the subscribers that are left. A report made after a read error is the
`last` thing it does. -/
inductive Recv
  | idle
  | reading
  | read (p : ControlPacket)
  | handle (p : ControlPacket)
  | takeOver (clientId : GoString)
  | register
  | acknowledge
  | connack
  | forward (rest : List SessionRef)
  | publish (v : SessionRef) (rest : List SessionRef)
  | pedding (v : SessionRef) (rest : List SessionRef)
  | failed
  | report (k : Report) (stage : Stage) (last : Bool)
  | exited

namespace Recv

/-- Where the loop goes on when a report has moved to a stage or is over. -/
def afterReport (k : Report) (last : Bool) : Option Stage → Recv
  | some stage => report k stage last
  | none => if last then exited else reading

/-- `procFrontRemoteMsg`, up to the first operation of the handler: `onConnect` and
`onDisconnect` go on from there, PUBLISH and PUBREL may forward a message to `subs`, and
`onInflightDone` takes a byte from `peddingChan` when there is `room` in the window. -/
def procFrontRemoteMsg (m : Shared) (s : SessionRef) (subs : List SessionRef) (room : Bool) :
    ControlPacket → Op × Recv
  | .connect msg =>
    if (m.sessions s).isConnected ∨ msg.reservedBit &&& 0x1 = 0x1 then (.load, reading)
    else (.setClientId s msg.clientIdentifier, takeOver msg.clientIdentifier)
  | .connack msg =>
    (.setConnected s (if 0 < msg.returnCode then -(msg.returnCode.toNat : ℤ) else 1), connack)
  | .publish _ | .pubrel _ => (.load, forward subs)
  | .puback _ | .pubcomp _ | .suback _ | .unsuback _ =>
    (if room then .popPedding s else .load, reading)
  | .subscribe msg => (.add s msg.topics msg.qoss, reading)
  | .unsubscribe msg => (.remove s msg.topics, reading)
  | .disconnect _ => (.load, report .disconnected .load false)
  | .pubrec _ | .pingreq _ | .pingresp _ => (.load, reading)

/-- The next operation of the loop of session `s` that is not a read. -/
def next (m : Shared) (s : SessionRef) (subs : List SessionRef) (full : Bool) :
    Recv → Option (Op × Recv)
  | idle | reading | exited => none
  | read p => some (.load, if (m.sessions s).clostep = .running then handle p else reading)
  | handle p => some (procFrontRemoteMsg m s subs (!full) p)
  | takeOver clientId => some (.send (.disconnectSessionByClientId clientId), register)
  | register => some (.send (.connected s), acknowledge)
  | acknowledge => some (.setConnected s 1, reading)
  | connack => some (.send (.connected s), reading)
  | forward [] => some (.load, reading)
  | forward (v :: rest) =>
    -- the check of `sendToSubcriber`
    some (.load,
      if (m.sessions v).isConnected ∧ ¬ (m.sessions v).isClosed then publish v rest
      else forward rest)
  | publish v rest =>
    -- the check of `Publish`, whose error breaks out of the loop
    some (.load,
      if ¬ (m.sessions v).isConnected ∨ (m.sessions v).isClosed then reading
      else if full then pedding v rest
      else forward rest)
  | pedding v rest => some (.pushPedding v, forward rest)
  | failed =>
    some (.load, report (if (m.sessions s).isConnected then .disconnected else .connectTimeout)
      .load true)
  | report k stage last =>
    some ((k.next m s stage).1, afterReport k last (k.next m s stage).2)

/-- The `stoped` of its runtine is 0. -/
def stoped : Recv → Bool
  | idle | exited => true
  | _ => false

end Recv

/-! ## The ticker and the closer -/

/-- Where the ticker is: waiting for the next second, or with the sessions left to tick. In
`OnTick` it goes through `expired`, a report and `refill`. -/
inductive Ticker
  | waiting
  | visit (rest : List SessionRef)
  | expired (s : SessionRef) (rest : List SessionRef)
  | report (s : SessionRef) (k : Report) (stage : Stage) (rest : List SessionRef)
  | refill (s : SessionRef) (rest : List SessionRef)

namespace Ticker

def afterReport (s : SessionRef) (k : Report) (rest : List SessionRef) : Option Stage → Ticker
  | some stage => report s k stage rest
  | none => refill s rest

/-- The next operation of `tickerRun`. A client session that has timed out only pings. -/
def next (m : Shared) (timedOut room : Bool) : Ticker → Option (Op × Ticker)
  | waiting => none
  | visit [] => some (.load, waiting)
  | visit (s :: rest) =>
    some (.load,
      if (m.sessions s).clostep ≠ .running then visit rest
      else if timedOut ∧ (m.sessions s).isServer then expired s rest
      else refill s rest)
  | expired s rest =>
    some (.load, report s
      (if (m.sessions s).isConnected then .pingTimeout else .connectTimeout) .load rest)
  | report s k stage rest =>
    some ((k.next m s stage).1, afterReport s k rest (k.next m s stage).2)
  | refill s rest => some (if room then .popPedding s else .load, visit rest)

end Ticker

/-- Where the closer is in `Session.Close` and `Channel.Close`. -/
inductive Closer
  | idle
  | load (s : SessionRef)
  | store (s : SessionRef)
  | closePedding (s : SessionRef)
  | loadStoped (s : SessionRef)
  | stop (s : SessionRef)
  | wait (s : SessionRef)
  | done (s : SessionRef)

namespace Closer

/-- The next operation of the closer. `recvRuntine.Stop` waits until the receive loop has
ended; the send loop ends by itself once its connection is closed. -/
def next (m : Shared) (recv : SessionRef → Recv) : Closer → Option (Op × Closer)
  | idle => m.closing.map fun s => (.takeSession, load s)
  | load s => some (.load, if (m.sessions s).isClosed then done s else store s)
  | store s => some (.storeClostep s .closed, closePedding s)
  | closePedding s => some (.closePedding s, loadStoped s)
  | loadStoped s => some (.load, if (m.sessions s).channel.isStoped then done s else stop s)
  | stop s => some (.stop s, wait s)
  | wait s => if (recv s).stoped then some (.load, done s) else none
  | done s => some (.closeReturned s, idle)

end Closer

/-! ## Steps -/

/-- Where every goroutine is. -/
structure Goroutines where
  recv : SessionRef → Recv := fun _ => .idle
  ticker : Ticker := .waiting
  closer : Closer := .idle

structure World extends Shared, Goroutines

/-- Whose turn it is, with what is left open about its next step. -/
inductive Turn
  | handleConnection (s : SessionRef)
  | recvPacket (s : SessionRef) (p : { p : ControlPacket // Decoded p })
  | recvError (s : SessionRef)
  | recv (s : SessionRef) (subs : List SessionRef) (full : Bool)
  | sendRound (s : SessionRef) (written room : Bool)
  | publish (s : SessionRef)
  | getAllSessions (waitingOrder : RangeOrder ConnRef SessionRef)
      (connectedOrder : RangeOrder GoString SessionRef)
  | tick (timedOut room : Bool)
  | closer

namespace World

/-- The receive loop of a session moves to another place. -/
def setRecv (s : SessionRef) (r : Recv) (w : World) : Goroutines :=
  { w.toGoroutines with recv := Function.update w.recv s r }

theorem setRecv_self (s : SessionRef) (r : Recv) (w : World) : (w.setRecv s r).recv s = r :=
  Function.update_self ..

theorem setRecv_of_ne {s s' : SessionRef} (r : Recv) (w : World) (h : s' ≠ s) :
    (w.setRecv s r).recv s' = w.recv s' :=
  Function.update_of_ne h ..

/-- The next operation of a goroutine, and where all are afterwards. `publish` is a call of
`Publish` by code that nothing here waits for: a client, a dashboard, a retained message. -/
def next : Turn → World → Option (Op × Goroutines)
  | .handleConnection s, w =>
    match w.recv s with
    | .idle => some (.send (.insertSession s), w.setRecv s .reading)
    | _ => none
  | .recvPacket s p, w =>
    match w.recv s with
    | .reading => some (.load, w.setRecv s (.read p.1))
    | _ => none
  | .recvError s, w =>
    match w.recv s with
    | .reading => some (.load, w.setRecv s .failed)
    | _ => none
  | .recv s subs full, w =>
    ((w.recv s).next w.toShared s subs full).map fun r => (r.1, w.setRecv s r.2)
  | .sendRound s written room, w =>
    match w.recv s with
    | .idle => none
    | _ =>
      -- after a failed write `sendRun` stops the channel
      some (if written then
          if (w.sessions s).clostep = .running ∧ room then .popPedding s else .load
        else .stop s, w.toGoroutines)
  | .publish s, w => some (.pushPedding s, w.toGoroutines)
  | .getAllSessions waitingOrder connectedOrder, w =>
    match w.ticker, w.closing with
    | .waiting, none =>
      some (.load, { w.toGoroutines with
        ticker := .visit (w.mgr.getAllSessions waitingOrder connectedOrder) })
    | _, _ => none
  | .tick timedOut room, w =>
    (w.ticker.next w.toShared timedOut room).map fun t =>
      (t.1, { w.toGoroutines with ticker := t.2 })
  | .closer, w =>
    (w.closer.next w.toShared w.recv).map fun c => (c.1, { w.toGoroutines with closer := c.2 })

/-- A step is the operation of some goroutine; after a panic there is none. -/
def step (cfg : Config) (t : Turn) (w : World) : Option World :=
  if w.panicked then none
  else (next t w).bind fun r => (w.run cfg r.1).map fun m => { toShared := m, toGoroutines := r.2 }

/-- The start of a process: sessions as `NewSession` makes them, each for a connection of its
own, with any client id its creator sets. -/
structure Initial (cfg : Config) (w : World) : Prop where
  sessions : ∀ s, ∃ now conn isServer clientId,
    w.sessions s = { Session.newSession cfg now conn isServer with clientId := clientId }
  conn_injective : Function.Injective fun s => (w.sessions s).channel.conn
  subscriptionMgr : w.subscriptionMgr = TreeSubsMgr.newNode
  mgr : w.mgr = {}
  closing : w.closing = none
  trace : w.trace = []
  goroutines : w.toGoroutines = {}

/-- A process at its start, with the sessions of accepted connections. -/
def start (cfg : Config) : World where
  sessions s := Session.newSession cfg 0 s true
  subscriptionMgr := TreeSubsMgr.newNode

theorem start_initial (cfg : Config) : Initial cfg (start cfg) where
  sessions s := ⟨0, s, true, [], rfl⟩
  conn_injective _ _ h := h
  subscriptionMgr := rfl
  mgr := rfl
  closing := rfl
  trace := rfl
  goroutines := rfl

/-- A range over client ids in the order of their bytes. -/
def byClientId : RangeOrder GoString SessionRef :=
  @RangeOrder.ascending GoString SessionRef
    (LinearOrder.lift' (List.map UInt8.toNat)
      (List.map_injective_iff.mpr fun _ _ => UInt8.toNat.inj))

def system (cfg : Config) : StepSystem World Turn where
  init := Initial cfg
  step := step cfg

/-! ## Turns of a life -/

/-- The next operation of a receive loop that forwards nothing. -/
def recvOnce (s : SessionRef) : Turn := .recv s [] false

/-- Session `s` is accepted and its CONNECT is read, up to its first event. -/
def connecting (s : SessionRef) (clientId : GoString) : List Turn :=
  [.handleConnection s, .recvPacket s ⟨_, connectAs_decoded clientId⟩, recvOnce s, recvOnce s]

/-- The rest of the CONNECT. -/
def connected (s : SessionRef) : List Turn := [recvOnce s, recvOnce s, recvOnce s]

/-- A SUBSCRIBE for one filter of one byte is read and carried out. -/
def subscribing (s : SessionRef) (filter : UInt8) : List Turn :=
  [.recvPacket s ⟨_, subscribeByte_decoded filter 0⟩, recvOnce s, recvOnce s]

/-- A DISCONNECT is read, and the receive loop comes to the event of a report. -/
def disconnecting (s : SessionRef) : List Turn :=
  [.recvPacket s ⟨_, disconnectPacket_decoded⟩, recvOnce s, recvOnce s, recvOnce s, recvOnce s,
    recvOnce s]

/-- The connection of a session fails, and its receive loop comes to the event of a report. -/
def failing (s : SessionRef) : List Turn :=
  [.recvError s, recvOnce s, recvOnce s, recvOnce s, recvOnce s]

/-- The receive loop of the session is about to send `disconnectChan <- session`. -/
def sendsDisconnect (s : SessionRef) (w : World) : Bool :=
  match w.recv s with
  | .report .disconnected .send _ => true
  | _ => false

theorem next_of_sendsDisconnect {s : SessionRef} {w : World} (h : sendsDisconnect s w = true) :
    ∃ r, (w.recv s).next w.toShared s [] false = some (.send (.disconnect s), r) := by
  unfold sendsDisconnect at h
  split at h
  · next last hr =>
      rw [hr]
      exact ⟨_, rfl⟩
  · exact absurd h (by simp)

/-- The closer takes a session and comes to its wait. -/
def closerTurns : List Turn := List.replicate 6 .closer

end World
end MqttBroker

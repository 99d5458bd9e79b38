import MqttBroker.Lib.Pool
import MqttBroker.Lifecycle.World
import MqttBroker.Session.System

/-!
# One session, operation by operation

The goroutines that work on one session: its receive loop and send loop, the ticker, the
closer, and any number of calls of `Publish` and `Send`. In the model of the running
process these take whole rounds as steps; here every lock, atomic and channel operation is a
step of its own, because what they do together depends on the order of those: the window is
tested in one critical section and filled in another, and an entry is between two lists
after it has been popped.

The state is in two parts that are written by different operations: the `Outbox`, which is
what `Publish`, `Send`, the acknowledgements and the ticks work on, and the `Flags` of the
session's end. Other sessions appear only through what they can do to this one: they publish
to it, and they number a packet that it has as well.
-/

namespace MqttBroker.Solo

/-! ## The outbound side -/

abbrev EntryRef := ℕ

/-- What a call of `Publish` or `Send` allocates: the `PacketAndToken` with its token, and the
fields of the `inflightingMsg` that goes around it. `msg` is the argument of the call. -/
structure Entry where
  p : PacketRef
  t : Option Token
  timeout : ℤ := 0
  retryCnt : ℕ := 0
  msg : PacketRef
  published : Bool

/-- Who puts an entry in flight or sends its packet: `Publish`, a refill of the window, `Send`,
or the resend loop. -/
inductive Caller
  | publish (e : EntryRef)
  | refill (e : EntryRef)
  | send (e : EntryRef)
  | resend (e : EntryRef)
deriving DecidableEq

namespace Caller

/-- The entry that a caller is at work on. -/
def entry : Caller → EntryRef
  | publish e | refill e | send e | resend e => e

end Caller

/-- What was done with an entry, and what was written: for the statements about runs, read by
no function. -/
inductive Event
  | called (e : EntryRef)
  | returned (e : EntryRef) (err : Option GoError)
  /-- `Publish` or a refill gave the entry up without a word. -/
  | lost (e : EntryRef)
  /-- `Channel.Send` pushed a packet to `iSendList`, for an entry or for a handler. -/
  | sent (c : Option Caller) (r : PacketRef)
  | written (r : PacketRef)
  /-- A PUBREC gave the entry a PUBREL as its packet. -/
  | updated (e : EntryRef) (r : PacketRef)
  /-- `removeInflightMsg` took the entry, with the id that it had, out of flight for
  packet `r`. -/
  | removed (e : EntryRef) (r : PacketRef) (id : UInt16)
  | completed (e : EntryRef)
deriving DecidableEq

/-- Packets, entries, lists and the last id of the session, and the clock. The events come
latest first. -/
structure Outbox where
  now : ℤ
  packets : Heap ControlPacket
  entries : Heap Entry
  lastMsgId : ℕ := 0
  inflightingList : List EntryRef := []
  peddingMsgList : List EntryRef := []
  peddingLen : ℕ := 0
  iSendList : List PacketRef := []
  connectToken : Option EntryRef := none
  disconnectToken : Option EntryRef := none
  log : List Event := []

namespace Outbox

abbrev entry (x : Outbox) (e : EntryRef) : Entry := x.entries.cells e

abbrev packet (x : Outbox) (r : PacketRef) : ControlPacket := x.packets.cells r

/-- The id that `imsg.pt.p.Details()` gives for an entry. -/
abbrev idOf (x : Outbox) (e : EntryRef) : UInt16 := (x.packet (x.entry e).p).messageID

def note (ev : Event) (x : Outbox) : Outbox := { x with log := ev :: x.log }

def modifyEntry (e : EntryRef) (f : Entry → Entry) (x : Outbox) : Outbox :=
  { x with entries := x.entries.modify e f }

def modifyPacket (r : PacketRef) (f : ControlPacket → ControlPacket) (x : Outbox) : Outbox :=
  { x with packets := x.packets.modify r f }

@[simp] theorem note_entry (ev : Event) (x : Outbox) (e : EntryRef) :
    (x.note ev).entry e = x.entry e := rfl

@[simp] theorem note_log (ev : Event) (x : Outbox) : (x.note ev).log = ev :: x.log := rfl

@[simp] theorem modifyEntry_log (e : EntryRef) (f : Entry → Entry) (x : Outbox) :
    (x.modifyEntry e f).log = x.log := rfl

theorem modifyEntry_self (e : EntryRef) (f : Entry → Entry) (x : Outbox) :
    (x.modifyEntry e f).entry e = f (x.entry e) :=
  Heap.modify_self ..

theorem modifyEntry_of_ne {e e' : EntryRef} (f : Entry → Entry) (x : Outbox) (h : e' ≠ e) :
    (x.modifyEntry e f).entry e' = x.entry e' :=
  Heap.modify_of_ne _ _ h

/-- A new packet; its reference is the `next` of the heap before. -/
def newPacket (p : ControlPacket) (x : Outbox) : Outbox :=
  { x with packets := (x.packets.alloc p).2 }

/-- A new entry for a call on packet `r`; its reference is the `next` of the heap before. -/
def newEntry (r : PacketRef) (published : Bool) (x : Outbox) : Outbox :=
  { x with
    entries := (x.entries.alloc
      { p := r, t := newToken (x.packet r).type, msg := r, published }).2
    log := .called x.entries.next :: x.log }

theorem newPacket_self (p : ControlPacket) (x : Outbox) :
    (x.newPacket p).packet x.packets.next = p :=
  Heap.alloc_self ..

theorem newPacket_of_lt (p : ControlPacket) {x : Outbox} {r : PacketRef}
    (hr : r < x.packets.next) : (x.newPacket p).packet r = x.packet r :=
  Heap.alloc_of_lt p hr

theorem newEntry_self (r : PacketRef) (published : Bool) (x : Outbox) :
    (x.newEntry r published).entry x.entries.next =
      { p := r, t := newToken (x.packet r).type, msg := r, published } :=
  Heap.alloc_self ..

theorem newEntry_of_lt (r : PacketRef) (published : Bool) {x : Outbox} {e : EntryRef}
    (he : e < x.entries.next) : (x.newEntry r published).entry e = x.entry e :=
  Heap.alloc_of_lt _ he

end Outbox

/-! ## The end of a session -/

/-- A loop that runs in a `SafeRuntine`: started, asked to stop, and over. -/
structure Loop where
  started : Bool := false
  interrupted : Bool := false
  exited : Bool := false
deriving DecidableEq

/-- The loop is between two rounds or inside one. -/
abbrev Loop.running (l : Loop) : Prop := l.started ∧ ¬ l.exited

/-- What happened on the way to the end: for the statements about runs, read by no
function. -/
inductive EndEvent
  /-- The handler of a DISCONNECT was called. -/
  | disconnected
  /-- A goroutine was started for `onDisconnectException`. -/
  | spawned (reason : DisconnectReason)
  /-- `Close` stored `closed`. -/
  | closed
  /-- `sendToSubcriber` was called with the will. -/
  | will
  /-- `OpenedFiles` was decremented. -/
  | openedFiles
  | closeReturned
deriving DecidableEq

/-- The fields of `Session` and `Channel` that decide when it ends, the two loops of the
channel, and its contribution to the counter `OpenedFiles`. The events come latest first. -/
structure Flags where
  isServer : Bool
  connected : ℤ := 0
  clostep : Clostep := .running
  peddingClosed : Bool := false
  isStoped : Bool := false
  willFlag : Bool := false
  hadDisconnectException : DisconnectReason := .ok
  connClosed : Bool := false
  openedFiles : ℤ := 0
  recvLoop : Loop := {}
  sendLoop : Loop := {}
  log : List EndEvent := []

namespace Flags

abbrev isConnected (f : Flags) : Prop := 0 < f.connected

abbrev isClosed (f : Flags) : Prop := f.clostep = .closed

def note (ev : EndEvent) (f : Flags) : Flags := { f with log := ev :: f.log }

end Flags
end MqttBroker.Solo

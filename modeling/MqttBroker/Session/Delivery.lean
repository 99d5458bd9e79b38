import MqttBroker.Packets.Received
import MqttBroker.Session.Reception

/-!
# Messages from end to end

The session that publishes and the session that receives, with the bytes on the connection between
them: what the send loop of the one has written is what the receive loop of the other reads, and
the acknowledgements of the other are the replies. The publishing session is taken operation by
operation, with any number of calls, ticks and acknowledgements; of the other broker, the handlers
of PUBLISH and PUBREL are steps, and what its other goroutines do. What is forwarded at the other
end was published; a message is forwarded at most once, at least once or exactly once, as its QoS
says.
-/

namespace MqttBroker

open Broker GoM Exec
open ControlPacket (inQos2)

/-! ## What is read of a packet -/

namespace ControlPacket

/-- The packet as `ReadPacket` returns it after `Write` has written it. -/
def asRead (p : ControlPacket) : ControlPacket := p.written.plain

/-- `Write` changes a length, and leaves out the id of a PUBLISH with QoS 0. -/
theorem asRead_fields (p : ControlPacket) : p.asRead.kind = p.kind ∧
    p.asRead.inQos2 = p.inQos2 ∧ p.asRead.atOnce = p.atOnce ∧ p.asRead.content = p.content := by
  unfold asRead written
  split
  · cases p with
    | _ => exact ⟨rfl, rfl, rfl, rfl⟩
  · cases p with
    | _ => exact ⟨rfl, rfl, rfl, rfl⟩

theorem messageID_asRead {p : ControlPacket} (h : ∀ m, p = publish m → m.header.qos ≠ 0) :
    p.asRead.messageID = p.messageID := by
  unfold asRead written
  split
  · cases p with
    | publish m =>
      have hpos : 0 < m.header.qos := UInt8.pos_iff_ne_zero.mpr (h m rfl)
      exact if_pos hpos
    | _ => rfl
  · cases p with
    | publish m =>
      have hpos : 0 < m.header.qos := UInt8.pos_iff_ne_zero.mpr (h m rfl)
      exact if_pos hpos
    | _ => rfl

/-- The packets of the QoS 2 flow are read with their ids. -/
theorem messageID_of_inQos2 {p : ControlPacket} (h : p.inQos2 = true) :
    p.asRead.messageID = p.messageID := by
  refine messageID_asRead fun m hm hqos => ?_
  rw [hm, inQos2, hqos] at h
  exact absurd h (by decide)

/-- A PUBLISH of QoS 1 is read with its id. -/
theorem messageID_of_pubackDue {p : ControlPacket} {id : UInt16}
    (h : p.asRead.pubackDue = some id) :
    p.kind = PacketType.publish ∧ p.details = ⟨1, id⟩ := by
  cases p with
  | publish m =>
    rw [asRead, written, body] at h
    have hqos : m.header.qos = 1 := by
      by_contra hne
      exact absurd (h.symm.trans (if_neg hne)) (by simp)
    have hid : (asRead (publish m)).messageID = m.messageID := by
      refine messageID_asRead fun m' hm' hzero => ?_
      rw [← publish.inj hm', hqos] at hzero
      exact absurd hzero (by decide)
    have hdue : some (asRead (publish m)).messageID = some id := (if_pos hqos).symm.trans h
    refine ⟨rfl, ?_⟩
    rw [details, hqos, ← Option.some.inj hdue, hid]
  | subscribe m =>
    unfold asRead written at h
    split at h
    · exact absurd h (by simp [setRemainingLength, plain, pubackDue])
    · exact absurd h (by simp [plain, pubackDue])
  | _ => exact absurd h (by simp [asRead, written, body, setRemainingLength, plain, pubackDue])

theorem qos_of_kind {p : ControlPacket} (h : p.kind = PacketType.publish) :
    p.inQos2 = decide (p.details.qos = 2) ∧ p.atOnce = decide (p.details.qos < 2) := by
  cases p with
  | publish m => exact ⟨rfl, rfl⟩
  | _ =>
    rw [kind] at h
    exact absurd h (by decide)

theorem kind_of_delivers {p : ControlPacket} (h : p.delivers = true) :
    p.kind ∈ [PacketType.publish, PacketType.pubrel] := by
  cases p with
  | publish m => exact List.mem_cons_self
  | pubrel m => exact List.mem_cons_of_mem _ List.mem_cons_self
  | _ => exact absurd h Bool.false_ne_true

theorem kind_of_content {p : ControlPacket} {c : GoString × GoString} (h : p.content = some c) :
    p.kind = PacketType.publish := by
  cases p with
  | publish m => rfl
  | _ => exact absurd h (by simp [content])

/-- An encodable packet is written as it is read. -/
theorem write_of_encodable {p : ControlPacket} (h : p.asRead.Encodable) :
    p.write = .ok (p.asRead.wire, p.written) := by
  obtain ⟨body, hbody, -⟩ := h.body
  rw [asRead, body_plain] at hbody
  have hwritten : p.body = .ok body := by
    rw [written] at hbody
    split at hbody
    · rwa [body_setRemainingLength] at hbody
    · exact hbody
  rw [asRead, wire_plain]
  exact write_written hwritten

end ControlPacket

/-- A packet of a session as its peer reads it. -/
def Solo.Outbox.asRead (x : Solo.Outbox) (r : PacketRef) : ControlPacket := (x.packet r).asRead

namespace Delivery

open Solo

/-! ## Both ends -/

/-- The session that publishes, the bytes that it has written and the other end has not read, and
the broker of the session that receives, whose receive loop may wait in a handler. `read` are the
packets that the receive loop has handled: for the statements, read by no function. -/
structure Pair (σ : Type) where
  sender : Solo
  wire : GoString := []
  receiver : Broker σ
  waiting : Bool := false
  read : List ControlPacket := []

/-- A turn of the publishing session, a round of the receive loop at the other end, or what other
goroutines of its process do. -/
inductive Action (σ : Type)
  | sender (t : Solo.Turn)
  | receive (order : SubscriberOrder)
  | other (b : Broker σ) (waiting : Bool)

variable {σ : Type} (sending receiving : Config) (S : StoreMgr σ) (this : SessionRef)

/-- The packet is no PUBACK, PUBREC or PUBCOMP, or a reply of the other end. -/
def Reply (b : Broker σ) (kind : UInt8) (id : UInt16) : Prop :=
  (kind = PacketType.puback → id ∈ b.pubacks this) ∧
    (kind = PacketType.pubrec → .pubrec id ∈ b.outputs this) ∧
    (kind = PacketType.pubcomp → .pubcomp id ∈ b.outputs this)

instance (b : Broker σ) (kind : UInt8) (id : UInt16) : Decidable (Reply this b kind id) :=
  inferInstanceAs (Decidable ((_ → _) ∧ (_ → _) ∧ (_ → _)))

namespace Pair

/-- A turn of the publishing session; the bytes that it writes are on the connection. A write that
fails leaves nothing there, and one that panics ends the process. -/
def send (t : Solo.Turn) (p : Pair σ) : Option (Pair σ) :=
  if ∀ q ∈ t.received, Reply this p.receiver q.1.kind q.1.messageID then
    (Solo.step sending t p.sender).bind fun sender =>
      match t.writes p.sender with
      | none => some { p with sender }
      | some r =>
        match (p.sender.outbox.packet r).write with
        | .ok (bytes, _) => some { p with sender, wire := p.wire ++ bytes }
        | .error _ => none
  else none

/-- The handler of a packet that was read. -/
def handle (order : SubscriberOrder) (q : ControlPacket) (p : Pair σ) : Pair σ :=
  let run := Session.recvMsg receiving S order this q p.receiver
  { p with
    receiver := run.2
    waiting := match run.1 with
      | .ok _ => false
      | .error _ => true
    read := p.read ++ if (p.receiver.sessions this).clostep = .running then [q] else [] }

/-- The receive loop reads a packet. One that has no message and no release is handled by an
`other` step. -/
def receive (order : SubscriberOrder) (p : Pair σ) : Option (Pair σ) :=
  if p.waiting ∨ p.wire = [] then none
  else
    match recvRead ByteStream.reader ⟨p.wire, errEof⟩ with
    | (.error _, _) => none
    | (.ok q, rest) =>
      if q.delivers then some (handle receiving S this order q { p with wire := rest.bytes })
      else some { p with wire := rest.bytes }

def step : Action σ → Pair σ → Option (Pair σ)
  | .sender t, p => p.send sending this t
  | .receive order, p => p.receive receiving S this order
  | .other receiver waiting, p => some { p with receiver, waiting }

end Pair

variable (Valid : σ → Prop) (view : σ → Messages)

/-- Nothing was published, and nothing is stored for the session that receives. -/
def system : StepSystem (Pair σ) (Action σ) where
  init p := (∃ isServer now, p.sender = Solo.initial isServer now) ∧ p.wire = [] ∧ p.read = [] ∧
    Ready Valid this p.receiver ∧ p.receiver.outputs this = [] ∧ p.receiver.pubacks this = [] ∧
    ∀ id, p.receiver.stored view this id = none
  step := Pair.step sending receiving S this

/-- The publishing session numbers its messages itself and writes packets that can be read, and the
other goroutines leave what is stored for the receiving session and what it has replied. -/
def Undisturbed (p : Pair σ) : Action σ → Prop
  | .sender t => OwnIds p.sender t ∧ ∀ r ∈ t.writes p.sender, (p.sender.outbox.asRead r).Encodable
  | .receive _ => True
  | .other b _ => Ready Valid this b ∧ b.outputs this = p.receiver.outputs this ∧
    b.pubacks this = p.receiver.pubacks this ∧
    ∀ id, b.stored view this id = p.receiver.stored view this id

/-- A condition on the turns of the publishing session. -/
def OnSender (P : Solo → Solo.Turn → Prop) (p : Pair σ) : Action σ → Prop
  | .sender t => P p.sender t
  | _ => True

/-! ## The connection -/

/-- The packets `refs` of those that were written are the ones with a message or a release that
were handled or are still to be read; `pending` is all that is still to be read. -/
structure Carried (s : Solo) (wire : GoString) (read : List ControlPacket)
    (refs : List PacketRef) (pending : List ControlPacket) : Prop where
  sublist : refs.Sublist s.outbox.writtens.reverse
  packets : refs.map s.outbox.asRead = read ++ pending.filter ControlPacket.delivers
  wire : wire = pending.flatMap ControlPacket.wire
  encodable : ∀ q ∈ pending, q.Encodable
  delivers : ∀ q ∈ read, q.delivers = true

namespace Carried

variable {cfg : Config} {s s' : Solo} {t : Solo.Turn} {wire : GoString}
  {read pending : List ControlPacket} {refs : List PacketRef} {q : ControlPacket}

theorem mem_writtens (h : Carried s wire read refs pending) {r : PacketRef} (hr : r ∈ refs) :
    r ∈ s.outbox.writtens :=
  List.mem_reverse.mp (h.sublist.subset hr)

theorem delivers_of_mem (h : Carried s wire read refs pending) {r : PacketRef} (hr : r ∈ refs) :
    (s.outbox.asRead r).delivers = true := by
  have hmem := List.mem_map_of_mem (f := s.outbox.asRead) hr
  rw [h.packets] at hmem
  rcases List.mem_append.mp hmem with hmem | hmem
  · exact h.delivers _ hmem
  · exact (List.mem_filter.mp hmem).2

/-- A packet that was read is one that was written. -/
theorem exists_ref (h : Carried s wire read refs pending) (hq : q ∈ read) :
    ∃ r ∈ refs, s.outbox.asRead r = q := by
  refine List.mem_map.mp ?_
  rw [h.packets]
  exact List.mem_append_left _ hq

/-- What was written with a message or a release stays as it was written. -/
theorem asRead_eq (hd : Sourced s) (hok : OwnIds s t) (h : Solo.step cfg t s = some s')
    {r : PacketRef} (hr : r ∈ s'.outbox.writtens)
    (hdelivers : (s.outbox.asRead r).delivers = true) :
    s'.outbox.asRead r = s.outbox.asRead r := by
  have hkind := ControlPacket.kind_of_delivers hdelivers
  rw [Outbox.asRead, (ControlPacket.asRead_fields _).1] at hkind
  rw [Outbox.asRead, hd.written_packet_eq hok h hr hkind]
  rfl

/-- A turn may write one packet more. -/
theorem send (hd : Sourced s) (hok : OwnIds s t) (h : Carried s wire read refs pending)
    (hstep : Solo.step cfg t s = some s')
    (hencodable : ∀ r ∈ t.writes s, (s.outbox.asRead r).Encodable) :
    Carried s' (wire ++ ((t.writes s).map s.outbox.asRead).toList.flatMap ControlPacket.wire) read
      (refs ++ (t.writes s).toList.filter fun r => (s.outbox.asRead r).delivers)
      (pending ++ ((t.writes s).map s.outbox.asRead).toList) := by
  have hwrittens := writtens_step hstep
  have hsame : ∀ r ∈ s'.outbox.writtens, (s.outbox.asRead r).delivers = true →
      s'.outbox.asRead r = s.outbox.asRead r := fun r => asRead_eq hd hok hstep
  constructor
  · rw [hwrittens, List.reverse_append]
    refine h.sublist.append ?_
    cases t.writes s with
    | none => exact List.Sublist.refl _
    | some r => exact List.filter_sublist
  · have hold : refs.map s'.outbox.asRead = refs.map s.outbox.asRead := by
      refine List.map_congr_left fun r hr => hsame r ?_ (h.delivers_of_mem hr)
      rw [hwrittens]
      exact List.mem_append_right _ (h.mem_writtens hr)
    rw [List.map_append, hold, h.packets, List.filter_append, List.append_assoc]
    refine congrArg (fun l => read ++ (pending.filter ControlPacket.delivers ++ l)) ?_
    cases hwrites : t.writes s with
    | none => rfl
    | some r =>
      have hr : r ∈ s'.outbox.writtens := by
        rw [hwrittens, hwrites]
        exact List.mem_append_left _ (List.mem_singleton_self r)
      show ([r].filter _).map _ = [s.outbox.asRead r].filter _
      rw [List.filter_singleton, List.filter_singleton]
      cases hdelivers : (s.outbox.asRead r).delivers with
      | true => exact congrArg (fun q => [q]) (hsame r hr hdelivers)
      | false => rfl
  · rw [List.flatMap_append, h.wire]
  · intro q hq
    rcases List.mem_append.mp hq with hq | hq
    · exact h.encodable q hq
    · obtain ⟨r, hr, rfl⟩ := Option.map_eq_some_iff.mp (Option.mem_toList.mp hq)
      exact hencodable r hr
  · exact h.delivers

/-- The first packet that is still to be read is read next. -/
theorem recvRead_eq (h : Carried s wire read refs (q :: pending)) :
    recvRead ByteStream.reader ⟨wire, errEof⟩ =
      (.ok q, ⟨pending.flatMap ControlPacket.wire, errEof⟩) := by
  rw [h.wire, List.flatMap_cons]
  exact ControlPacket.recvRead_wire (h.encodable q List.mem_cons_self) _ errEof

theorem take (h : Carried s wire read refs (q :: pending)) (hq : q.delivers = true) :
    Carried s (pending.flatMap ControlPacket.wire) (read ++ [q]) refs pending where
  sublist := h.sublist
  packets := by
    rw [h.packets, List.filter_cons, if_pos hq, List.append_assoc]
    rfl
  wire := rfl
  encodable q' hq' := h.encodable q' (List.mem_cons_of_mem q hq')
  delivers q' hq' := by
    rcases List.mem_append.mp hq' with hq' | hq'
    · exact h.delivers q' hq'
    · rwa [List.mem_singleton.mp hq']

theorem skip (h : Carried s wire read refs (q :: pending)) (hq : ¬ q.delivers = true) :
    Carried s (pending.flatMap ControlPacket.wire) read refs pending where
  sublist := h.sublist
  packets := by
    rw [h.packets, List.filter_cons, if_neg hq]
  wire := rfl
  encodable q' hq' := h.encodable q' (List.mem_cons_of_mem q hq')
  delivers := h.delivers

/-- A packet that is read and not handled. -/
theorem drop (h : Carried s wire read refs (q :: pending)) (hq : q.delivers = true) :
    ∃ refs', Carried s (pending.flatMap ControlPacket.wire) read refs' pending := by
  have hpackets := h.packets
  rw [List.filter_cons, if_pos hq] at hpackets
  obtain ⟨before, after, hrefs, hbefore, hafter⟩ := List.map_eq_append_iff.mp hpackets
  obtain ⟨r, after', rfl, -, hafter'⟩ := List.map_eq_cons_iff.mp hafter
  refine ⟨before ++ after', ?_, ?_, rfl, ?_, h.delivers⟩
  · rw [hrefs] at h
    exact ((List.sublist_cons_self r after').append_left before).trans h.sublist
  · rw [List.map_append, hbefore, hafter']
  · exact fun q' hq' => h.encodable q' (List.mem_cons_of_mem q hq')

end Carried

/-! ## Steps -/

/-- The receiving session has done what is due for the packets that it has handled. -/
structure Followed (p : Pair σ) : Prop where
  tracks : Tracks Valid view this (fun _ => none) (p.read.filter inQos2) p.receiver
  outputs : p.receiver.outputs this = outputsOfAll [] p.read
  pubacks : p.receiver.pubacks this = p.read.filterMap ControlPacket.pubackDue

/-- The two ends fit together. -/
structure Linked (p : Pair σ) : Prop where
  sender : Sourced p.sender
  heard : Heard (Reply this p.receiver) p.sender
  followed : Followed this Valid view p
  stream : ∃ refs pending, Carried p.sender p.wire p.read refs pending

/-- The replies of the receiving session are never taken back. -/
structure KeepsReplies (p p' : Pair σ) : Prop where
  outputs : p.receiver.outputs this ⊆ p'.receiver.outputs this
  pubacks : p.receiver.pubacks this ⊆ p'.receiver.pubacks this

section Steps

variable {sending receiving S this Valid view} {p p' : Pair σ} {a : Action σ}

theorem keepsReplies_of_eq (hout : p'.receiver.outputs this = p.receiver.outputs this)
    (hack : p'.receiver.pubacks this = p.receiver.pubacks this) : KeepsReplies this p p' :=
  ⟨hout ▸ List.Subset.refl _, hack ▸ List.Subset.refl _⟩

theorem KeepsReplies.reply (h : KeepsReplies this p p') {kind : UInt8} {id : UInt16}
    (hreply : Reply this p.receiver kind id) : Reply this p'.receiver kind id :=
  ⟨fun hk => h.pubacks (hreply.1 hk), fun hk => h.outputs (hreply.2.1 hk),
    fun hk => h.outputs (hreply.2.2 hk)⟩

theorem Linked.congr {refs : List PacketRef} {pending : List ControlPacket}
    (h : Linked this Valid view p) (hsender : p'.sender = p.sender)
    (hkeeps : KeepsReplies this p p') (hfollowed : Followed this Valid view p')
    (hstream : Carried p.sender p'.wire p'.read refs pending) : Linked this Valid view p' where
  sender := by
    rw [hsender]
    exact h.sender
  heard := by
    rw [hsender]
    exact h.heard.mono fun _ _ => hkeeps.reply
  followed := hfollowed
  stream := by
    rw [hsender]
    exact ⟨refs, pending, hstream⟩

/-- What a turn of the publishing session does. -/
theorem send_eq_some {t : Solo.Turn} (h : p.send sending this t = some p')
    (hencodable : ∀ r ∈ t.writes p.sender, (p.sender.outbox.asRead r).Encodable) :
    (∀ q ∈ t.received, Reply this p.receiver q.1.kind q.1.messageID) ∧
      ∃ s', Solo.step sending t p.sender = some s' ∧
        p' =
          { p with
            sender := s'
            wire := p.wire ++ ((t.writes p.sender).map p.sender.outbox.asRead).toList.flatMap
              ControlPacket.wire } := by
  rw [Pair.send] at h
  split at h
  · next hreply =>
    obtain ⟨s', hs, h⟩ := Option.bind_eq_some_iff.mp h
    refine ⟨hreply, s', hs, ?_⟩
    cases hwrites : t.writes p.sender with
    | none =>
      rw [hwrites] at h
      rw [← Option.some.inj h]
      simp
    | some r =>
      rw [hwrites] at h hencodable
      have hwrite := ControlPacket.write_of_encodable (hencodable r rfl)
      simp only [hwrite] at h
      rw [← Option.some.inj h]
      simp [Outbox.asRead]
  · exact absurd h (by simp)

theorem linked_send {t : Solo.Turn} (h : Linked this Valid view p) (hok : OwnIds p.sender t)
    (hencodable : ∀ r ∈ t.writes p.sender, (p.sender.outbox.asRead r).Encodable)
    (hstep : p.send sending this t = some p') : Linked this Valid view p' := by
  obtain ⟨hreply, s', hs, rfl⟩ := send_eq_some hstep hencodable
  obtain ⟨refs, pending, hstream⟩ := h.stream
  exact
    { sender := sourced_step h.sender hok hs
      heard := heard_step h.sender.typed h.heard (fun _ _ => id) (fun q hq _ => hreply q hq) hs
      followed := ⟨h.followed.tracks, h.followed.outputs, h.followed.pubacks⟩
      stream := ⟨_, _, hstream.send h.sender hok hs hencodable⟩ }

variable (receiving) in
/-- The handler of a packet does what is due for it. -/
theorem followed_handle (hS : S.IsMessageMap Valid view) (order : SubscriberOrder)
    {q : ControlPacket} (hq : q.delivers = true) (h : Followed this Valid view p) :
    Followed this Valid view (p.handle receiving S this order q) ∧
      KeepsReplies this p (p.handle receiving S this order q) := by
  by_cases hrunning : (p.receiver.sessions this).clostep = .running
  · obtain ⟨htracks, hout⟩ := Session.handleMsg_outputsOf receiving hS order hq h.tracks
    have hack := Session.handleMsg_pubacks receiving hS order hq h.tracks.ready
    rw [← Session.recvMsg_of_running receiving S order q hrunning] at htracks hout hack
    have hread : (p.handle receiving S this order q).read = p.read ++ [q] :=
      congrArg (p.read ++ ·) (if_pos hrunning)
    refine ⟨⟨?_, ?_, ?_⟩, ?_, ?_⟩
    · rw [hread]
      exact htracks
    · rw [hread, outputsOfAll_append, ← h.outputs]
      exact hout
    · rw [hread, List.filterMap_append, ← h.pubacks]
      refine hack.trans (congrArg (p.receiver.pubacks this ++ ·) ?_)
      rw [List.filterMap_cons]
      cases q.pubackDue with
      | none => rfl
      | some id => rfl
    · exact hout ▸ List.subset_append_left _ _
    · exact hack ▸ List.subset_append_left _ _
  · -- the session is closing: what the loop still reads is dropped
    have hrun : Session.recvMsg receiving S order this q p.receiver = (.ok (), p.receiver) := by
      rw [Session.recvMsg, bind_run_ok (session_run this p.receiver), if_pos hrunning]
      rfl
    have hreceiver : (p.handle receiving S this order q).receiver = p.receiver :=
      congrArg Prod.snd hrun
    have hread : (p.handle receiving S this order q).read = p.read := by
      refine (congrArg (p.read ++ ·) (if_neg hrunning)).trans ?_
      exact List.append_nil _
    refine ⟨⟨?_, ?_, ?_⟩, keepsReplies_of_eq ?_ ?_⟩
    · rw [hread, hreceiver]
      exact h.tracks
    · rw [hread, hreceiver]
      exact h.outputs
    · rw [hread, hreceiver]
      exact h.pubacks
    · rw [hreceiver]
    · rw [hreceiver]

theorem linked_receive (hS : S.IsMessageMap Valid view) {order : SubscriberOrder}
    (h : Linked this Valid view p) (hstep : p.receive receiving S this order = some p') :
    Linked this Valid view p' ∧ KeepsReplies this p p' ∧ p'.sender = p.sender := by
  obtain ⟨refs, pending, hstream⟩ := h.stream
  rw [Pair.receive] at hstep
  split at hstep
  · exact absurd hstep (by simp)
  · next hready =>
    cases pending with
    | nil => exact absurd (.inr hstream.wire) hready
    | cons q pending =>
      simp only [hstream.recvRead_eq] at hstep
      split at hstep
      · next hq =>
        obtain rfl := Option.some.inj hstep
        obtain ⟨hfollowed, hkeeps⟩ := followed_handle receiving
          (p := { p with wire := pending.flatMap ControlPacket.wire }) hS order hq
          ⟨h.followed.tracks, h.followed.outputs, h.followed.pubacks⟩
        have hkeeps : KeepsReplies this p _ := ⟨hkeeps.outputs, hkeeps.pubacks⟩
        refine ⟨?_, hkeeps, rfl⟩
        by_cases hrunning : (p.receiver.sessions this).clostep = .running
        · refine h.congr rfl hkeeps hfollowed
            (?_ : Carried p.sender _ (p.read ++ if _ then [q] else []) refs pending)
          rw [if_pos hrunning]
          exact hstream.take hq
        · obtain ⟨refs', hdrop⟩ := hstream.drop hq
          refine h.congr rfl hkeeps hfollowed
            (?_ : Carried p.sender _ (p.read ++ if _ then [q] else []) refs' pending)
          rw [if_neg hrunning, List.append_nil]
          exact hdrop
      · next hq =>
        obtain rfl := Option.some.inj hstep
        have hkeeps : KeepsReplies this p { p with wire := pending.flatMap ControlPacket.wire } :=
          keepsReplies_of_eq rfl rfl
        refine ⟨h.congr rfl hkeeps ?_ (hstream.skip hq), hkeeps, rfl⟩
        exact ⟨h.followed.tracks, h.followed.outputs, h.followed.pubacks⟩

theorem linked_other {b : Broker σ} {waiting : Bool} (h : Linked this Valid view p)
    (hready : Ready Valid this b) (hout : b.outputs this = p.receiver.outputs this)
    (hack : b.pubacks this = p.receiver.pubacks this)
    (hstored : ∀ id, b.stored view this id = p.receiver.stored view this id) :
    Linked this Valid view { p with receiver := b, waiting } := by
  obtain ⟨refs, pending, hstream⟩ := h.stream
  refine h.congr rfl (keepsReplies_of_eq hout hack) ⟨⟨hready, fun id => ?_⟩, ?_, ?_⟩ hstream
  · exact (hstored id).trans (h.followed.tracks.stored id)
  · exact hout.trans h.followed.outputs
  · exact hack.trans h.followed.pubacks

theorem linked_initial (h : (system sending receiving S this Valid view).init p) :
    Linked this Valid view p := by
  obtain ⟨⟨isServer, now, hsender⟩, hwire, hread, hready, hout, hack, hstored⟩ := h
  refine ⟨hsender ▸ sourced_initial isServer now, hsender ▸ heard_initial _ isServer now,
    ⟨⟨hready, fun id => ?_⟩, ?_, ?_⟩, [], [], ?_⟩
  · rw [hstored, hread, heldAfter, List.filter_nil, held_nil]
  · rw [hout, hread]
    rfl
  · rw [hack, hread]
    rfl
  · rw [hread, hwire]
    exact ⟨List.nil_sublist _, rfl, rfl, fun q hq => absurd hq List.not_mem_nil,
      fun q hq => absurd hq List.not_mem_nil⟩

/-- A turn of the publishing session, or a step that leaves it. -/
theorem linked_step (hS : S.IsMessageMap Valid view) (h : Linked this Valid view p)
    (hok : Undisturbed this Valid view p a)
    (hstep : Pair.step sending receiving S this a p = some p') :
    Linked this Valid view p' ∧ KeepsReplies this p p' ∧
      (p'.sender = p.sender ∨ ∃ t, a = .sender t ∧ OwnIds p.sender t ∧
        (∀ q ∈ t.received, Reply this p.receiver q.1.kind q.1.messageID) ∧
        Solo.step sending t p.sender = some p'.sender) := by
  cases a with
  | sender t =>
    obtain ⟨hreply, s', hs, hp'⟩ := send_eq_some hstep hok.2
    refine ⟨linked_send h hok.1 hok.2 hstep, ?_, .inr ⟨t, rfl, hok.1, hreply, ?_⟩⟩
    · rw [hp']
      exact keepsReplies_of_eq rfl rfl
    · rw [hp']
      exact hs
  | receive order =>
    obtain ⟨hlinked, hkeeps, hsender⟩ := linked_receive hS h hstep
    exact ⟨hlinked, hkeeps, .inl hsender⟩
  | other b waiting =>
    obtain rfl := Option.some.inj hstep
    obtain ⟨hready, hout, hack, hstored⟩ := hok
    exact ⟨linked_other h hready hout hack hstored, keepsReplies_of_eq hout hack, .inl rfl⟩

end Steps

/-! ## What is forwarded -/

/-- The topic and the payload of the message of an entry. -/
def content (s : Solo) (e : EntryRef) : Option (GoString × GoString) :=
  (s.outbox.packet (s.outbox.entry e).msg).content

/-- The message of the entry has the QoS. -/
def atQos (s : Solo) (qos : UInt8) (e : EntryRef) : Bool :=
  (s.outbox.packet (s.outbox.entry e).msg).details.qos = qos

/-- The messages that were forwarded are those of the entries `es`, which were published. -/
structure Forwarded (p : Pair σ) (es : List EntryRef) : Prop where
  published : ∀ e ∈ es, p.sender.outbox.Published e
  messages : ((p.receiver.outputs this).filterMap Output.message).map some =
    es.map (content p.sender)

/-- The packets `refs` were handled, and the messages of `es` were forwarded for them. -/
structure Origins (p : Pair σ) (refs : List PacketRef) (es : List EntryRef) : Prop where
  forwarded : Forwarded this p es
  entered : ∀ e ∈ es, p.sender.outbox.Entered e
  sublist : refs.Sublist p.sender.outbox.writtens.reverse
  read : refs.map p.sender.outbox.asRead = p.read
  covers : Covers p.sender.outbox.asRead refs (es.map fun e => (p.sender.outbox.entry e).msg)
  eachOnce : Orderly p.read →
    EachOnce p.sender.outbox.asRead refs (es.map fun e => (p.sender.outbox.entry e).msg)

/-- The turns of the publishing session keep apart, so that no PUBLISH is sent after a PUBREL with
its id. -/
structure InStep (p : Pair σ) : Prop extends Linked this Valid view p where
  ceases : Ceases p.sender
  order : InOrder p.sender.outbox
  replied : ∀ r id, Issued p.sender r → p.sender.outbox.Releases id r →
    .pubrec id ∈ p.receiver.outputs this

section Messages

variable {sending receiving S this Valid view} {p p' : Pair σ} {e e' : EntryRef}

/-- The ids tell the entries apart. -/
theorem Linked.unique (h : Linked this Valid view p) (hpub : p.sender.outbox.Published e)
    (hl : p.sender.outbox.Entered e) (hpub' : p.sender.outbox.Published e')
    (hl' : p.sender.outbox.Entered e')
    (hid : p.sender.outbox.msgId e = p.sender.outbox.msgId e') : e = e' :=
  h.sender.ids.unique e e' _ (.numbered (hl.numbered h.sender.once hpub) hid)
    (.numbered (hl'.numbered h.sender.once hpub') rfl)

/-- A PUBLISH that was written is the message of an entry. -/
theorem Linked.exists_entry (h : Linked this Valid view p) {r : PacketRef}
    (hr : r ∈ p.sender.outbox.writtens)
    (hkind : (p.sender.outbox.asRead r).kind = PacketType.publish) :
    ∃ e, p.sender.outbox.Entered e ∧ p.sender.outbox.Published e ∧
      (p.sender.outbox.entry e).msg = r := by
  rw [Outbox.asRead, (ControlPacket.asRead_fields _).1] at hkind
  obtain ⟨e, hl, hpub, hmsg⟩ := h.sender.source hr hkind
  exact ⟨e, hl, hpub, hmsg.symm⟩

theorem content_eq {s : Solo} {r : PacketRef} (hmsg : (s.outbox.entry e).msg = r) :
    content s e = (s.outbox.asRead r).content := by
  rw [Outbox.asRead, (ControlPacket.asRead_fields _).2.2.2, content, hmsg]

theorem Linked.exists_origins (h : Linked this Valid view p) :
    ∃ refs es, Origins this p refs es := by
  obtain ⟨all, pending, hstream⟩ := h.stream
  obtain ⟨refs, after, hall, hread, -⟩ := List.map_eq_append_iff.mp hstream.packets
  have hsublist : refs.Sublist p.sender.outbox.writtens.reverse := by
    refine List.Sublist.trans ?_ hstream.sublist
    rw [hall]
    exact List.sublist_append_left refs after
  obtain ⟨ys, hcovers, honce⟩ := exists_covers (f := p.sender.outbox.asRead) refs
  -- what was forwarded are messages of entries
  have hentries : ∀ y ∈ ys, ∃ e, p.sender.outbox.Entered e ∧ p.sender.outbox.Published e ∧
      (p.sender.outbox.entry e).msg = y := by
    intro y hy
    have hcontent := List.mem_map_of_mem (f := fun y => (p.sender.outbox.asRead y).content) hy
    rw [← hcovers.messages] at hcontent
    obtain ⟨c, -, hc⟩ := List.mem_map.mp hcontent
    exact h.exists_entry (List.mem_reverse.mp (hsublist.subset (hcovers.mem y hy)))
      (ControlPacket.kind_of_content hc.symm)
  choose! entry hentry using hentries
  have hmsgs : (ys.map entry).map (fun e => (p.sender.outbox.entry e).msg) = ys := by
    rw [List.map_map]
    exact (List.map_congr_left fun y hy => (hentry y hy).2.2).trans (List.map_id ys)
  refine ⟨refs, ys.map entry, ⟨fun e he => ?_, ?_⟩, fun e he => ?_, hsublist, hread, ?_, ?_⟩
  · obtain ⟨y, hy, rfl⟩ := List.mem_map.mp he
    exact (hentry y hy).2.1
  · rw [h.followed.outputs, ← hread, hcovers.messages, List.map_map]
    exact List.map_congr_left fun y hy => (content_eq (hentry y hy).2.2).symm
  · obtain ⟨y, hy, rfl⟩ := List.mem_map.mp he
    exact (hentry y hy).1
  · rw [hmsgs]
    exact hcovers
  · rw [hmsgs, ← hread]
    exact honce

/-- Every PUBLISH that was handled is the message of an entry. -/
theorem Linked.exists_entry_of_read (h : Linked this Valid view p) {m : PublishPacket}
    (hm : .publish m ∈ p.read) : ∃ e, p.sender.outbox.Entered e ∧ p.sender.outbox.Published e ∧
      p.sender.outbox.asRead (p.sender.outbox.entry e).msg = .publish m := by
  obtain ⟨refs, pending, hstream⟩ := h.stream
  obtain ⟨r, hr, heq⟩ := hstream.exists_ref hm
  have hkind : (p.sender.outbox.asRead r).kind = PacketType.publish := by
    rw [heq]
    rfl
  obtain ⟨e, hl, hpub, rfl⟩ := h.exists_entry (hstream.mem_writtens hr) hkind
  exact ⟨e, hl, hpub, heq⟩

/-! ## At least once -/

theorem linked_of_reach (hS : S.IsMessageMap Valid view)
    (h : (system sending receiving S this Valid view).Reach (Undisturbed this Valid view) p) :
    Linked this Valid view p :=
  h.invariant (fun _ => linked_initial) fun _ _ _ hl hok hstep => (linked_step hS hl hok hstep).1

/-- Whatever the order of the steps: what is forwarded was published, and the message of an entry
that was taken out of flight for a PUBACK is of QoS 1 and was forwarded. -/
theorem at_least_once (hS : S.IsMessageMap Valid view)
    (h : (system sending receiving S this Valid view).Reach (Undisturbed this Valid view) p) :
    ∃ es : List EntryRef, Forwarded this p es ∧
      ∀ e r id, p.sender.outbox.Published e → .removed e r id ∈ p.sender.outbox.log →
        (p.sender.outbox.packet r).kind = PacketType.puback →
        e ∈ es.filter (atQos p.sender 1) := by
  have hl := linked_of_reach hS h
  obtain ⟨refs, es, hes⟩ := hl.exists_origins
  refine ⟨es, hes.forwarded, fun e r id hpub hlog hkind => ?_⟩
  have hnumbered : (p.sender.outbox.packet r).kind ∉ numbered := by
    rw [hkind]
    decide
  have hack : id ∈ p.receiver.pubacks this := ((hl.heard.removed e r id hlog).2 hnumbered).1 hkind
  -- the PUBACK is for a message that was forwarded at once
  rw [hl.followed.pubacks, ← hes.read] at hack
  obtain ⟨q, hq, hdue⟩ := List.mem_filterMap.mp hack
  obtain ⟨r', hr', rfl⟩ := List.mem_map.mp hq
  obtain ⟨hpublish, hdetails⟩ := ControlPacket.messageID_of_pubackDue hdue
  have hmem : r' ∈ es.map fun e => (p.sender.outbox.entry e).msg := by
    refine List.mem_of_mem_filter (p := fun y => (p.sender.outbox.asRead y).atOnce) ?_
    rw [hes.covers.atOnce]
    refine List.mem_filter.mpr ⟨hr', ?_⟩
    rw [Outbox.asRead, (ControlPacket.asRead_fields _).2.2.1,
      (ControlPacket.qos_of_kind hpublish).2, hdetails]
    exact decide_eq_true (show (1 : UInt8) < 2 by decide)
  obtain ⟨e', he', rfl⟩ := List.mem_map.mp hmem
  have hentered : p.sender.outbox.Entered e := .inr ⟨_, hlog, decide_eq_true rfl⟩
  have hmsgId : p.sender.outbox.msgId e = id := hl.sender.sources.removed e r id hlog hpub
  have hid : p.sender.outbox.msgId e' = id := congrArg Details.messageID hdetails
  obtain rfl := hl.unique hpub hentered (hes.forwarded.published e' he') (hes.entered e' he')
    (hmsgId.trans hid.symm)
  exact List.mem_filter.mpr ⟨he', decide_eq_true (congrArg Details.qos hdetails)⟩

/-! ## At most once -/

/-- A message of QoS 0 or 1 is forwarded as often as it was handled. -/
theorem Origins.sublist_of_atOnce {refs : List PacketRef} {es : List EntryRef}
    (h : Origins this p refs es) {P : EntryRef → Bool}
    (hatOnce : ∀ e ∈ es, P e = true →
      (p.sender.outbox.asRead (p.sender.outbox.entry e).msg).atOnce = true) :
    List.Sublist ((es.filter P).map fun e => (p.sender.outbox.entry e).msg) refs := by
  have hall : ((es.filter P).map fun e => (p.sender.outbox.entry e).msg).filter
      (fun y => (p.sender.outbox.asRead y).atOnce) =
      (es.filter P).map fun e => (p.sender.outbox.entry e).msg := by
    refine List.filter_eq_self.mpr fun y hy => ?_
    obtain ⟨e, he, rfl⟩ := List.mem_map.mp hy
    obtain ⟨hmem, hP⟩ := List.mem_filter.mp he
    exact hatOnce e hmem hP
  rw [← hall]
  refine List.Sublist.trans ((List.filter_sublist.map _).filter _) ?_
  rw [h.covers.atOnce]
  exact List.filter_sublist

/-- Where no tick collects a QoS 0 message: no two messages of QoS 0 that were forwarded are of one
entry. -/
theorem at_most_once (hS : S.IsMessageMap Valid view)
    (h : (system sending receiving S this Valid view).Reach
      (fun p a => Undisturbed this Valid view p a ∧ OnSender NoneOverdue p a) p) :
    ∃ es : List EntryRef, Forwarded this p es ∧ (es.filter (atQos p.sender 0)).Nodup := by
  have hinv : Linked this Valid view p ∧ PushedOnce p.sender := by
    refine h.invariant (I := fun p => Linked this Valid view p ∧ PushedOnce p.sender) ?_ ?_
    · rintro p hinit
      obtain ⟨isServer, now, hsender⟩ := hinit.1
      refine ⟨linked_initial hinit, fun e he => ?_, fun e now hmem => ?_⟩
      · rw [hsender] at he
        exact absurd he.1.1 (Nat.not_lt_zero e)
      · rw [hsender] at hmem
        exact absurd hmem (by simp [Solo.initial])
    · rintro p a p' ⟨hl, hpushed⟩ ⟨hok, hnone⟩ hstep
      obtain ⟨hlinked, -, hsender | ⟨t, rfl, -, -, hs⟩⟩ := linked_step hS hl hok hstep
      · rw [hsender]
        exact ⟨hlinked, hpushed⟩
      · exact ⟨hlinked, pushedOnce_step hl.sender.typed hpushed hnone hs⟩
  obtain ⟨hl, hpushed⟩ := hinv
  obtain ⟨refs, es, hes⟩ := hl.exists_origins
  have hpackets : ∀ e ∈ es, atQos p.sender 0 e = true →
      (p.sender.outbox.packet (p.sender.outbox.entry e).msg).details.qos = 0 ∧
        (p.sender.outbox.asRead (p.sender.outbox.entry e).msg).atOnce = true := by
    intro e he hqos
    have hpub := hes.forwarded.published e he
    have hkind := hl.sender.typed.heaps.published e hpub.1 hpub.2
    have hzero : (p.sender.outbox.packet (p.sender.outbox.entry e).msg).details.qos = 0 :=
      of_decide_eq_true hqos
    refine ⟨hzero, ?_⟩
    rw [Outbox.asRead, (ControlPacket.asRead_fields _).2.2.1,
      (ControlPacket.qos_of_kind hkind).2, hzero]
    decide
  refine ⟨es, hes.forwarded, List.nodup_iff_count_le_one.mpr fun e => ?_⟩
  by_cases he : e ∈ es.filter (atQos p.sender 0)
  · obtain ⟨hmem, hqos⟩ := List.mem_filter.mp he
    have hpub := hes.forwarded.published e hmem
    -- it was handled as often as it was written at most, and written as often as it was pushed
    have hforwarded := List.count_le_count_map (l := es.filter (atQos p.sender 0))
      (f := fun e => (p.sender.outbox.entry e).msg) (x := e)
    have hhandled := ((hes.sublist_of_atOnce fun e he h => (hpackets e he h).2).trans
      hes.sublist).count_le (p.sender.outbox.entry e).msg
    have hwritten := hl.sender.count_writtens_le hpub
    have honce := hpushed.once e ⟨hpub, (hpackets e hmem hqos).1⟩
    rw [List.count_reverse] at hhandled
    rw [Outbox.pushes] at honce
    omega
  · rw [List.count_eq_zero.mpr he]
    exact Nat.zero_le 1

/-! ## Exactly once -/

/-- A PUBREC is for a message that was in flight. -/
theorem Linked.prompt (h : Linked this Valid view p) {id : UInt16}
    (hout : .pubrec id ∈ p.receiver.outputs this) :
    Put p.read id ∧
      ∃ e, p.sender.outbox.Published e ∧ p.sender.outbox.Entered e ∧
        p.sender.outbox.msgId e = id := by
  rw [h.followed.outputs] at hout
  have hput := put_of_pubrec hout
  obtain ⟨m, hm, hqos, hid⟩ := hput
  obtain ⟨e, hl, hpub, heq⟩ := h.exists_entry_of_read hm
  have hin : (p.sender.outbox.packet (p.sender.outbox.entry e).msg).inQos2 = true := by
    rw [← (ControlPacket.asRead_fields _).2.1, ← Outbox.asRead, heq]
    exact decide_eq_true hqos
  refine ⟨put_of_pubrec hout, e, hpub, hl, ?_⟩
  rw [Outbox.msgId, ← ControlPacket.messageID_of_inQos2 hin, ← Outbox.asRead, heq]
  exact hid

theorem inStep_initial (h : (system sending receiving S this Valid view).init p) :
    InStep this Valid view p := by
  obtain ⟨isServer, now, hsender⟩ := h.1
  refine ⟨linked_initial h, ?_, ?_, fun r id _ hrel => ?_⟩
  · rw [hsender]
    exact (disciplined_initial isServer now).ceases
  · rw [hsender]
    exact (disciplined_initial isServer now).order
  · rw [hsender] at hrel
    exact absurd hrel.1 (Nat.not_lt_zero r)

theorem inStep_step (hS : S.IsMessageMap Valid view) {a : Action σ} (h : InStep this Valid view p)
    (hok : Undisturbed this Valid view p a) (hap : OnSender Apart p a)
    (hstep : Pair.step sending receiving S this a p = some p') : InStep this Valid view p' := by
  obtain ⟨hlinked, hkeeps, hsender | ⟨t, rfl, hown, -, hs⟩⟩ := linked_step hS h.toLinked hok hstep
  · refine ⟨hlinked, hsender ▸ h.ceases, hsender ▸ h.order, fun r id hr hrel => ?_⟩
    rw [hsender] at hr hrel
    exact hkeeps.outputs (h.replied r id hr hrel)
  · have hpubrec : ∀ id, .onPubrec id ∈ t.msgOp p.sender → .pubrec id ∈ p.receiver.outputs this :=
      fun id hop => (h.heard.onPubrec id (mem_ops_of_msgOp hop)).2.1 rfl
    have hprompt : Prompted p.sender t := by
      intro o hop id hid
      cases o with
      | onPubrec id' =>
        obtain rfl := Option.some.inj hid
        exact (h.prompt (hpubrec id' hop)).2
      | _ => exact absurd hid (by simp [MsgOp.answers])
    have hd := disciplined_step ⟨h.sender, h.ceases, h.order⟩ hown hap hprompt hs
    refine ⟨hlinked, hd.ceases, hd.order, fun r id hr hrel => hkeeps.outputs ?_⟩
    rcases issued_of_step h.sender.typed h.sender.ids h.sender.sources hown hs hr hrel with
      ⟨hr, hrel⟩ | hop
    · exact h.replied r id hr hrel
    · exact hpubrec id hop

/-- What was handled was in order. -/
theorem InStep.orderly (h : InStep this Valid view p) : Orderly p.read := by
  obtain ⟨refs, pending, hstream⟩ := h.stream
  have horder : p.sender.outbox.writtens.Pairwise fun q p' =>
      MayFollow (p.sender.outbox.packet q) (p.sender.outbox.packet p') :=
    h.order.sublist ((List.sublist_append_right _ _).trans h.sender.queued)
  have hrefs : Orderly (refs.map p.sender.outbox.asRead) := by
    rw [Orderly, List.filter_map, List.pairwise_map]
    refine (((List.pairwise_reverse.mpr horder).sublist hstream.sublist).sublist
      List.filter_sublist).imp_of_mem fun {r r'} hr hr' hfollow => ?_
    have hid : ∀ r ∈ refs.filter (inQos2 ∘ p.sender.outbox.asRead),
        (p.sender.outbox.asRead r).messageID = (p.sender.outbox.packet r).messageID := by
      intro r hr
      have hin := (List.mem_filter.mp hr).2
      rw [Function.comp_apply, Outbox.asRead, (ControlPacket.asRead_fields _).2.1] at hin
      exact ControlPacket.messageID_of_inQos2 hin
    rw [MayFollow, hid r hr, hid r' hr', Outbox.asRead, Outbox.asRead,
      (ControlPacket.asRead_fields _).1, (ControlPacket.asRead_fields _).1]
    exact hfollow
  rw [hstream.packets] at hrefs
  exact hrefs.left

/-- A PUBCOMP is for a message that was handled and released. -/
theorem InStep.released (h : InStep this Valid view p) {id : UInt16}
    (hout : .pubcomp id ∈ p.receiver.outputs this) : Released p.read id ∧ Put p.read id := by
  have hpubcomp := hout
  rw [h.followed.outputs] at hpubcomp
  have hreleased := released_of_pubcomp hpubcomp
  obtain ⟨m, hm, hid⟩ := hreleased
  -- the PUBREL was issued, so that there was a PUBREC
  obtain ⟨refs, pending, hstream⟩ := h.stream
  obtain ⟨r, hr, heq⟩ := hstream.exists_ref hm
  obtain ⟨c, hsent⟩ :=
    mem_sents (h.sender.queued.subset (List.mem_append_right _ (hstream.mem_writtens hr)))
  obtain ⟨hkind, hin, -⟩ := (p.sender.outbox.packet r).asRead_fields
  rw [← Outbox.asRead, heq] at hkind hin
  have hmsgId := ControlPacket.messageID_of_inQos2 hin.symm
  rw [← Outbox.asRead, heq] at hmsgId
  have hreleases : p.sender.outbox.Releases id r :=
    ⟨(h.sender.sources.sent c r hsent).1, hkind.symm, hmsgId.symm.trans hid⟩
  have hpubrec := h.replied r id (.sent hsent) hreleases
  exact ⟨⟨m, hm, hid⟩, (h.prompt hpubrec).1⟩

/-- Where the turns of the publishing session keep apart: no two QoS 2 messages that were forwarded
are of one entry, and the message of an entry that was taken out of flight for a PUBCOMP is of QoS 2
and was forwarded. -/
theorem exactly_once (hS : S.IsMessageMap Valid view)
    (h : (system sending receiving S this Valid view).Reach
      (fun p a => Undisturbed this Valid view p a ∧ OnSender Apart p a) p) :
    ∃ es : List EntryRef, Forwarded this p es ∧ (es.filter (atQos p.sender 2)).Nodup ∧
      ∀ e r id, p.sender.outbox.Published e → .removed e r id ∈ p.sender.outbox.log →
        (p.sender.outbox.packet r).kind = PacketType.pubcomp →
        e ∈ es.filter (atQos p.sender 2) := by
  have hl : InStep this Valid view p :=
    h.invariant (I := InStep this Valid view) (fun _ => inStep_initial) fun _ _ _ hl hok hstep =>
      inStep_step hS hl hok.1 hok.2 hstep
  obtain ⟨refs, es, hes⟩ := hl.exists_origins
  have hin : ∀ e ∈ es, (p.sender.outbox.asRead (p.sender.outbox.entry e).msg).inQos2 =
      atQos p.sender 2 e := by
    intro e he
    have hpub := hes.forwarded.published e he
    rw [Outbox.asRead, (ControlPacket.asRead_fields _).2.1]
    exact (ControlPacket.qos_of_kind (hl.sender.typed.heaps.published e hpub.1 hpub.2)).1
  have hids : qos2Ids p.sender.outbox.asRead (es.map fun e => (p.sender.outbox.entry e).msg) =
      (es.filter (atQos p.sender 2)).map p.sender.outbox.msgId := by
    rw [qos2Ids, List.filter_map, List.map_map]
    have hfilter : es.filter ((fun y => (p.sender.outbox.asRead y).inQos2) ∘
        fun e => (p.sender.outbox.entry e).msg) = es.filter (atQos p.sender 2) :=
      List.filter_congr hin
    rw [hfilter]
    refine List.map_congr_left fun e he => ?_
    obtain ⟨hmem, hqos⟩ := List.mem_filter.mp he
    rw [← hin e hmem, Outbox.asRead, (ControlPacket.asRead_fields _).2.1] at hqos
    exact ControlPacket.messageID_of_inQos2 hqos
  have honce := hes.eachOnce hl.orderly
  refine ⟨es, hes.forwarded, List.Nodup.of_map p.sender.outbox.msgId ?_, ?_⟩
  · rw [← hids]
    exact honce.nodup
  · intro e r id hpub hlog hkind
    have hnumbered : (p.sender.outbox.packet r).kind ∉ numbered := by
      rw [hkind]
      decide
    have hreply := ((hl.heard.removed e r id hlog).2 hnumbered).2.2 hkind
    obtain ⟨hreleased, hput⟩ := hl.released hreply
    have hmem := honce.complete id (hes.read ▸ hreleased) (hes.read ▸ hput)
    rw [hids] at hmem
    obtain ⟨e', he', hid'⟩ := List.mem_map.mp hmem
    have hmem' := List.mem_of_mem_filter he'
    have hentered : p.sender.outbox.Entered e := .inr ⟨_, hlog, decide_eq_true rfl⟩
    have hmsgId := hl.sender.sources.removed e r id hlog hpub
    obtain rfl := hl.unique hpub hentered (hes.forwarded.published e' hmem') (hes.entered e' hmem')
      (hmsgId.trans hid'.symm)
    exact he'

end Messages

/-! ## Runs -/

/-- Both ends, before anything is published. -/
def connectedPair : Pair PairStore :=
  { sender := Solo.initial true 0
    receiver := (Process.start {} PairStore.newStoreMgr fun _ => true).broker }

/-- The system that starts there. -/
noncomputable def pairSystem : StepSystem (Pair PairStore) (Action PairStore) :=
  system {} {} (PairStore.storeMgr default) 0 PairStore.Valid PairStore.msgs

theorem connectedPair_init : pairSystem.init connectedPair := by
  refine ⟨⟨true, 0, rfl⟩, rfl, rfl, ⟨PairStore.valid_newStoreMgr, rfl⟩, rfl, rfl, fun id => ?_⟩
  show (Finmap.lookup _ (∅ : Messages)).map Msg.content = none
  rw [Finmap.lookup_empty]
  rfl

section Checks

variable (P : Solo → Solo.Turn → Prop) [∀ s t, Decidable (P s t)]

/-- A check of `Undisturbed` and a condition on the turns, for a run without `other` steps. -/
def checkTurn (p : Pair PairStore) : Action PairStore → Bool
  | .sender t => decide (OwnIds p.sender t ∧
      (∀ r ∈ t.writes p.sender, (p.sender.outbox.asRead r).Encodable) ∧ P p.sender t)
  | .receive _ => true
  | .other _ _ => false

variable {P}

theorem of_checkTurn (p : Pair PairStore) (a : Action PairStore) (h : checkTurn P p a = true) :
    Undisturbed 0 PairStore.Valid PairStore.msgs p a ∧ OnSender P p a := by
  cases a with
  | sender t =>
    obtain ⟨hown, hencodable, hP⟩ := of_decide_eq_true (p := OwnIds p.sender t ∧
      (∀ r ∈ t.writes p.sender, (p.sender.outbox.asRead r).Encodable) ∧ P p.sender t) h
    exact ⟨⟨hown, hencodable⟩, hP⟩
  | receive order => exact ⟨trivial, trivial⟩
  | other b waiting => exact absurd h Bool.false_ne_true

end Checks

/-- After a CONNECT, a call of `Publish`, and the send loop writes what there is. -/
def publishTurns (qos : UInt8) : List Solo.Turn :=
  Solo.connecting ++ [.newPacket ⟨publishOf (str "x") (str "a") qos 0, rfl⟩, .publish 2] ++
    Solo.runs 4 13 ++ writeRound ++ writeRound

def receives (n : ℕ) : List (Action PairStore) := List.replicate n (.receive RangeOrder.ascending)

/-- A QoS 1 message is written twice, and read twice. -/
def pubackRun : List (Action PairStore) :=
  (publishTurns 1 ++ resendRound ++ writeRound).map .sender ++ receives 3 ++
    ([Solo.Turn.recvPacket (Solo.inboundPuback 1) true] ++ Solo.runs 0 4).map .sender

theorem at_least_once_twice : ∃ p : Pair PairStore,
    p.receiver.outputs 0 = [.forward (str "x") (str "a"), .forward (str "x") (str "a")] ∧
    ∃ es : List EntryRef, Forwarded 0 p es ∧ 0 ∈ es.filter (atQos p.sender 1) := by
  have hok : pairSystem.checkAll (checkTurn fun _ _ => True) pubackRun connectedPair = true := by
    decide +kernel
  have hend : (pairSystem.exec pubackRun connectedPair).any (fun p => decide
      (p.receiver.outputs 0 = [.forward (str "x") (str "a"), .forward (str "x") (str "a")] ∧
        (0 < p.sender.outbox.entries.next ∧ (p.sender.outbox.entry 0).published = true) ∧
        .removed 0 3 1 ∈ p.sender.outbox.log ∧
        (p.sender.outbox.packet 3).kind = PacketType.puback)) = true := by
    decide +kernel
  obtain ⟨p, hp, hc⟩ := StepSystem.exists_reach_of_any connectedPair_init
    (StepSystem.along_of_check (fun p a h => (of_checkTurn p a h).1) hok) hend
  obtain ⟨hout, hpub, hremoved, hkind⟩ := of_decide_eq_true hc
  obtain ⟨es, hes, hcomplete⟩ := at_least_once (PairStore.isMessageMap default) hp
  exact ⟨p, hout, es, hes, hcomplete 0 3 1 hpub hremoved hkind⟩

/-- A tick comes while a QoS 0 message is in flight, before `SentTimeout`; a QoS 1 message is
published behind it, and a later tick sends this one again. -/
def qos0Turns : List Solo.Turn :=
  Solo.connecting ++ [.newPacket ⟨publishOf (str "x") (str "a") 0 0, rfl⟩, .publish 2] ++
    Solo.runs 4 13 ++ [.elapse 4000000000, .tick false] ++ Solo.runs 2 8 ++
    [.newPacket ⟨publishOf (str "x") (str "b") 1 0, rfl⟩, .publish 3] ++ Solo.runs 5 13 ++
    writeRound ++ [.sendRound true] ++ Solo.runs 1 7 ++ writeRound ++ resendRound ++ writeRound

def qos0Run : List (Action PairStore) := qos0Turns.map .sender ++ receives 4

theorem at_most_once_run : ∃ p : Pair PairStore,
    p.receiver.outputs 0 = [.forward (str "x") (str "a"), .forward (str "x") (str "b"),
      .forward (str "x") (str "b")] ∧
    ∃ es : List EntryRef, Forwarded 0 p es ∧ (es.filter (atQos p.sender 0)).Nodup := by
  have hok : pairSystem.checkAll (checkTurn NoneOverdue) qos0Run connectedPair = true := by
    decide +kernel
  have hend : (pairSystem.exec qos0Run connectedPair).any (fun p => decide
      (p.receiver.outputs 0 = [.forward (str "x") (str "a"), .forward (str "x") (str "b"),
        .forward (str "x") (str "b")])) = true := by
    decide +kernel
  obtain ⟨p, hp, hc⟩ := StepSystem.exists_reach_of_any connectedPair_init
    (StepSystem.along_of_check of_checkTurn hok) hend
  exact ⟨p, of_decide_eq_true hc, at_most_once (PairStore.isMessageMap default) hp⟩

def pubrecTurns : List Solo.Turn :=
  [.recvPacket (Solo.inboundPubrec 1) true] ++ Solo.runs 0 5

def pubcompTurns : List Solo.Turn :=
  [.recvPacket (Solo.inboundPubcomp 1) true] ++ Solo.runs 0 5

/-- Both the PUBLISH and the PUBREL of a QoS 2 message are written twice. -/
def resentRun : List (Action PairStore) :=
  (publishTurns 2 ++ resendRound ++ writeRound).map .sender ++ receives 3 ++
    (pubrecTurns ++ writeRound ++ resendRound ++ writeRound).map .sender ++ receives 2 ++
    pubcompTurns.map .sender

theorem exactly_once_resent : ∃ p : Pair PairStore,
    p.receiver.outputs 0 = [.pubrec 1, .pubrec 1, .pubcomp 1, .forward (str "x") (str "a"),
      .pubcomp 1] ∧
    ∃ es : List EntryRef, Forwarded 0 p es ∧ (es.filter (atQos p.sender 2)).Nodup ∧
      0 ∈ es.filter (atQos p.sender 2) := by
  have hok : pairSystem.checkAll (checkTurn Apart) resentRun connectedPair = true := by
    decide +kernel
  have hend : (pairSystem.exec resentRun connectedPair).any (fun p => decide
      (p.receiver.outputs 0 = [.pubrec 1, .pubrec 1, .pubcomp 1, .forward (str "x") (str "a"),
        .pubcomp 1] ∧
        (0 < p.sender.outbox.entries.next ∧ (p.sender.outbox.entry 0).published = true) ∧
        .removed 0 5 1 ∈ p.sender.outbox.log ∧
        (p.sender.outbox.packet 5).kind = PacketType.pubcomp)) = true := by
    decide +kernel
  obtain ⟨p, hp, hc⟩ := StepSystem.exists_reach_of_any connectedPair_init
    (StepSystem.along_of_check of_checkTurn hok) hend
  obtain ⟨hout, hpub, hremoved, hkind⟩ := of_decide_eq_true hc
  obtain ⟨es, hes, hnodup, hcomplete⟩ := exactly_once (PairStore.isMessageMap default) hp
  exact ⟨p, hout, es, hes, hnodup, hcomplete 0 5 1 hpub hremoved hkind⟩

/-- A tick has the PUBLISH in hand when the PUBREC comes, and queues it after the PUBREL. -/
def overtakenTurns : List Solo.Turn :=
  [.elapse 10000000000, .tick false] ++ Solo.runs 2 5 ++ pubrecTurns ++ Solo.runs 2 6 ++
    writeRound ++ writeRound ++ resendRound ++ writeRound

def overtakenRun : List (Action PairStore) :=
  (publishTurns 2).map .sender ++ receives 2 ++ overtakenTurns.map .sender ++ receives 3

-- with all the conditions but `Apart`, the message is forwarded twice
example : pairSystem.checkAll (checkTurn fun _ _ => True) overtakenRun connectedPair = true ∧
    (pairSystem.exec overtakenRun connectedPair).any (fun p => decide
      ((p.receiver.outputs 0).count (.forward (str "x") (str "a")) = 2)) = true := by
  decide +kernel

end Delivery
end MqttBroker

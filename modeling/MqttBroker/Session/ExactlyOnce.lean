import MqttBroker.Lib.FirstSince
import MqttBroker.Session.Forwarding
import MqttBroker.Session.Frames
import MqttBroker.Store.MessageMap

/-!
# Inbound QoS 2

What a session replies to a sequence of PUBLISH (QoS 2) and PUBREL packets of its peer, and
what it forwards: a PUBREC or a PUBCOMP for each packet, and on a PUBREL the first message
that was published under its id since the last PUBREL with that id, if there is one. The
store has to be a map (`StoreMgr.IsMessageMap`), and the channel has to run.
-/

namespace MqttBroker

open Broker GoM Exec

variable {σ : Type} (cfg : Config) (S : StoreMgr σ)

/-! ## Replies and forwarded messages -/

/-- What a session does in the QoS 2 flow, as seen from outside. -/
inductive Output
  | pubrec (id : UInt16)
  | pubcomp (id : UInt16)
  | forward (topic payload : GoString)
deriving DecidableEq

/-- The part of an event in the QoS 2 flow of a session. -/
def Event.output (this : SessionRef) : Event → Option Output
  | .send s (.pubrec m) => if s = this then some (.pubrec m.messageID) else none
  | .send s (.pubcomp m) => if s = this then some (.pubcomp m.messageID) else none
  | .sendToSubcriber s (.publish p) =>
    if s = this then some (.forward p.topicName p.payload) else none
  | .callbackOnMessage s (.publish p) =>
    if s = this then some (.forward p.topicName p.payload) else none
  | _ => none

/-- The replies of a session and the messages it forwarded, so far. -/
def Broker.outputs (b : Broker σ) (this : SessionRef) : List Output :=
  b.trace.filterMap (Event.output this)

namespace ControlPacket

/-- The packets that take part in the flow. -/
def inQos2 : ControlPacket → Bool
  | publish p => p.header.qos = 2
  | pubrel _ => true
  | _ => false

/-- The topic and the payload of a PUBLISH with the given id. -/
def puts (id : UInt16) : ControlPacket → Option (GoString × GoString)
  | publish p => if p.messageID = id then some (p.topicName, p.payload) else none
  | _ => none

/-- A PUBREL with the given id. -/
def releases (id : UInt16) : ControlPacket → Bool
  | pubrel m => m.messageID = id
  | _ => false

end ControlPacket

/-- The message under an id after the packets `h`, when `earlier` was stored before them. -/
def heldAfter (earlier : UInt16 → Option (GoString × GoString)) (h : List ControlPacket)
    (id : UInt16) : Option (GoString × GoString) :=
  held (ControlPacket.puts id) (ControlPacket.releases id) (earlier id) h

/-- What is due for a packet that comes after the packets `h`. -/
def due (earlier : UInt16 → Option (GoString × GoString)) (h : List ControlPacket) :
    ControlPacket → List Output
  | .publish p => [.pubrec p.messageID]
  | .pubrel m => .pubcomp m.messageID ::
      ((heldAfter earlier h m.messageID).map fun c => .forward c.1 c.2).toList
  | _ => []

/-- What is due for the packets that come after the packets `h`. -/
def dueAll (earlier : UInt16 → Option (GoString × GoString)) (h : List ControlPacket) :
    List ControlPacket → List Output
  | [] => []
  | p :: ps => due earlier h p ++ dueAll earlier (h ++ [p]) ps

/-! ## The frame of forwarding -/

/-- The client, the role and whether the channel is stopped. -/
def Session.line (s : Session) : GoString × Bool × Bool :=
  (s.clientId, s.isServer, s.channel.isStoped)

/-- Nothing that the flow of a session depends on, and none of its outputs. -/
structure Calm (this : SessionRef) (b b' : Broker σ) : Prop where
  outputs : b'.outputs this = b.outputs this
  storeMgr : b'.storeMgr = b.storeMgr
  line : (b'.sessions this).line = (b.sessions this).line

/-- A run that is calm as long as `msg` is a PUBLISH, and leaves it one. -/
def Carries (this : SessionRef) (msg : PacketRef) (b b' : Broker σ) : Prop :=
  b.ValidMsg msg → Calm this b b' ∧ b'.ValidMsg msg

instance (this : SessionRef) (msg : PacketRef) : Std.Refl (Carries (σ := σ) this msg) :=
  ⟨fun _ h => ⟨⟨rfl, rfl, rfl⟩, h⟩⟩

instance (this : SessionRef) (msg : PacketRef) : IsTrans (Broker σ) (Carries this msg) where
  trans _ _ _ h h' hvalid := by
    obtain ⟨hcalm, hvalid'⟩ := h hvalid
    obtain ⟨hcalm', hvalid''⟩ := h' hvalid'
    exact ⟨⟨hcalm'.outputs.trans hcalm.outputs, hcalm'.storeMgr.trans hcalm.storeMgr,
      hcalm'.line.trans hcalm.line⟩, hvalid''⟩

section Frame

variable {this : SessionRef} {msg : PacketRef}

theorem line_setSession {f : Session → Session} (hf : ∀ s, (f s).line = s.line) (s : SessionRef)
    (b : Broker σ) : ((b.setSession s f).sessions this).line = (b.sessions this).line := by
  by_cases hs : this = s
  · rw [hs, setSession_self]
    exact hf _
  · rw [setSession_of_ne f b hs]

theorem outputs_append (b : Broker σ) (e : Event) :
    (b.trace ++ [e]).filterMap (Event.output this) =
      b.outputs this ++ (e.output this).toList := by
  rw [List.filterMap_append, outputs]
  cases h : e.output this with
  | none =>
    rw [List.filterMap_cons_none h]
    rfl
  | some o =>
    rw [List.filterMap_cons_some h]
    rfl

theorem modifySession_carries {s : SessionRef} {f : Session → Session}
    (hf : ∀ s, (f s).line = s.line) :
    Respects (Carries this msg) (modifySession s f : GoM σ Unit) :=
  Respects.modify fun b hvalid => ⟨⟨rfl, rfl, line_setSession hf s b⟩, hvalid⟩

theorem newPacket_carries (p : ControlPacket) :
    Respects (Carries this msg) (newPacket p : GoM σ PacketRef) := by
  refine Respects.modifyGet fun b hvalid => ⟨⟨rfl, rfl, rfl⟩, Nat.lt_succ_of_lt hvalid.1, ?_⟩
  have hcell := congrArg (fun p => (p.kind, p.type)) (Heap.alloc_of_lt p hvalid.1)
  exact hcell.trans hvalid.2

theorem modifyPacket_carries {r : PacketRef} {f : ControlPacket → ControlPacket}
    (hf : ∀ p, (f p).kind = p.kind ∧ (f p).type = p.type) :
    Respects (Carries this msg) (modifyPacket r f : GoM σ Unit) := by
  refine Respects.modify fun b hvalid => ⟨⟨rfl, rfl, rfl⟩, hvalid.1, ?_⟩
  rw [← hvalid.2, kindOf, kindOf]
  by_cases hr : msg = r
  · rw [hr, Heap.modify_self, (hf _).1, (hf _).2]
  · rw [Heap.modify_of_ne f b.packets hr]

theorem emit_carries {e : Event} (he : e.output this = none) :
    Respects (Carries this msg) (emit e : GoM σ Unit) := by
  refine Respects.modify fun b hvalid => ⟨⟨?_, rfl, rfl⟩, hvalid⟩
  show (b.trace ++ [e]).filterMap _ = _
  rw [outputs_append, he]
  exact List.append_nil _

/-- A queued PUBLISH is no reply. -/
theorem Channel.send_carries (s : SessionRef) :
    Respects (Carries this msg) (send s msg : GoM σ (Option GoError)) := by
  refine Respects.bind (Respects.gets _) fun ss => Respects.ite (Respects.pure _) ?_
  refine Respects.bind (modifySession_carries fun _ => rfl) fun _ => ?_
  refine Respects.bind_of (Respects.gets _) fun p b b' hp hvalid => ?_
  obtain ⟨rfl, rfl⟩ : b.packets.cells msg = p ∧ b = b' := pure_eq_ok hp
  obtain ⟨q, hq⟩ := hvalid.publish
  have hsend : Respects (Carries this msg) (emit (.send s (.publish q)) >>= fun _ => pure none :
      GoM σ (Option GoError)) :=
    Respects.bind (emit_carries rfl) fun _ => Respects.pure _
  rw [hq]
  exact hsend b hvalid

end Frame

namespace Session

variable {this : SessionRef} {msg : PacketRef}

/-- The operations of `Publish` are calm. -/
theorem publishing_carries (this : SessionRef) (msg : PacketRef) :
    Publishing msg (Carries (σ := σ) this msg) where
  queue _ _ hf _ := by
    refine modifySession_carries fun x => ?_
    have hline := congrArg line (hf x)
    exact hline
  newPacket := newPacket_carries
  number id := modifyPacket_carries (setMessageID_kind_type id)
  allocToken tType := by
    unfold allocToken
    split
    · exact Respects.pure _
    · exact Respects.modifyGet fun b hvalid => ⟨⟨rfl, rfl, rfl⟩, hvalid⟩
  publish _ _ _ := emit_carries rfl
  send := Channel.send_carries

end Session

/-! ## Forwarding -/

/-- A send on a full `peddingChan`. -/
def Fault.IsBlocked : Fault → Prop
  | .blocked _ _ => True
  | .panic _ => False

namespace Session

theorem publish_blocks (s : SessionRef) (msg : PacketRef) : FaultsIn Fault.IsBlocked
    (publish cfg s msg : GoM σ (Option TokenRef × Option GoError)) := by
  intro b e b' h
  obtain ⟨t, b₁, -, hrun⟩ := publish_run cfg s msg b
  rw [hrun] at h
  rw [(enqueue_error cfg h).1]
  trivial

theorem sendToSubcriberRound_blocks (this : SessionRef) (msg : PacketRef)
    (v : Σ _ : SessionRef, UInt8) :
    FaultsIn Fault.IsBlocked (sendToSubcriberRound cfg this msg v : GoM σ Bool) := by
  refine FaultsIn.bind (.gets _) fun s => .ite (.pure _) (.ite ?_ (.pure _))
  refine FaultsIn.bind (.gets _) fun p => ?_
  split
  · exact FaultsIn.bind (.modifyGet _) fun _ =>
      FaultsIn.bind (publish_blocks cfg v.1 msg) fun _ => .pure _
  · exact .pure _

theorem rounds_faultsIn {α : Type} {E : Fault → Prop} {round : α → GoM σ Bool}
    (h : ∀ a, FaultsIn E (round a)) (l : List α) : FaultsIn E (rounds round l) := by
  induction l with
  | nil => exact .pure ()
  | cons a l ih => exact FaultsIn.bind (h a) fun _ => .ite ih (.pure ())

theorem forward_blocks (order : SubscriberOrder) (this : SessionRef)
    (forwarded : Option PacketRef) :
    FaultsIn Fault.IsBlocked (forward cfg order this forwarded : GoM σ Unit) := by
  cases forwarded with
  | none => exact .pure ()
  | some msg =>
    refine FaultsIn.bind (.gets _) fun s => .ite ?_ ?_
    · refine FaultsIn.bind ?_ fun subs =>
        rounds_faultsIn (sendToSubcriberRound_blocks cfg this msg) subs
      exact FaultsIn.bind (.gets _) fun _ => FaultsIn.bind (.modify _) fun _ =>
        FaultsIn.bind (.gets _) fun _ => FaultsIn.bind (.modify _) fun _ => .pure _
    · exact FaultsIn.bind (.gets _) fun _ => .modify _

/-- A forwarded message is one output, whatever happens to it afterwards. -/
theorem forward_outputs (order : SubscriberOrder) (this : SessionRef) {msg : PacketRef}
    {p : PublishPacket} {b : Broker σ} (hvalid : b.ValidMsg msg)
    (hp : b.packets.cells msg = .publish p) :
    (forward cfg order this (some msg) b).2.outputs this =
        b.outputs this ++ [.forward p.topicName p.payload] ∧
      (forward cfg order this (some msg) b).2.storeMgr = b.storeMgr ∧
      ((forward cfg order this (some msg) b).2.sessions this).line =
        (b.sessions this).line := by
  have hout : (Event.sendToSubcriber this (.publish p)).output this =
      some (.forward p.topicName p.payload) := if_pos rfl
  have hcall : (Event.callbackOnMessage this (.publish p)).output this =
      some (.forward p.topicName p.payload) := if_pos rfl
  rw [forward, bind_run_ok (session_run this b)]
  split
  · have hrounds := rounds_respects ((publishing_carries this msg).sendToSubcriberRound cfg this)
      (order.toList (b.subscriptionMgr.getSessions p.topicName))
      { b with
        packets := b.packets.modify msg ControlPacket.clearRetain
        trace := b.trace ++ [.sendToSubcriber this (.publish p)] }
    have hclear : Respects (Carries this msg)
        (modifyPacket msg ControlPacket.clearRetain : GoM σ Unit) := by
      refine modifyPacket_carries fun q => ?_
      cases q with
      | _ => exact ⟨rfl, rfl⟩
    obtain ⟨hcalm, -⟩ := hrounds (hclear b hvalid).2
    rw [sendToSubcriber, bind_run_ok (sendToSubcriberStart_run order this hp)]
    refine ⟨hcalm.outputs.trans ?_, hcalm.storeMgr, hcalm.line⟩
    show (b.trace ++ [_]).filterMap _ = _
    rw [outputs_append, hout]
    rfl
  · rw [bind_run_ok (packet_run _ _), hp]
    refine ⟨?_, rfl, rfl⟩
    show (b.trace ++ [_]).filterMap _ = _
    rw [outputs_append, hcall]
    rfl

end Session

/-! ## The store and the history -/

/-- What the subscribers see of a message. -/
def Msg.content (msg : Msg) : GoString × GoString := (msg.topic, msg.body)

/-- The content of the message that is stored under an id of the client of a session. -/
def Broker.stored (view : σ → Messages) (this : SessionRef) (b : Broker σ) (id : UInt16) :
    Option (GoString × GoString) :=
  ((view b.storeMgr).lookup ((b.sessions this).clientId, id)).map Msg.content

/-- What a handler of the flow needs: a store in order and a running channel. -/
structure Ready (Valid : σ → Prop) (this : SessionRef) (b : Broker σ) : Prop where
  valid : Valid b.storeMgr
  running : (b.sessions this).channel.isStoped = false

/-- After the packets `h` the store has the messages that are held after them. -/
structure Tracks (Valid : σ → Prop) (view : σ → Messages) (this : SessionRef)
    (earlier : UInt16 → Option (GoString × GoString)) (h : List ControlPacket) (b : Broker σ) :
    Prop where
  ready : Ready Valid this b
  stored : ∀ id, b.stored view this id = heldAfter earlier h id

section Handlers

variable {S} {Valid : σ → Prop} {view : σ → Messages} {this : SessionRef} {b b' : Broker σ}

variable (view) in
theorem stored_congr (hview : view b'.storeMgr = view b.storeMgr)
    (hline : (b'.sessions this).line = (b.sessions this).line) (id : UInt16) :
    b'.stored view this id = b.stored view this id := by
  have hclient : (b'.sessions this).clientId = (b.sessions this).clientId :=
    congrArg Prod.fst hline
  rw [stored, stored, hview, hclient]

variable (view) in
theorem stored_withStore {s' : σ} (hview : view s' = view b.storeMgr) (id : UInt16) :
    ({ b with storeMgr := s' } : Broker σ).stored view this id = b.stored view this id := by
  rw [stored, stored, hview]

theorem Ready.congr (h : Ready Valid this b) (hvalid : Valid b'.storeMgr)
    (hline : (b'.sessions this).line = (b.sessions this).line) : Ready Valid this b' := by
  have hstoped : (b'.sessions this).channel.isStoped = (b.sessions this).channel.isStoped :=
    congrArg (fun l : GoString × Bool × Bool => l.2.2) hline
  exact ⟨hvalid, hstoped.trans h.running⟩

/-- A running channel queues a packet that is made for it. -/
theorem Channel.sendNew_run (p : ControlPacket)
    (h : (b.sessions this).channel.isStoped = false) : ∃ b' : Broker σ,
      Channel.sendNew this p b = (.ok none, b') ∧ b'.trace = b.trace ++ [.send this p] ∧
      b'.storeMgr = b.storeMgr ∧ (b'.sessions this).line = (b.sessions this).line := by
  rw [Channel.sendNew, bind_run_ok (newPacket_run p b),
    Channel.send_running _ (b := { b with packets := (b.packets.alloc p).2 }) h]
  refine ⟨_, rfl, ?_, rfl, line_setSession (f := Session.queueSend b.packets.next) (fun _ => rfl)
    this { b with packets := (b.packets.alloc p).2 }⟩
  exact congrArg (fun p => b.trace ++ [Event.send this p]) (Heap.alloc_self p b.packets)

namespace Session

theorem clearRetained_run (hS : S.IsMessageMap Valid view) (p : PublishPacket)
    (h : Valid b.storeMgr) : ∃ s', clearRetained S p b = (.ok none, { b with storeMgr := s' }) ∧
      Valid s' ∧ view s' = view b.storeMgr := by
  rw [clearRetained]
  split
  · obtain ⟨herr, hvalid, hview⟩ := hS.removeTopic b.storeMgr p.topicName h
    refine ⟨_, ?_, hvalid, hview⟩
    rw [bind_run_ok (callStore_run _ _)]
    rcases herr with herr | herr
    · rw [herr]
      rfl
    · rw [herr]
      rfl
  · exact ⟨b.storeMgr, rfl, h, rfl⟩

theorem saveRetained_run (hS : S.IsMessageMap Valid view) (smsg : Msg) (p : PublishPacket)
    (h : Valid b.storeMgr) : ∃ s',
      saveRetained S smsg p b = (.ok none, { b with storeMgr := s' }) ∧
      Valid s' ∧ view s' = view b.storeMgr := by
  rw [saveRetained]
  split
  · obtain ⟨herr, hvalid, hview⟩ := hS.saveRetain b.storeMgr smsg.topic smsg.body smsg.qos h
    refine ⟨_, ?_, hvalid, hview⟩
    rw [bind_run_ok (callStore_run _ _), herr]
    rfl
  · exact ⟨b.storeMgr, rfl, h, rfl⟩

/-- A QoS 2 PUBLISH is answered, forwarded to nobody, and stored unless something is. -/
theorem onPublish_qos2 (hS : S.IsMessageMap Valid view) (msg : PacketRef) {p : PublishPacket}
    (hqos : p.header.qos = 2) (h : Ready Valid this b) : ∃ err b',
      onPublish S this msg p b = (.ok { err }, b') ∧ Ready Valid this b' ∧
      b'.outputs this = b.outputs this ++ [.pubrec p.messageID] ∧
      ∀ id, b'.stored view this id =
        (b.stored view this id).or ((ControlPacket.publish p).puts id) := by
  obtain ⟨s₁, hclear, hvalid₁, hview₁⟩ := clearRetained_run hS p h.valid
  obtain ⟨b₂, hsend, htrace, hstore, hline⟩ := Channel.sendNew_run (b := { b with storeMgr := s₁ })
    (.pubrec { newPubrec with messageID := p.messageID }) h.running
  have hout : b₂.outputs this = b.outputs this ++ [.pubrec p.messageID] := by
    rw [outputs, htrace]
    show (b.trace ++ [_]).filterMap _ = _
    rw [outputs_append]
    exact congrArg (b.outputs this ++ Option.toList ·) (if_pos rfl)
  have hvalid₂ : Valid b₂.storeMgr := by
    rw [hstore]
    exact hvalid₁
  have hready₂ : Ready Valid this b₂ := h.congr hvalid₂ hline
  have hstored₂ : ∀ id, b₂.stored view this id = b.stored view this id := by
    refine fun id => stored_congr view (b := b) ?_ hline id
    rw [hstore]
    exact hview₁
  obtain ⟨hget, hgetValid, hgetView⟩ :=
    hS.get b₂.storeMgr (b₂.sessions this).clientId p.messageID hvalid₂
  have hrun : onPublish S this msg p b = onPublishQos2 S this p { b with storeMgr := s₁ } := by
    rw [onPublish, bind_run_ok hclear]
    simp only [hqos]
  rw [hrun, onPublishQos2, bind_run_ok hsend, bind_run_ok (session_run _ _),
    bind_run_ok (callStore_run _ _), hget]
  cases hlookup : (view b₂.storeMgr).lookup ((b₂.sessions this).clientId, p.messageID) with
  | some smsg =>
    -- a message is stored already: the PUBLISH is a duplicate
    refine ⟨none, _, rfl, hready₂.congr hgetValid rfl, hout, fun id => ?_⟩
    rw [stored_withStore view hgetView id, ← hstored₂, ControlPacket.puts]
    by_cases hid : p.messageID = id
    · have hsome : b₂.stored view this id = some smsg.content := by
        rw [← hid, stored, hlookup]
        rfl
      rw [hsome]
      rfl
    · rw [if_neg hid, Option.or_none]
  | none =>
    obtain ⟨herr, hsaveValid, sid, hsaveView⟩ := hS.save _
      (storedMsg (b₂.sessions this).clientId p) hgetValid (hgetView ▸ hlookup)
    obtain ⟨s₃, hretain, hvalid₃, hview₃⟩ := saveRetained_run hS
      (storedMsg (b₂.sessions this).clientId p) p (b := { b₂ with storeMgr :=
        (S.saveByClientIdMsgId (storedMsg (b₂.sessions this).clientId p)
          (S.getMsgByClientIdMsgId (b₂.sessions this).clientId p.messageID b₂.storeMgr).2).2 })
      hsaveValid
    simp only [found, if_true]
    rw [bind_run_ok (callStore_run _ _), herr]
    refine ⟨none, _, bind_run_ok hretain, hready₂.congr hvalid₃ rfl, hout, fun id => ?_⟩
    rw [← hstored₂, ControlPacket.puts]
    have hview : view s₃ = _ := (hview₃.trans hsaveView).trans (by rw [hgetView])
    show ((view s₃).lookup ((b₂.sessions this).clientId, id)).map Msg.content = _
    rw [hview]
    by_cases hid : p.messageID = id
    · have hnone : b₂.stored view this id = none := by
        rw [← hid, stored, hlookup]
        rfl
      have hkey : (storedMsg (b₂.sessions this).clientId p).key =
        ((b₂.sessions this).clientId, p.messageID) := rfl
      rw [hnone, if_pos hid, ← hid, hkey, Finmap.lookup_insert]
      rfl
    · have hne : ((b₂.sessions this).clientId, id) ≠
          (storedMsg (b₂.sessions this).clientId p).key :=
        fun h => hid (congrArg Prod.snd h).symm
      rw [if_neg hid, Option.or_none]
      exact congrArg (Option.map Msg.content) (Finmap.lookup_insert_of_ne _ hne)

/-- A PUBREL is answered; the message under its id, if there is one, is taken out of the
store and forwarded as a PUBLISH of its own. -/
theorem onPubrel_qos2 (hS : S.IsMessageMap Valid view) (m : IdPacket) (h : Ready Valid this b) :
    ∃ handled b', onPubrel S this m b = (.ok handled, b') ∧ Ready Valid this b' ∧
      b'.outputs this = b.outputs this ++ [.pubcomp m.messageID] ∧
      (∀ id, b'.stored view this id =
        if m.messageID = id then none else b.stored view this id) ∧
      (handled.forwarded = none ∧ b.stored view this m.messageID = none ∨
        ∃ r q, handled.forwarded = some r ∧ b'.ValidMsg r ∧ b'.packets.cells r = .publish q ∧
          b.stored view this m.messageID = some (q.topicName, q.payload)) := by
  obtain ⟨b₁, hsend, htrace, hstore, hline⟩ := Channel.sendNew_run
    (.pubcomp { newPubcomp with messageID := m.messageID }) h.running
  have hout : b₁.outputs this = b.outputs this ++ [.pubcomp m.messageID] := by
    rw [outputs, htrace, outputs_append]
    exact congrArg (b.outputs this ++ Option.toList ·) (if_pos rfl)
  have hvalid₁ : Valid b₁.storeMgr := by
    rw [hstore]
    exact h.valid
  have hready₁ : Ready Valid this b₁ := h.congr hvalid₁ hline
  have hstored₁ : ∀ id, b₁.stored view this id = b.stored view this id :=
    stored_congr view (by rw [hstore]) hline
  obtain ⟨hget, hgetValid, hgetView⟩ :=
    hS.get b₁.storeMgr (b₁.sessions this).clientId m.messageID hvalid₁
  rw [onPubrel, bind_run_ok hsend, bind_run_ok (session_run _ _),
    bind_run_ok (callStore_run _ _), hget]
  cases hlookup : (view b₁.storeMgr).lookup ((b₁.sessions this).clientId, m.messageID) with
  | none =>
    have hnone : b.stored view this m.messageID = none := by
      rw [← hstored₁, stored, hlookup]
      rfl
    refine ⟨{}, _, rfl, hready₁.congr hgetValid rfl, hout, fun id => ?_, .inl ⟨rfl, hnone⟩⟩
    rw [stored_withStore view hgetView id, hstored₁]
    split
    · rename_i hid
      rw [← hid]
      exact hnone
    · rfl
  | some smsg =>
    obtain ⟨hremoveValid, hremoveView⟩ := hS.remove _ _ _ hgetValid (hgetView ▸ hlookup)
    have hsome : b.stored view this m.messageID = some smsg.content := by
      rw [← hstored₁, stored, hlookup]
      rfl
    simp only [found]
    rw [bind_run_ok (callStore_run _ _), bind_run_ok (newPacket_run _ _)]
    refine ⟨_, _, rfl, hready₁.congr hremoveValid rfl, hout, fun id => ?_,
      .inr ⟨_, _, rfl, newPacket_validMsg rfl rfl (newPacket_run _ _), Heap.alloc_self .., hsome⟩⟩
    show ((view (S.removeMsgById smsg.id _).2).lookup ((b₁.sessions this).clientId, id)).map
      Msg.content = _
    rw [hremoveView, hgetView]
    by_cases hid : m.messageID = id
    · rw [if_pos hid, ← hid, Finmap.lookup_erase]
      rfl
    · have hne : ((b₁.sessions this).clientId, id) ≠ ((b₁.sessions this).clientId, m.messageID) :=
        fun h => hid (congrArg Prod.snd h).symm
      rw [if_neg hid, ← hstored₁, Finmap.lookup_erase_ne hne]
      rfl

end Session

end Handlers

/-! ## Runs -/

namespace Session

/-- The handler of one packet, with the forwarding at its end. -/
def handleMsg (order : SubscriberOrder) (this : SessionRef) (p : ControlPacket) : GoM σ Unit := do
  let msg ← newPacket p
  let handled ← procFrontRemoteMsg cfg S this msg p
  forward cfg order this handled.forwarded

/-- The handlers of one packet after another, each with an order of its subscribers. -/
def handleMsgs (this : SessionRef) : List (ControlPacket × SubscriberOrder) → GoM σ Unit
  | [] => pure ()
  | (p, order) :: ps => do
    handleMsg cfg S order this p
    handleMsgs this ps

/-- `RecvMsg` is the handler when the session is running. -/
theorem recvMsg_of_running (order : SubscriberOrder) {this : SessionRef} (p : ControlPacket)
    {b : Broker σ} (h : (b.sessions this).clostep = .running) :
    recvMsg cfg S order this p b = handleMsg cfg S order this p b := by
  rw [recvMsg, bind_run_ok (session_run this b), if_neg (not_not.mpr h)]
  rfl

variable {S} {Valid : σ → Prop} {view : σ → Messages} {this : SessionRef}
  {earlier : UInt16 → Option (GoString × GoString)} {h : List ControlPacket}

/-- One packet: the store follows the history, and what is due is done, even when the call
of a subscriber's `Publish` blocks in the end. -/
theorem handleMsg_tracks (hS : S.IsMessageMap Valid view) (order : SubscriberOrder)
    {p : ControlPacket} (hp : p.inQos2 = true) {b : Broker σ}
    (ht : Tracks Valid view this earlier h b) :
    Tracks Valid view this earlier (h ++ [p]) (handleMsg cfg S order this p b).2 ∧
      (handleMsg cfg S order this p b).2.outputs this = b.outputs this ++ due earlier h p ∧
      ∀ e, (handleMsg cfg S order this p b).1 = .error e → e.IsBlocked := by
  have hready : Ready Valid this { b with packets := (b.packets.alloc p).2 } :=
    ht.ready.congr ht.ready.valid rfl
  cases p with
  | publish p =>
    obtain ⟨err, b₁, hrun, hready₁, hout, hstored⟩ :=
      onPublish_qos2 hS b.packets.next (of_decide_eq_true hp) hready
    have hmsg : handleMsg cfg S order this (.publish p) b = (.ok (), b₁) := by
      rw [handleMsg, bind_run_ok (newPacket_run _ b), procFrontRemoteMsg, bind_run_ok hrun]
      rfl
    rw [hmsg]
    refine ⟨⟨hready₁, fun id => ?_⟩, hout, fun e he => absurd he (by simp)⟩
    rw [hstored, heldAfter, held_append rfl]
    exact congrArg (Option.or · _) (ht.stored id)
  | pubrel m =>
    obtain ⟨handled, b₁, hrun, hready₁, hout, hstored, hforward⟩ := onPubrel_qos2 hS m hready
    have hmsg : handleMsg cfg S order this (.pubrel m) b =
        forward cfg order this handled.forwarded b₁ := by
      rw [handleMsg, bind_run_ok (newPacket_run _ b), procFrontRemoteMsg, bind_run_ok hrun]
    have hheld : ∀ id, b₁.stored view this id =
        heldAfter earlier (h ++ [.pubrel m]) id := by
      intro id
      have hreleases : (ControlPacket.pubrel m).releases id = decide (m.messageID = id) := rfl
      have hputs : (ControlPacket.pubrel m).puts id = none := rfl
      rw [hstored, heldAfter]
      by_cases hid : m.messageID = id
      · rw [if_pos hid, held_append_of_releases (hreleases.trans (decide_eq_true hid))]
      · rw [if_neg hid, held_append (hreleases.trans (decide_eq_false hid)), hputs,
          Option.or_none]
        exact ht.stored id
    have hblocks := forward_blocks (σ := σ) cfg order this handled.forwarded b₁
    rw [hmsg]
    rcases hforward with ⟨hnone, hstored₀⟩ | ⟨r, q, hsome, hvalid, hq, hstored₀⟩
    · have hdue : due earlier h (.pubrel m) = [.pubcomp m.messageID] := by
        rw [due, ← ht.stored]
        exact congrArg (fun c => _ :: Option.toList (Option.map _ c)) hstored₀
      rw [hnone, hdue]
      exact ⟨⟨hready₁, hheld⟩, hout, fun e he => absurd he (by simp [forward])⟩
    · have hdue : due earlier h (.pubrel m) =
          [.pubcomp m.messageID, .forward q.topicName q.payload] := by
        rw [due, ← ht.stored]
        exact congrArg (fun c => _ :: Option.toList (Option.map _ c)) hstored₀
      rw [hsome] at hblocks ⊢
      obtain ⟨hfout, hfstore, hfline⟩ := forward_outputs cfg order this hvalid hq
      refine ⟨⟨hready₁.congr (hfstore ▸ hready₁.valid) hfline, fun id => ?_⟩, ?_, fun e he => ?_⟩
      · rw [stored_congr view (congrArg view hfstore) hfline]
        exact hheld id
      · rw [hfout, hout, hdue, List.append_assoc]
        rfl
      · exact hblocks e _ (Prod.ext he rfl)
  | _ => exact absurd hp (by simp [ControlPacket.inQos2])

/-- By induction over the packets: what was done is what was due for the packets that were
handled, which are all of them unless a call of `Publish` blocks. -/
theorem handleMsgs_outputs (hS : S.IsMessageMap Valid view)
    (ps : List (ControlPacket × SubscriberOrder)) :
    ∀ {b : Broker σ} {h : List ControlPacket}, (∀ p ∈ ps.map Prod.fst, p.inQos2 = true) →
      Tracks Valid view this earlier h b → ∃ handled, handled <+: ps.map Prod.fst ∧
        (handleMsgs cfg S this ps b).2.outputs this =
          b.outputs this ++ dueAll earlier h handled ∧
        ((handleMsgs cfg S this ps b).1 = .ok () ∧ handled = ps.map Prod.fst ∨
          ∃ s pt, (handleMsgs cfg S this ps b).1 = .error (.blocked s pt)) := by
  induction ps with
  | nil =>
    intro b h _ _
    exact ⟨[], List.prefix_refl _, (List.append_nil _).symm, .inl ⟨rfl, rfl⟩⟩
  | cons pp ps ih =>
    obtain ⟨p, order⟩ := pp
    intro b h hps ht
    obtain ⟨ht₁, hout, hblocks⟩ := handleMsg_tracks cfg hS order (hps p List.mem_cons_self) ht
    rw [handleMsgs]
    rcases hr : handleMsg cfg S order this p b with ⟨e | u, b₁⟩
    · -- the packet is handled, and the rest of the packets waits
      rw [hr] at hout hblocks
      rw [bind_run_error hr]
      refine ⟨[p], List.prefix_append [p] _, ?_, .inr ?_⟩
      · rw [hout, dueAll, dueAll, List.append_nil]
      · have he := hblocks e rfl
        cases e with
        | panic _ => exact he.elim
        | blocked s pt => exact ⟨s, pt, rfl⟩
    · rw [hr] at ht₁ hout
      rw [bind_run_ok hr]
      obtain ⟨handled, hpre, houts, hend⟩ :=
        ih (fun q hq => hps q (List.mem_cons_of_mem p hq)) ht₁
      refine ⟨p :: handled, (List.prefix_cons_inj p).mpr hpre, ?_, ?_⟩
      · rw [houts, hout, dueAll, List.append_assoc]
      · rcases hend with ⟨hok, hall⟩ | hblocked
        · exact .inl ⟨hok, congrArg (p :: ·) hall⟩
        · exact .inr hblocked

variable (this) in
/-- Over a store that is a map and a running channel, a session replies to any QoS 2 packets
and forwards exactly what is due by their history. -/
theorem qos2_exactly_once (hS : S.IsMessageMap Valid view) {b : Broker σ}
    (hvalid : Valid b.storeMgr) (hrunning : (b.sessions this).channel.isStoped = false)
    (ps : List (ControlPacket × SubscriberOrder))
    (hps : ∀ p ∈ ps.map Prod.fst, p.inQos2 = true) :
    ∃ handled, handled <+: ps.map Prod.fst ∧
      (handleMsgs cfg S this ps b).2.outputs this =
        b.outputs this ++ dueAll (b.stored view this) [] handled ∧
      ((handleMsgs cfg S this ps b).1 = .ok () ∧ handled = ps.map Prod.fst ∨
        ∃ s pt, (handleMsgs cfg S this ps b).1 = .error (.blocked s pt)) := by
  have htracks : Tracks Valid view this (b.stored view this) [] b := by
    refine ⟨⟨hvalid, hrunning⟩, fun id => ?_⟩
    rw [heldAfter, held_nil]
  exact handleMsgs_outputs cfg hS ps hps htracks

/-- A PUBLISH, its duplicate with another payload, two PUBREL, and the id once more. -/
def duplicatesRun : List (ControlPacket × SubscriberOrder) :=
  [publishOf (str "x") (str "a") 2 1, publishOf (str "x") (str "b") 2 1,
    .pubrel { newPubrel with messageID := 1 }, .pubrel { newPubrel with messageID := 1 },
    publishOf (str "x") (str "c") 2 1, .pubrel { newPubrel with messageID := 1 }].map
      fun p => (p, RangeOrder.ascending)

theorem qos2_exactly_once_duplicates :
    (handleMsgs {} (PairStore.storeMgr default) 0 duplicatesRun
      (Process.start {} PairStore.newStoreMgr fun _ => true).broker).2.outputs 0 =
    [.pubrec 1, .pubrec 1, .pubcomp 1, .forward (str "x") (str "a"), .pubcomp 1, .pubrec 1,
      .pubcomp 1, .forward (str "x") (str "c")] := by
  obtain ⟨handled, -, hout, hend⟩ := qos2_exactly_once {} 0 (PairStore.isMessageMap default)
    (b := (Process.start {} PairStore.newStoreMgr fun _ => true).broker)
    PairStore.valid_newStoreMgr rfl duplicatesRun (by decide)
  have hok : (handleMsgs {} (PairStore.storeMgr default) 0 duplicatesRun
      (Process.start {} PairStore.newStoreMgr fun _ => true).broker).1 = .ok () := by
    decide +kernel
  have hall : handled = duplicatesRun.map Prod.fst := by
    rcases hend with ⟨-, hall⟩ | ⟨s, pt, he⟩
    · exact hall
    · exact absurd (hok.symm.trans he) (by simp)
  rw [hout, hall]
  decide +kernel

end Session
end MqttBroker

import MqttBroker.Session.Forwarding
import MqttBroker.Session.Frames

/-!
# What the handlers of requests do

One lemma for each handler that answers its peer: the packets it queues, the calls it makes
of the store, and what it returns. The store may be any implementation; `publishOutcome` is
what `onPublish` makes of the results of its calls.
-/

namespace MqttBroker

open Broker GoM Exec

variable {σ : Type} (S : StoreMgr σ)

/-! ## Queueing a reply -/

/-- Between `b` and `b'`, `Channel.Send` was called on `this` with the packets `ps`. -/
structure Sends (this : SessionRef) (ps : List ControlPacket) (b b' : Broker σ) : Prop where
  queues : Queues this b b'
  isStoped : (b'.sessions this).channel.isStoped = (b.sessions this).channel.isStoped
  trace : b'.trace =
    b.trace ++ if (b.sessions this).channel.isStoped then [] else ps.map (Event.send this)

namespace Sends

variable {this : SessionRef} {ps : List ControlPacket} {b b' : Broker σ}

theorem nil (b : Broker σ) : Sends this [] b b :=
  ⟨Queues.refl b, rfl, by simp⟩

/-- Calls of the store come in between. -/
theorem withStore (h : Sends this ps b b') (s : σ) :
    Sends this ps { b with storeMgr := s } { b' with storeMgr := s } :=
  ⟨{ h.queues with storeMgr := rfl }, h.isStoped, h.trace⟩

theorem clientId (h : Sends this ps b b') :
    (b'.sessions this).clientId = (b.sessions this).clientId :=
  congrArg Prod.fst h.queues.gate

theorem newPacket (h : Sends this ps b b') (p : ControlPacket) :
    Sends this ps b { b' with packets := (b'.packets.alloc p).2 } :=
  ⟨h.queues.trans (newPacket_queues p b'), h.isStoped, h.trace⟩

/-- A PUBLISH that exists stays one. -/
theorem validMsg (h : Sends this ps b b') {r : PacketRef} (hr : b.ValidMsg r) : b'.ValidMsg r := by
  refine ⟨lt_of_lt_of_le hr.1 h.queues.packets_next, ?_⟩
  rw [← hr.2, kindOf, kindOf, h.queues.cells r hr.1]

end Sends

theorem Channel.sendNew_sends (this : SessionRef) (p : ControlPacket) (b : Broker σ) :
    ∃ b', Channel.sendNew this p b = (.ok none, b') ∧ Sends this [p] b b' := by
  have hqueues := Channel.sendNew_queues this p b
  rw [Channel.sendNew, bind_run_ok (newPacket_run p b), Channel.send,
    bind_run_ok (session_run _ _)] at hqueues ⊢
  by_cases hstoped : (b.sessions this).channel.isStoped = true
  · rw [if_pos hstoped] at hqueues ⊢
    refine ⟨_, rfl, hqueues, rfl, ?_⟩
    rw [if_pos hstoped]
    exact (List.append_nil _).symm
  · rw [if_neg hstoped, bind_run_ok (modifySession_run _ _ _), bind_run_ok (packet_run _ _),
      bind_run_ok (emit_run _ _)] at hqueues ⊢
    refine ⟨_, rfl, hqueues, ?_, ?_⟩
    · exact congrArg (fun s => s.channel.isStoped) (setSession_self this
        (Session.queueSend b.packets.next) { b with packets := (b.packets.alloc p).2 })
    · rw [if_neg hstoped]
      exact congrArg (fun p => b.trace ++ [Event.send this p]) (Heap.alloc_self p b.packets)

namespace Session

/-! ## The calls of `onPublish` -/

/-- The call that clears a retained message, if there is one: the error with which
`onPublish` returns, and the store. -/
def clearCall (p : PublishPacket) (s : σ) : Option GoError × σ :=
  if p.payload.length = 0 ∧ p.header.retain then
    let r := S.removeMsgByTopic p.topicName s
    (if r.1 = some (.store .errNoExsit) then none else r.1, r.2)
  else (none, s)

/-- The call that keeps a retained message, if there is one. -/
def retainCall (p : PublishPacket) (s : σ) : Option GoError × σ :=
  if p.header.retain ∧ 0 < p.payload.length then
    S.saveRetainMsg p.topicName p.payload p.header.qos s
  else (none, s)

/-- What `onPublish` does: the packet it answers with, the error it returns, whether it
forwards the message, and the store after its calls. -/
structure Outcome (σ : Type) where
  ack : Option ControlPacket := none
  err : Option GoError := none
  forwards : Bool := false
  store : σ

/-- The error with which `onPublish` reports that of a save. -/
def refused (err : Option GoError) : Option GoError :=
  if err.isSome then connErrors errRefusedServerUnavailable else none

def qos0Outcome (p : PublishPacket) (s : σ) : Outcome σ :=
  if p.header.retain ∧ 0 < p.payload.length then
    let r := S.saveRetainMsg p.topicName p.payload p.header.qos
      (S.removeMsgByTopic p.topicName s).2
    { err := r.1, forwards := true, store := r.2 }
  else { forwards := true, store := s }

def qos1Outcome (p : PublishPacket) (s : σ) : Outcome σ :=
  let r := retainCall S p s
  { ack := some (.puback { newPuback with messageID := p.messageID })
    err := refused r.1
    forwards := r.1.isNone
    store := r.2 }

def qos2Outcome (clientId : GoString) (p : PublishPacket) (s : σ) : Outcome σ :=
  let ack := some (.pubrec { newPubrec with messageID := p.messageID })
  let r := S.getMsgByClientIdMsgId clientId p.messageID s
  match r.1 with
  | .ok _ => { ack, store := r.2 }
  | .error err =>
    if err = .store .errNoExsit then
      let r := S.saveByClientIdMsgId (storedMsg clientId p) r.2
      match r.1 with
      | some _ => { ack, err := connErrors errRefusedServerUnavailable, store := r.2 }
      | none =>
        let r := retainCall S p r.2
        { ack, err := refused r.1, store := r.2 }
    else { ack, err := some err, store := r.2 }

/-- What `onPublish` does on a session of the given client. -/
def publishOutcome (clientId : GoString) (p : PublishPacket) (s : σ) : Outcome σ :=
  let r := clearCall S p s
  match r.1 with
  | some err => { err := some err, store := r.2 }
  | none =>
    match p.header.qos with
    | 0 => qos0Outcome S p r.2
    | 1 => qos1Outcome S p r.2
    | 2 => qos2Outcome S clientId p r.2
    | _ => { store := r.2 }

/-- The values that `onPublish` returns. -/
def Outcome.handled (o : Outcome σ) (msg : PacketRef) : Handled :=
  { err := o.err, forwarded := if o.forwards then some msg else none }

variable {S} {this : SessionRef} {msg : PacketRef} {p : PublishPacket} {b : Broker σ}

/-- A QoS 2 PUBLISH is acknowledged, and not forwarded before its PUBREL. -/
theorem qos2Outcome_ack (clientId : GoString) (p : PublishPacket) (s : σ) :
    (qos2Outcome S clientId p s).ack =
        some (.pubrec { newPubrec with messageID := p.messageID }) ∧
      (qos2Outcome S clientId p s).forwards = false := by
  rw [qos2Outcome]
  cases (S.getMsgByClientIdMsgId clientId p.messageID s).1 with
  | ok _ => exact ⟨rfl, rfl⟩
  | error err =>
    by_cases hnone : err = .store .errNoExsit
    · simp only [if_pos hnone]
      cases (S.saveByClientIdMsgId (storedMsg clientId p)
        (S.getMsgByClientIdMsgId clientId p.messageID s).2).1 with
      | none => exact ⟨rfl, rfl⟩
      | some _ => exact ⟨rfl, rfl⟩
    · simp only [if_neg hnone, and_self]

theorem clearRetained_calls (p : PublishPacket) (b : Broker σ) : clearRetained S p b =
    (.ok (clearCall S p b.storeMgr).1, { b with storeMgr := (clearCall S p b.storeMgr).2 }) := by
  rw [clearRetained, clearCall]
  split
  · rw [bind_run_ok (callStore_run _ _)]
    split
    · next h => simp [h]
    · next h => simp [h]
  · rfl

theorem saveRetained_calls (clientId : GoString) (p : PublishPacket) (b : Broker σ) :
    saveRetained S (storedMsg clientId p) p b =
      (.ok (refused (retainCall S p b.storeMgr).1),
        { b with storeMgr := (retainCall S p b.storeMgr).2 }) := by
  rw [saveRetained, retainCall]
  split
  · have hcall : callStore (S.saveRetainMsg (storedMsg clientId p).topic (storedMsg clientId p).body
        (storedMsg clientId p).qos) b =
        (.ok (S.saveRetainMsg p.topicName p.payload p.header.qos b.storeMgr).1, { b with
          storeMgr := (S.saveRetainMsg p.topicName p.payload p.header.qos b.storeMgr).2 }) :=
      callStore_run _ _
    rw [bind_run_ok hcall]
    cases (S.saveRetainMsg p.topicName p.payload p.header.qos b.storeMgr).1 with
    | none => rfl
    | some _ => rfl
  · rfl

theorem onPublishQos0_run (this : SessionRef) (msg : PacketRef) (p : PublishPacket)
    (b : Broker σ) : ∃ b',
      onPublishQos0 S msg p b = (.ok ((qos0Outcome S p b.storeMgr).handled msg), b') ∧
      Sends this (qos0Outcome S p b.storeMgr).ack.toList
        { b with storeMgr := (qos0Outcome S p b.storeMgr).store } b' := by
  rw [onPublishQos0, qos0Outcome]
  split
  · rw [bind_run_ok (callStore_run _ _), bind_run_ok (callStore_run _ _)]
    exact ⟨_, rfl, Sends.nil _⟩
  · exact ⟨_, rfl, Sends.nil _⟩

theorem onPublishQos1_run (this : SessionRef) (msg : PacketRef) (p : PublishPacket)
    (b : Broker σ) : ∃ b',
      onPublishQos1 S this msg p b = (.ok ((qos1Outcome S p b.storeMgr).handled msg), b') ∧
      Sends this (qos1Outcome S p b.storeMgr).ack.toList
        { b with storeMgr := (qos1Outcome S p b.storeMgr).store } b' := by
  obtain ⟨b₁, hsend, hsends⟩ :=
    Channel.sendNew_sends this (.puback { newPuback with messageID := p.messageID }) b
  rw [onPublishQos1, bind_run_ok hsend, bind_run_ok (session_run _ _),
    bind_run_ok (saveRetained_calls _ p b₁), hsends.queues.storeMgr, qos1Outcome]
  cases hr : (retainCall S p b.storeMgr).1 with
  | none => exact ⟨_, rfl, hsends.withStore _⟩
  | some err => exact ⟨_, rfl, hsends.withStore _⟩

theorem onPublishQos2_run (this : SessionRef) (msg : PacketRef) (p : PublishPacket)
    (b : Broker σ) : ∃ b', onPublishQos2 S this p b =
        (.ok ((qos2Outcome S (b.sessions this).clientId p b.storeMgr).handled msg), b') ∧
      Sends this (qos2Outcome S (b.sessions this).clientId p b.storeMgr).ack.toList
        { b with storeMgr := (qos2Outcome S (b.sessions this).clientId p b.storeMgr).store }
        b' := by
  obtain ⟨b₁, hsend, hsends⟩ :=
    Channel.sendNew_sends this (.pubrec { newPubrec with messageID := p.messageID }) b
  rw [onPublishQos2, bind_run_ok hsend, bind_run_ok (session_run _ _), hsends.clientId,
    bind_run_ok (callStore_run _ _), hsends.queues.storeMgr, qos2Outcome]
  cases hget : (S.getMsgByClientIdMsgId (b.sessions this).clientId p.messageID b.storeMgr).1 with
  | ok _ => exact ⟨_, rfl, hsends.withStore _⟩
  | error err =>
    by_cases hnone : err = .store .errNoExsit
    · simp only [if_pos hnone]
      rw [bind_run_ok (callStore_run _ _)]
      cases hsave : (S.saveByClientIdMsgId (storedMsg (b.sessions this).clientId p)
          (S.getMsgByClientIdMsgId (b.sessions this).clientId p.messageID b.storeMgr).2).1 with
      | some _ => exact ⟨_, rfl, hsends.withStore _⟩
      | none =>
        simp only []
        rw [bind_run_ok (saveRetained_calls _ p _)]
        exact ⟨_, rfl, hsends.withStore _⟩
    · simp only [if_neg hnone]
      exact ⟨_, rfl, hsends.withStore _⟩

/-! A PUBLISH with a QoS that there is not only clears its topic. -/

theorem onPublish_unknown (this : SessionRef) (msg : PacketRef) {p : PublishPacket}
    {b : Broker σ} (hclear : (clearCall S p b.storeMgr).1 = none)
    (hqos : ¬ (p.header.qos = 0 ∨ p.header.qos = 1 ∨ p.header.qos = 2)) :
    onPublish S this msg p b = (.ok {}, { b with storeMgr := (clearCall S p b.storeMgr).2 }) := by
  have hnothing : (match p.header.qos with
      | 0 => onPublishQos0 S msg p
      | 1 => onPublishQos1 S this msg p
      | 2 => onPublishQos2 S this p
      | _ => pure {} : GoM σ Handled) = pure {} := by
    split
    · next h => exact absurd (.inl h) hqos
    · next h => exact absurd (.inr (.inl h)) hqos
    · next h => exact absurd (.inr (.inr h)) hqos
    · rfl
  rw [onPublish, bind_run_ok (clearRetained_calls p b), hclear]
  exact congrFun hnothing _

theorem publishOutcome_unknown (clientId : GoString) {p : PublishPacket} {s : σ}
    (hclear : (clearCall S p s).1 = none)
    (hqos : ¬ (p.header.qos = 0 ∨ p.header.qos = 1 ∨ p.header.qos = 2)) :
    publishOutcome S clientId p s = { store := (clearCall S p s).2 } := by
  rw [publishOutcome, hclear]
  simp only []
  split
  · next h => exact absurd (.inl h) hqos
  · next h => exact absurd (.inr (.inl h)) hqos
  · next h => exact absurd (.inr (.inr h)) hqos
  · rfl

/-- `onPublish` answers and asks the store as `publishOutcome` says, and changes nothing else. -/
theorem onPublish_run (this : SessionRef) (msg : PacketRef) (p : PublishPacket) (b : Broker σ) :
    ∃ b', onPublish S this msg p b =
        (.ok ((publishOutcome S (b.sessions this).clientId p b.storeMgr).handled msg), b') ∧
      Sends this (publishOutcome S (b.sessions this).clientId p b.storeMgr).ack.toList
        { b with storeMgr := (publishOutcome S (b.sessions this).clientId p b.storeMgr).store }
        b' := by
  cases hclear : (clearCall S p b.storeMgr).1 with
  | some err =>
    rw [onPublish, bind_run_ok (clearRetained_calls p b), publishOutcome, hclear]
    exact ⟨_, rfl, Sends.nil _⟩
  | none =>
    by_cases hqos : p.header.qos = 0 ∨ p.header.qos = 1 ∨ p.header.qos = 2
    · rw [onPublish, bind_run_ok (clearRetained_calls p b), publishOutcome, hclear]
      rcases hqos with h | h | h
      · simp only [h]
        exact onPublishQos0_run this msg p _
      · simp only [h]
        exact onPublishQos1_run this msg p _
      · simp only [h]
        exact onPublishQos2_run this msg p _
    · rw [onPublish_unknown this msg hclear hqos, publishOutcome_unknown _ hclear hqos]
      exact ⟨_, rfl, Sends.nil _⟩

/-! ## The other handlers that answer -/

theorem onPubrec_run (this : SessionRef) (m : IdPacket) (b : Broker σ) :
    ∃ b', onPubrec this m b = (.ok {}, b') ∧
      Sends this [.pubrel { newPubrel with messageID := m.messageID }] b b' := by
  obtain ⟨b₁, hsend, hsends⟩ :=
    Channel.sendNew_sends this (.pubrel { newPubrel with messageID := m.messageID }) b
  obtain ⟨msg, b₀, hnew, hsend⟩ := bind_eq_ok hsend
  rw [onPubrec, bind_run_ok hnew, bind_run_ok hsend]
  have hupdate : Queues this b₁ (updateInflightMsg this msg b₁).2 :=
    Queues.setSession (f := setInflight _) (fun _ => rfl) b₁
  refine ⟨_, rfl, hsends.queues.trans hupdate, ?_, hsends.trace⟩
  rw [← hsends.isStoped]
  exact congrArg (fun s => s.channel.isStoped) (setSession_self this (setInflight _) b₁)

variable (S) in
/-- The message under an id of a client, which is taken out of the store. -/
def releaseCalls (clientId : GoString) (msgId : UInt16) (s : σ) : Except GoError Msg × σ :=
  let r := S.getMsgByClientIdMsgId clientId msgId s
  match r.1 with
  | .error err => (.error err, r.2)
  | .ok smsg => (.ok smsg, (S.removeMsgById smsg.id r.2).2)

/-- A PUBREL is answered, whatever the store has. -/
theorem onPubrel_run (this : SessionRef) (m : IdPacket) (b : Broker σ) :
    ∃ handled b', onPubrel S this m b = (.ok handled, b') ∧
      Sends this [.pubcomp { newPubcomp with messageID := m.messageID }]
        { b with storeMgr :=
          (releaseCalls S (b.sessions this).clientId m.messageID b.storeMgr).2 } b' := by
  obtain ⟨b₁, hsend, hsends⟩ :=
    Channel.sendNew_sends this (.pubcomp { newPubcomp with messageID := m.messageID }) b
  rw [onPubrel, bind_run_ok hsend, bind_run_ok (session_run _ _), hsends.clientId,
    bind_run_ok (callStore_run _ _), hsends.queues.storeMgr, releaseCalls]
  cases hget : (S.getMsgByClientIdMsgId (b.sessions this).clientId m.messageID b.storeMgr).1 with
  | error _ => exact ⟨_, _, rfl, hsends.withStore _⟩
  | ok smsg =>
    simp only []
    rw [bind_run_ok (callStore_run _ _), bind_run_ok (newPacket_run _ _)]
    exact ⟨_, _, rfl, (hsends.withStore _).newPacket _⟩

theorem onSubscribe_run (this : SessionRef) {m : SubscribePacket}
    (hm : m.topics.length = m.qoss.length) (b : Broker σ) :
    ∃ tree b', onSubscribe this m b = (.ok {}, b') ∧
      Sends this [.suback { newSuback with messageID := m.messageID, returnCodes := m.qoss }]
        { b with subscriptionMgr := tree, spawned := b.spawned ++ [.procRetainMessages this] }
        b' := by
  obtain ⟨tree, htree⟩ := TreeSubsMgr.addAll_isOk this m.topics m.qoss b.subscriptionMgr hm.le
  obtain ⟨b₁, hsend, hsends⟩ := Channel.sendNew_sends this
    (.suback { newSuback with messageID := m.messageID, returnCodes := m.qoss })
    { b with subscriptionMgr := tree, spawned := b.spawned ++ [.procRetainMessages this] }
  refine ⟨tree, b₁, ?_, hsends⟩
  rw [onSubscribe, bind_run_ok (get_run b), htree]
  simp only []
  rw [bind_run_ok (modifySubscriptionMgr_run _ _), bind_run_ok (spawn_run _ _), bind_run_ok hsend]
  rfl

theorem onUnsubscribe_run (this : SessionRef) (m : UnsubscribePacket) (b : Broker σ) :
    ∃ tree b', onUnsubscribe this m b = (.ok {}, b') ∧
      Sends this [.unsuback { header := {}, messageID := m.messageID }]
        { b with subscriptionMgr := tree } b' := by
  obtain ⟨b₁, hsend, hsends⟩ := Channel.sendNew_sends this
    (.unsuback { header := {}, messageID := m.messageID })
    { b with subscriptionMgr :=
        m.topics.foldl (fun tree s => tree.del s (some this)) b.subscriptionMgr }
  refine ⟨_, b₁, ?_, hsends⟩
  rw [onUnsubscribe, bind_run_ok (modifySubscriptionMgr_run _ _), bind_run_ok hsend]
  rfl

theorem onPingreq_run (this : SessionRef) (b : Broker σ) :
    ∃ b', onPingreq this b = (.ok {}, b') ∧ Sends this [.pingresp newPingresp] b b' := by
  obtain ⟨b₁, hsend, hsends⟩ := Channel.sendNew_sends this (.pingresp newPingresp) b
  rw [onPingreq, bind_run_ok hsend]
  exact ⟨b₁, rfl, hsends⟩

end Session
end MqttBroker

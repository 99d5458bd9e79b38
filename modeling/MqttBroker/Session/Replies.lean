import MqttBroker.Session.ConnectGate
import MqttBroker.Session.ExactlyOnce
import MqttBroker.Session.Inbound

/-!
# One reply for each request

What a session queues while it handles requests of its peer, PUBLISH packets apart, is one
packet for each of them, in their order. The type in the header of a reply is what the peer
goes by, and UNSUBACK is built without one: its header says type 0.
-/

namespace MqttBroker

open Broker GoM Exec

variable {σ : Type}

/-! ## Requests and replies -/

/-- A packet other than a PUBLISH that is queued to a session. -/
def Event.reply (this : SessionRef) : Event → Option ControlPacket
  | .send s p => if s = this ∧ p.kind ≠ PacketType.publish then some p else none
  | _ => none

/-- What was queued to a session so far, without the PUBLISH packets. -/
def Broker.replies (b : Broker σ) (this : SessionRef) : List ControlPacket :=
  b.trace.filterMap (Event.reply this)

namespace ControlPacket

/-- The packets that ask for a reply. -/
def isRequest : ControlPacket → Bool
  | publish p => p.header.qos = 1 ∨ p.header.qos = 2
  | subscribe _ | unsubscribe _ | pubrec _ | pubrel _ | pingreq _ => true
  | _ => false

/-- The type of the reply that a request asks for. -/
def replyType : ControlPacket → UInt8
  | subscribe _ => PacketType.suback
  | unsubscribe _ => PacketType.unsuback
  | publish p => if p.header.qos = 1 then PacketType.puback else PacketType.pubrec
  | pubrec _ => PacketType.pubrel
  | pubrel _ => PacketType.pubcomp
  | _ => PacketType.pingresp

/-- The packet that is queued for a request. -/
def reply : ControlPacket → Option ControlPacket
  | subscribe m => some (.suback
      { newSuback with messageID := m.messageID, returnCodes := m.qoss })
  | unsubscribe m => some (.unsuback { header := {}, messageID := m.messageID })
  | publish p =>
    if p.header.qos = 1 then some (.puback { newPuback with messageID := p.messageID })
    else some (.pubrec { newPubrec with messageID := p.messageID })
  | pubrec m => some (.pubrel { newPubrel with messageID := m.messageID })
  | pubrel m => some (.pubcomp { newPubcomp with messageID := m.messageID })
  | pingreq _ => some (.pingresp newPingresp)
  | _ => none

/-- The filters of a SUBSCRIBE and the return codes of a SUBACK. -/
def codes : ControlPacket → ℕ
  | subscribe m => m.topics.length
  | suback m => m.returnCodes.length
  | _ => 0

end ControlPacket

/-- `q`, as it is written, is the reply that `p` asks for. -/
structure Answers (p q : ControlPacket) : Prop where
  type : q.header.typeAndFlags >>> 4 = p.replyType
  messageID : q.messageID = p.messageID
  codes : q.codes = p.codes

/-- The types that the headers of `NewControlPacket` are written with. -/
theorem typeAndFlags_new :
    newSuback.header.typeAndFlags >>> 4 = PacketType.suback ∧
      newPuback.header.typeAndFlags >>> 4 = PacketType.puback ∧
      newPubrec.header.typeAndFlags >>> 4 = PacketType.pubrec ∧
      newPubrel.header.typeAndFlags >>> 4 = PacketType.pubrel ∧
      newPubcomp.header.typeAndFlags >>> 4 = PacketType.pubcomp ∧
      newPingresp.typeAndFlags >>> 4 = PacketType.pingresp := by
  decide

/-- Only the UNSUBACK has the wrong type. -/
theorem answers_iff {p q : ControlPacket} (hp : Decoded p) (hreply : p.reply = some q) :
    Answers p q ↔ p.kind ≠ PacketType.unsubscribe := by
  obtain ⟨hsuback, hpuback, hpubrec, hpubrel, hpubcomp, hpingresp⟩ := typeAndFlags_new
  cases p with
  | unsubscribe m =>
    obtain rfl := Option.some.inj hreply
    refine iff_of_false (fun h => absurd h.type ?_) (fun h => h rfl)
    show (FixedHeader.typeAndFlags {} : UInt8) >>> 4 ≠ PacketType.unsuback
    decide
  | subscribe m =>
    obtain rfl := Option.some.inj hreply
    exact iff_of_true ⟨hsuback, rfl, hp.paired.symm⟩ (by rw [ControlPacket.kind]; decide)
  | publish m =>
    refine iff_of_true ?_ (by rw [ControlPacket.kind]; decide)
    rw [ControlPacket.reply] at hreply
    by_cases hqos : m.header.qos = 1
    · rw [if_pos hqos] at hreply
      obtain rfl := Option.some.inj hreply
      exact ⟨hpuback.trans (if_pos hqos).symm, rfl, rfl⟩
    · rw [if_neg hqos] at hreply
      obtain rfl := Option.some.inj hreply
      exact ⟨hpubrec.trans (if_neg hqos).symm, rfl, rfl⟩
  | pubrec m =>
    obtain rfl := Option.some.inj hreply
    exact iff_of_true ⟨hpubrel, rfl, rfl⟩ (by rw [ControlPacket.kind]; decide)
  | pubrel m =>
    obtain rfl := Option.some.inj hreply
    exact iff_of_true ⟨hpubcomp, rfl, rfl⟩ (by rw [ControlPacket.kind]; decide)
  | pingreq h =>
    obtain rfl := Option.some.inj hreply
    exact iff_of_true ⟨hpingresp, rfl, rfl⟩ (by rw [ControlPacket.kind]; decide)
  | _ => exact absurd hreply (by simp [ControlPacket.reply])

theorem exists_reply {p : ControlPacket} (h : p.isRequest = true) : ∃ q, p.reply = some q := by
  cases p with
  | publish m =>
    rw [ControlPacket.reply]
    split
    · exact ⟨_, rfl⟩
    · exact ⟨_, rfl⟩
  | subscribe m | unsubscribe m | pubrec m | pubrel m | pingreq m => exact ⟨_, rfl⟩
  | _ => exact absurd h (by simp [ControlPacket.isRequest])

/-- No reply is a PUBLISH. -/
theorem kind_of_reply {p q : ControlPacket} (h : p.reply = some q) :
    q.kind ≠ PacketType.publish := by
  cases p with
  | publish m =>
    rw [ControlPacket.reply] at h
    split at h
    · obtain rfl := Option.some.inj h
      rw [ControlPacket.kind]
      decide
    · obtain rfl := Option.some.inj h
      rw [ControlPacket.kind]
      decide
  | subscribe m | unsubscribe m | pubrec m | pubrel m | pingreq m =>
    obtain rfl := Option.some.inj h
    rw [ControlPacket.kind]
    decide
  | _ => exact absurd h (by simp [ControlPacket.reply])

/-! ## One request -/

/-- `RemoveMsgByTopic` does not fail but for a topic without a message. -/
def StoreMgr.Clears (S : StoreMgr σ) : Prop :=
  ∀ topic s, (S.removeMsgByTopic topic s).1 = none ∨
    (S.removeMsgByTopic topic s).1 = some (.store .errNoExsit)

theorem memStore_clears (rangeOrder : RangeOrder GoString Msg) :
    (MemStore.storeMgr rangeOrder).Clears := by
  intro topic s
  by_cases h : topic ∈ s.retainMsgs
  · left
    show ((s.removeMsgByTopic topic).1.map GoError.store) = none
    rw [MemStore.removeMsgByTopic, if_pos h]
    rfl
  · right
    show ((s.removeMsgByTopic topic).1.map GoError.store) = some (.store .errNoExsit)
    rw [MemStore.removeMsgByTopic, if_neg h]
    rfl

/-- The session has not been reported and its channel runs. -/
structure Serving (this : SessionRef) (b : Broker σ) : Prop where
  running : (b.sessions this).clostep = .running
  notStoped : (b.sessions this).channel.isStoped = false

namespace Session

variable (cfg : Config) {S : StoreMgr σ} {this : SessionRef} {b b' : Broker σ}

theorem clearCall_eq_none (hS : S.Clears) (p : PublishPacket) (s : σ) :
    (clearCall S p s).1 = none := by
  rw [clearCall]
  split
  · rcases hS p.topicName s with h | h
    · simp [h]
    · simp [h]
  · rfl

theorem publishOutcome_ack (clientId : GoString) {p : PublishPacket} {s : σ}
    (hclear : (clearCall S p s).1 = none) (hp : (ControlPacket.publish p).isRequest = true) :
    (publishOutcome S clientId p s).ack = (ControlPacket.publish p).reply := by
  have hqos : p.header.qos = 1 ∨ p.header.qos = 2 := of_decide_eq_true hp
  rw [publishOutcome, hclear, ControlPacket.reply]
  rcases hqos with h | h
  · simp only [h]
    rfl
  · simp only [h]
    exact (qos2Outcome_ack clientId p _).1

variable (this) in
/-- The handler of a request queues its reply, and what it forwards is a PUBLISH. -/
theorem procFrontRemoteMsg_replies (hS : S.Clears) {p q : ControlPacket} (hp : Decoded p)
    (hrequest : p.isRequest = true) (hq : p.reply = some q) {msg : PacketRef}
    (hmsg : p.kind = PacketType.publish → b.ValidMsg msg) :
    ∃ handled b₀ b₁, procFrontRemoteMsg cfg S this msg p b = (.ok handled, b₁) ∧
      b₀.sessions = b.sessions ∧ b₀.trace = b.trace ∧ Sends this [q] b₀ b₁ ∧
      ∀ r, handled.forwarded = some r → b₁.ValidMsg r := by
  cases p with
  | publish p =>
    obtain ⟨b₁, hrun, hsends⟩ := onPublish_run (S := S) this msg p b
    have hack := publishOutcome_ack (b.sessions this).clientId
      (clearCall_eq_none hS p b.storeMgr) hrequest
    rw [hack, hq] at hsends
    refine ⟨_, _, b₁, hrun, ?_, ?_, hsends, fun r hr => hsends.validMsg ?_⟩
    · rfl
    · rfl
    rw [onPublish_forwards S this msg p b _ b₁ hrun r hr]
    exact hmsg rfl
  | pubrel m =>
    obtain ⟨handled, b₁, hrun, hsends⟩ := onPubrel_run (S := S) this m b
    obtain rfl := Option.some.inj hq
    refine ⟨handled, _, b₁, hrun, ?_, ?_, hsends, onPubrel_forwards S hrun⟩
    · rfl
    · rfl
  | subscribe m =>
    obtain ⟨tree, b₁, hrun, hsends⟩ := onSubscribe_run this hp.paired b
    obtain rfl := Option.some.inj hq
    refine ⟨_, _, b₁, hrun, ?_, ?_, hsends, fun r hr => absurd hr (by simp)⟩
    · rfl
    · rfl
  | unsubscribe m =>
    obtain ⟨tree, b₁, hrun, hsends⟩ := onUnsubscribe_run this m b
    obtain rfl := Option.some.inj hq
    refine ⟨_, _, b₁, hrun, ?_, ?_, hsends, fun r hr => absurd hr (by simp)⟩
    · rfl
    · rfl
  | pubrec m =>
    obtain ⟨b₁, hrun, hsends⟩ := onPubrec_run this m b
    obtain rfl := Option.some.inj hq
    refine ⟨_, _, b₁, hrun, ?_, ?_, hsends, fun r hr => absurd hr (by simp)⟩
    · rfl
    · rfl
  | pingreq h =>
    obtain ⟨b₁, hrun, hsends⟩ := onPingreq_run this b
    obtain rfl := Option.some.inj hq
    refine ⟨_, _, b₁, hrun, ?_, ?_, hsends, fun r hr => absurd hr (by simp)⟩
    · rfl
    · rfl
  | _ => exact absurd hrequest (by simp [ControlPacket.isRequest])

/-- Forwarding queues no reply. -/
theorem forward_replies (order : SubscriberOrder) {forwarded : Option PacketRef}
    (hvalid : ∀ r, forwarded = some r → b.ValidMsg r) (hb : Serving this b) :
    Serving this (forward cfg order this forwarded b).2 ∧
      (forward cfg order this forwarded b).2.replies this = b.replies this := by
  cases forwarded with
  | none => exact ⟨hb, rfl⟩
  | some msg =>
    obtain ⟨p, hp⟩ := (hvalid msg rfl).publish
    have hdel := forward_delivered cfg order this (hvalid msg rfl) hp
    have hbare := hdel.bare this
    have hclostep := congrArg Session.clostep hbare
    have hstoped := congrArg (fun s => s.channel.isStoped) hbare
    refine ⟨⟨hclostep.trans hb.running, hstoped.trans hb.notStoped⟩, ?_⟩
    rw [replies, hdel.filterMap_trace fun e he => ?_, List.filterMap_append]
    · have hevent : (forwardEvent this (b.sessions this).isServer p).reply this = none := by
        rw [forwardEvent]
        split
        · rfl
        · rfl
      rw [List.filterMap_cons_none hevent]
      exact List.append_nil _
    · cases e with
      | send s q => exact if_neg fun h => h.2 (of_decide_eq_true he)
      | _ => rfl

/-- A request is answered with its reply, even when the call of a subscriber's `Publish`
blocks in the end. -/
theorem recvMsg_replies (hS : S.Clears) (order : SubscriberOrder) (p : Inbound) {q : ControlPacket}
    (hrequest : p.1.isRequest = true) (hq : p.1.reply = some q) (hb : Serving this b) :
    Serving this (recvMsg cfg S order this p.1 b).2 ∧
      (recvMsg cfg S order this p.1 b).2.replies this = b.replies this ++ [q] ∧
      ∀ e, (recvMsg cfg S order this p.1 b).1 = .error e → e.IsBlocked := by
  obtain ⟨handled, b₀, b₁, hrun, hsessions, htrace, hsends, hvalid⟩ :=
    procFrontRemoteMsg_replies cfg this hS p.2 hrequest hq fun hkind =>
      newPacket_validMsg hkind (p.2.typed.trans hkind) (newPacket_run p.1 b)
  have hgate := congrArg (fun g => g.2.2.1) hsends.queues.gate
  have hb₁ : Serving this b₁ := by
    refine ⟨hgate.trans ?_, hsends.isStoped.trans ?_⟩
    · show (b₀.sessions this).clostep = .running
      rw [hsessions]
      exact hb.running
    · rw [hsessions]
      exact hb.notStoped
  have hreplies : b₁.replies this = b.replies this ++ [q] := by
    have hstoped : (b₀.sessions this).channel.isStoped = false := by
      rw [hsessions]
      exact hb.notStoped
    have hevent : (Event.send this q).reply this = some q := if_pos ⟨rfl, kind_of_reply hq⟩
    rw [replies, hsends.trace, hstoped, htrace, if_neg (by simp), List.filterMap_append,
      List.map_singleton, List.filterMap_cons_some hevent]
    rfl
  obtain ⟨hserving, hforward⟩ := forward_replies cfg order hvalid hb₁
  rw [recvMsg_of_running cfg S order p.1 hb.running, handleMsg,
    bind_run_ok (newPacket_run p.1 b), bind_run_ok hrun]
  refine ⟨hserving, hforward.trans hreplies, fun e he => ?_⟩
  exact forward_blocks cfg order this handled.forwarded b₁ e _ (Prod.ext he rfl)

/-! ## Any number of requests -/

/-- By induction over the packets: those that were handled have been answered, and they are
all of them unless a call of `Publish` blocks. -/
theorem recvMsgs_replies (hS : S.Clears) (ps : List (Inbound × SubscriberOrder)) :
    ∀ {b : Broker σ}, (∀ p ∈ ps.map fun pp => pp.1.1, p.isRequest = true) → Serving this b →
      ∃ handled new, handled <+: ps.map (fun pp => pp.1.1) ∧
        (recvMsgs cfg S this ps b).2.replies this = b.replies this ++ new ∧
        List.Forall₂ (fun p q => p.reply = some q) handled new ∧
        ((recvMsgs cfg S this ps b).1 = .ok () ∧ handled = ps.map (fun pp => pp.1.1) ∨
          ∃ s pt, (recvMsgs cfg S this ps b).1 = .error (.blocked s pt)) := by
  induction ps with
  | nil =>
    intro b _ _
    exact ⟨[], [], List.prefix_refl _, (List.append_nil _).symm, .nil, .inl ⟨rfl, rfl⟩⟩
  | cons pp ps ih =>
    obtain ⟨p, order⟩ := pp
    intro b hps hb
    obtain ⟨q, hq⟩ := exists_reply (hps p.1 List.mem_cons_self)
    obtain ⟨hb₁, hreplies, hblocks⟩ :=
      recvMsg_replies cfg hS order p (hps p.1 List.mem_cons_self) hq hb
    rw [recvMsgs]
    rcases hr : recvMsg cfg S order this p.1 b with ⟨e | u, b₁⟩
    · -- the packet is handled, and the rest of the packets waits
      rw [hr] at hreplies hblocks
      rw [bind_run_error hr]
      refine ⟨[p.1], [q], List.prefix_append [p.1] _, hreplies, .cons hq .nil, .inr ?_⟩
      have he := hblocks e rfl
      cases e with
      | panic _ => exact he.elim
      | blocked s pt => exact ⟨s, pt, rfl⟩
    · rw [hr] at hb₁ hreplies
      rw [bind_run_ok hr]
      obtain ⟨handled, new, hpre, hnew, hall, hend⟩ :=
        ih (fun q hq => hps q (List.mem_cons_of_mem _ hq)) hb₁
      refine ⟨p.1 :: handled, q :: new, (List.prefix_cons_inj p.1).mpr hpre, ?_, .cons hq hall, ?_⟩
      · rw [hnew, hreplies, List.append_assoc]
        rfl
      · rcases hend with ⟨hok, hlist⟩ | hblocked
        · exact .inl ⟨hok, congrArg (p.1 :: ·) hlist⟩
        · exact .inr hblocked

/-- The replies fit their requests if no request is an UNSUBSCRIBE. -/
theorem forall₂_answers_iff {handled new : List ControlPacket}
    (h : List.Forall₂ (fun p q => p.reply = some q) handled new)
    (hdecoded : ∀ p ∈ handled, Decoded p) :
    List.Forall₂ Answers handled new ↔ ∀ p ∈ handled, p.kind ≠ PacketType.unsubscribe := by
  induction h with
  | nil => exact iff_of_true .nil (by simp)
  | cons hq _ ih =>
    have hrest := ih fun p hp => hdecoded p (List.mem_cons_of_mem _ hp)
    rw [List.forall₂_cons, List.forall_mem_cons, hrest]
    exact and_congr_left fun _ => answers_iff (hdecoded _ List.mem_cons_self) hq

variable (S this) in
/-- Each request that is handled gets one packet in reply, in their order, and these are the
replies that the requests ask for if and only if no request is an UNSUBSCRIBE. -/
theorem replies_match_iff (hS : S.Clears) (ps : List (Inbound × SubscriberOrder))
    (hps : ∀ p ∈ ps.map fun pp => pp.1.1, p.isRequest = true) (hb : Serving this b) :
    ∃ handled new, handled <+: ps.map (fun pp => pp.1.1) ∧
      (recvMsgs cfg S this ps b).2.replies this = b.replies this ++ new ∧
      new.length = handled.length ∧
      (List.Forall₂ Answers handled new ↔ ∀ p ∈ handled, p.kind ≠ PacketType.unsubscribe) ∧
      ((recvMsgs cfg S this ps b).1 = .ok () ∧ handled = ps.map (fun pp => pp.1.1) ∨
        ∃ s pt, (recvMsgs cfg S this ps b).1 = .error (.blocked s pt)) := by
  obtain ⟨handled, new, hpre, hnew, hall, hend⟩ := recvMsgs_replies cfg hS ps hps hb
  refine ⟨handled, new, hpre, hnew, hall.length_eq.symm, ?_, hend⟩
  refine forall₂_answers_iff hall fun p hp => ?_
  obtain ⟨pp, -, rfl⟩ := List.mem_map.mp (hpre.subset hp)
  exact pp.1.2

/-- An UNSUBSCRIBE for one filter. -/
def unsubscribeX : ControlPacket :=
  .unsubscribe
    { header := { messageType := PacketType.unsubscribe }, messageID := 2, topics := [str "x"] }

theorem unsubscribeX_decoded : Decoded unsubscribeX :=
  .other _ rfl (by rw [unsubscribeX, ControlPacket.kind]; decide)

theorem serving_afterConnect : Serving 0 (afterConnect default) :=
  ⟨by decide +kernel, by decide +kernel⟩

/-- A SUBSCRIBE, and a PUBLISH that comes back to the session itself. -/
theorem replies_match_iff_publish : ∃ new,
    (recvMsgs {} (MemStore.storeMgr default) 0
      [(⟨_, subscribeByte_decoded 120 1⟩, RangeOrder.ascending),
        (⟨_, publishOf_decoded (str "x") (str "m") 1 7⟩, RangeOrder.ascending)]
      (afterConnect default)).2.replies 0 = (afterConnect default).replies 0 ++ new ∧
    List.Forall₂ Answers [subscribeByte 120 1, publishOf (str "x") (str "m") 1 7] new := by
  obtain ⟨handled, new, -, hnew, -, hiff, hend⟩ := replies_match_iff {}
    (MemStore.storeMgr default) 0 (memStore_clears default)
    [(⟨_, subscribeByte_decoded 120 1⟩, RangeOrder.ascending),
      (⟨_, publishOf_decoded (str "x") (str "m") 1 7⟩, RangeOrder.ascending)]
    (by decide) serving_afterConnect
  have hok : (recvMsgs {} (MemStore.storeMgr default) 0
      [(⟨_, subscribeByte_decoded 120 1⟩, RangeOrder.ascending),
        (⟨_, publishOf_decoded (str "x") (str "m") 1 7⟩, RangeOrder.ascending)]
      (afterConnect default)).1 = .ok () := by
    decide +kernel
  rcases hend with ⟨-, hall⟩ | ⟨s, pt, he⟩
  · refine ⟨new, hnew, ?_⟩
    rw [hall] at hiff
    exact hiff.mpr (by decide)
  · exact absurd (hok.symm.trans he) (by simp)

/-- The packet that is queued for an UNSUBSCRIBE has the message type 0. -/
theorem unsubscribe_not_answered : ∃ q : ControlPacket,
    (recvMsgs {} (MemStore.storeMgr default) 0
      [(⟨_, unsubscribeX_decoded⟩, RangeOrder.ascending)] (afterConnect default)).2.replies 0 =
        (afterConnect default).replies 0 ++ [q] ∧
      q.header.typeAndFlags >>> (4 : UInt8) = 0 ∧ ¬ Answers unsubscribeX q := by
  refine ⟨.unsuback { header := {}, messageID := 2 }, ?_, ?_, ?_⟩
  · decide +kernel
  · decide
  · exact fun h => (answers_iff unsubscribeX_decoded rfl).mp h rfl

end Session
end MqttBroker

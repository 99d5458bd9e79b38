import MqttBroker.Session.Frames
import MqttBroker.Session.Panics
import MqttBroker.Store.MemStore

/-!
# Before the CONNECT

A server session is to do nothing for others until its CONNECT is accepted. No handler checks
that, and three kinds of packets get past: a CONNACK connects the session, a SUBSCRIBE enters
it into the tree, and a PUBLISH or PUBREL reaches the store and the subscribers. `Passes` says
of a packet that it does nothing of this in the state that it finds, and the main result is
that a session to which only such packets come stays shut off, for any number of them.
-/

namespace MqttBroker

open Broker GoM Exec

/-! ## What is shut off -/

/-- The lists of a session. -/
def Session.lists (s : Session) : List InflightingMsg × List PacketAndToken × List PacketRef :=
  (s.inflightingList, s.peddingMsgList, s.channel.iSendList)

section

variable {σ : Type}

/-- Between `b` and `b'`, the session has changed nothing but itself, and not its place. -/
structure Shut (this : SessionRef) (b b' : Broker σ) : Prop where
  subscriptionMgr : b'.subscriptionMgr = b.subscriptionMgr
  storeMgr : b'.storeMgr = b.storeMgr
  lists : ∀ s, s ≠ this → (b'.sessions s).lists = (b.sessions s).lists
  isServer : (b'.sessions this).isServer = (b.sessions this).isServer
  connected : (b'.sessions this).connected = (b.sessions this).connected
  filed : ∀ clientId, b'.mgr.connectedSessionMap.lookup clientId = some this →
    b.mgr.connectedSessionMap.lookup clientId = some this

namespace Shut

variable {this : SessionRef}

theorem refl (b : Broker σ) : Shut this b b :=
  ⟨rfl, rfl, fun _ _ => rfl, rfl, rfl, fun _ h => h⟩

theorem trans {b b' b'' : Broker σ} (h : Shut this b b') (h' : Shut this b' b'') :
    Shut this b b'' where
  subscriptionMgr := h'.subscriptionMgr.trans h.subscriptionMgr
  storeMgr := h'.storeMgr.trans h.storeMgr
  lists s hs := (h'.lists s hs).trans (h.lists s hs)
  isServer := h'.isServer.trans h.isServer
  connected := h'.connected.trans h.connected
  filed clientId hc := h.filed clientId (h'.filed clientId hc)

/-- Queueing packets and entries of the session itself. -/
theorem of_queues {b b' : Broker σ} (h : Queues this b b') : Shut this b b' where
  subscriptionMgr := h.subscriptionMgr
  storeMgr := h.storeMgr
  lists s hs := by rw [h.others s hs]
  isServer := congrArg (fun g => g.2.1) h.gate
  connected := congrArg (fun g => g.2.2.2.1) h.gate
  filed clientId hc := by rwa [h.mgr] at hc

/-- Writing fields of the session itself. -/
theorem setSession {f : Session → Session} (hserver : ∀ s, (f s).isServer = s.isServer)
    (hconnected : ∀ s, (f s).connected = s.connected) (b : Broker σ) :
    Shut this b (b.setSession this f) where
  subscriptionMgr := rfl
  storeMgr := rfl
  lists s hs := by rw [setSession_of_ne f b hs]
  isServer := by rw [setSession_self, hserver]
  connected := by rw [setSession_self, hconnected]
  filed _ hc := hc

end Shut

/-- A server session that has not been connected and that nothing refers to. -/
structure Outside (this : SessionRef) (b : Broker σ) : Prop where
  isServer : (b.sessions this).isServer = true
  not_connected : ¬ (b.sessions this).isConnected
  absent : TreeSubsMgr.Absent this b.subscriptionMgr
  not_filed : ∀ clientId, b.mgr.connectedSessionMap.lookup clientId ≠ some this

theorem Outside.of_shut {this : SessionRef} {b b' : Broker σ} (h : Outside this b)
    (hs : Shut this b b') : Outside this b' where
  isServer := hs.isServer.trans h.isServer
  not_connected := by
    rw [Session.isConnected, hs.connected]
    exact h.not_connected
  absent := by
    rw [hs.subscriptionMgr]
    exact h.absent
  not_filed clientId hc := h.not_filed clientId (hs.filed clientId hc)

/-! ## Messages that nobody hears -/

/-- `Publish` on the session puts a message into its lists, at once or when there is room. -/
def Session.takes (cfg : Config) (s : Session) : Prop :=
  s.isConnected ∧ ¬ s.isClosed ∧
    if s.inflightingList.length < cfg.maxSizeOfInflight ∧
        s.channel.iSendList.length < cfg.maxSizeOfPublishMsg then s.channel.isStoped = false
    else s.peddingChan.closed = false

/-- No subscriber of the topic takes a message. -/
def Unheard (cfg : Config) (topic : GoString) (b : Broker σ) : Prop :=
  ∀ s ∈ b.subscriptionMgr.getSessions topic, ¬ (b.sessions s).takes cfg

/-- Only message ids were given out. -/
structure Unseen (b b' : Broker σ) : Prop where
  subscriptionMgr : b'.subscriptionMgr = b.subscriptionMgr
  storeMgr : b'.storeMgr = b.storeMgr
  mgr : b'.mgr = b.mgr
  sessions : ∀ s, ∃ n, b'.sessions s = { b.sessions s with lastMsgId := n }

namespace Unseen

theorem of_sessions_eq {b b' : Broker σ} (hsubs : b'.subscriptionMgr = b.subscriptionMgr)
    (hstore : b'.storeMgr = b.storeMgr) (hmgr : b'.mgr = b.mgr)
    (hsessions : b'.sessions = b.sessions) : Unseen b b' :=
  ⟨hsubs, hstore, hmgr, fun s => ⟨(b.sessions s).lastMsgId, by rw [hsessions]⟩⟩

theorem trans {b b' b'' : Broker σ} (h : Unseen b b') (h' : Unseen b' b'') : Unseen b b'' where
  subscriptionMgr := h'.subscriptionMgr.trans h.subscriptionMgr
  storeMgr := h'.storeMgr.trans h.storeMgr
  mgr := h'.mgr.trans h.mgr
  sessions s := by
    obtain ⟨n, hn⟩ := h.sessions s
    obtain ⟨n', hn'⟩ := h'.sessions s
    exact ⟨n', by rw [hn', hn]⟩

theorem takes_iff {b b' : Broker σ} (h : Unseen b b') (cfg : Config) (s : SessionRef) :
    (b'.sessions s).takes cfg ↔ (b.sessions s).takes cfg := by
  obtain ⟨n, hn⟩ := h.sessions s
  rw [hn]
  exact Iff.rfl

theorem isOpen_iff {b b' : Broker σ} (h : Unseen b b') (s : SessionRef) :
    (b'.sessions s).isConnected ∧ ¬ (b'.sessions s).isClosed ↔
      (b.sessions s).isConnected ∧ ¬ (b.sessions s).isClosed := by
  obtain ⟨n, hn⟩ := h.sessions s
  rw [hn]

theorem shut {b b' : Broker σ} (h : Unseen b b') (this : SessionRef) : Shut this b b' where
  subscriptionMgr := h.subscriptionMgr
  storeMgr := h.storeMgr
  lists s _ := by
    obtain ⟨n, hn⟩ := h.sessions s
    rw [hn]
    rfl
  isServer := by
    obtain ⟨n, hn⟩ := h.sessions this
    rw [hn]
  connected := by
    obtain ⟨n, hn⟩ := h.sessions this
    rw [hn]
  filed clientId hc := by rwa [h.mgr] at hc

end Unseen

/-- Packets that a session without a connection queues for itself are not heard. -/
theorem Unheard.of_queues {cfg : Config} {topic : GoString} {this : SessionRef} {b b' : Broker σ}
    (h : Unheard cfg topic b) (hq : Queues this b b') (hnot : ¬ (b.sessions this).isConnected) :
    Unheard cfg topic b' := by
  intro s hs ht
  rw [hq.subscriptionMgr] at hs
  by_cases hthis : s = this
  · rw [hthis] at ht
    have hconn : (b'.sessions this).connected = (b.sessions this).connected :=
      congrArg (fun g => g.2.2.2.1) hq.gate
    exact hnot (by rw [Session.isConnected, ← hconn]; exact ht.1)
  · rw [hq.others s hthis] at ht
    exact h s hs ht

namespace Session

variable (cfg : Config)

/-- The end of `Publish` on a session that takes no message. -/
theorem enqueue_of_not_takes {s : SessionRef} {b : Broker σ} (pt : PacketAndToken)
    (hopen : (b.sessions s).isConnected ∧ ¬ (b.sessions s).isClosed)
    (h : ¬ (b.sessions s).takes cfg) : ∃ r, enqueue cfg s pt b = (.ok r, b) := by
  have hif := fun ht => h ⟨hopen.1, hopen.2, ht⟩
  rw [enqueue, bind_run_ok (session_run s b), if_neg (by tauto)]
  by_cases hroom : (b.sessions s).inflightingList.length < cfg.maxSizeOfInflight ∧
      (b.sessions s).channel.iSendList.length < cfg.maxSizeOfPublishMsg
  · rw [if_pos hroom] at hif
    have hstop : (b.sessions s).channel.isStoped = true := by simpa using hif
    have hinsert : insert2Inflight cfg s pt b = (.ok (some errStoped), b) := by
      rw [insert2Inflight, bind_run_ok (session_run s b), if_pos hstop]
      rfl
    rw [if_pos hroom, bind_run_ok hinsert]
    exact ⟨_, rfl⟩
  · rw [if_neg hroom] at hif
    have hclosed : (b.sessions s).peddingChan.closed = true := by simpa using hif
    rw [if_neg hroom, pushPedding, bind_run_ok (session_run s b), if_pos hclosed]
    exact ⟨_, rfl⟩

/-- `Publish` numbers its packet and returns. -/
theorem publish_unseen {s : SessionRef} {b : Broker σ} (msg : PacketRef)
    (hopen : (b.sessions s).isConnected ∧ ¬ (b.sessions s).isClosed)
    (h : ¬ (b.sessions s).takes cfg) :
    ∃ r b', publish cfg s msg b = (.ok r, b') ∧ Unseen b b' := by
  have hnumber := number_run s msg b
  have hsessions : ∀ s', ∃ n, (b.setSession s advanceMsgId).sessions s' =
      { b.sessions s' with lastMsgId := n } := by
    intro s'
    by_cases hs : s' = s
    · rw [hs, setSession_self]
      exact ⟨_, rfl⟩
    · rw [setSession_of_ne _ _ hs]
      exact ⟨_, rfl⟩
  have hunseen₁ : Unseen b (number s msg b).2 := ⟨rfl, rfl, rfl, hsessions⟩
  have htoken : ∀ (tType : UInt8) (b₁ : Broker σ), ∃ t b₂,
      allocToken tType b₁ = (.ok t, b₂) ∧ Unseen b₁ b₂ := by
    intro tType b₁
    unfold allocToken
    cases newToken tType with
    | none => exact ⟨none, b₁, rfl, .of_sessions_eq rfl rfl rfl rfl⟩
    | some t => exact ⟨_, _, rfl, .of_sessions_eq rfl rfl rfl rfl⟩
  rw [publish, bind_run_ok hnumber, bind_run_ok (packet_run msg _)]
  rw [hnumber] at hunseen₁
  obtain ⟨t, b₂, ht, hunseen₂⟩ := htoken _ _
  rw [bind_run_ok ht, bind_run_ok (emit_run _ _)]
  have hend : ∀ b₃, Unseen b b₃ → ∃ r b', enqueue cfg s ⟨msg, t⟩ b₃ = (.ok r, b') ∧
      Unseen b b' := by
    intro b₃ hunseen
    obtain ⟨r, hr⟩ := enqueue_of_not_takes cfg ⟨msg, t⟩ ((hunseen.isOpen_iff s).mpr hopen)
      (fun ht => h ((hunseen.takes_iff cfg s).mp ht))
    exact ⟨r, b₃, hr, hunseen⟩
  exact hend _ ((hunseen₁.trans hunseen₂).trans (.of_sessions_eq rfl rfl rfl rfl))

/-- A round of `sendToSubcriber` for a subscriber that takes no message. -/
theorem sendToSubcriberRound_unseen (this : SessionRef) (msg : PacketRef)
    (v : Σ _ : SessionRef, UInt8) {b : Broker σ} (h : ¬ (b.sessions v.1).takes cfg) :
    ∃ more b', sendToSubcriberRound cfg this msg v b = (.ok more, b') ∧ Unseen b b' := by
  have hrefl : Unseen b b := .of_sessions_eq rfl rfl rfl rfl
  rw [sendToSubcriberRound, bind_run_ok (session_run _ _)]
  by_cases hself : cfg.sendToSelf = false ∧ v.1 = this
  · rw [if_pos hself]
    exact ⟨true, b, rfl, hrefl⟩
  rw [if_neg hself]
  by_cases hopen : (b.sessions v.1).isConnected ∧ ¬ (b.sessions v.1).isClosed
  · rw [if_pos hopen, bind_run_ok (packet_run _ _)]
    cases hp : b.packets.cells msg with
    | publish p =>
      simp only
      rw [bind_run_ok (newPacket_run _ _)]
      have halloc : ∀ q, Unseen b { b with packets := (b.packets.alloc q).2 } := fun q =>
        .of_sessions_eq rfl rfl rfl rfl
      obtain ⟨r, b', hr, hunseen⟩ := publish_unseen cfg msg
        (b := { b with packets := (b.packets.alloc _).2 }) hopen h
      rw [bind_run_ok hr]
      exact ⟨_, b', rfl, (halloc _).trans hunseen⟩
    | _ => exact ⟨true, b, rfl, hrefl⟩
  · rw [if_neg hopen]
    exact ⟨true, b, rfl, hrefl⟩

/-- The loop of `sendToSubcriber` over subscribers that take no message. -/
theorem rounds_unseen (this : SessionRef) (msg : PacketRef) (l : Subscribers) :
    ∀ {b : Broker σ}, (∀ v ∈ l, ¬ (b.sessions v.1).takes cfg) →
      ∃ b', rounds (sendToSubcriberRound cfg this msg) l b = (.ok (), b') ∧ Unseen b b' := by
  induction l with
  | nil => exact fun _ => ⟨_, rfl, .of_sessions_eq rfl rfl rfl rfl⟩
  | cons v l ih =>
    intro b h
    obtain ⟨more, b₁, hround, hunseen⟩ :=
      sendToSubcriberRound_unseen cfg this msg v (h v List.mem_cons_self)
    rw [rounds, bind_run_ok hround]
    cases more with
    | false => exact ⟨b₁, rfl, hunseen⟩
    | true =>
      have hrest : ∀ v' ∈ l, ¬ (b₁.sessions v'.1).takes cfg := fun v' hv' ht =>
        h v' (List.mem_cons_of_mem _ hv') ((hunseen.takes_iff cfg v'.1).mp ht)
      obtain ⟨b', hrun, hunseen'⟩ := ih hrest
      exact ⟨b', hrun, hunseen.trans hunseen'⟩

/-- Forwarding a message that nobody hears. -/
theorem forward_unseen (order : SubscriberOrder) {this : SessionRef} {msg : PacketRef}
    {b : Broker σ} (hserver : (b.sessions this).isServer = true)
    (h : Unheard cfg (b.packets.cells msg).topicName b) :
    ∃ b', forward cfg order this (some msg) b = (.ok (), b') ∧ Unseen b b' := by
  have hstart : ∃ b₁, sendToSubcriberStart order this msg b =
      (.ok (order.toList (b.subscriptionMgr.getSessions (b.packets.cells msg).topicName)), b₁) ∧
      Unseen b b₁ := ⟨_, rfl, .of_sessions_eq rfl rfl rfl rfl⟩
  obtain ⟨b₁, hrun, hunseen⟩ := hstart
  have hnone : ∀ v ∈ order.toList (b.subscriptionMgr.getSessions (b.packets.cells msg).topicName),
      ¬ (b₁.sessions v.1).takes cfg := by
    intro v hv ht
    have hmem := (order.mem_toList _ v.1 v.2).mp hv
    exact h v.1 (Finmap.mem_of_lookup_eq_some hmem) ((hunseen.takes_iff cfg v.1).mp ht)
  obtain ⟨b', hrounds, hunseen'⟩ := rounds_unseen cfg this msg _ hnone
  refine ⟨b', ?_, hunseen.trans hunseen'⟩
  show (session this >>= fun s => _ : GoM σ Unit) b = _
  rw [bind_run_ok (session_run this b), if_pos hserver, sendToSubcriber, bind_run_ok hrun, hrounds]

end Session

end

/-! ## Packets that do nothing -/

/-- The message that the store retains for a PUBLISH. -/
def PublishPacket.retained (m : PublishPacket) : Msg :=
  { clientId := [], msgId := 0, topic := m.topicName, qos := m.header.qos, body := m.payload }

/-- `onConnect` accepts the packet. -/
def Accepts (b : Broker MemStore) (this : SessionRef) : ControlPacket → Prop
  | .connect m => (b.sessions this).clostep = .running ∧ ¬ (b.sessions this).isConnected ∧
      m.reservedBit &&& 0x1 ≠ 0x1
  | _ => False

/-- A packet that finds nothing to change but its own session: no CONNACK and no filter; no
retained message that is new or that goes, no PUBLISH that is not stored already and no
PUBREL for one that is, and no message that is heard. -/
def Passes (cfg : Config) (b : Broker MemStore) (this : SessionRef) : ControlPacket → Prop
  | .connack _ => False
  | .subscribe m => m.topics = []
  | .publish m =>
    (m.header.retain = true → m.payload = [] → m.topicName ∉ b.storeMgr.retainMsgs) ∧
      if m.header.qos = 0 ∨ m.header.qos = 1 then
        (m.header.retain = true → m.payload ≠ [] →
          b.storeMgr.retainMsgs.lookup m.topicName = some m.retained) ∧
        Unheard cfg m.topicName b
      else
        m.header.qos = 2 → MemStore.clientIdMsgIdAsKey (b.sessions this).clientId m.messageID ∈
          b.storeMgr.indexClientIdMsgId
  | .pubrel m =>
    match b.storeMgr.indexClientIdMsgId.lookup
        (MemStore.clientIdMsgIdAsKey (b.sessions this).clientId m.messageID) with
    | none => True
    | some smsg => smsg.id ∉ b.storeMgr.indexId ∧ Unheard cfg smsg.topic b
  | _ => True

instance (cfg : Config) (s : Session) : Decidable (s.takes cfg) :=
  inferInstanceAs (Decidable (_ ∧ _))

instance (cfg : Config) (topic : GoString) (b : Broker MemStore) :
    Decidable (Unheard cfg topic b) :=
  decidable_of_iff (∀ s ∈ (b.subscriptionMgr.getSessions topic).keys, ¬ (b.sessions s).takes cfg)
    (by simp only [Unheard, Finmap.mem_keys])

instance (b : Broker MemStore) (this : SessionRef) : ∀ p, Decidable (Accepts b this p)
  | .connect _ => inferInstanceAs (Decidable (_ ∧ _))
  | .connack _ | .publish _ | .puback _ | .pubrec _ | .pubrel _ | .pubcomp _ | .subscribe _
  | .suback _ | .unsubscribe _ | .unsuback _ | .pingreq _ | .pingresp _ | .disconnect _ =>
    .isFalse id

instance (cfg : Config) (b : Broker MemStore) (this : SessionRef) : ∀ p,
    Decidable (Passes cfg b this p)
  | .connack _ => .isFalse id
  | .subscribe m => inferInstanceAs (Decidable (m.topics = []))
  | .publish _ => inferInstanceAs (Decidable (_ ∧ _))
  | .pubrel m =>
    match h : b.storeMgr.indexClientIdMsgId.lookup
        (MemStore.clientIdMsgIdAsKey (b.sessions this).clientId m.messageID) with
    | none => .isTrue (by simp only [Passes, h])
    | some smsg => decidable_of_iff (smsg.id ∉ b.storeMgr.indexId ∧ Unheard cfg smsg.topic b)
        (by simp only [Passes, h])
  | .connect _ | .puback _ | .pubrec _ | .pubcomp _ | .suback _ | .unsubscribe _ | .unsuback _
  | .pingreq _ | .pingresp _ | .disconnect _ => .isTrue trivial

namespace MemStore

/-- Removing a retained message that is not there. -/
theorem removeMsgByTopic_of_notMem {topic : GoString} {s : MemStore} (h : topic ∉ s.retainMsgs) :
    s.removeMsgByTopic topic = (some .errNoExsit, s) := by
  rw [removeMsgByTopic, if_neg h]

/-- Retaining a message again. -/
theorem saveRetainMsg_of_lookup {m : PublishPacket} {s : MemStore} (hne : m.payload ≠ [])
    (h : s.retainMsgs.lookup m.topicName = some m.retained) :
    s.saveRetainMsg m.topicName m.payload m.header.qos = s := by
  have hmap : s.retainMsgs.insert m.topicName m.retained = s.retainMsgs := by
    refine Finmap.ext_lookup fun topic => ?_
    rw [GoMap.lookup_insert_eq]
    by_cases ht : topic = m.topicName
    · rw [if_pos ht, ht, h]
    · rw [if_neg ht]
  have hlen : m.payload.length ≠ 0 := fun h0 => hne (List.eq_nil_of_length_eq_zero h0)
  rw [saveRetainMsg, if_neg hlen]
  show { s with retainMsgs := s.retainMsgs.insert m.topicName m.retained } = s
  rw [hmap]

/-- Removing a retained message and retaining it again. -/
theorem saveRetainMsg_removeMsgByTopic {m : PublishPacket} {s : MemStore} (hne : m.payload ≠ [])
    (h : s.retainMsgs.lookup m.topicName = some m.retained) :
    (s.removeMsgByTopic m.topicName).2.saveRetainMsg m.topicName m.payload m.header.qos = s := by
  have hmem : m.topicName ∈ s.retainMsgs := Finmap.mem_of_lookup_eq_some h
  have hmap : (s.retainMsgs.erase m.topicName).insert m.topicName m.retained = s.retainMsgs := by
    refine Finmap.ext_lookup fun topic => ?_
    rw [GoMap.lookup_insert_eq, GoMap.lookup_erase_eq]
    by_cases ht : topic = m.topicName
    · rw [if_pos ht, ht, h]
    · rw [if_neg ht, if_neg ht]
  have hlen : m.payload.length ≠ 0 := fun h0 => hne (List.eq_nil_of_length_eq_zero h0)
  rw [removeMsgByTopic, if_pos hmem, saveRetainMsg, if_neg hlen]
  show { s with
    retainMsgs := (s.retainMsgs.erase m.topicName).insert m.topicName m.retained } = s
  rw [hmap]

end MemStore

/-- A disconnect event files no session. -/
theorem SessionMgr.lookup_of_disconnect {clientId : GoString} {s this : SessionRef}
    {mgr : SessionMgr} {k : GoString}
    (h : (SessionMgr.disconnect clientId s mgr).2.connectedSessionMap.lookup k = some this) :
    mgr.connectedSessionMap.lookup k = some this := by
  unfold disconnect at h
  by_cases hmem : clientId ∈ mgr.connectedSessionMap
  · rw [if_pos hmem] at h
    exact (GoMap.of_lookup_erase h).2
  · rwa [if_neg hmem] at h

namespace Session

variable (cfg : Config) (rangeOrder : RangeOrder GoString Msg) {this : SessionRef}

/-- A handler has stayed shut, and what it forwards is not heard. -/
def StaysShut (this : SessionRef) (b : Broker MemStore)
    (r : Except Fault Handled × Broker MemStore) : Prop :=
  Shut this b r.2 ∧ ∀ handled, r.1 = .ok handled → ∀ msg, handled.forwarded = some msg →
    Unheard cfg (r.2.packets.cells msg).topicName r.2

/-- A handler that queues packets and forwards none. -/
theorem staysShut_of_queues {m : GoM MemStore Handled} (hq : Respects (Queues this) m)
    (hm : Yields (fun handled => handled.forwarded = none) m) (b : Broker MemStore) :
    StaysShut cfg this b (m b) := by
  refine ⟨.of_queues (hq b), fun handled hr msg hmsg => ?_⟩
  have hnone := hm b handled (m b).2 (Prod.ext hr rfl)
  rw [hnone] at hmsg
  exact absurd hmsg (by simp)

/-- A handler that has left the state alone and forwards nothing. -/
theorem staysShut_pure (b : Broker MemStore) (err : Option GoError) :
    StaysShut cfg this b ((pure { err } : GoM MemStore Handled) b) :=
  ⟨.refl b, fun handled hr msg hmsg => by
    rw [← Except.ok.inj hr] at hmsg
    exact absurd hmsg (by simp)⟩

theorem clearRetained_of_passes {b : Broker MemStore} {m : PublishPacket}
    (h : m.header.retain = true → m.payload = [] → m.topicName ∉ b.storeMgr.retainMsgs) :
    clearRetained (MemStore.storeMgr rangeOrder) m b = (.ok none, b) := by
  unfold clearRetained
  by_cases hc : m.payload.length = 0 ∧ m.header.retain = true
  · have hnot := h hc.2 (List.eq_nil_of_length_eq_zero hc.1)
    have hrun : (callStore ((MemStore.storeMgr rangeOrder).removeMsgByTopic m.topicName) :
        GoM MemStore (Option GoError)) b = (.ok (some (.store .errNoExsit)), b) := by
      rw [callStore_run]
      simp only [MemStore.storeMgr, MemStore.removeMsgByTopic_of_notMem hnot]
      rfl
    rw [if_pos hc, bind_run_ok hrun]
    rfl
  · rw [if_neg hc]
    rfl

/-- PUBLISH with QoS 0. -/
theorem onPublishQos0_of_passes {b : Broker MemStore} (msg : PacketRef) {m : PublishPacket}
    (h : m.header.retain = true → m.payload ≠ [] →
      b.storeMgr.retainMsgs.lookup m.topicName = some m.retained) :
    ∃ err, onPublishQos0 (MemStore.storeMgr rangeOrder) msg m b =
      (.ok { err, forwarded := some msg }, b) := by
  unfold onPublishQos0
  by_cases hc : m.header.retain = true ∧ 0 < m.payload.length
  · have hne : m.payload ≠ [] := List.length_pos_iff.mp hc.2
    have hsame := MemStore.saveRetainMsg_removeMsgByTopic hne (h hc.1 hne)
    rw [if_pos hc, bind_run_ok (callStore_run _ _), bind_run_ok (callStore_run _ _)]
    exact ⟨none, congrArg (fun s => ((.ok { err := none, forwarded := some msg },
      { b with storeMgr := s }) : Except Fault Handled × Broker MemStore)) hsame⟩
  · rw [if_neg hc]
    exact ⟨none, rfl⟩

theorem saveRetained_of_passes {b : Broker MemStore} {m : PublishPacket} (clientId : GoString)
    (h : m.header.retain = true → m.payload ≠ [] →
      b.storeMgr.retainMsgs.lookup m.topicName = some m.retained) :
    saveRetained (MemStore.storeMgr rangeOrder) (storedMsg clientId m) m b = (.ok none, b) := by
  unfold saveRetained
  by_cases hc : m.header.retain = true ∧ 0 < m.payload.length
  · have hne : m.payload ≠ [] := List.length_pos_iff.mp hc.2
    have hsame := MemStore.saveRetainMsg_of_lookup hne (h hc.1 hne)
    have hrun : (callStore ((MemStore.storeMgr rangeOrder).saveRetainMsg m.topicName m.payload
        m.header.qos) : GoM MemStore (Option GoError)) b = (.ok none, b) :=
      congrArg (fun s => ((.ok none, { b with storeMgr := s }) :
        Except Fault (Option GoError) × Broker MemStore)) hsame
    rw [if_pos hc]
    exact bind_run_ok hrun
  · rw [if_neg hc]
    rfl

/-- The packet itself is forwarded, after the session has queued a reply. -/
theorem staysShut_forward {b b' : Broker MemStore} {msg : PacketRef} {m : PublishPacket}
    {r : Except Fault Handled} (hb : Outside this b) (hq : Queues this b b')
    (hcell : b.packets.cells msg = .publish m) (hmsg : msg < b.packets.next)
    (hunheard : Unheard cfg m.topicName b)
    (hr : ∀ handled, r = .ok handled → handled.forwarded = some msg) :
    StaysShut cfg this b (r, b') := by
  refine ⟨.of_queues hq, fun handled hok msg' hf => ?_⟩
  obtain rfl : msg = msg' := Option.some.inj ((hr handled hok).symm.trans hf)
  show Unheard cfg (b'.packets.cells msg).topicName b'
  rw [hq.cells msg hmsg, hcell]
  exact hunheard.of_queues hq hb.not_connected

/-- A reply that the session queues. -/
theorem sendNew_ok (this : SessionRef) (p : ControlPacket) (b : Broker MemStore) : ∃ err b',
    Channel.sendNew this p b = (.ok err, b') ∧ Queues this b b' := by
  obtain ⟨err, b', hrun⟩ := (sendNew_returns this p).ok b
  have hq := Channel.sendNew_queues this p b
  rw [hrun] at hq
  exact ⟨err, b', hrun, hq⟩

/-- The message of the store under an id of the session. -/
theorem getMsg_run {b b₁ : Broker MemStore} (hq : Queues this b b₁) (msgId : UInt16) :
    (callStore ((MemStore.storeMgr rangeOrder).getMsgByClientIdMsgId
        (b₁.sessions this).clientId msgId) : GoM MemStore (Except GoError Msg)) b₁ =
      (.ok (match b.storeMgr.indexClientIdMsgId.lookup
          (MemStore.clientIdMsgIdAsKey (b.sessions this).clientId msgId) with
        | none => .error (.store .errNoExsit)
        | some smsg => .ok smsg), b₁) := by
  have hid : (b₁.sessions this).clientId = (b.sessions this).clientId :=
    congrArg Prod.fst hq.gate
  show (Except.ok ((b₁.storeMgr.getMsgByClientIdMsgId (b₁.sessions this).clientId
    msgId).mapError GoError.store), b₁) = _
  rw [hid, hq.storeMgr, MemStore.getMsgByClientIdMsgId]
  cases b.storeMgr.indexClientIdMsgId.lookup
      (MemStore.clientIdMsgIdAsKey (b.sessions this).clientId msgId) with
  | none => rfl
  | some smsg => rfl

theorem onPublish_staysShut {b : Broker MemStore} {msg : PacketRef} {m : PublishPacket}
    (hb : Outside this b) (hcell : b.packets.cells msg = .publish m) (hmsg : msg < b.packets.next)
    (h : Passes cfg b this (.publish m)) :
    StaysShut cfg this b (onPublish (MemStore.storeMgr rangeOrder) this msg m b) := by
  obtain ⟨hclear, hqos⟩ := h
  rw [onPublish, bind_run_ok (clearRetained_of_passes rangeOrder hclear)]
  split
  next h0 =>
    obtain ⟨hretain, hunheard⟩ := (if_pos (Or.inl h0)).mp hqos
    obtain ⟨err, hrun⟩ := onPublishQos0_of_passes rangeOrder msg hretain
    show StaysShut cfg this b (onPublishQos0 (MemStore.storeMgr rangeOrder) msg m b)
    rw [hrun]
    refine staysShut_forward cfg hb (.refl b) hcell hmsg hunheard fun handled hok => ?_
    rw [← Except.ok.inj hok]
  next h1 =>
    obtain ⟨hretain, hunheard⟩ := (if_pos (Or.inr h1)).mp hqos
    obtain ⟨err, b₁, hsend, hq⟩ := sendNew_ok this
      (.puback { newPuback with messageID := m.messageID }) b
    have hsave := saveRetained_of_passes rangeOrder (b := b₁) (b₁.sessions this).clientId
      (m := m) (by rwa [hq.storeMgr])
    show StaysShut cfg this b (onPublishQos1 (MemStore.storeMgr rangeOrder) this msg m b)
    rw [onPublishQos1, bind_run_ok hsend, bind_run_ok (session_run this b₁), bind_run_ok hsave]
    refine staysShut_forward cfg hb hq hcell hmsg hunheard fun handled hok => ?_
    rw [← Except.ok.inj hok]
  next h2 =>
    have hneither : ¬ (m.header.qos = 0 ∨ m.header.qos = 1) := by
      rw [h2]
      decide
    have hkey := (if_neg hneither).mp hqos h2
    obtain ⟨err, b₁, hsend, hq⟩ := sendNew_ok this
      (.pubrec { newPubrec with messageID := m.messageID }) b
    obtain ⟨smsg, hsmsg⟩ := Finmap.mem_iff.mp hkey
    have hget := getMsg_run rangeOrder hq m.messageID
    rw [hsmsg] at hget
    show StaysShut cfg this b (onPublishQos2 (MemStore.storeMgr rangeOrder) this m b)
    rw [onPublishQos2, bind_run_ok hsend, bind_run_ok (session_run this b₁), bind_run_ok hget]
    refine ⟨.of_queues hq, fun handled hok msg' hf => ?_⟩
    rw [← Except.ok.inj hok] at hf
    exact absurd hf (by simp)
  · exact staysShut_pure cfg b none

theorem onPubrel_staysShut {b : Broker MemStore} {m : IdPacket} (hb : Outside this b)
    (h : Passes cfg b this (.pubrel m)) :
    StaysShut cfg this b (onPubrel (MemStore.storeMgr rangeOrder) this m b) := by
  obtain ⟨err, b₁, hsend, hq⟩ := sendNew_ok this
    (.pubcomp { newPubcomp with messageID := m.messageID }) b
  have hget := getMsg_run rangeOrder hq m.messageID
  rw [onPubrel, bind_run_ok hsend, bind_run_ok (session_run this b₁), bind_run_ok hget]
  cases hsmsg : b.storeMgr.indexClientIdMsgId.lookup
      (MemStore.clientIdMsgIdAsKey (b.sessions this).clientId m.messageID) with
  | none =>
    refine ⟨.of_queues hq, fun handled hok msg' hf => ?_⟩
    rw [← Except.ok.inj hok] at hf
    exact absurd hf (by simp)
  | some smsg =>
    simp only [Passes, hsmsg] at h
    obtain ⟨hnot, hunheard⟩ := h
    have hremove : (callStore ((MemStore.storeMgr rangeOrder).removeMsgById smsg.id) :
        GoM MemStore (Option GoError)) b₁ = (.ok (some (.store .errNoExsit)), b₁) := by
      have hnone : b₁.storeMgr.indexId.lookup smsg.id = none := by
        rw [hq.storeMgr]
        exact Finmap.lookup_eq_none.mpr hnot
      rw [callStore_run]
      simp only [MemStore.storeMgr, MemStore.removeMsgById, hnone]
      rfl
    simp only
    rw [bind_run_ok hremove, bind_run_ok (newPacket_run _ _)]
    have hq' : Queues this b₁ (newPacket (.publish
        { header := { newPublish.header with qos := smsg.qos }
          payload := smsg.body
          topicName := smsg.topic }) b₁).2 := newPacket_queues _ b₁
    refine ⟨.of_queues (hq.trans hq'), fun handled hok msg' hf => ?_⟩
    obtain rfl := Except.ok.inj hok
    obtain rfl : b₁.packets.next = msg' := Option.some.inj hf
    have hcell : ∀ q, (b₁.packets.alloc q).2.cells b₁.packets.next = q := fun q =>
      Heap.alloc_self q b₁.packets
    show Unheard cfg (((b₁.packets.alloc _).2.cells b₁.packets.next).topicName) _
    rw [hcell]
    exact hunheard.of_queues (hq.trans hq') hb.not_connected

/-- A SUBSCRIBE without filters. -/
theorem onSubscribe_staysShut {m : SubscribePacket} (h : m.topics = []) (b : Broker MemStore) :
    StaysShut cfg this b (onSubscribe this m b) := by
  have hadd : TreeSubsMgr.addAll this m.topics m.qoss b.subscriptionMgr =
      .ok b.subscriptionMgr := by
    rw [h, TreeSubsMgr.addAll]
  have hspawn : Shut this b { b with spawned := b.spawned ++ [.procRetainMessages this] } :=
    ⟨rfl, rfl, fun _ _ => rfl, rfl, rfl, fun _ hc => hc⟩
  obtain ⟨err, b', hsend, hq⟩ := sendNew_ok this
    (.suback { newSuback with messageID := m.messageID, returnCodes := m.qoss })
    { b with spawned := b.spawned ++ [.procRetainMessages this] }
  rw [onSubscribe, bind_run_ok (get_run b), hadd]
  simp only
  rw [bind_run_ok (modifySubscriptionMgr_run _ _), bind_run_ok (spawn_run _ _), bind_run_ok hsend]
  refine ⟨hspawn.trans (.of_queues hq), fun handled hok msg hf => ?_⟩
  rw [← Except.ok.inj hok] at hf
  exact absurd hf (by simp)

/-- A session that is not in the tree has nothing to unsubscribe from. -/
theorem onUnsubscribe_staysShut (m : UnsubscribePacket) {b : Broker MemStore}
    (hb : Outside this b) : StaysShut cfg this b (onUnsubscribe this m b) := by
  have htree : (modifySubscriptionMgr (fun tree =>
      m.topics.foldl (fun tree s => tree.del s (some this)) tree) : GoM MemStore Unit) b =
        (.ok (), b) := by
    rw [modifySubscriptionMgr_run, TreeSubsMgr.foldl_del_of_absent m.topics hb.absent]
  obtain ⟨err, b', hsend, hq⟩ := sendNew_ok this
    (.unsuback { header := {}, messageID := m.messageID }) b
  rw [onUnsubscribe, bind_run_ok htree, bind_run_ok hsend]
  refine ⟨.of_queues hq, fun handled hok msg hf => ?_⟩
  rw [← Except.ok.inj hok] at hf
  exact absurd hf (by simp)

/-- A DISCONNECT closes the session, and may take another one out of the manager's table. -/
theorem onDisconnect_staysShut {b : Broker MemStore} (hb : Outside this b) :
    StaysShut cfg this b (onDisconnect this b) := by
  have hreport : ∃ b', mgrOnDisconnected this b = (.ok (), b') ∧ Shut this b b' := by
    rw [mgrOnDisconnected, report, bind_run_ok (session_run this b)]
    by_cases hrunning : (b.sessions this).clostep ≠ .running
    · rw [if_pos hrunning]
      exact ⟨b, rfl, .refl b⟩
    · have hremove : Shut this b { b with
          subscriptionMgr := TreeSubsMgr.removeSession this b.subscriptionMgr } :=
        ⟨TreeSubsMgr.removeSession_of_absent hb.absent, rfl, fun _ _ => rfl, rfl, rfl, fun _ h => h⟩
      have hevent : ∀ (clientId : GoString) (b₁ : Broker MemStore),
          Shut this b₁ (mgrEvent (SessionMgr.disconnect clientId this) b₁).2 := fun clientId b₁ =>
        ⟨rfl, rfl, fun _ _ => rfl, rfl, rfl, fun _ h => SessionMgr.lookup_of_disconnect h⟩
      rw [if_neg hrunning, bind_run_ok (modifySubscriptionMgr_run _ _),
        bind_run_ok (modifySession_run _ _ _)]
      have hclosing : ∀ b₁ : Broker MemStore, Shut this b₁
          (b₁.setSession this fun s => { s with clostep := .closing }) :=
        .setSession (fun _ => rfl) fun _ => rfl
      exact ⟨_, rfl, (hremove.trans (hclosing _)).trans (hevent (b.sessions this).clientId _)⟩
  obtain ⟨b', hrun, hshut⟩ := hreport
  rw [onDisconnect, bind_run_ok hrun]
  refine ⟨hshut, fun handled hok msg hf => ?_⟩
  rw [← Except.ok.inj hok] at hf
  exact absurd hf (by simp)

theorem procFrontRemoteMsg_staysShut {b : Broker MemStore} (msg : PacketRef) {p : ControlPacket}
    (hb : Outside this b) (hrunning : (b.sessions this).clostep = .running)
    (hcell : b.packets.cells msg = p) (hmsg : msg < b.packets.next)
    (haccepts : ¬ Accepts b this p) (h : Passes cfg b this p) :
    StaysShut cfg this b
      (procFrontRemoteMsg cfg (MemStore.storeMgr rangeOrder) this msg p b) := by
  cases p with
  | connect m =>
    have hbit : m.reservedBit &&& 0x1 = 0x1 := by
      by_contra hbit
      exact haccepts ⟨hrunning, hb.not_connected, hbit⟩
    have hrun : onConnect cfg this m b = (pure { err := connErrors errProtocolViolation } :
        GoM MemStore Handled) b := by
      rw [onConnect, bind_run_ok (session_run this b), if_neg hb.not_connected, if_pos hbit]
    show StaysShut cfg this b (onConnect cfg this m b)
    rw [hrun]
    exact staysShut_pure cfg b _
  | connack m => exact h.elim
  | publish m => exact onPublish_staysShut cfg rangeOrder hb hcell hmsg h
  | puback m =>
    exact staysShut_of_queues cfg (onAck_queues cfg this _) (.bind fun _ => .pure rfl) b
  | pubrec m =>
    exact staysShut_of_queues cfg (onPubrec_queues this m)
      (.bind fun _ => .bind fun _ => .bind fun _ => .pure rfl) b
  | pubrel m => exact onPubrel_staysShut cfg rangeOrder hb h
  | pubcomp m =>
    exact staysShut_of_queues cfg (onAck_queues cfg this _) (.bind fun _ => .pure rfl) b
  | subscribe m => exact onSubscribe_staysShut cfg h b
  | suback m =>
    exact staysShut_of_queues cfg (onAck_queues cfg this _) (.bind fun _ => .pure rfl) b
  | unsubscribe m => exact onUnsubscribe_staysShut cfg m hb
  | unsuback m =>
    exact staysShut_of_queues cfg (onAck_queues cfg this _) (.bind fun _ => .pure rfl) b
  | pingreq m =>
    exact staysShut_of_queues cfg (onPingreq_queues this) (.bind fun _ => .pure rfl) b
  | pingresp m => exact staysShut_pure cfg b _
  | disconnect m => exact onDisconnect_staysShut cfg hb

/-! ## Any number of packets -/

/-- A packet that passes leaves the session shut off, whether it is handled to the end or not. -/
theorem recvMsg_shut (order : SubscriberOrder) {b : Broker MemStore} {p : ControlPacket}
    (hb : Outside this b) (haccepts : ¬ Accepts b this p)
    (h : (b.sessions this).clostep = .running → Passes cfg b this p) :
    Shut this b (recvMsg cfg (MemStore.storeMgr rangeOrder) order this p b).2 := by
  rw [recvMsg, bind_run_ok (session_run this b)]
  by_cases hrunning : (b.sessions this).clostep = .running
  · rw [if_neg (not_not.mpr hrunning), bind_run_ok (newPacket_run _ _)]
    have hnew : Queues this b (newPacket p b).2 := newPacket_queues p b
    have hb₁ := hb.of_shut (.of_queues hnew)
    obtain ⟨hshut, hforward⟩ := procFrontRemoteMsg_staysShut cfg rangeOrder
      b.packets.next hb₁ hrunning (Heap.alloc_self p b.packets) (Nat.lt_succ_self _) haccepts
      (h hrunning)
    -- the handler, and the forwarding of a message that is not heard
    have hall := (Shut.of_queues hnew).trans hshut
    rcases hr : procFrontRemoteMsg cfg (MemStore.storeMgr rangeOrder) this b.packets.next p
        (newPacket p b).2 with ⟨e | handled, b₂⟩
    · rw [newPacket_run] at hr
      rw [bind_run_error hr]
      rw [newPacket_run, hr] at hall
      exact hall
    · have hb₂ := hb.of_shut hall
      rw [newPacket_run] at hr hall hforward hb₂
      rw [bind_run_ok hr]
      rw [hr] at hall hforward hb₂
      cases hf : handled.forwarded with
      | none => exact hall
      | some msg =>
        obtain ⟨b₃, hrun, hunseen⟩ := forward_unseen cfg order hb₂.isServer
          (hforward handled rfl msg hf)
        rw [hrun]
        exact hall.trans (hunseen.shut this)
  · rw [if_pos hrunning]
    exact .refl b

variable (this)

/-- Up to an accepted CONNECT, each packet finds its session closing or passes. -/
def AllPass : List (Inbound × SubscriberOrder) → Broker MemStore → Prop
  | [], _ => True
  | (p, order) :: ps, b =>
    Accepts b this p.1 ∨ ((b.sessions this).clostep = .running → Passes cfg b this p.1) ∧
      match recvMsg cfg (MemStore.storeMgr rangeOrder) order this p.1 b with
      | (.ok _, b') => AllPass ps b'
      | (.error _, _) => True

/-- What is promised of a packet before the CONNECT: the tree, the store and the lists of other
sessions are as before, and the session is neither connected nor filed under a client id. -/
structure Gated (b b' : Broker MemStore) : Prop where
  subscriptionMgr : b'.subscriptionMgr = b.subscriptionMgr
  storeMgr : b'.storeMgr = b.storeMgr
  lists : ∀ s, s ≠ this → (b'.sessions s).lists = (b.sessions s).lists
  not_connected : ¬ (b'.sessions this).isConnected
  not_filed : ∀ clientId, b'.mgr.connectedSessionMap.lookup clientId ≠ some this

/-- Every packet up to an accepted CONNECT keeps the promise. -/
def GateHolds : List (Inbound × SubscriberOrder) → Broker MemStore → Prop
  | [], _ => True
  | (p, order) :: ps, b =>
    Accepts b this p.1 ∨
      Gated this b (recvMsg cfg (MemStore.storeMgr rangeOrder) order this p.1 b).2 ∧
        match recvMsg cfg (MemStore.storeMgr rangeOrder) order this p.1 b with
        | (.ok _, b') => GateHolds ps b'
        | (.error _, _) => True

variable {this}

instance allPassDecidable (this : SessionRef) : ∀ (ps : List (Inbound × SubscriberOrder))
    (b : Broker MemStore), Decidable (AllPass cfg rangeOrder this ps b)
  | [], _ => .isTrue trivial
  | (p, order) :: ps, b =>
    have : Decidable (match recvMsg cfg (MemStore.storeMgr rangeOrder) order this p.1 b with
        | (.ok _, b') => AllPass cfg rangeOrder this ps b'
        | (.error _, _) => True) :=
      match recvMsg cfg (MemStore.storeMgr rangeOrder) order this p.1 b with
      | (.ok _, b') => allPassDecidable this ps b'
      | (.error _, _) => .isTrue trivial
    inferInstanceAs (Decidable (_ ∨ _ ∧ _))

/-- A server session that nothing refers to stays shut off until its CONNECT is accepted, if
all its packets until then pass. -/
theorem gateHolds_of_allPass (ps : List (Inbound × SubscriberOrder)) :
    ∀ {b : Broker MemStore}, Outside this b → AllPass cfg rangeOrder this ps b →
      GateHolds cfg rangeOrder this ps b := by
  induction ps with
  | nil => exact fun _ _ => trivial
  | cons pp ps ih =>
    intro b hb hall
    obtain ⟨p, order⟩ := pp
    rw [AllPass] at hall
    rw [GateHolds]
    by_cases haccepts : Accepts b this p.1
    · exact .inl haccepts
    obtain ⟨hpass, hrest⟩ := hall.resolve_left haccepts
    have hshut := recvMsg_shut cfg rangeOrder order hb haccepts hpass
    have hb' := hb.of_shut hshut
    refine .inr ⟨⟨hshut.subscriptionMgr, hshut.storeMgr, hshut.lists, hb'.not_connected,
      hb'.not_filed⟩, ?_⟩
    rcases hr : recvMsg cfg (MemStore.storeMgr rangeOrder) order this p.1 b with ⟨e | u, b'⟩
    · trivial
    · rw [hr] at hb' hrest
      exact ih hb' hrest

/-- A new broker of server sessions. -/
def newBroker : Broker MemStore :=
  (Process.start {} MemStore.newStoreMgr fun _ => true).broker

theorem outside_newBroker (s : SessionRef) : Outside s newBroker where
  isServer := rfl
  not_connected := by
    show ¬ (0 : ℤ) < 0
    omega
  absent := TreeSubsMgr.absent_newNode s
  not_filed clientId h := absurd h (by simp [newBroker, Process.start])

/-- A PUBLISH that nobody has subscribed to, and the CONNECT. -/
theorem gateHolds_of_allPass_unheard : GateHolds {} default 0
    [(⟨_, publishOf_decoded (str "x") (str "m") 0 0⟩, RangeOrder.ascending),
      (⟨_, connectAs_decoded (str "a")⟩, RangeOrder.ascending)]
    newBroker :=
  gateHolds_of_allPass {} default _ (outside_newBroker 0) (by decide +kernel)

/-- A CONNACK connects a session that has sent no CONNECT, and a SUBSCRIBE enters one into the
tree. -/
theorem connack_connects_and_subscribe_enters :
    Outside 0 newBroker ∧
      ((recvMsg {} (MemStore.storeMgr default) RangeOrder.ascending 0 (connackOf 0)
        newBroker).2.sessions 0).isConnected ∧
      0 ∈ (recvMsg {} (MemStore.storeMgr default) RangeOrder.ascending 0 (subscribeByte 120 0)
        newBroker).2.subscriptionMgr.getSessions (str "x") := by
  refine ⟨outside_newBroker 0, ?_, ?_⟩
  · decide +kernel
  · decide +kernel

/-- A new broker after the CONNECT of session 0. -/
def afterConnect (rangeOrder : RangeOrder GoString Msg) : Broker MemStore :=
  (recvMsg {} (MemStore.storeMgr rangeOrder) RangeOrder.ascending 0 (connectAs (str "a"))
    newBroker).2

end Session

end MqttBroker

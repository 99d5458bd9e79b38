import MqttBroker.Session.SystemTheorems

/-!
# A session that floods itself

What happens when a session is subscribed to what it publishes, and its client neither reads
nor acknowledges: every QoS 1 PUBLISH that its receive loop reads goes into the window of the
session itself, and when that is full into the queue behind it. `Flooded` says where the first
`k` messages are, and `Flooded.next_message` adds one.
-/

namespace MqttBroker

open Broker GoM Exec

variable {σ : Type} {cfg : Config} {S : StoreMgr σ} {old : ℕ}

/-! ## What a run makes of a session -/

/-- Session `s` is `x` afterwards. The packets below `old` and the subscriptions are as before. -/
structure Becomes (old : ℕ) (s : SessionRef) (x : Session) (b b' : Broker σ) : Prop where
  session : b'.sessions s = x
  subscriptionMgr : b'.subscriptionMgr = b.subscriptionMgr
  next : b.packets.next ≤ b'.packets.next
  cells : ∀ r < old, b'.packets.cells r = b.packets.cells r

theorem Becomes.trans {s : SessionRef} {x x' : Session} {b b' b'' : Broker σ}
    (h : Becomes old s x b b') (h' : Becomes old s x' b' b'') : Becomes old s x' b b'' where
  session := h'.session
  subscriptionMgr := h'.subscriptionMgr.trans h.subscriptionMgr
  next := le_trans h.next h'.next
  cells r hr := (h'.cells r hr).trans (h.cells r hr)

theorem newPacket_becomes (old : ℕ) (s : SessionRef) (p : ControlPacket) {b : Broker σ}
    (hold : old ≤ b.packets.next) :
    ∃ b', newPacket p b = (.ok b.packets.next, b') ∧ Becomes old s (b.sessions s) b b' ∧
      b.packets.next < b'.packets.next ∧ b'.packets.cells b.packets.next = p :=
  ⟨_, newPacket_run p b,
    ⟨rfl, rfl, Nat.le_succ _, fun _ hr => Heap.alloc_of_lt p (lt_of_lt_of_le hr hold)⟩,
    Nat.lt_succ_self _, Heap.alloc_self ..⟩

theorem Channel.send_becomes (old : ℕ) {s : SessionRef} {b : Broker σ} (msg : PacketRef)
    (hstarted : (b.sessions s).channel.isStoped = false) :
    ∃ b', send s msg b = (.ok none, b') ∧
      Becomes old s (Session.queueSend msg (b.sessions s)) b b' ∧ b'.packets = b.packets := by
  rw [send, bind_run_ok (session_run s b), hstarted, if_neg Bool.false_ne_true,
    bind_run_ok (modifySession_run s _ b), bind_run_ok (packet_run msg _),
    bind_run_ok (emit_run _ _)]
  exact ⟨_, rfl, ⟨setSession_self .., rfl, le_refl _, fun _ _ => rfl⟩, rfl⟩

namespace Session

theorem resetTimeout_becomes (cfg : Config) (old : ℕ) (this : SessionRef) (b : Broker σ) :
    ∃ timeout b',
    resetTimeout cfg this b = (.ok (), b') ∧
      Becomes old this { b.sessions this with timeout } b b' := by
  rw [resetTimeout, bind_run_ok (now_run b), modifySession_run]
  have hself : ∀ (f : Session → Session) (x : Session), f (b.sessions this) = x →
      Becomes old this x b (b.setSession this f) := by
    rintro f x rfl
    exact ⟨setSession_self .., rfl, le_refl _, fun _ _ => rfl⟩
  by_cases hserver : (b.sessions this).isServer = true
  · by_cases hconnected : (b.sessions this).isConnected
    · refine ⟨b.now + (b.sessions this).keepalive, _, rfl, hself _ _ ?_⟩
      rw [if_pos hserver, if_pos hconnected]
    · refine ⟨b.now + cfg.connectTimeout, _, rfl, hself _ _ ?_⟩
      rw [if_pos hserver, if_neg hconnected]
  · refine ⟨b.now + (b.sessions this).keepalive, _, rfl, hself _ _ ?_⟩
    rw [if_neg hserver]

/-- A QoS 1 PUBLISH that is not to be retained is acknowledged and forwarded. -/
theorem onPublish_becomes {this : SessionRef} {b : Broker σ} (msg : PacketRef) {p : PublishPacket}
    (hretain : p.header.retain = false) (hqos : p.header.qos = 1)
    (hstarted : (b.sessions this).channel.isStoped = false) :
    ∃ puback b', onPublish S this msg p b = (.ok { forwarded := some msg }, b') ∧
      Becomes b.packets.next this (queueSend puback (b.sessions this)) b b' := by
  have hclear : clearRetained S p b = (.ok none, b) := by
    rw [clearRetained, hretain, if_neg (by simp)]
    rfl
  have hsave : ∀ smsg (b : Broker σ), saveRetained S smsg p b = (.ok none, b) := by
    intro smsg b
    rw [saveRetained, hretain, if_neg (by simp)]
    rfl
  obtain ⟨b₁, hnew, hb₁, -, -⟩ := newPacket_becomes b.packets.next this
    (.puback { newPuback with messageID := p.messageID }) (le_refl b.packets.next)
  have hstarted₁ : (b₁.sessions this).channel.isStoped = false := by
    rw [hb₁.session]
    exact hstarted
  obtain ⟨b₂, hsend, hb₂, -⟩ := Channel.send_becomes b.packets.next b.packets.next hstarted₁
  refine ⟨b.packets.next, b₂, ?_, hb₁.session ▸ hb₁.trans hb₂⟩
  rw [onPublish, bind_run_ok hclear, hqos]
  show onPublishQos1 S this msg p b = _
  rw [onPublishQos1, Channel.sendNew, bind_run_ok ((bind_run_ok hnew).trans hsend),
    bind_run_ok (session_run this _), bind_run_ok (hsave _ _)]
  rfl

theorem number_becomes (this : SessionRef) {msg : PacketRef} {b : Broker σ} {p : PublishPacket}
    (hold : old ≤ msg) (hp : b.packets.cells msg = .publish p) : ∃ b' id,
    number this msg b = (.ok (), b') ∧ Becomes old this (b.sessions this).advanceMsgId b b' ∧
      b'.packets.cells msg = .publish { p with messageID := id } := by
  refine ⟨_, (b.sessions this).nextId, number_run this msg b,
    ⟨setSession_self .., rfl, le_refl _, fun r hr => ?_⟩, ?_⟩
  · exact Heap.modify_of_ne _ _ (Nat.ne_of_lt (lt_of_lt_of_le hr hold))
  · show (b.packets.modify msg _).cells msg = _
    rw [Heap.modify_self, hp]
    rfl

theorem allocToken_becomes (old : ℕ) (this : SessionRef) (tType : UInt8) (b : Broker σ) : ∃ t b',
    allocToken tType b = (.ok t, b') ∧ Becomes old this (b.sessions this) b b' ∧
      b'.packets = b.packets := by
  unfold allocToken
  cases newToken tType with
  | none => exact ⟨none, b, rfl, ⟨rfl, rfl, le_refl _, fun _ _ => rfl⟩, rfl⟩
  | some tok => exact ⟨_, _, rfl, ⟨rfl, rfl, le_refl _, fun _ _ => rfl⟩, rfl⟩

/-- `Publish` numbers the packet and the session, and goes on in `enqueue`. -/
theorem publish_becomes (cfg : Config) (this : SessionRef) {msg : PacketRef} {b : Broker σ}
    {p : PublishPacket}
    (hold : old ≤ msg) (hp : b.packets.cells msg = .publish p) : ∃ t b' id,
    publish cfg this msg b = enqueue cfg this ⟨msg, t⟩ b' ∧
      Becomes old this (b.sessions this).advanceMsgId b b' ∧
      b'.packets.cells msg = .publish { p with messageID := id } := by
  obtain ⟨b₁, id, hnumber, hb₁, hcell⟩ := number_becomes this hold hp
  obtain ⟨t, b₂, htoken, hb₂, hpackets⟩ :=
    allocToken_becomes old this (b₁.packets.cells msg).type b₁
  refine ⟨t, { b₂ with trace := b₂.trace ++ [.publish this t (b₁.packets.cells msg)] }, id, ?_, ?_,
    ?_⟩
  · rw [publish, bind_run_ok hnumber, bind_run_ok (packet_run msg _), bind_run_ok htoken,
      bind_run_ok (emit_run _ _)]
  · have hboth := hb₁.trans hb₂
    rw [hb₁.session] at hboth
    exact ⟨hboth.session, hboth.subscriptionMgr, hboth.next, hboth.cells⟩
  · show b₂.packets.cells msg = _
    rw [hpackets, hcell]

/-! ## Entries of an active session -/

/-- An accepted session that is connected and not ending. -/
structure Active (x : Session) : Prop where
  isServer : x.isServer = true
  running : x.clostep = .running
  connected : x.isConnected
  started : x.channel.isStoped = false

theorem Active.open {x : Session} (h : x.Active) : x.isConnected ∧ ¬ x.isClosed := by
  refine ⟨h.connected, ?_⟩
  rw [isClosed, h.running]
  simp

section

variable {this : SessionRef} {pt : PacketAndToken} {b : Broker σ}

/-- An active session with a full window puts an entry into its queue, or has to wait. -/
theorem enqueue_of_full (h : (b.sessions this).Active)
    (hwindow : cfg.maxSizeOfInflight ≤ (b.sessions this).inflightingList.length) :
    enqueue cfg this pt b = pushPedding cfg this pt b := by
  have hopen : ¬ (¬ (b.sessions this).isConnected ∨ (b.sessions this).isClosed) := by
    have := h.open
    tauto
  rw [enqueue, bind_run_ok (session_run this b), if_neg hopen,
    if_neg fun hroom => Nat.not_lt_of_le hwindow hroom.1]

theorem pushPedding_becomes (old : ℕ) (hopen : (b.sessions this).peddingChan.closed = false)
    (hroom : (b.sessions this).peddingChan.len < cfg.maxSizeOfPublishMsg) : ∃ b',
    pushPedding cfg this pt b = (.ok (pt.t, none), b') ∧
      Becomes old this (queuePedding pt (b.sessions this)) b b' ∧ b'.packets = b.packets := by
  rw [pushPedding, bind_run_ok (session_run this b), hopen, if_neg Bool.false_ne_true,
    if_pos hroom, bind_run_ok (modifySession_run _ _ _)]
  exact ⟨_, rfl, ⟨setSession_self .., rfl, le_refl _, fun _ _ => rfl⟩, rfl⟩

theorem pushPedding_blocks (hopen : (b.sessions this).peddingChan.closed = false)
    (hfull : cfg.maxSizeOfPublishMsg ≤ (b.sessions this).peddingChan.len) :
    pushPedding cfg this pt b = (.error (.blocked this pt), b) := by
  rw [pushPedding, bind_run_ok (session_run this b), hopen, if_neg Bool.false_ne_true,
    if_neg (Nat.not_lt_of_le hfull)]
  rfl

/-- An active session with room in its window puts a PUBLISH there. -/
theorem enqueue_becomes (old : ℕ) {p : PublishPacket} (h : (b.sessions this).Active)
    (hwindow : (b.sessions this).inflightingList.length < cfg.maxSizeOfInflight)
    (hsends : (b.sessions this).channel.iSendList.length < cfg.maxSizeOfPublishMsg)
    (hp : b.packets.cells pt.p = .publish p) : ∃ timeout b',
    enqueue cfg this pt b = (.ok (pt.t, none), b') ∧
      Becomes old this (queueSend pt.p (queueInflight { pt, timeout } (b.sessions this))) b b' ∧
      b'.packets = b.packets := by
  have hopen : ¬ (¬ (b.sessions this).isConnected ∨ (b.sessions this).isClosed) := by
    have := h.open
    tauto
  have hkind : (b.packets.cells pt.p).kind ∈
      [PacketType.publish, PacketType.pubrec, PacketType.pubrel] := by
    rw [hp, ControlPacket.kind]
    decide
  have hself := setSession_self this (queueInflight { pt, timeout := b.now + cfg.sentTimeout }) b
  obtain ⟨b₁, hsend, hb₁, hpackets⟩ := Channel.send_becomes old
    (b := b.setSession this (queueInflight { pt, timeout := b.now + cfg.sentTimeout })) pt.p
    (by rw [hself]; exact h.started)
  rw [hself] at hb₁
  refine ⟨_, b₁, ?_, ⟨hb₁.session, hb₁.subscriptionMgr, hb₁.next, hb₁.cells⟩, hpackets⟩
  have hpush : pushInflight cfg this pt b = (.ok (), b.setSession this _) := rfl
  have hinsert : insert2Inflight cfg this pt b = (.ok none, b₁) := by
    rw [insert2Inflight, bind_run_ok (session_run this b), h.started, if_neg Bool.false_ne_true,
      bind_run_ok (packet_run _ _), if_pos hkind, bind_run_ok hpush]
    exact bind_run_ok hsend
  rw [enqueue, bind_run_ok (session_run this b), if_neg hopen, if_pos ⟨hwindow, hsends⟩,
    bind_run_ok hinsert]
  rfl

end

/-- The message goes out without the retain flag, which it does not have here. -/
theorem sendToSubcriberStart_becomes (order : SubscriberOrder) (this : SessionRef)
    {msg : PacketRef} {b : Broker σ} {p : PublishPacket} (hold : old ≤ msg)
    (hp : b.packets.cells msg = .publish p) (hretain : p.header.retain = false) : ∃ b',
    sendToSubcriberStart order this msg b =
        (.ok (order.toList (b.subscriptionMgr.getSessions p.topicName)), b') ∧
      Becomes old this (b.sessions this) b b' ∧ b'.packets.next = b.packets.next ∧
      b'.packets.cells msg = .publish p := by
  have hclear : (ControlPacket.publish p).clearRetain = .publish p := by
    rw [ControlPacket.clearRetain, ← hretain]
  refine ⟨_, sendToSubcriberStart_run order this hp, ⟨rfl, rfl, le_refl _, fun r hr => ?_⟩, rfl, ?_⟩
  · exact Heap.modify_of_ne _ _ (Nat.ne_of_lt (lt_of_lt_of_le hr hold))
  · show (b.packets.modify msg _).cells msg = _
    rw [Heap.modify_self, hp, hclear]

end Session

/-- The receive loop reads a PUBLISH and comes to its loop over the subscribers. -/
theorem recvStart_becomes (cfg : Config) (S : StoreMgr σ) (order : SubscriberOrder)
    {this : SessionRef} {b : Broker σ}
    {p : PublishPacket} (hretain : p.header.retain = false) (hqos : p.header.qos = 1)
    (h : (b.sessions this).Active) : ∃ timeout puback msg b',
    recvStart cfg S order this (.publish p) b = (.ok [.subscribers this msg
      (order.toList (b.subscriptionMgr.getSessions p.topicName))], b') ∧
    Becomes b.packets.next this
      (Session.queueSend puback { b.sessions this with timeout }) b b' ∧
    b.packets.next ≤ msg ∧ msg < b'.packets.next ∧ b'.packets.cells msg = .publish p := by
  obtain ⟨timeout, b₁, hreset, hb₁⟩ :=
    Session.resetTimeout_becomes cfg b.packets.next this b
  have hread : Session.onChannelReaded cfg this b = (.ok (), b₁) := by
    rw [Session.onChannelReaded, bind_run_ok (session_run this b), if_pos h.running]
    exact hreset
  obtain ⟨b₂, hnew, hb₂, hlt, hcell⟩ := newPacket_becomes b.packets.next this (.publish p) hb₁.next
  have hsession₂ : b₂.sessions this = { b.sessions this with timeout } :=
    hb₂.session.trans hb₁.session
  have hstarted₂ : (b₂.sessions this).channel.isStoped = false := by
    rw [hsession₂]
    exact h.started
  obtain ⟨puback, b₃, hpublish, hb₃⟩ :=
    Session.onPublish_becomes (S := S) b₁.packets.next hretain hqos hstarted₂
  have hmsg : b₃.packets.cells b₁.packets.next = .publish p := (hb₃.cells _ hlt).trans hcell
  obtain ⟨b₄, hstart, hb₄, hnext, hmsg₄⟩ :=
    Session.sendToSubcriberStart_becomes order this hb₁.next hmsg hretain
  have hbefore : Becomes b.packets.next this (b₃.sessions this) b b₃ := by
    refine ⟨rfl, hb₃.subscriptionMgr.trans (hb₂.subscriptionMgr.trans hb₁.subscriptionMgr),
      le_trans hb₁.next (le_trans hb₂.next hb₃.next), fun r hr => ?_⟩
    rw [hb₃.cells r (lt_of_lt_of_le hr (le_trans hb₁.next hb₂.next)), hb₂.cells r hr,
      hb₁.cells r hr]
  have hafter := hbefore.trans hb₄
  rw [hb₃.session, hsession₂] at hafter
  refine ⟨timeout, puback, b₁.packets.next, b₄, ?_, hafter, hb₁.next, ?_, hmsg₄⟩
  · have hrunning₁ : ¬ (b₁.sessions this).clostep ≠ .running := by
      rw [hb₁.session]
      exact not_not_intro h.running
    have hserver₃ : (b₃.sessions this).isServer = true := by
      rw [hb₃.session, hsession₂]
      exact h.isServer
    have hdispatch : Session.procFrontRemoteMsg cfg S this b₁.packets.next (.publish p) b₂ =
        (.ok { forwarded := some b₁.packets.next }, b₃) := hpublish
    rw [recvStart, bind_run_ok hread, bind_run_ok (session_run this _), if_neg hrunning₁,
      bind_run_ok hnew, bind_run_ok hdispatch, forwardStart, bind_run_ok (session_run this _),
      if_pos hserver₃, bind_run_ok hstart, hbefore.subscriptionMgr]
    rfl
  · rw [hnext]
    exact lt_of_lt_of_le hlt hb₃.next

/-- A round for the session itself comes to `enqueue`. -/
theorem Work.round_becomes (hself : cfg.sendToSelf = true) {this : SessionRef} (granted : UInt8)
    {msg : PacketRef} {b : Broker σ} {p : PublishPacket}
    (h : (b.sessions this).Active) (hold : old ≤ msg) (hlt : msg < b.packets.next)
    (hp : b.packets.cells msg = .publish p) :
    ∃ t b' id, (Work.subscribers this msg [⟨this, granted⟩]).round cfg S b =
        (Session.enqueue cfg this ⟨msg, t⟩ >>= fun r => pure r.2.isNone : GoM σ Bool) b' ∧
      Becomes old this (b.sessions this).advanceMsgId b b' ∧
      b'.packets.cells msg = .publish { p with messageID := id } ∧ msg < b'.packets.next := by
  have hnot : ¬ (cfg.sendToSelf = false ∧ this = this) := by
    rw [hself]
    simp
  obtain ⟨b₁, hnew, hb₁, -, -⟩ := newPacket_becomes b.packets.next this (.publish
    (if granted < p.header.qos then
      { p.copy with header := { p.copy.header with qos := granted } } else p.copy))
    (le_refl b.packets.next)
  obtain ⟨t, b₂, id, hpublish, hb₂, hcell⟩ := Session.publish_becomes cfg this hold
    ((hb₁.cells msg hlt).trans hp)
  refine ⟨t, b₂, id, ?_, ?_, hcell, lt_of_lt_of_le hlt (le_trans hb₁.next hb₂.next)⟩
  · rw [Work.round, Session.sendToSubcriberRound, bind_run_ok (session_run this b), if_neg hnot,
      if_pos h.open, bind_run_ok (packet_run msg b), hp]
    refine (bind_run_ok hnew).trans ?_
    rw [bind_run, hpublish]
    rfl
  · refine ⟨?_, hb₂.subscriptionMgr.trans hb₁.subscriptionMgr, le_trans hb₁.next hb₂.next, ?_⟩
    · rw [hb₂.session, hb₁.session]
    · intro r hr
      rw [hb₂.cells r hr, hb₁.cells r (lt_trans (lt_of_lt_of_le hr hold) hlt)]

/-! ## One more message -/

/-- Session `s` has been handed `k` QoS 1 messages on its subscription to a topic, and its client
has neither acknowledged nor read any. -/
structure Flooded (cfg : Config) (order : SubscriberOrder) (topicName : GoString) (s : SessionRef)
    (k : ℕ) (b : Broker σ) : Prop where
  subscribed : ∃ granted, order.toList (b.subscriptionMgr.getSessions topicName) = [⟨s, granted⟩]
  active : (b.sessions s).Active
  sends : (b.sessions s).channel.iSendList.length ≤ 2 * k
  window : (b.sessions s).inflightingList.length = min k cfg.maxSizeOfInflight
  chan : (b.sessions s).peddingChan = { len := k - cfg.maxSizeOfInflight }
  entries : ∀ imsg ∈ (b.sessions s).inflightingList, imsg.pt.p < b.packets.next ∧
    0 < (b.packets.cells imsg.pt.p).details.qos

/-- The broker `b'` in which the receive loop of `s` comes to `enqueue` with the next message. -/
structure Entering (s : SessionRef) (k : ℕ) (p : PublishPacket) (pt : PacketAndToken)
    (b b' : Broker σ) : Prop where
  becomes : Becomes b.packets.next s (b'.sessions s) b b'
  active : (b'.sessions s).Active
  sends : (b'.sessions s).channel.iSendList.length ≤ 2 * k + 1
  inflightingList : (b'.sessions s).inflightingList = (b.sessions s).inflightingList
  peddingChan : (b'.sessions s).peddingChan = (b.sessions s).peddingChan
  lt_next : pt.p < b'.packets.next
  packet : ∃ id, b'.packets.cells pt.p = .publish { p with messageID := id }

variable {order : SubscriberOrder} {s : SessionRef} {k : ℕ}

/-- The receive loop reads one more message and comes to the `enqueue` of its own session. -/
theorem Flooded.entering (hself : cfg.sendToSelf = true) {p : PublishPacket} {b : Broker σ}
    (h : Flooded cfg order p.topicName s k b) (hretain : p.header.retain = false)
    (hqos : p.header.qos = 1) : ∃ msg granted t b₁ b₂,
    recvStart cfg S order s (.publish p) b = (.ok [.subscribers s msg [⟨s, granted⟩]], b₁) ∧
    (Work.subscribers s msg [⟨s, granted⟩]).round cfg S b₁ =
      (Session.enqueue cfg s ⟨msg, t⟩ >>= fun r => pure r.2.isNone : GoM σ Bool) b₂ ∧
    Entering s k p ⟨msg, t⟩ b b₂ := by
  obtain ⟨granted, hsubs⟩ := h.subscribed
  obtain ⟨timeout, puback, msg, b₁, hstart, hb₁, hmsg, hlt, hcell⟩ := recvStart_becomes cfg S
    order hretain hqos h.active
  rw [hsubs] at hstart
  have hactive₁ : (b₁.sessions s).Active := by
    rw [hb₁.session]
    exact ⟨h.active.isServer, h.active.running, h.active.connected, h.active.started⟩
  obtain ⟨t, b₂, id, hround, hb₂, hcell₂, hlt₂⟩ := Work.round_becomes (S := S) hself
    granted hactive₁ hmsg hlt hcell
  have hboth := hb₁.trans hb₂
  rw [hb₁.session] at hboth
  refine ⟨msg, granted, t, b₁, b₂, hstart, hround, hboth.session.symm ▸ hboth, ?_, ?_, ?_, ?_, hlt₂,
    id, hcell₂⟩
  all_goals rw [hboth.session]
  · exact ⟨h.active.isServer, h.active.running, h.active.connected, h.active.started⟩
  · show (GoList.push puback (b.sessions s).channel.iSendList).length ≤ _
    have hsends := h.sends
    rw [GoList.push, List.length_append, List.length_singleton]
    omega
  · rfl
  · rfl

/-- The entries of the window are as they were. -/
theorem Entering.entries {p : PublishPacket} {pt : PacketAndToken} {b b₂ b₃ : Broker σ}
    (h₂ : Entering s k p pt b b₂) (h : Flooded cfg order p.topicName s k b)
    (hpackets : b₃.packets = b₂.packets) : ∀ imsg ∈ (b₂.sessions s).inflightingList,
      imsg.pt.p < b₃.packets.next ∧ 0 < (b₃.packets.cells imsg.pt.p).details.qos := by
  intro imsg himsg
  rw [h₂.inflightingList] at himsg
  obtain ⟨hlt, hpos⟩ := h.entries imsg himsg
  rw [hpackets, h₂.becomes.cells _ hlt]
  exact ⟨lt_of_lt_of_le hlt h₂.becomes.next, hpos⟩

/-- The message goes into the window, or into the queue behind it. -/
theorem Entering.flooded (hsize : 2 * cfg.maxSizeOfInflight < cfg.maxSizeOfPublishMsg)
    (hk : k < cfg.maxSizeOfInflight + cfg.maxSizeOfPublishMsg) {p : PublishPacket}
    {pt : PacketAndToken} {b b₂ : Broker σ} (h₂ : Entering s k p pt b b₂)
    (h : Flooded cfg order p.topicName s k b) (hqos : p.header.qos = 1) :
    ∃ b₃, Session.enqueue cfg s pt b₂ = (.ok (pt.t, none), b₃) ∧
      Flooded cfg order p.topicName s (k + 1) b₃ := by
  have hsends := h₂.sends
  have hwindow : (b₂.sessions s).inflightingList.length = min k cfg.maxSizeOfInflight := by
    rw [h₂.inflightingList]
    exact h.window
  have hchan : (b₂.sessions s).peddingChan = { len := k - cfg.maxSizeOfInflight } :=
    h₂.peddingChan.trans h.chan
  have hsubscribed : ∀ {x : Session} {b₃ : Broker σ}, Becomes b.packets.next s x b₂ b₃ →
      ∃ granted, order.toList (b₃.subscriptionMgr.getSessions p.topicName) = [⟨s, granted⟩] := by
    intro x b₃ hb₃
    rw [hb₃.subscriptionMgr, h₂.becomes.subscriptionMgr]
    exact h.subscribed
  have hactive := h₂.active
  by_cases hroom : k < cfg.maxSizeOfInflight
  -- the window has room, and so has the send list, as nothing more was sent than two packets for
  -- each message
  · obtain ⟨id, hcell⟩ := h₂.packet
    have hshort : (b₂.sessions s).inflightingList.length < cfg.maxSizeOfInflight := by omega
    have hsend : (b₂.sessions s).channel.iSendList.length < cfg.maxSizeOfPublishMsg := by omega
    obtain ⟨timeout, b₃, hrun, hb₃, hpackets⟩ :=
      Session.enqueue_becomes b.packets.next hactive hshort hsend hcell
    refine ⟨b₃, hrun, hsubscribed hb₃, ?_, ?_, ?_, ?_, ?_⟩
    all_goals rw [hb₃.session]
    · exact ⟨hactive.isServer, hactive.running, hactive.connected, hactive.started⟩
    · show (GoList.push _ (b₂.sessions s).channel.iSendList).length ≤ _
      rw [GoList.push, List.length_append, List.length_singleton]
      omega
    · show (GoList.push _ (b₂.sessions s).inflightingList).length = _
      rw [GoList.push, List.length_append, List.length_singleton]
      omega
    · show (b₂.sessions s).peddingChan = _
      rw [hchan, show k + 1 - cfg.maxSizeOfInflight = k - cfg.maxSizeOfInflight by omega]
    · intro imsg himsg
      rcases List.mem_append.mp himsg with hmem | hnew
      · exact h₂.entries h hpackets imsg hmem
      · rw [List.mem_singleton.mp hnew]
        show pt.p < b₃.packets.next ∧ 0 < (b₃.packets.cells pt.p).details.qos
        rw [hpackets, hcell]
        refine ⟨h₂.lt_next, ?_⟩
        show 0 < p.header.qos
        rw [hqos]
        decide
  -- the window is full, and the message takes a place in the queue
  · have hfull : cfg.maxSizeOfInflight ≤ (b₂.sessions s).inflightingList.length := by omega
    have hlen : (b₂.sessions s).peddingChan.len < cfg.maxSizeOfPublishMsg := by
      rw [hchan]
      show k - cfg.maxSizeOfInflight < _
      omega
    obtain ⟨b₃, hrun, hb₃, hpackets⟩ := Session.pushPedding_becomes b.packets.next
      (by rw [hchan]) hlen
    refine ⟨b₃, (Session.enqueue_of_full hactive hfull).trans hrun, hsubscribed hb₃, ?_, ?_, ?_,
      ?_, ?_⟩
    all_goals rw [hb₃.session]
    · exact ⟨hactive.isServer, hactive.running, hactive.connected, hactive.started⟩
    · show (b₂.sessions s).channel.iSendList.length ≤ _
      omega
    · show (b₂.sessions s).inflightingList.length = _
      omega
    · show ({ (b₂.sessions s).peddingChan with
        len := (b₂.sessions s).peddingChan.len + 1 } : PeddingChan) = _
      rw [hchan, show k + 1 - cfg.maxSizeOfInflight = k - cfg.maxSizeOfInflight + 1 by omega]
    · exact h₂.entries h hpackets

/-! ## Runs -/

namespace Process

/-- The receive loop of session `s` reads a message and serves the session itself. -/
def floodTurns (order : SubscriberOrder) (s : SessionRef) (msg : Inbound) : List Action :=
  [.recvPacket s msg order, .advance 0, .advance 0, .advance 0]

/-- A message more, in the window or in the queue behind it. -/
theorem flooded_succ (hself : cfg.sendToSelf = true)
    (hsize : 2 * cfg.maxSizeOfInflight < cfg.maxSizeOfPublishMsg)
    (hk : k < cfg.maxSizeOfInflight + cfg.maxSizeOfPublishMsg) {p : PublishPacket}
    (hp : Decoded (.publish p)) (hretain : p.header.retain = false) (hqos : p.header.qos = 1)
    {b : Broker σ} (h : Flooded cfg order p.topicName s k b) : ∃ b',
      (system cfg S).exec (floodTurns order s ⟨.publish p, hp⟩)
          { broker := b, goroutines := [] } = some { broker := b', goroutines := [] } ∧
        Flooded cfg order p.topicName s (k + 1) b' := by
  obtain ⟨msg, granted, t, b₁, b₂, hstart, hround, h₂⟩ := h.entering (S := S) hself hretain hqos
  obtain ⟨b₃, hrun, h₃⟩ := h₂.flooded hsize hk h hqos
  have hround₃ : (Work.subscribers s msg [⟨s, granted⟩]).round cfg S b₁ = (.ok true, b₃) := by
    rw [hround, bind_run_ok hrun]
    rfl
  refine ⟨b₃, ?_, h₃⟩
  -- the round for the session itself, and the two steps that end the loop and the goroutine
  rw [floodTurns, StepSystem.exec_cons (step_recvPacket (p := ⟨.publish p, hp⟩) hstart),
    StepSystem.exec_cons (step_advance_next hround₃), StepSystem.exec_cons rfl]
  rfl

end Process
end MqttBroker

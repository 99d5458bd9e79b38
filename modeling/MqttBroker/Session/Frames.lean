import MqttBroker.Session.MsgHandler

/-!
# What queueing leaves alone

Most handlers only move entries of one session and queue packets to its channel. `Queues`
is the frame of such a run: the other sessions, the subscription tree, the store, the
tables of the manager and the packets that exist are as before, and so are the fields of
the session that decide whether it takes part in anything.
-/

namespace MqttBroker

open GoM Exec

variable {σ : Type}

/-- Whether an event is a call, and not a packet queued to a channel. -/
def Event.isCall : Event → Bool
  | .send _ _ => false
  | _ => true

/-- The calls of `Publish`, `sendToSubcriber` and `callbackOnMessage` so far. -/
def Broker.calls (b : Broker σ) : List Event := b.trace.filter Event.isCall

/-- The fields of a session that queueing does not write. -/
def Session.gate (s : Session) : GoString × Bool × Clostep × ℤ × Option TokenRef :=
  (s.clientId, s.isServer, s.clostep, s.connected, s.connectToken)

/-- Between `b` and `b'`, packets and entries of `this` were queued, or tokens completed. -/
structure Queues (this : SessionRef) (b b' : Broker σ) : Prop where
  calls : b'.calls = b.calls
  packets_next : b.packets.next ≤ b'.packets.next
  cells : ∀ r < b.packets.next, b'.packets.cells r = b.packets.cells r
  others : ∀ s, s ≠ this → b'.sessions s = b.sessions s
  gate : (b'.sessions this).gate = (b.sessions this).gate
  subscriptionMgr : b'.subscriptionMgr = b.subscriptionMgr
  storeMgr : b'.storeMgr = b.storeMgr
  mgr : b'.mgr = b.mgr
  spawned : b'.spawned = b.spawned
  closeSessionChan : b'.closeSessionChan = b.closeSessionChan

namespace Queues

variable {this : SessionRef}

theorem refl (b : Broker σ) : Queues this b b :=
  ⟨rfl, le_refl _, fun _ _ => rfl, fun _ _ => rfl, rfl, rfl, rfl, rfl, rfl, rfl⟩

theorem trans {b b' b'' : Broker σ} (h : Queues this b b') (h' : Queues this b' b'') :
    Queues this b b'' where
  calls := h'.calls.trans h.calls
  packets_next := le_trans h.packets_next h'.packets_next
  cells r hr := (h'.cells r (lt_of_lt_of_le hr h.packets_next)).trans (h.cells r hr)
  others s hs := (h'.others s hs).trans (h.others s hs)
  gate := h'.gate.trans h.gate
  subscriptionMgr := h'.subscriptionMgr.trans h.subscriptionMgr
  storeMgr := h'.storeMgr.trans h.storeMgr
  mgr := h'.mgr.trans h.mgr
  spawned := h'.spawned.trans h.spawned
  closeSessionChan := h'.closeSessionChan.trans h.closeSessionChan

instance : Std.Refl (Queues (σ := σ) this) := ⟨refl⟩

instance : IsTrans (Broker σ) (Queues this) := ⟨fun _ _ _ h h' => h.trans h'⟩

/-- Writing other fields of the session. -/
theorem setSession {f : Session → Session} (hf : ∀ s, (f s).gate = s.gate) (b : Broker σ) :
    Queues this b (b.setSession this f) := by
  refine ⟨rfl, le_refl _, fun _ _ => rfl, fun s hs => ?_, ?_, rfl, rfl, rfl, rfl, rfl⟩
  · exact Broker.setSession_of_ne f b hs
  · rw [Broker.setSession_self, hf]

theorem gate_eq {b b' : Broker σ} (h : Queues this b b') (s : SessionRef) :
    (b'.sessions s).gate = (b.sessions s).gate := by
  by_cases hs : s = this
  · rw [hs]
    exact h.gate
  · rw [h.others s hs]

theorem isConnected_iff {b b' : Broker σ} (h : Queues this b b') (s : SessionRef) :
    (b'.sessions s).isConnected ∧ ¬ (b'.sessions s).isClosed ↔
      (b.sessions s).isConnected ∧ ¬ (b.sessions s).isClosed := by
  have hgate := h.gate_eq s
  simp only [Session.gate, Prod.mk.injEq] at hgate
  rw [Session.isConnected, Session.isClosed, Session.isConnected, Session.isClosed, hgate.2.2.1,
    hgate.2.2.2.1]

end Queues

/-! ## The operations of `GoM` -/

namespace GoM

variable {this : SessionRef}

theorem modifySession_queues {f : Session → Session} (hf : ∀ s, (f s).gate = s.gate) :
    Respects (Queues this) (modifySession this f : GoM σ Unit) :=
  Respects.modify (Queues.setSession hf)

theorem newPacket_queues (p : ControlPacket) :
    Respects (Queues this) (newPacket p : GoM σ PacketRef) :=
  Respects.modifyGet fun _ => ⟨rfl, Nat.le_succ _, fun _ hr => Heap.alloc_of_lt p hr,
    fun _ _ => rfl, rfl, rfl, rfl, rfl, rfl, rfl⟩

theorem modifyToken_queues (t : TokenRef) (f : Token → Token) :
    Respects (Queues this) (modifyToken t f : GoM σ Unit) :=
  Respects.modify fun _ => ⟨rfl, le_refl _, fun _ _ => rfl, fun _ _ => rfl, rfl, rfl, rfl, rfl,
    rfl, rfl⟩

theorem flowComplete_queues (t : TokenRef) :
    Respects (Queues this) (flowComplete t : GoM σ Unit) :=
  Respects.bind (Respects.gets _) fun _ => Respects.ite (Respects.fault _) (modifyToken_queues t _)

theorem emitSend_queues (s : SessionRef) (p : ControlPacket) :
    Respects (Queues this) (emit (.send s p) : GoM σ Unit) := by
  refine Respects.modify fun b => ⟨?_, le_refl _, fun _ _ => rfl, fun _ _ => rfl, rfl, rfl, rfl,
    rfl, rfl, rfl⟩
  rw [Broker.calls, Broker.calls, List.filter_append]
  exact List.append_nil _

end GoM

/-! ## Channels and sessions -/

namespace Channel

variable (this : SessionRef)

theorem send_queues (msg : PacketRef) :
    Respects (Queues this) (send this msg : GoM σ (Option GoError)) := by
  refine Respects.bind (Respects.gets _) fun s => Respects.ite (Respects.pure _) ?_
  refine Respects.bind (modifySession_queues fun _ => rfl) fun _ => ?_
  refine Respects.bind (Respects.gets _) fun p => ?_
  exact Respects.bind (emitSend_queues _ _) fun _ => Respects.pure _

theorem sendNew_queues (p : ControlPacket) :
    Respects (Queues this) (sendNew this p : GoM σ (Option GoError)) :=
  Respects.bind (newPacket_queues p) fun msg => send_queues this msg

variable {this} in
/-- A running channel takes the packet. -/
theorem send_running (msg : PacketRef) {b : Broker σ}
    (h : (b.sessions this).channel.isStoped = false) :
    send this msg b = (.ok none, { b.setSession this (Session.queueSend msg) with
      trace := b.trace ++ [.send this (b.packets.cells msg)] }) := by
  rw [send, bind_run_ok (session_run this b), h, if_neg Bool.false_ne_true]
  rfl

end Channel

namespace Session

variable (cfg : Config) (this : SessionRef)

theorem insert2Inflight_queues (pt : PacketAndToken) :
    Respects (Queues this) (insert2Inflight cfg this pt : GoM σ (Option GoError)) := by
  have hsend : Respects (Queues this) (Channel.send this pt.p >>= fun _ => pure none :
      GoM σ (Option GoError)) :=
    Respects.bind (Channel.send_queues this pt.p) fun _ => Respects.pure _
  refine Respects.bind (Respects.gets _) fun s => Respects.ite (Respects.pure _) ?_
  refine Respects.bind (Respects.gets _) fun p => Respects.ite ?_ hsend
  refine Respects.bind (Respects.bind (Respects.gets _) fun now => ?_) fun _ => hsend
  exact modifySession_queues fun _ => rfl

theorem takePedding_queues : Respects (Queues this) (takePedding cfg this : GoM σ Unit) := by
  have hpop : Respects (Queues this) (popPedding this : GoM σ (Option PacketAndToken)) :=
    Respects.modifyGet fun b => Queues.setSession (f := dropPedding) (fun _ => rfl) b
  refine Respects.bind hpop fun pt => ?_
  cases pt with
  | none => exact Respects.pure ()
  | some pt =>
    exact Respects.bind (insert2Inflight_queues cfg this pt) fun _ => Respects.pure ()

theorem resend_queues (tmMsg : List InflightingMsg) :
    Respects (Queues this) (resend this tmMsg : GoM σ Unit) := by
  induction tmMsg with
  | nil => exact Respects.pure ()
  | cons imsg tmMsg ih => exact Respects.bind (Channel.send_queues this _) fun _ => ih

theorem checkInflightList_queues :
    Respects (Queues this) (checkInflightList cfg this : GoM σ Unit) := by
  refine Respects.bind (Respects.gets _) fun now => Respects.bind (Respects.gets _) fun s => ?_
  refine Respects.bind (modifySession_queues fun _ => rfl) fun _ => ?_
  refine Respects.bind (resend_queues this _) fun _ => Respects.bind (Respects.gets _) fun s => ?_
  exact Respects.ite (takePedding_queues cfg this) (Respects.pure ())

theorem enqueue_queues (pt : PacketAndToken) :
    Respects (Queues this) (enqueue cfg this pt : GoM σ (Option TokenRef × Option GoError)) := by
  refine Respects.bind (Respects.gets _) fun s => Respects.ite (Respects.pure _) ?_
  refine Respects.ite ?_ ?_
  · exact Respects.bind (insert2Inflight_queues cfg this pt) fun _ => Respects.pure _
  · refine Respects.bind (Respects.gets _) fun s => Respects.ite (Respects.pure _) ?_
    exact Respects.ite (Respects.bind (modifySession_queues fun _ => rfl) fun _ => Respects.pure _)
      (Respects.fault _)

/-! ## Acknowledgements -/

theorem subackResults_queues (msg : ControlPacket) (t : TokenRef) :
    Respects (Queues this) (subackResults msg t : GoM σ Unit) := by
  refine Respects.bind (Respects.gets _) fun tok => ?_
  split
  · split
    · exact Respects.fault _
    · exact modifyToken_queues t _
  · exact Respects.fault _

theorem finishFlow_queues (msg : ControlPacket) :
    Respects (Queues this) (finishFlow this msg : GoM σ Unit) := by
  have hremove : Respects (Queues this)
      (removeInflightMsg this msg.messageID : GoM σ (Option InflightingMsg)) :=
    Respects.modifyGet fun b => Queues.setSession (f := setInflight _) (fun _ => rfl) b
  refine Respects.bind hremove fun imsg => ?_
  cases imsg with
  | none => exact Respects.pure ()
  | some imsg =>
    obtain ⟨⟨p, t⟩, timeout, retryCnt⟩ := imsg
    cases t with
    | none => exact Respects.pure ()
    | some t =>
      exact Respects.ite
        (Respects.bind (subackResults_queues this msg t) fun _ => flowComplete_queues t)
        (flowComplete_queues t)

theorem onAck_queues (msg : ControlPacket) :
    Respects (Queues this) (onAck cfg this msg : GoM σ Handled) := by
  have htake : Respects (Queues this) (do
      let s ← session this
      if s.inflightingList.length < cfg.maxSizeOfInflight then takePedding cfg this :
        GoM σ Unit) :=
    Respects.bind (Respects.gets _) fun s =>
      Respects.ite (takePedding_queues cfg this) (Respects.pure ())
  refine Respects.bind ?_ fun _ => Respects.pure _
  exact Respects.ite (Respects.bind (finishFlow_queues this msg) fun _ => htake) htake

theorem onPubrec_queues (msg : IdPacket) :
    Respects (Queues this) (onPubrec this msg : GoM σ Handled) := by
  refine Respects.bind (newPacket_queues _) fun relmsg => ?_
  refine Respects.bind (Channel.send_queues this relmsg) fun _ => ?_
  refine Respects.bind ?_ fun _ => Respects.pure _
  exact Respects.modifyGet fun b => Queues.setSession (f := setInflight _) (fun _ => rfl) b

theorem onPingreq_queues : Respects (Queues this) (onPingreq this : GoM σ Handled) :=
  Respects.bind (Channel.sendNew_queues this _) fun _ => Respects.pure _

end Session
end MqttBroker

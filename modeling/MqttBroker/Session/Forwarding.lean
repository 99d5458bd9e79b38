import MqttBroker.Session.Rounds

/-!
# What forwarding leaves alone

`sendToSubcriber` calls `Publish` in a loop, and `Publish` consists of a few operations. A
relation that these respect is respected by the loop (`Publishing`). The one that matters
here is `Delivered`: entries and packets were queued, ids were given out, and nothing else
about any session, the store or the manager has changed.
-/

namespace MqttBroker

open Broker GoM Exec

variable {σ : Type} (cfg : Config)

/-! ## The operations of `Publish` -/

/-- A session without its queues and the counter of its ids. -/
def Session.bare (s : Session) : Session :=
  { s with
    lastMsgId := 0
    inflightingList := []
    peddingMsgList := []
    peddingChan := { s.peddingChan with len := 0 }
    channel := { s.channel with iSendList := [] } }

/-- The entries of `inflightingList`. -/
def Session.flight (s : Session) : List PacketAndToken := s.inflightingList.map InflightingMsg.pt

theorem Session.flight_queueInflight (imsg : InflightingMsg) (s : Session) :
    (queueInflight imsg s).flight = s.flight ++ [imsg.pt] :=
  List.map_append

/-- The operations of `Publish` on the packet `msg` respect `R`. -/
structure Publishing (msg : PacketRef) (R : Broker σ → Broker σ → Prop) : Prop where
  queue : ∀ s (f : Session → Session), (∀ x, (f x).bare = x.bare) →
    (∀ x, x.flight ⊆ (f x).flight) → Respects R (modifySession s f : GoM σ Unit)
  newPacket : ∀ p, Respects R (newPacket p : GoM σ PacketRef)
  number : ∀ id, Respects R (modifyPacket msg (ControlPacket.setMessageID id) : GoM σ Unit)
  allocToken : ∀ tType, Respects R (allocToken tType : GoM σ (Option TokenRef))
  publish : ∀ s t p, Respects R (emit (.publish s t p) : GoM σ Unit)
  send : ∀ s, Respects R (Channel.send s msg : GoM σ (Option GoError))

namespace Publishing

variable {msg : PacketRef} {R : Broker σ → Broker σ → Prop} [Std.Refl R] [IsTrans (Broker σ) R]

theorem insert2Inflight (h : Publishing msg R) (s : SessionRef) (t : Option TokenRef) :
    Respects R (Session.insert2Inflight cfg s ⟨msg, t⟩ : GoM σ (Option GoError)) := by
  have hsend : Respects R (Channel.send s msg >>= fun _ => pure none : GoM σ (Option GoError)) :=
    Respects.bind (h.send s) fun _ => Respects.pure _
  refine Respects.bind (Respects.gets _) fun ss => Respects.ite (Respects.pure _) ?_
  refine Respects.bind (Respects.gets _) fun p => Respects.ite ?_ hsend
  refine Respects.bind (Respects.bind (Respects.gets _) fun now => ?_) fun _ => hsend
  refine h.queue s _ (fun _ => rfl) fun x => ?_
  rw [Session.flight_queueInflight]
  exact List.subset_append_left _ _

theorem enqueue (h : Publishing msg R) (s : SessionRef) (t : Option TokenRef) :
    Respects R (Session.enqueue cfg s ⟨msg, t⟩ : GoM σ (Option TokenRef × Option GoError)) := by
  refine Respects.bind (Respects.gets _) fun ss => Respects.ite (Respects.pure _) ?_
  refine Respects.ite ?_ ?_
  · exact Respects.bind (h.insert2Inflight cfg s t) fun _ => Respects.pure _
  · refine Respects.bind (Respects.gets _) fun ss => Respects.ite (Respects.pure _) ?_
    refine Respects.ite (Respects.bind ?_ fun _ => Respects.pure _) (Respects.fault _)
    exact h.queue s _ (fun _ => rfl) fun _ => List.Subset.refl _

theorem session_publish (h : Publishing msg R) (s : SessionRef) :
    Respects R (Session.publish cfg s msg : GoM σ (Option TokenRef × Option GoError)) := by
  have hnext : Respects R (Session.nextMsgId s : GoM σ UInt16) :=
    h.queue s Session.advanceMsgId (fun _ => rfl) fun _ => List.Subset.refl _
  refine Respects.bind (Respects.bind hnext fun id => h.number id) fun _ => ?_
  refine Respects.bind (Respects.gets _) fun p => Respects.bind (h.allocToken _) fun t => ?_
  exact Respects.bind (h.publish s t p) fun _ => h.enqueue cfg s t

theorem sendToSubcriberRound (h : Publishing msg R) (this : SessionRef)
    (v : Σ _ : SessionRef, UInt8) :
    Respects R (Session.sendToSubcriberRound cfg this msg v : GoM σ Bool) := by
  refine Respects.bind (Respects.gets _) fun s => Respects.ite (Respects.pure _) ?_
  refine Respects.ite (Respects.bind (Respects.gets _) fun p => ?_) (Respects.pure _)
  split
  · refine Respects.bind (h.newPacket _) fun _ => ?_
    exact Respects.bind (h.session_publish cfg v.1) fun _ => Respects.pure _
  · exact Respects.pure _

end Publishing

theorem rounds_respects {α : Type} {R : Broker σ → Broker σ → Prop} [Std.Refl R]
    [IsTrans (Broker σ) R] {round : α → GoM σ Bool} (h : ∀ a, Respects R (round a)) (l : List α) :
    Respects R (rounds round l) := by
  induction l with
  | nil => exact Respects.pure ()
  | cons a l ih => exact Respects.bind (h a) fun _ => Respects.ite ih (Respects.pure ())

/-! ## Deliveries -/

/-- A call of `Publish`, or a PUBLISH queued to a channel. -/
def Event.isDelivery : Event → Bool
  | .publish _ _ _ => true
  | .send _ p => p.kind = PacketType.publish
  | _ => false

/-- Between `b` and `b'`, messages were delivered. -/
structure Delivered (b b' : Broker σ) : Prop where
  bare : ∀ s, (b'.sessions s).bare = (b.sessions s).bare
  subscriptionMgr : b'.subscriptionMgr = b.subscriptionMgr
  storeMgr : b'.storeMgr = b.storeMgr
  mgr : b'.mgr = b.mgr
  spawned : b'.spawned = b.spawned
  closeSessionChan : b'.closeSessionChan = b.closeSessionChan
  trace : ∃ evs, b'.trace = b.trace ++ evs ∧ ∀ e ∈ evs, e.isDelivery = true

/-- A run that only delivers as long as `msg` is a PUBLISH, and leaves it one. -/
def Delivers (msg : PacketRef) (b b' : Broker σ) : Prop :=
  b.ValidMsg msg → Delivered b b' ∧ b'.ValidMsg msg

namespace Delivered

theorem refl (b : Broker σ) : Delivered b b :=
  ⟨fun _ => rfl, rfl, rfl, rfl, rfl, rfl, [], (List.append_nil _).symm, by simp⟩

theorem trans {b b' b'' : Broker σ} (h : Delivered b b') (h' : Delivered b' b'') :
    Delivered b b'' := by
  obtain ⟨evs, htrace, hevs⟩ := h.trace
  obtain ⟨evs', htrace', hevs'⟩ := h'.trace
  refine ⟨fun s => (h'.bare s).trans (h.bare s), h'.subscriptionMgr.trans h.subscriptionMgr,
    h'.storeMgr.trans h.storeMgr, h'.mgr.trans h.mgr, h'.spawned.trans h.spawned,
    h'.closeSessionChan.trans h.closeSessionChan, evs ++ evs', ?_, fun e he => ?_⟩
  · rw [htrace', htrace, List.append_assoc]
  · rcases List.mem_append.mp he with he | he
    · exact hevs e he
    · exact hevs' e he

/-- Events that deliveries do not count for are as before. -/
theorem filterMap_trace {α : Type} {f : Event → Option α} {b b' : Broker σ} (h : Delivered b b')
    (hf : ∀ e, e.isDelivery = true → f e = none) :
    b'.trace.filterMap f = b.trace.filterMap f := by
  obtain ⟨evs, htrace, hevs⟩ := h.trace
  rw [htrace, List.filterMap_append, List.filterMap_eq_nil_iff.mpr fun e he => hf e (hevs e he),
    List.append_nil]

end Delivered

section

variable {msg : PacketRef}

instance : Std.Refl (Delivers (σ := σ) msg) := ⟨fun b h => ⟨.refl b, h⟩⟩

instance : IsTrans (Broker σ) (Delivers msg) where
  trans _ _ _ h h' hvalid := by
    obtain ⟨hdel, hvalid'⟩ := h hvalid
    obtain ⟨hdel', hvalid''⟩ := h' hvalid'
    exact ⟨hdel.trans hdel', hvalid''⟩

theorem bare_setSession {f : Session → Session} (hf : ∀ x, (f x).bare = x.bare)
    (this s : SessionRef) (b : Broker σ) :
    ((b.setSession this f).sessions s).bare = (b.sessions s).bare := by
  by_cases hs : s = this
  · rw [hs, setSession_self]
    exact hf _
  · rw [setSession_of_ne f b hs]

theorem modifySession_delivers {s : SessionRef} {f : Session → Session}
    (hf : ∀ x, (f x).bare = x.bare) :
    Respects (Delivers msg) (modifySession s f : GoM σ Unit) :=
  Respects.modify fun b hvalid =>
    ⟨⟨fun s' => bare_setSession hf s s' b, rfl, rfl, rfl, rfl, rfl, [], (List.append_nil _).symm,
      by simp⟩, hvalid⟩

theorem newPacket_delivers (p : ControlPacket) :
    Respects (Delivers msg) (newPacket p : GoM σ PacketRef) := by
  refine Respects.modifyGet fun b hvalid => ⟨⟨fun _ => rfl, rfl, rfl, rfl, rfl, rfl, [],
    (List.append_nil _).symm, by simp⟩, Nat.lt_succ_of_lt hvalid.1, ?_⟩
  have hcell := congrArg (fun p => (p.kind, p.type)) (Heap.alloc_of_lt p hvalid.1)
  exact hcell.trans hvalid.2

theorem modifyPacket_delivers {f : ControlPacket → ControlPacket}
    (hf : ∀ p, (f p).kind = p.kind ∧ (f p).type = p.type) :
    Respects (Delivers msg) (modifyPacket msg f : GoM σ Unit) := by
  refine Respects.modify fun b hvalid => ⟨⟨fun _ => rfl, rfl, rfl, rfl, rfl, rfl, [],
    (List.append_nil _).symm, by simp⟩, hvalid.1, ?_⟩
  rw [← hvalid.2, kindOf, kindOf, Heap.modify_self, (hf _).1, (hf _).2]

theorem emit_delivers {e : Event} (he : e.isDelivery = true) :
    Respects (Delivers msg) (emit e : GoM σ Unit) :=
  Respects.modify fun b hvalid => ⟨⟨fun _ => rfl, rfl, rfl, rfl, rfl, rfl, [e], rfl,
    fun e' he' => by rwa [List.mem_singleton.mp he']⟩, hvalid⟩

/-- What is queued is the PUBLISH itself. -/
theorem Channel.send_delivers (s : SessionRef) :
    Respects (Delivers msg) (send s msg : GoM σ (Option GoError)) := by
  refine Respects.bind (Respects.gets _) fun ss => Respects.ite (Respects.pure _) ?_
  refine Respects.bind (modifySession_delivers fun _ => rfl) fun _ => ?_
  refine Respects.bind_of (Respects.gets _) fun p b b' hp hvalid => ?_
  obtain ⟨rfl, rfl⟩ : b.packets.cells msg = p ∧ b = b' := pure_eq_ok hp
  obtain ⟨q, hq⟩ := hvalid.publish
  have hsend : Respects (Delivers msg) (emit (.send s (.publish q)) >>= fun _ => pure none :
      GoM σ (Option GoError)) :=
    Respects.bind (emit_delivers rfl) fun _ => Respects.pure _
  rw [hq]
  exact hsend b hvalid

theorem setMessageID_kind_type (id : UInt16) (p : ControlPacket) :
    (p.setMessageID id).kind = p.kind ∧ (p.setMessageID id).type = p.type := by
  cases p with
  | _ => exact ⟨rfl, rfl⟩

theorem publishing_delivers (msg : PacketRef) : Publishing msg (Delivers (σ := σ) msg) where
  queue _ _ hf _ := modifySession_delivers hf
  newPacket := newPacket_delivers
  number id := modifyPacket_delivers (setMessageID_kind_type id)
  allocToken tType := by
    unfold allocToken
    split
    · exact Respects.pure _
    · exact Respects.modifyGet fun b hvalid =>
        ⟨⟨fun _ => rfl, rfl, rfl, rfl, rfl, rfl, [], (List.append_nil _).symm, by simp⟩, hvalid⟩
  publish _ _ _ := emit_delivers rfl
  send := Channel.send_delivers

end

namespace Session

/-- What the end of a handler records of the message that it forwards. -/
def forwardEvent (this : SessionRef) (isServer : Bool) (p : PublishPacket) : Event :=
  if isServer then .sendToSubcriber this (.publish p) else .callbackOnMessage this (.publish p)

/-- A message is forwarded, and then delivered. -/
theorem forward_delivered (order : SubscriberOrder) (this : SessionRef) {msg : PacketRef}
    {p : PublishPacket} {b : Broker σ} (hvalid : b.ValidMsg msg)
    (hp : b.packets.cells msg = .publish p) :
    Delivered { b with trace := b.trace ++ [forwardEvent this (b.sessions this).isServer p] }
      (forward cfg order this (some msg) b).2 := by
  rw [forward, bind_run_ok (session_run this b)]
  cases hserver : (b.sessions this).isServer with
  | true =>
    let b₁ : Broker σ := { b with trace := b.trace ++ [.sendToSubcriber this (.publish p)] }
    have hclear : Respects (Delivers msg)
        (modifyPacket msg ControlPacket.clearRetain : GoM σ Unit) := by
      refine modifyPacket_delivers fun q => ?_
      cases q with
      | _ => exact ⟨rfl, rfl⟩
    obtain ⟨hdel, hvalid'⟩ := hclear b₁ hvalid
    have hrounds := rounds_respects
      ((publishing_delivers (σ := σ) msg).sendToSubcriberRound cfg this)
      (order.toList (b.subscriptionMgr.getSessions p.topicName)) _ hvalid'
    rw [if_pos rfl, sendToSubcriber, bind_run_ok (sendToSubcriberStart_run order this hp)]
    exact hdel.trans hrounds.1
  | false =>
    rw [if_neg (by simp), bind_run_ok (packet_run _ _), hp]
    exact .refl _

end Session
end MqttBroker

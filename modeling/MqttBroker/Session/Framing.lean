import MqttBroker.Session.Forwarding
import MqttBroker.Session.System

/-!
# Relations that all functions respect

What a relation between the broker before and after has to allow so that every function of
the sessions respects it, and with it every step of the process. Writing `connected`,
`keepalive` and `timeout` is apart: CONNECT, CONNACK, and the packets that are read and
written do so to their own session, and nothing else does. So is putting an entry into a list,
which `Publish`, `Send` and the refill of the window do; and taking an entry out of
`inflightingList` or giving it another packet, and writing the results of a token: the
acknowledgements that are read do so, and a QoS 0 PUBLISH that is written.
-/

namespace MqttBroker

open Broker GoM Exec

variable {σ : Type}

/-- The fields that a deadline depends on, and the deadline. -/
def Session.timing (s : Session) : Bool × ℤ × ℤ × ℤ :=
  (s.isServer, s.connected, s.keepalive, s.timeout)

/-- The fields that a CONNECT declares a will in. -/
def Session.will (s : Session) : Bool × Bool × GoString × UInt8 × GoString :=
  (s.willFlag, s.willRetain, s.willTopic, s.willQos, s.willMessage)

/-- A packet without its id and its retain flag. -/
def ControlPacket.message (p : ControlPacket) : ControlPacket := (p.setMessageID 0).clearRetain

theorem ControlPacket.setMessageID_message (id : UInt16) (p : ControlPacket) :
    (p.setMessageID id).message = p.message := by
  cases p with
  | _ => rfl

theorem ControlPacket.clearRetain_message (p : ControlPacket) :
    p.clearRetain.message = p.message := by
  cases p with
  | _ => rfl

/-- The entries of `inflightingList`, those that wait for a place there, and their number. -/
def Session.queues (s : Session) : List PacketAndToken × List PacketAndToken × ℕ :=
  (s.flight, s.peddingMsgList, s.peddingChan.len)

theorem Session.setWill_queues (m : ConnectPacket) (s : Session) :
    (setWill m s).queues = s.queues := by
  unfold setWill
  split
  · rfl
  · rfl

/-- The will and the entries. -/
def Session.settled (s : Session) : (Bool × Bool × GoString × UInt8 × GoString) ×
    List PacketAndToken × List PacketAndToken × ℕ :=
  (s.will, s.queues)

/-- What other fields of a session than those are written beside. -/
def Session.frame (s : Session) : (Bool × ℤ × ℤ × ℤ) ×
    ((Bool × Bool × GoString × UInt8 × GoString) × List PacketAndToken × List PacketAndToken × ℕ) ×
    Clostep :=
  (s.timing, s.settled, s.clostep)

/-- `R` allows all writes but those of the three fields, of a will, of entries, and of an
acknowledgement: of everything outside the sessions, of packets and tokens new and old, of the
other fields of a session, and the end of a session. -/
structure Framing (R : Broker σ → Broker σ → Prop) : Prop where
  rest : ∀ b b', b'.sessions = b.sessions → b'.packets = b.packets → b'.now = b.now →
    b'.tokens = b.tokens → R b b'
  alloc : ∀ p b, R b { b with packets := (b.packets.alloc p).2 }
  packet : ∀ msg f b, (∀ p, (f p).message = p.message) →
    R b { b with packets := b.packets.modify msg f }
  allocToken : ∀ tok b, R b { b with tokens := (b.tokens.alloc tok).2 }
  token : ∀ t f b, (∀ tok : Token, (f tok).kind = tok.kind) →
    (∀ tok, tok.complete = true → (f tok).complete = true) →
    R b { b with tokens := b.tokens.modify t f }
  field : ∀ s {f : Session → Session} b, (∀ x, (f x).timing = x.timing) →
    (∀ x, (f x).settled = x.settled) → (∀ x, (f x).clostep = x.clostep) → R b (b.setSession s f)
  ending : ∀ s {f : Session → Session} b, (∀ x, (f x).timing = x.timing) →
    (∀ x, (f x).settled = x.settled) → (∀ x, (f x).clostep ≠ .running) → R b (b.setSession s f)

/-- The packets that acknowledge another one. -/
def ControlPacket.acknowledges : ControlPacket → Prop
  | .puback _ | .pubrec _ | .pubcomp _ | .suback _ | .unsuback _ => True
  | _ => False

/-- `R` allows writes to the lists and the id counter of `s` that keep the entries in flight. -/
def Queueing (s : SessionRef) (R : Broker σ → Broker σ → Prop) : Prop :=
  ∀ {f : Session → Session} b, (∀ x, (f x).bare = x.bare) →
    (b.sessions s).flight ⊆ (f (b.sessions s)).flight → R b (b.setSession s f)

/-- `R` allows what the acknowledgement of a packet of `s` writes. -/
structure Acknowledging (s : SessionRef) (R : Broker σ → Broker σ → Prop) : Prop where
  inflight : ∀ {f : Session → Session} b, (∀ x, (f x).bare = x.bare) → R b (b.setSession s f)
  results : ∀ t f b, (∀ tok : Token, (f tok).complete = tok.complete) →
    R b { b with tokens := b.tokens.modify t f }

/-- `R` allows what `onInflightDone` does to `s`. -/
structure Finishing (s : SessionRef) (R : Broker σ → Broker σ → Prop) : Prop where
  remove : ∀ msgId, Respects R
    (Session.removeInflightMsg s msgId : GoM σ (Option InflightingMsg))
  take : ∀ cfg, Respects R (Session.takePedding cfg s : GoM σ Unit)
  results : ∀ t f b, (∀ tok : Token, (f tok).complete = tok.complete) →
    R b { b with tokens := b.tokens.modify t f }

section Frames

variable {R : Broker σ → Broker σ → Prop}

theorem modifySession_set {s : SessionRef}
    (hset : ∀ f b, (∀ x : Session, (f x).settled = x.settled) → R b (b.setSession s f))
    {f : Session → Session} (hf : ∀ x, (f x).settled = x.settled) :
    Respects R (modifySession s f : GoM σ Unit) :=
  Respects.modify fun b => hset f b hf

section Set

variable [Std.Refl R] [IsTrans (Broker σ) R] (cfg : Config) {s : SessionRef}
  (hset : ∀ f b, (∀ x : Session, (f x).settled = x.settled) → R b (b.setSession s f))

include hset

theorem Session.resetTimeout_set : Respects R (resetTimeout cfg s : GoM σ Unit) := by
  refine Respects.bind (Respects.gets _) fun now => modifySession_set hset fun x => ?_
  split
  · split
    · rfl
    · rfl
  · rfl

theorem Session.onChannelReaded_set : Respects R (onChannelReaded cfg s : GoM σ Unit) :=
  Respects.bind (Respects.gets _) fun _ =>
    Respects.ite (resetTimeout_set cfg hset) (Respects.pure ())

end Set

variable (hR : Framing R)

include hR

theorem modifySession_respects {s : SessionRef} {f : Session → Session}
    (hf : ∀ x, (f x).frame = x.frame) : Respects R (modifySession s f : GoM σ Unit) :=
  Respects.modify fun b => hR.field s b (fun x => congrArg Prod.fst (hf x))
    (fun x => congrArg (fun y => y.2.1) (hf x)) fun x => congrArg (fun y => y.2.2) (hf x)

theorem modify_respects {f : Broker σ → Broker σ}
    (hf : ∀ b, (f b).sessions = b.sessions ∧ (f b).packets = b.packets ∧ (f b).now = b.now ∧
      (f b).tokens = b.tokens) :
    Respects R (Exec.modify f : GoM σ Unit) :=
  Respects.modify fun b => hR.rest b _ (hf b).1 (hf b).2.1 (hf b).2.2.1 (hf b).2.2.2

theorem modifyToken_respects (t : TokenRef) {f : Token → Token}
    (hkind : ∀ tok, (f tok).kind = tok.kind)
    (hcomplete : ∀ tok, tok.complete = true → (f tok).complete = true) :
    Respects R (modifyToken t f : GoM σ Unit) :=
  Respects.modify fun b => hR.token t f b hkind hcomplete

theorem newPacket_respects (p : ControlPacket) : Respects R (newPacket p : GoM σ PacketRef) :=
  Respects.modifyGet fun b => hR.alloc p b

theorem modifyPacket_respects (msg : PacketRef) {f : ControlPacket → ControlPacket}
    (hf : ∀ p, (f p).message = p.message) : Respects R (modifyPacket msg f : GoM σ Unit) :=
  Respects.modify fun b => hR.packet msg f b hf

theorem callStore_respects {α : Type} (f : σ → α × σ) : Respects R (callStore f : GoM σ α) :=
  Respects.modifyGet fun b => hR.rest b _ rfl rfl rfl rfl

theorem mgrEvent_respects (event : SessionMgr → Option SessionRef × SessionMgr) :
    Respects R (mgrEvent event : GoM σ Unit) :=
  modify_respects hR fun _ => ⟨rfl, rfl, rfl, rfl⟩

variable [Std.Refl R]

theorem allocToken_respects (tType : UInt8) :
    Respects R (allocToken tType : GoM σ (Option TokenRef)) := by
  unfold allocToken
  split
  · exact Respects.pure _
  · exact Respects.modifyGet fun b => hR.allocToken _ b

variable [IsTrans (Broker σ) R]

theorem flowComplete_respects (t : TokenRef) : Respects R (flowComplete t : GoM σ Unit) :=
  Respects.bind (Respects.gets _) fun _ =>
    Respects.ite (Respects.fault _) (modifyToken_respects hR t (fun _ => rfl) fun _ _ => rfl)

namespace Channel

theorem send_respects (s : SessionRef) (msg : PacketRef) :
    Respects R (send s msg : GoM σ (Option GoError)) := by
  refine Respects.bind (Respects.gets _) fun ss => Respects.ite (Respects.pure _) ?_
  refine Respects.bind (modifySession_respects hR fun _ => rfl) fun _ => ?_
  refine Respects.bind (Respects.gets _) fun p => ?_
  exact Respects.bind (modify_respects hR fun _ => ⟨rfl, rfl, rfl, rfl⟩) fun _ => Respects.pure _

theorem sendNew_respects (s : SessionRef) (p : ControlPacket) :
    Respects R (sendNew s p : GoM σ (Option GoError)) :=
  Respects.bind (newPacket_respects hR p) fun msg => send_respects hR s msg

end Channel

namespace Session

variable (cfg : Config) (s : SessionRef)

omit hR [Std.Refl R] [IsTrans (Broker σ) R] in
/-- Entries that are sent again stay in flight. -/
theorem flight_renew (now : ℤ) (x : Session) :
    (setInflight (x.inflightingList.map (renew cfg now)) x).flight = x.flight := by
  show (x.inflightingList.map (renew cfg now)).map InflightingMsg.pt = _
  rw [List.map_map]
  refine List.map_congr_left fun imsg _ => ?_
  show (renew cfg now imsg).pt = imsg.pt
  unfold renew
  split
  · rfl
  · rfl

theorem publishing_respects (hqueue : ∀ s, Queueing s R) (msg : PacketRef) :
    Publishing msg R where
  queue s _ hf hflight := Respects.modify fun b => hqueue s b hf (hflight _)
  newPacket := newPacket_respects hR
  number id := modifyPacket_respects hR msg (ControlPacket.setMessageID_message id)
  allocToken := allocToken_respects hR
  publish _ _ _ := modify_respects hR fun _ => ⟨rfl, rfl, rfl, rfl⟩
  send s := Channel.send_respects hR s msg

theorem publish_respects (hqueue : ∀ s, Queueing s R) (msg : PacketRef) :
    Respects R (publish cfg s msg : GoM σ (Option TokenRef × Option GoError)) :=
  (publishing_respects hR hqueue msg).session_publish cfg s

omit hR [Std.Refl R] [IsTrans (Broker σ) R] in
variable {s} in
theorem pushInflight_respects (hqueue : Queueing s R) (pt : PacketAndToken) :
    Respects R (pushInflight cfg s pt : GoM σ Unit) := by
  intro b
  refine hqueue (f := queueInflight { pt, timeout := b.now + cfg.sentTimeout }) b (fun _ => rfl) ?_
  rw [flight_queueInflight]
  exact List.subset_append_left _ _

variable {s} in
theorem takePedding_respects (hqueue : Queueing s R) :
    Respects R (takePedding cfg s : GoM σ Unit) := by
  have hpop : Respects R (popPedding s : GoM σ (Option PacketAndToken)) :=
    Respects.modifyGet fun b =>
      hqueue (f := dropPedding) b (fun _ => rfl) (List.Subset.refl _)
  refine Respects.bind hpop fun pt => ?_
  cases pt with
  | none => exact Respects.pure ()
  | some pt =>
    have hsend : Respects R (Channel.send s pt.p >>= fun _ => pure none : GoM σ (Option GoError)) :=
      Respects.bind (Channel.send_respects hR s pt.p) fun _ => Respects.pure _
    refine Respects.bind (Respects.bind (Respects.gets _) fun ss => ?_) fun _ => Respects.pure ()
    refine Respects.ite (Respects.pure _) (Respects.bind (Respects.gets _) fun p => ?_)
    exact Respects.ite (Respects.bind (pushInflight_respects cfg hqueue pt) fun _ => hsend) hsend

variable {s} in
theorem finishing_of_acknowledging (hack : Acknowledging s R) : Finishing s R where
  remove _ := Respects.modifyGet fun b => hack.inflight (f := setInflight _) b fun _ => rfl
  take cfg := takePedding_respects hR cfg fun b hf _ => hack.inflight b hf
  results := hack.results

theorem resend_respects (tmMsg : List InflightingMsg) :
    Respects R (resend s tmMsg : GoM σ Unit) := by
  induction tmMsg with
  | nil => exact Respects.pure ()
  | cons imsg tmMsg ih => exact Respects.bind (Channel.send_respects hR s _) fun _ => ih

theorem checkInflightList_respects (htake : Respects R (takePedding cfg s : GoM σ Unit)) :
    Respects R (checkInflightList cfg s : GoM σ Unit) := by
  intro b
  rw [checkInflightList, bind_run_ok (now_run b), bind_run_ok (session_run s b),
    bind_run_ok (modifySession_run s _ b)]
  have hrenewed : R b (b.setSession s
      (setInflight ((b.sessions s).inflightingList.map (renew cfg b.now)))) := by
    have hsame : b.setSession s
        (setInflight ((b.sessions s).inflightingList.map (renew cfg b.now))) =
        b.setSession s fun x => setInflight (x.inflightingList.map (renew cfg b.now)) x :=
      setSession_congr rfl
    rw [hsame]
    refine hR.field s b (fun _ => rfl) (fun x => ?_) fun _ => rfl
    exact congrArg (fun l => (x.will, l, x.peddingMsgList, x.peddingChan.len))
      (flight_renew cfg b.now x)
  refine Trans.trans hrenewed (Respects.bind (resend_respects hR s _) (fun _ => ?_) _)
  refine Respects.bind (Respects.gets _) fun ss => ?_
  exact Respects.ite htake (Respects.pure ())

/-- A report ends the session, and keeps its deadline. -/
theorem report_respects (event : Session → SessionMgr → Option SessionRef × SessionMgr)
    {after : GoM σ Unit} (hafter : Respects R after) :
    Respects R (report s event after) := by
  refine Respects.bind (Respects.gets _) fun ss => Respects.ite (Respects.pure ()) ?_
  refine Respects.bind (modify_respects hR fun _ => ⟨rfl, rfl, rfl, rfl⟩) fun _ => ?_
  have hclosing : Respects R
      (modifySession s fun s => { s with clostep := .closing } : GoM σ Unit) :=
    Respects.modify fun b => hR.ending s b (fun _ => rfl) (fun _ => rfl) fun _ => by simp
  refine Respects.bind hclosing fun _ => ?_
  exact Respects.bind (mgrEvent_respects hR _) fun _ => hafter

theorem mgrOnDisconnected_respects : Respects R (mgrOnDisconnected s : GoM σ Unit) :=
  report_respects hR s _ (Respects.pure ())

theorem mgrOnConnectTimeout_respects : Respects R (mgrOnConnectTimeout s : GoM σ Unit) :=
  report_respects hR s _ (Respects.pure ())

theorem mgrOnPingTimeout_respects : Respects R (mgrOnPingTimeout s : GoM σ Unit) :=
  report_respects hR s _ (modify_respects hR fun _ => ⟨rfl, rfl, rfl, rfl⟩)

theorem onChannelError_respects : Respects R (onChannelError s : GoM σ Unit) :=
  Respects.bind (Respects.gets _) fun _ =>
    Respects.ite (mgrOnDisconnected_respects hR s) (mgrOnConnectTimeout_respects hR s)

theorem recvError_respects : Respects R (recvError s : GoM σ Unit) :=
  Respects.bind (Respects.gets _) fun _ =>
    Respects.ite (Respects.bind (modify_respects hR fun _ => ⟨rfl, rfl, rfl, rfl⟩) fun _ =>
      onChannelError_respects hR s) (onChannelError_respects hR s)

theorem onTimeout_respects : Respects R (onTimeout s : GoM σ Unit) := by
  have hping : Respects R (ping s : GoM σ Unit) :=
    Respects.bind (Respects.gets _) fun ss => Respects.ite
      (Respects.bind (Channel.sendNew_respects hR s _) fun _ => Respects.pure ()) (Respects.pure ())
  exact Respects.bind (Respects.gets _) fun ss => Respects.ite (Respects.ite
    (mgrOnPingTimeout_respects hR s) (mgrOnConnectTimeout_respects hR s)) hping

theorem onTick_respects (htake : Respects R (takePedding cfg s : GoM σ Unit)) :
    Respects R (onTick cfg s : GoM σ Unit) := by
  have hlast : ∀ ss : Session, Respects R (do
      checkInflightList cfg s
      if ss.isServer then
        Exec.modify fun b => { b with sessionInfoList := GoList.push s b.sessionInfoList }
          : GoM σ Unit) := by
    intro ss
    refine Respects.bind (checkInflightList_respects hR cfg s htake) fun _ => ?_
    exact Respects.ite (modify_respects hR fun _ => ⟨rfl, rfl, rfl, rfl⟩) (Respects.pure ())
  refine Respects.bind (Respects.gets _) fun ss => Respects.ite (Respects.pure ()) ?_
  refine Respects.bind (Respects.gets _) fun now => ?_
  exact Respects.ite (Respects.bind (onTimeout_respects hR s) fun _ => hlast ss) (hlast ss)

theorem close_respects : Respects R (close s : GoM σ Unit) := by
  have hclosed : Respects R
      (modifySession s fun s => { s with clostep := .closed } : GoM σ Unit) :=
    Respects.modify fun b => hR.ending s b (fun _ => rfl) (fun _ => rfl) fun _ => by simp
  have hhandshake : ∀ ss : Session, Respects R (completeHandshake ss : GoM σ Unit) := by
    intro ss
    refine Respects.ite (Respects.pure ()) (Respects.ite ?_ (Respects.ite ?_ (Respects.pure ())))
    · cases ss.disconnectToken with
      | none => exact Respects.pure ()
      | some t => exact flowComplete_respects hR t
    · cases ss.connectToken with
      | none => exact Respects.pure ()
      | some t =>
        exact Respects.bind (modifyToken_respects hR t (fun _ => rfl) fun _ h => h) fun _ =>
          flowComplete_respects hR t
  refine Respects.bind (Respects.gets _) fun ss => Respects.ite (Respects.pure ()) ?_
  refine Respects.bind hclosed fun _ => Respects.ite (Respects.fault _) ?_
  exact Respects.bind (modifySession_respects hR fun _ => rfl) fun _ => hhandshake ss

theorem closerRound_respects : Respects R (closerRound : GoM σ Unit) := by
  refine Respects.bind (Respects.gets id) fun b => ?_
  split
  · exact Respects.pure ()
  · exact Respects.bind (modify_respects hR fun _ => ⟨rfl, rfl, rfl, rfl⟩) fun _ =>
      close_respects hR _

/-! ## Handlers -/

theorem finishFlow_respects (hfinish : Finishing s R) (msg : ControlPacket) :
    Respects R (finishFlow s msg : GoM σ Unit) := by
  have hsuback : ∀ t, Respects R (subackResults msg t : GoM σ Unit) := fun t => by
    refine Respects.bind (Respects.gets _) fun tok => ?_
    split
    · split
      · exact Respects.fault _
      · exact Respects.modify fun b => hfinish.results t _ b fun _ => rfl
    · exact Respects.fault _
  refine Respects.bind (hfinish.remove _) fun imsg => ?_
  cases imsg with
  | none => exact Respects.pure ()
  | some imsg =>
    obtain ⟨⟨p, t⟩, timeout, retryCnt⟩ := imsg
    cases t with
    | none => exact Respects.pure ()
    | some t =>
      exact Respects.ite (Respects.bind (hsuback t) fun _ => flowComplete_respects hR t)
        (flowComplete_respects hR t)

omit hR in
/-- What `onInflightDone` does after the removal. -/
theorem refill_respects (htake : Respects R (takePedding cfg s : GoM σ Unit)) : Respects R (do
    let s₁ ← session s
    if s₁.inflightingList.length < cfg.maxSizeOfInflight then takePedding cfg s :
      GoM σ Unit) :=
  Respects.bind (Respects.gets _) fun _ => Respects.ite htake (Respects.pure ())

theorem onInflightDone_respects (hfinish : Finishing s R) (msg : ControlPacket) :
    Respects R (onInflightDone cfg s msg : GoM σ Unit) := by
  have hrefill := refill_respects cfg s (hfinish.take cfg)
  exact Respects.ite (Respects.bind (finishFlow_respects hR s hfinish msg) fun _ => hrefill) hrefill

theorem onPubrec_respects (hack : Acknowledging s R) (m : IdPacket) :
    Respects R (onPubrec s m : GoM σ Handled) := by
  refine Respects.bind (newPacket_respects hR _) fun relmsg => ?_
  refine Respects.bind (Channel.send_respects hR s relmsg) fun _ => ?_
  refine Respects.bind ?_ fun _ => Respects.pure _
  exact Respects.modifyGet fun b => hack.inflight (f := setInflight _) b fun _ => rfl

variable (S : StoreMgr σ)

theorem onPubrel_respects (m : IdPacket) : Respects R (onPubrel S s m) := by
  refine Respects.bind (Channel.sendNew_respects hR s _) fun _ => ?_
  refine Respects.bind (Respects.gets _) fun ss => ?_
  refine Respects.bind (callStore_respects hR _) fun r => ?_
  cases r with
  | error _ => exact Respects.pure _
  | ok smsg =>
    refine Respects.bind (callStore_respects hR _) fun _ => ?_
    exact Respects.bind (newPacket_respects hR _) fun _ => Respects.pure _

theorem onSubscribe_respects (m : SubscribePacket) :
    Respects R (onSubscribe s m : GoM σ Handled) := by
  refine Respects.bind (Respects.gets id) fun b => ?_
  split
  · exact Respects.fault _
  · refine Respects.bind (modify_respects hR fun _ => ⟨rfl, rfl, rfl, rfl⟩) fun _ => ?_
    refine Respects.bind (modify_respects hR fun _ => ⟨rfl, rfl, rfl, rfl⟩) fun _ => ?_
    exact Respects.bind (Channel.sendNew_respects hR s _) fun _ => Respects.pure _

theorem onUnsubscribe_respects (m : UnsubscribePacket) :
    Respects R (onUnsubscribe s m : GoM σ Handled) := by
  refine Respects.bind (modify_respects hR fun _ => ⟨rfl, rfl, rfl, rfl⟩) fun _ => ?_
  exact Respects.bind (Channel.sendNew_respects hR s _) fun _ => Respects.pure _

/-- The handlers of all packets but CONNECT and CONNACK; those of acknowledgements are asked
for more. -/
theorem procFrontRemoteMsg_respects (msg : PacketRef) {p : ControlPacket}
    (hconnect : ∀ m, p ≠ .connect m) (hconnack : ∀ m, p ≠ .connack m)
    (hack : p.acknowledges → Acknowledging s R) :
    Respects R (procFrontRemoteMsg cfg S s msg p) := by
  have hdone : p.acknowledges → Respects R (onAck cfg s p : GoM σ Handled) := fun hp =>
    Respects.bind (onInflightDone_respects hR cfg s (finishing_of_acknowledging hR (hack hp)) p)
      fun _ => Respects.pure _
  cases p with
  | connect m => exact absurd rfl (hconnect m)
  | connack m => exact absurd rfl (hconnack m)
  | publish m =>
    exact onPublish_respects (callStore_respects hR) (Channel.sendNew_respects hR s) msg m
  | puback m => exact hdone trivial
  | pubrec m => exact onPubrec_respects hR s (hack trivial) m
  | pubrel m => exact onPubrel_respects hR s S m
  | pubcomp m => exact hdone trivial
  | subscribe m => exact onSubscribe_respects hR s m
  | suback m => exact hdone trivial
  | unsubscribe m => exact onUnsubscribe_respects hR s m
  | unsuback m => exact hdone trivial
  | pingreq h => exact Respects.bind (Channel.sendNew_respects hR s _) fun _ => Respects.pure _
  | pingresp h => exact Respects.pure _
  | disconnect h =>
    exact Respects.bind (mgrOnDisconnected_respects hR s) fun _ => Respects.pure _

/-! ## Sessions of others -/

variable {s}

theorem onConnect_set
    (hset : ∀ f b, (∀ x : Session, (f x).settled = x.settled) → R b (b.setSession s f))
    {m : ConnectPacket} (hwill : ∀ b, R b (b.setSession s (setWill m))) :
    Respects R (onConnect cfg s m : GoM σ Handled) := by
  refine Respects.bind (Respects.gets _) fun ss => Respects.ite (Respects.pure _) ?_
  refine Respects.ite (Respects.pure _) ?_
  refine Respects.bind (modifySession_set hset fun _ => rfl) fun _ => ?_
  refine Respects.bind (mgrEvent_respects hR _) fun _ => ?_
  refine Respects.bind (mgrEvent_respects hR _) fun _ => ?_
  refine Respects.bind (Channel.sendNew_respects hR s _) fun err => ?_
  refine Respects.bind (modifySession_set hset fun _ => rfl) fun _ => ?_
  refine Respects.bind (Respects.modify hwill) fun _ => ?_
  refine Respects.bind (modifySession_set hset fun _ => rfl) fun _ => ?_
  exact Respects.bind (resetTimeout_set cfg hset) fun _ => Respects.pure _

theorem finishConnack_respects (s : SessionRef) (m : ConnackPacket) :
    Respects R (finishConnack s m : GoM σ Handled) := by
  refine Respects.bind (Respects.gets _) fun ss => ?_
  refine Respects.bind (mgrEvent_respects hR _) fun _ => ?_
  split
  · exact Respects.pure _
  · next t _ =>
    have hflow : Respects R (flowComplete t >>= fun _ => pure {} : GoM σ Handled) :=
      Respects.bind (flowComplete_respects hR t) fun _ => Respects.pure _
    exact Respects.ite (Respects.bind (modifyToken_respects hR t (fun _ => rfl) fun _ h => h)
      fun _ => hflow) hflow

theorem onConnack_set
    (hset : ∀ f b, (∀ x : Session, (f x).settled = x.settled) → R b (b.setSession s f))
    (m : ConnackPacket) : Respects R (onConnack s m : GoM σ Handled) :=
  Respects.ite
    (Respects.bind (modifySession_set hset fun _ => rfl) fun _ => finishConnack_respects hR s m)
    (Respects.bind (modifySession_set hset fun _ => rfl) fun _ => finishConnack_respects hR s m)

theorem procFrontRemoteMsg_set
    (hset : ∀ f b, (∀ x : Session, (f x).settled = x.settled) → R b (b.setSession s f))
    (msg : PacketRef) (p : ControlPacket)
    (hwill : ∀ m, p = .connect m → ∀ b, R b (b.setSession s (setWill m)))
    (hack : p.acknowledges → Acknowledging s R) :
    Respects R (procFrontRemoteMsg cfg S s msg p) := by
  by_cases hconnect : ∃ m, p = .connect m
  · obtain ⟨m, rfl⟩ := hconnect
    exact onConnect_set hR cfg hset (hwill m rfl)
  · by_cases hconnack : ∃ m, p = .connack m
    · obtain ⟨m, rfl⟩ := hconnack
      exact onConnack_set hR hset m
    · exact procFrontRemoteMsg_respects hR cfg s S msg (fun m h => hconnect ⟨m, h⟩)
        (fun m h => hconnack ⟨m, h⟩) hack

/-- A round of the send loop of another session, and one of any session that writes nothing. -/
theorem sendRound_respects {written : Bool} (hset : written = true → ∀ f b,
      (∀ x : Session, (f x).settled = x.settled) → R b (b.setSession s f))
    (hfinish : written = true → Finishing s R) :
    Respects R (sendRound cfg s written : GoM σ Unit) := by
  refine Respects.bind (Respects.gets _) fun ss => ?_
  split
  · exact Respects.pure ()
  · next msg iSendList _ =>
    refine Respects.bind (modifySession_respects hR fun _ => rfl) fun _ => ?_
    cases written with
    | true =>
      have htimeout := resetTimeout_set cfg (hset rfl)
      refine Respects.bind (Respects.gets _) fun _ => Respects.ite ?_ (Respects.pure ())
      refine Respects.bind (Respects.gets _) fun p => Respects.ite ?_ htimeout
      exact Respects.bind (onInflightDone_respects hR cfg s (hfinish rfl) p) fun _ => htimeout
    | false =>
      have hstop : Respects R (modifySession s fun s =>
          { s with channel := { s.channel with isStoped := true } } : GoM σ Unit) :=
        modifySession_respects hR fun _ => rfl
      rw [if_neg Bool.false_ne_true]
      exact Respects.ite (Respects.bind (modify_respects hR fun _ => ⟨rfl, rfl, rfl, rfl⟩) fun _ =>
        hstop) hstop

end Session

/-! ## Goroutines -/

section Goroutines

variable (cfg : Config) (S : StoreMgr σ)

/-- The token of a SUBSCRIBE is new when it gets its filters. -/
theorem send_subscribe_respects (s : SessionRef) (msg : PacketRef) (m : SubscribePacket)
    {k : Option TokenRef → Bool → GoM σ (Option TokenRef × Option GoError)}
    (hk : ∀ t, Respects R (Session.number s msg >>= fun _ => k t true)) : Respects R (do
      let t ← allocToken (ControlPacket.subscribe m).type
      let waits ← Session.sendCase s msg (.subscribe m) t
        ((newToken (ControlPacket.subscribe m).type).map Token.kind)
      k t waits) := by
  have hpanic : ∀ t kind, (∀ subs subResult, kind ≠ some (.subscribe subs subResult)) →
      Respects R (Session.sendCase s msg (.subscribe m) t kind >>= k t) := by
    intro t kind hkind
    rcases t with _ | t
    · exact Respects.fault _
    rcases kind with _ | kind
    · exact Respects.fault _
    cases kind with
    | subscribe subs subResult => exact absurd rfl (hkind subs subResult)
    | _ => exact Respects.fault _
  unfold allocToken
  cases hnew : newToken (ControlPacket.subscribe m).type with
  | none => exact Respects.bind (Respects.pure _) fun t => hpanic t none fun _ _ => by simp
  | some tok =>
    obtain ⟨kind, complete, err⟩ := tok
    cases kind with
    | subscribe subs subResult =>
      intro b
      have halloc : R b { b with tokens := (b.tokens.alloc
          { kind := .subscribe m.topics subResult, complete, err }).2 } := hR.allocToken _ b
      rw [← Heap.alloc_modify b.tokens (a := { kind := .subscribe subs subResult, complete, err })
        (f := fun tok => { tok with kind := .subscribe m.topics subResult }) rfl] at halloc
      exact Trans.trans halloc (hk _ _)
    | _ =>
      refine Respects.bind (Respects.modifyGet fun b => hR.allocToken _ b) fun t => ?_
      exact hpanic t _ fun _ _ => by simp

omit [Std.Refl R] in
theorem number_respects (s : SessionRef) (msg : PacketRef) :
    Respects R (Session.number s msg : GoM σ Unit) := by
  have hnext : Respects R (Session.nextMsgId s : GoM σ UInt16) :=
    Respects.modifyGet fun b =>
      hR.field s (f := Session.advanceMsgId) b (fun _ => rfl) (fun _ => rfl) fun _ => rfl
  exact Respects.bind hnext fun id =>
    modifyPacket_respects hR msg (ControlPacket.setMessageID_message id)

/-- `Send` of other packets than a SUBSCRIBE, up to its lists. -/
theorem sendCase_respects (s : SessionRef) (msg : PacketRef) {p : ControlPacket}
    (hp : ∀ m, p ≠ .subscribe m) (t : Option TokenRef) (kind : Option TokenKind) :
    Respects R (Session.sendCase s msg p t kind : GoM σ Bool) := by
  have hnumber := number_respects hR s msg
  unfold Session.sendCase
  split
  · split
    · exact Respects.bind (modifySession_respects hR fun _ => rfl) fun _ => Respects.pure _
    · exact Respects.fault _
  · split
    · exact Respects.bind (modifySession_respects hR fun _ => rfl) fun _ => Respects.pure _
    · exact Respects.fault _
  · exact Respects.bind hnumber fun _ => Respects.pure _
  · exact Respects.pure _
  · exact Respects.pure _
  · next m => exact absurd rfl (hp m)
  · exact Respects.bind hnumber fun _ => Respects.pure _
  · exact Respects.pure _

theorem session_send_respects {s : SessionRef} (hqueue : Queueing s R) (msg : PacketRef) :
    Respects R
      (Session.send cfg s msg : GoM σ (Option TokenRef × Option GoError)) := by
  refine Respects.bind (Respects.gets _) fun ss => Respects.ite (Respects.pure _) ?_
  refine Respects.bind (Respects.gets _) fun p => ?_
  have hlast : ∀ t, Respects R (Channel.send s msg >>= fun err => pure (t, err) :
      GoM σ (Option TokenRef × Option GoError)) := fun t =>
    Respects.bind (Channel.send_respects hR s msg) fun _ => Respects.pure _
  have hpush : ∀ t, Respects R (Session.pushInflight cfg s ⟨msg, t⟩ : GoM σ Unit) := fun t =>
    Session.pushInflight_respects cfg hqueue _
  have hend : ∀ (t : Option TokenRef) (waits : Bool), Respects R (do
      if waits then
        Session.pushInflight cfg s ⟨msg, t⟩
      let err ← Channel.send s msg
      pure (t, err) : GoM σ (Option TokenRef × Option GoError)) := fun t waits =>
    Respects.ite (Respects.bind (hpush t) fun _ => hlast t) (hlast t)
  by_cases hp : ∃ m, p = .subscribe m
  · obtain ⟨m, rfl⟩ := hp
    exact send_subscribe_respects hR s msg m fun t =>
      Respects.bind (number_respects hR s msg) fun _ => hend t true
  · refine Respects.bind (allocToken_respects hR _) fun t => ?_
    exact Respects.bind (sendCase_respects hR s msg (fun m hm => hp ⟨m, hm⟩) t _) fun waits =>
      hend t waits

omit hR in
theorem pushPedding_respects {s : SessionRef} (hqueue : Queueing s R) (pt : PacketAndToken) :
    Respects R (Session.pushPedding cfg s pt : GoM σ (Option TokenRef × Option GoError)) := by
  refine Respects.bind (Respects.gets _) fun ss => Respects.ite (Respects.pure _) ?_
  refine Respects.ite (Respects.bind ?_ fun _ => Respects.pure _) (Respects.fault _)
  exact Respects.modify fun b => hqueue b (fun _ => rfl) (List.Subset.refl _)

theorem willEnd_respects (s : SessionRef) (reason : DisconnectReason) (msg : Option PacketRef) :
    Respects R (Session.willEnd S s reason msg) := by
  have hlast : ∀ err : Option GoError, Respects R (do
      if err.isNone then
        modifySession s fun s => { s with hadDisconnectException := reason } : GoM σ Unit) :=
    fun err => Respects.ite (modifySession_respects hR fun _ => rfl)
      (Respects.pure ())
  cases msg with
  | none => exact Respects.bind (Respects.pure _) hlast
  | some msg =>
    refine Respects.bind (Respects.bind (Respects.gets _) fun ss => ?_) hlast
    refine Respects.bind (Respects.gets _) fun p => ?_
    split
    · exact callStore_respects hR _
    · exact Respects.pure _

theorem round_respects (hqueue : ∀ s, Queueing s R) (w : Work) : Respects R (w.round cfg S) := by
  have hpublish : ∀ s msg,
      Respects R (Session.publish cfg s msg : GoM σ (Option TokenRef × Option GoError)) :=
    fun s msg => Session.publish_respects hR cfg s hqueue msg
  unfold Work.round
  split
  · next s msg v _ => exact (Session.publishing_respects hR hqueue msg).sendToSubcriberRound cfg s v
  · next msg v _ =>
    refine Respects.bind (Respects.gets _) fun ss => Respects.ite ?_ (Respects.pure _)
    exact Respects.bind (hpublish v.1 msg) fun _ => Respects.pure _
  · next msg v _ => exact Respects.bind (hpublish v.1 msg) fun _ => Respects.pure _
  · next v _ =>
    exact Respects.bind (newPacket_respects hR _) fun pkg =>
      Respects.bind (hpublish v.1 pkg) fun _ => Respects.pure _
  · next s msg _ =>
    refine Respects.bind (newPacket_respects hR _) fun pubMsg => ?_
    split
    · exact Respects.fault _
    · exact Respects.pure _
    · exact Respects.bind (hpublish s pubMsg) fun _ => Respects.pure _
  · next s msg => exact Respects.bind (hpublish s msg) fun _ => Respects.pure _
  · next s reason msg =>
    exact Respects.bind (willEnd_respects hR S s reason msg) fun _ => Respects.pure _
  · exact Respects.pure _

theorem sendToSubcriberStart_respects (order : SubscriberOrder) (s : SessionRef) (msg : PacketRef) :
    Respects R (Session.sendToSubcriberStart order s msg : GoM σ Subscribers) := by
  refine Respects.bind (Respects.gets _) fun _ => ?_
  refine Respects.bind (modify_respects hR fun _ => ⟨rfl, rfl, rfl, rfl⟩) fun _ => ?_
  refine Respects.bind (Respects.gets _) fun _ => ?_
  exact Respects.bind (modifyPacket_respects hR msg ControlPacket.clearRetain_message) fun _ =>
    Respects.pure _

theorem forwardStart_respects (order : SubscriberOrder) (s : SessionRef)
    (forwarded : Option PacketRef) :
    Respects R (forwardStart order s forwarded : GoM σ (List Work)) := by
  cases forwarded with
  | none => exact Respects.pure _
  | some msg =>
    refine Respects.bind (Respects.gets _) fun ss => Respects.ite ?_ ?_
    · exact Respects.bind (sendToSubcriberStart_respects hR order s msg) fun _ => Respects.pure _
    · refine Respects.bind (Respects.gets _) fun _ => ?_
      exact Respects.bind (modify_respects hR fun _ => ⟨rfl, rfl, rfl, rfl⟩) fun _ =>
        Respects.pure _

theorem recvStart_set {s : SessionRef} (order : SubscriberOrder)
    (hset : ∀ f b, (∀ x : Session, (f x).settled = x.settled) → R b (b.setSession s f))
    {p : ControlPacket}
    (hwill : ∀ m, p = .connect m → ∀ b, R b (b.setSession s (Session.setWill m)))
    (hack : p.acknowledges → Acknowledging s R) :
    Respects R (recvStart cfg S order s p) := by
  refine Respects.bind (Session.onChannelReaded_set cfg hset) fun _ => ?_
  refine Respects.bind (Respects.gets _) fun ss => Respects.ite (Respects.pure _) ?_
  refine Respects.bind (newPacket_respects hR _) fun msg => ?_
  exact Respects.bind (Session.procFrontRemoteMsg_set hR cfg S hset msg p hwill hack)
    fun handled => forwardStart_respects hR order s handled.forwarded

theorem spawned_start_respects (order : SubscriberOrder) (g : Spawned) :
    Respects R (g.start S order) := by
  cases g with
  | procRetainMessages s =>
    refine Respects.bind (Respects.bind (callStore_respects hR _) fun r => ?_) fun msgs =>
      Respects.pure _
    cases r with
    | error _ => exact Respects.pure _
    | ok _ => exact Respects.pure _
  | onDisconnectException s reason =>
    have hwill : Respects R (Session.willStart s : GoM σ (Option (Option PacketRef))) := by
      refine Respects.bind (Respects.gets _) fun ss => Respects.ite (Respects.pure _) ?_
      exact Respects.ite (Respects.bind (newPacket_respects hR _) fun _ => Respects.pure _)
        (Respects.pure _)
    refine Respects.bind hwill fun msg => ?_
    split
    · exact Respects.pure _
    · exact Respects.pure _
    · exact Respects.bind (sendToSubcriberStart_respects hR order s _) fun _ => Respects.pure _

theorem sessionInfoStart_respects (order : SubscriberOrder)
    (marshalIndent : SessionInfo → Option GoString) :
    Respects R (sessionInfoStart order marshalIndent : GoM σ (List Work)) := by
  have hinfo : ∀ s, Respects R
      (Session.broadcastSessionInfoStart order marshalIndent s :
        GoM σ (Option (PacketRef × Subscribers))) := by
    intro s
    refine Respects.bind (Respects.gets _) fun ss => Respects.bind (Respects.gets _) fun m => ?_
    refine Respects.ite (Respects.pure _) ?_
    split
    · exact Respects.pure _
    · exact Respects.bind (newPacket_respects hR _) fun _ => Respects.pure _
  refine Respects.bind (Respects.gets id) fun b => ?_
  split
  · exact Respects.pure _
  · refine Respects.bind (modify_respects hR fun _ => ⟨rfl, rfl, rfl, rfl⟩) fun _ => ?_
    refine Respects.bind (hinfo _) fun r => ?_
    split
    · exact Respects.pure _
    · exact Respects.pure _

end Goroutines

end Frames

/-! ## Steps of the process -/

/-- The steps after which a session may have another deadline, and those that let time pass. -/
def Action.marks (this : SessionRef) : Action → Prop
  | .recvPacket s _ _ => s = this
  | .sendRound s written => s = this ∧ written = true
  | .elapse _ => True
  | _ => False

/-- The step is one of a goroutine that may call `Publish`, or a call of `Send`. -/
def Action.publishes : Action → Prop
  | .send _ _ | .advance _ => True
  | _ => False

/-- The step reads the CONNECT `m` from the connection of `this`. -/
def Action.connects (this : SessionRef) (m : ConnectPacket) : Action → Prop
  | .recvPacket s p _ => s = this ∧ p.1 = .connect m
  | _ => False

/-- The step reads an acknowledgement of a packet of `this`, or writes what may be one that is
not acknowledged. -/
def Action.acknowledges (this : SessionRef) : Action → Prop
  | .recvPacket s p _ => s = this ∧ p.1.acknowledges
  | .sendRound s written => s = this ∧ written = true
  | _ => False

theorem Action.connects.marks {this : SessionRef} {m : ConnectPacket} {a : Action}
    (h : a.connects this m) : a.marks this := by
  cases a with
  | recvPacket s p order => exact h.1
  | _ => exact h.elim

namespace Process

variable {cfg : Config} {S : StoreMgr σ} {P P' : Process σ}

theorem run_eq {α : Type} {m : GoM σ α} (h : P.run m = some P') :
    ∃ a, m P.broker = (.ok a, P'.broker) := by
  rw [run] at h
  rcases hr : m P.broker with ⟨_ | a, b⟩
  · simp [hr] at h
  · simp only [hr, Option.some.injEq] at h
    rw [← h]
    exact ⟨a, rfl⟩

theorem run_respects {α : Type} {R : Broker σ → Broker σ → Prop} {m : GoM σ α}
    (hm : Respects R m) (h : P.run m = some P') : R P.broker P'.broker := by
  obtain ⟨a, hrun⟩ := run_eq h
  have hstate := hm P.broker
  rwa [hrun] at hstate

theorem launch_respects {R : Broker σ → Broker σ → Prop} {m : GoM σ (List Work)}
    {owner : Option SessionRef} (hm : Respects R m) (h : P.launch owner m = some P') :
    R P.broker P'.broker := by
  have hstate := hm P.broker
  rw [launch] at h
  rcases hr : m P.broker with ⟨_ | _, b⟩
  · simp [hr] at h
  · simp only [hr, Option.some.injEq] at h
    rw [hr] at hstate
    rwa [← h]

/-- A receive loop that takes a step does not wait for a goroutine. -/
theorem of_not_waiting {c : Prop} [Decidable c] {r : Option (Process σ)}
    (h : (if c then none else r) = some P') : r = some P' := by
  split at h
  · exact absurd h (by simp)
  · exact h

variable {R : Broker σ → Broker σ → Prop} [Std.Refl R] [IsTrans (Broker σ) R] (hR : Framing R)

include hR

theorem advance_respects (hqueue : ∀ s, Queueing s R) {g : Goroutine} {b : Broker σ}
    {r : Option Goroutine × Broker σ} (h : advance cfg S g b = some r) : R b r.2 := by
  obtain ⟨owner, waiting, work⟩ := g
  cases waiting with
  | some w =>
    have hpush := pushPedding_respects cfg (hqueue w.1) w.2 b
    rw [advance] at h
    rcases hr : Session.pushPedding cfg w.1 w.2 b with ⟨_ | _, b'⟩
    · simp [hr] at h
    · simp only [hr, Option.some.injEq] at h
      rw [hr] at hpush
      rwa [← h]
  | none =>
    cases work with
    | nil =>
      obtain rfl := Option.some.inj h
      exact Std.Refl.refl b
    | cons w ws =>
      have hround := round_respects hR cfg S hqueue w b
      rw [advance] at h
      rcases hr : w.round cfg S b with ⟨(_ | _) | (_ | _), b'⟩
      · simp [hr] at h
      · simp only [hr, Option.some.injEq] at h
        rw [hr] at hround
        rwa [← h]
      · simp only [hr, Option.some.injEq] at h
        rw [hr] at hround
        rwa [← h]
      · simp only [hr, Option.some.injEq] at h
        rw [hr] at hround
        rwa [← h]

/-- Steps that neither call `Publish` nor `Send`. -/
theorem step_respects_of_not_publishes {a : Action} (ha : ¬ a.publishes)
    (hset : ∀ s, a.marks s → ∀ f b, (∀ x : Session, (f x).settled = x.settled) →
      R b (b.setSession s f))
    (hwill : ∀ s m, a.connects s m → ∀ b, R b (b.setSession s (Session.setWill m)))
    (hack : ∀ s p order, a = .recvPacket s p order → p.1.acknowledges → Acknowledging s R)
    (hfinish : ∀ s, a = .sendRound s true → Finishing s R)
    (htake : ∀ s, a = .tick s → Respects R (Session.takePedding cfg s : GoM σ Unit))
    (helapse : ∀ d, a = .elapse d → ∀ b : Broker σ, R b { b with now := b.now + d })
    (h : (system cfg S).step a P = some P') : R P.broker P'.broker := by
  cases a with
  | handleConnection s => exact run_respects (mgrEvent_respects hR _) h
  | recvPacket s p order =>
    exact launch_respects (recvStart_set hR cfg S order (hset s rfl)
      (fun m hp => hwill s m ⟨rfl, hp⟩) (hack s p order rfl)) (of_not_waiting h)
  | recvError s => exact run_respects (Session.recvError_respects hR s) (of_not_waiting h)
  | sendRound s written =>
    exact run_respects (Session.sendRound_respects hR cfg (fun hw => hset s ⟨rfl, hw⟩)
      fun hw => hfinish s (by rw [hw])) h
  | tick s => exact run_respects (Session.onTick_respects hR cfg s (htake s rfl)) h
  | closer => exact run_respects (Session.closerRound_respects hR) h
  | clientPublish s topic body qos retain =>
    exact launch_respects (Respects.bind (newPacket_respects hR _) fun _ => Respects.pure _) h
  | mgrPublish topic msg qos order =>
    have hstart : Respects R (mgrPublishStart order topic msg qos :
        GoM σ (List Work)) := Respects.bind (Respects.gets _) fun _ => Respects.pure _
    exact launch_respects hstart h
  | overview bsjson order =>
    have hstart : Respects R (overviewStart order bsjson : GoM σ (List Work)) :=
      Respects.bind (Respects.bind (newPacket_respects hR _) fun _ =>
        Respects.bind (Respects.gets _) fun _ => Respects.pure _) fun _ => Respects.pure _
    exact launch_respects hstart h
  | sessionInfo marshalIndent order =>
    exact launch_respects (sessionInfoStart_respects hR order marshalIndent) h
  | start i order =>
    change step cfg S (.start i order) P = some P' at h
    rw [step] at h
    split at h
    · exact absurd h (by simp)
    · next g _ =>
      have htaken : R P.broker
          { P.broker with spawned := P.broker.spawned.eraseIdx i } :=
        hR.rest _ _ rfl rfl rfl rfl
      exact Trans.trans htaken (launch_respects (spawned_start_respects hR S order g) h)
  | elapse d =>
    obtain rfl := Option.some.inj h
    exact helapse d rfl P.broker
  | send | advance => exact absurd trivial ha

theorem step_respects {a : Action} (hqueue : ∀ s, Queueing s R)
    (hset : ∀ s, a.marks s → ∀ f b, (∀ x : Session, (f x).settled = x.settled) →
      R b (b.setSession s f))
    (hwill : ∀ s m, a.connects s m → ∀ b, R b (b.setSession s (Session.setWill m)))
    (hack : ∀ s, a.acknowledges s → Acknowledging s R)
    (helapse : ∀ d, a = .elapse d → ∀ b : Broker σ, R b { b with now := b.now + d })
    (h : (system cfg S).step a P = some P') : R P.broker P'.broker := by
  by_cases ha : a.publishes
  · cases a with
    | send s p =>
      exact run_respects (Respects.bind (newPacket_respects hR _) fun msg =>
        session_send_respects hR cfg (hqueue s) msg) h
    | advance i =>
      change step cfg S (.advance i) P = some P' at h
      rw [step] at h
      split at h
      · exact absurd h (by simp)
      · obtain ⟨⟨g', b'⟩, hr, rfl⟩ := Option.map_eq_some_iff.mp h
        have hadvance := advance_respects hR hqueue hr
        cases g' with
        | none => exact hadvance
        | some _ => exact hadvance
    | _ => exact ha.elim
  · exact step_respects_of_not_publishes hR ha hset hwill
      (fun s p order hp hacks => hack s (by rw [hp]; exact ⟨rfl, hacks⟩))
      (fun s hs => Session.finishing_of_acknowledging hR (hack s (by rw [hs]; exact ⟨rfl, rfl⟩)))
      (fun s _ => Session.takePedding_respects hR cfg (hqueue s)) helapse h

end Process

end MqttBroker

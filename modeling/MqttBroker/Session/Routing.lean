import MqttBroker.Session.Framing
import MqttBroker.Session.RetainedTheorems

/-!
# The topic of what is routed

Four loops look the subscribers of a topic up and publish a message to each of them. What a
round of such a loop hands out carries the topic of its packet, which nothing writes after
the loop has started, whatever other goroutines do in between. For all loops but the one of
`BroadcastSessionInfo`, which leaves the topic of its packet empty, this is the topic that was
looked up.
-/

namespace MqttBroker

open Broker GoM Exec

variable {σ : Type}

/-- A PUBLISH to `topic`. -/
def OnTopic (topic : GoString) (m : ControlPacket) : Prop :=
  ∃ p, m = .publish p ∧ p.topicName = topic

theorem onTopic_message {topic : GoString} {m m' : ControlPacket} (h : m'.message = m.message) :
    OnTopic topic m' ↔ OnTopic topic m := by
  have hkept : ∀ m : ControlPacket, OnTopic topic m.message ↔ OnTopic topic m := by
    intro m
    cases m with
    | publish p =>
      constructor
      · rintro ⟨q, hq, htopic⟩
        exact ⟨p, rfl, (congrArg ControlPacket.topicName hq).trans htopic⟩
      · rintro ⟨q, hq, htopic⟩
        exact ⟨_, rfl, (congrArg ControlPacket.topicName hq).trans htopic⟩
    | _ => simp [OnTopic, ControlPacket.message, ControlPacket.setMessageID,
        ControlPacket.clearRetain]
  rw [← hkept m', h, hkept m]

/-! ## Packets keep their topic -/

/-- The packets of `b` are those of `b'`, up to their ids and their retain flags. -/
structure SameMessages (b b' : Broker σ) : Prop where
  next : b.packets.next ≤ b'.packets.next
  message : ∀ msg < b.packets.next, (b'.packets.cells msg).message = (b.packets.cells msg).message

namespace SameMessages

theorem of_packets {b b' : Broker σ} (h : b'.packets = b.packets) : SameMessages b b' :=
  ⟨by rw [h], fun _ _ => by rw [h]⟩

theorem refl (b : Broker σ) : SameMessages b b := of_packets rfl

theorem trans {b b' b'' : Broker σ} (h : SameMessages b b') (h' : SameMessages b' b'') :
    SameMessages b b'' where
  next := h.next.trans h'.next
  message msg hmsg := (h'.message msg (lt_of_lt_of_le hmsg h.next)).trans (h.message msg hmsg)

instance : Std.Refl (SameMessages (σ := σ)) := ⟨refl⟩

instance : IsTrans (Broker σ) SameMessages := ⟨fun _ _ _ => trans⟩

theorem framing : Framing (SameMessages (σ := σ)) where
  rest _ _ _ hpackets _ _ := of_packets hpackets
  alloc p b := ⟨Nat.le_succ _, fun _ hmsg => by rw [Heap.alloc_of_lt p hmsg]⟩
  packet msg f b hf := by
    refine ⟨le_rfl, fun msg' _ => ?_⟩
    by_cases heq : msg' = msg
    · rw [heq, Heap.modify_self]
      exact hf _
    · rw [Heap.modify_of_ne f b.packets heq]
  allocToken _ _ := of_packets rfl
  token _ _ _ _ _ := of_packets rfl
  field _ _ _ _ _ _ := of_packets rfl
  ending _ _ _ _ _ _ := of_packets rfl

theorem queueing (s : SessionRef) : Queueing s (SameMessages (σ := σ)) := fun _ _ _ => of_packets rfl

theorem acknowledging (s : SessionRef) : Acknowledging s (SameMessages (σ := σ)) where
  inflight _ _ := of_packets rfl
  results _ _ _ _ := of_packets rfl

theorem onTopic {b b' : Broker σ} (h : SameMessages b b') {msg : PacketRef}
    (hmsg : msg < b.packets.next) {topic : GoString}
    (htopic : OnTopic topic (b.packets.cells msg)) :
    OnTopic topic (b'.packets.cells msg) :=
  (onTopic_message (h.message msg hmsg)).mpr htopic

end SameMessages

theorem Process.step_sameMessages {cfg : Config} {S : StoreMgr σ} {a : Action}
    {P P' : Process σ} (h : (system cfg S).step a P = some P') :
    SameMessages P.broker P'.broker :=
  step_respects SameMessages.framing SameMessages.queueing (fun _ _ _ _ _ => .of_packets rfl)
    (fun _ _ _ _ => .of_packets rfl) (fun s _ => SameMessages.acknowledging s)
    (fun _ _ _ => .of_packets rfl) h

theorem Process.exec_sameMessages {cfg : Config} {S : StoreMgr σ} {as : List Action}
    {P P' : Process σ} (h : (system cfg S).exec as P = some P') :
    SameMessages P.broker P'.broker :=
  StepSystem.invariant_of_exec (I := fun P' : Process σ => SameMessages P.broker P'.broker)
    (fun _ _ _ hkept _ hstep => hkept.trans (step_sameMessages hstep)) (.refl _)
    (StepSystem.along_true as P) h

/-! ## Loops -/

namespace Work

/-- The subscribers that a loop has still to come to. -/
def remaining : Work → Subscribers
  | subscribers _ _ rest => rest
  | sessionInfo _ rest => rest
  | overview _ rest => rest
  | mgrPublish _ _ _ rest => rest
  | _ => []

/-- What the loop `w` has left after some of its rounds. -/
inductive Left (w : Work) : Work → Prop
  | all : Left w w
  | next {w' w'' : Work} : Left w w' → w'' ∈ w'.next → Left w w''

/-- The loop publishes packets to `topic`. -/
def Routes (topic : GoString) (b : Broker σ) : Work → Prop
  | subscribers _ msg _ => msg < b.packets.next ∧ OnTopic topic (b.packets.cells msg)
  | sessionInfo nmsg _ => nmsg < b.packets.next ∧ OnTopic topic (b.packets.cells nmsg)
  | overview pubmsg _ => pubmsg < b.packets.next ∧ OnTopic topic (b.packets.cells pubmsg)
  | mgrPublish t _ _ _ => t = topic
  | _ => True

variable {topic : GoString} {b b' : Broker σ} {w w' : Work}

theorem Routes.kept (h : w.Routes topic b) (hkept : SameMessages b b') : w.Routes topic b' := by
  have hpacket : ∀ {msg}, msg < b.packets.next ∧ OnTopic topic (b.packets.cells msg) →
      msg < b'.packets.next ∧ OnTopic topic (b'.packets.cells msg) :=
    fun h => ⟨lt_of_lt_of_le h.1 hkept.next, hkept.onTopic h.1 h.2⟩
  cases w with
  | subscribers this msg rest => exact hpacket h
  | sessionInfo nmsg rest => exact hpacket h
  | overview pubmsg rest => exact hpacket h
  | _ => exact h

/-- A round leaves the loop as it was, with fewer subscribers. -/
theorem next_routes (h : w.Routes topic b) (hnext : w' ∈ w.next) :
    w'.Routes topic b ∧ w'.remaining ⊆ w.remaining := by
  unfold next at hnext
  split at hnext
  case h_6 => exact absurd hnext List.not_mem_nil
  all_goals obtain rfl := List.mem_singleton.mp hnext
  case h_5 => exact ⟨trivial, List.Subset.refl _⟩
  all_goals exact ⟨h, List.subset_cons_self _ _⟩

theorem Left.routes (hleft : w.Left w') (h : w.Routes topic b) :
    w'.Routes topic b ∧ w'.remaining ⊆ w.remaining := by
  induction hleft with
  | all => exact ⟨h, List.Subset.refl _⟩
  | next _ hnext ih =>
    obtain ⟨hroutes, hsub⟩ := next_routes ih.1 hnext
    exact ⟨hroutes, List.Subset.trans hsub ih.2⟩

theorem Left.sessionInfo {nmsg : PacketRef} {l : Subscribers}
    (hleft : (sessionInfo nmsg l).Left w') : w' = .sessionInfo nmsg w'.remaining := by
  induction hleft with
  | all => rfl
  | next _ hnext ih =>
    rw [ih] at hnext
    generalize remaining _ = l' at hnext
    cases l' with
    | nil => exact absurd hnext List.not_mem_nil
    | cons v rest =>
      rw [List.mem_singleton.mp hnext]
      rfl

end Work

/-! ## Rounds -/

section Rounds

variable (cfg : Config)

/-- A round that ends in a call of `Publish` hands out its packet. -/
theorem handedBy_of_publish {m : GoM σ Bool} {f : Option TokenRef × Option GoError → Bool}
    {s : SessionRef} {msg : PacketRef} {b b₁ : Broker σ} {topic : GoString}
    (hrun : m b = (Session.publish cfg s msg >>= fun r => pure (f r) : GoM σ Bool) b₁)
    (htopic : OnTopic topic (b₁.packets.cells msg)) (hmsg : msg < b₁.packets.next)
    (hsame : b₁.handed = b.handed) :
    ∃ x, Session.handedBy m b = [(s, x)] ∧ OnTopic topic x := by
  obtain ⟨p, hp, rfl⟩ := htopic
  have hhanded := (Session.publish_handed cfg s hp hmsg).1
  refine ⟨.publish { p with messageID := (b₁.sessions s).nextId }, ?_, _, rfl, rfl⟩
  rw [Session.handedBy, hrun, bind_pure_snd, hhanded, hsame, List.drop_left]

theorem handedBy_of_nothing {m : GoM σ Bool} {b : Broker σ} {r : Except Fault Bool}
    (hrun : m b = (r, b)) : Session.handedBy m b = [] := by
  rw [Session.handedBy, hrun, List.drop_length]

theorem broadcastSessionInfoRound_handed {nmsg : PacketRef} {v : Σ _ : SessionRef, UInt8}
    {b : Broker σ} {topic : GoString} (htopic : OnTopic topic (b.packets.cells nmsg))
    (hmsg : nmsg < b.packets.next) :
    if (b.sessions v.1).isConnected ∧ ¬ (b.sessions v.1).isClosed then
      ∃ x, Session.handedBy (Session.broadcastSessionInfoRound cfg nmsg v) b = [(v.1, x)] ∧
        OnTopic topic x
    else Session.handedBy (Session.broadcastSessionInfoRound cfg nmsg v) b = [] := by
  split
  · next hopen =>
    refine handedBy_of_publish cfg (f := fun r => r.2.isNone) ?_ htopic hmsg rfl
    rw [Session.broadcastSessionInfoRound, bind_run_ok (session_run _ _), if_pos hopen]
  · next hopen =>
    refine handedBy_of_nothing (r := .ok true) ?_
    rw [Session.broadcastSessionInfoRound, bind_run_ok (session_run _ _), if_neg hopen]
    rfl

/-- What a round of a loop hands out goes to its next subscriber, on the topic of the loop. -/
theorem Work.round_handed (S : StoreMgr σ) {w : Work} {topic : GoString} {b : Broker σ}
    (h : w.Routes topic b) {v : Σ _ : SessionRef, UInt8} {rest : Subscribers}
    (hv : w.remaining = v :: rest) :
    ∀ x ∈ Session.handedBy (w.round cfg S) b, x.1 = v.1 ∧ OnTopic topic x.2 := by
  have hone : ∀ {m : GoM σ Bool}, (∃ x, Session.handedBy m b = [(v.1, x)] ∧ OnTopic topic x) →
      ∀ x ∈ Session.handedBy m b, x.1 = v.1 ∧ OnTopic topic x.2 := by
    rintro m ⟨x, hx, htopic⟩ y hy
    rw [hx] at hy
    rw [List.mem_singleton.mp hy]
    exact ⟨rfl, htopic⟩
  have hnone : ∀ {m : GoM σ Bool}, Session.handedBy m b = [] →
      ∀ x ∈ Session.handedBy m b, x.1 = v.1 ∧ OnTopic topic x.2 := by
    intro m hm x hx
    rw [hm] at hx
    exact absurd hx List.not_mem_nil
  cases w with
  | subscribers this msg l =>
    obtain rfl : l = v :: rest := hv
    obtain ⟨p, hp, htopic⟩ := h.2
    cases hserves : Session.serves cfg this b v.1 with
    | true =>
      obtain ⟨b₁, hrun, hcell, hlt, -, hsame⟩ :=
        Session.sendToSubcriberRound_of_serves cfg hp h.1 hserves
      exact hone (handedBy_of_publish cfg hrun ⟨p, hcell, htopic⟩ hlt hsame)
    | false =>
      exact hnone (handedBy_of_nothing (Session.sendToSubcriberRound_of_not_serves cfg hserves))
  | sessionInfo nmsg l =>
    obtain rfl : l = v :: rest := hv
    have hround := broadcastSessionInfoRound_handed cfg (v := v) h.2 h.1
    split at hround
    · exact hone hround
    · exact hnone hround
  | overview pubmsg l =>
    obtain rfl : l = v :: rest := hv
    exact hone (handedBy_of_publish cfg (f := fun _ => true) rfl h.2 h.1 rfl)
  | mgrPublish t msg qos l =>
    obtain rfl : l = v :: rest := hv
    obtain rfl : t = topic := h
    obtain ⟨pkg, b₁, hrun, hcell, hlt, -, hsame⟩ :=
      SessionMgr.publishRound_run cfg t msg qos v b
    exact hone (handedBy_of_publish cfg hrun ⟨_, hcell, rfl⟩ hlt hsame)
  | _ => simp [remaining] at hv

end Rounds

/-! ## Calls -/

/-- A call of one of the four loops. -/
inductive Routing
  | sendToSubcriber (this : SessionRef) (msg : PacketRef)
  | broadcastSessionInfo (this : SessionRef) (marshalIndent : SessionInfo → Option GoString)
  | overviewRun (bsjson : GoString)
  | publish (topic msg : GoString) (qos : UInt8)

namespace Routing

/-- The topic that `GetSessions` is called with. -/
def topic (b : Broker σ) : Routing → GoString
  | sendToSubcriber _ msg => (b.packets.cells msg).topicName
  | broadcastSessionInfo this _ => sessionInfoTopic (b.sessions this).clientId
  | overviewRun _ => overviewTopic
  | publish topic _ _ => topic

/-- The topic of the packets that are published. -/
def published (b : Broker σ) : Routing → GoString
  | broadcastSessionInfo _ _ => []
  | r => r.topic b

def isBroadcastSessionInfo : Routing → Bool
  | broadcastSessionInfo _ _ => true
  | _ => false

/-- `sendToSubcriber` is called with a PUBLISH. -/
def Valid (b : Broker σ) : Routing → Prop
  | sendToSubcriber _ msg => msg < b.packets.next ∧ ∃ p, b.packets.cells msg = .publish p
  | _ => True

/-- The call, up to its loop. -/
def start (order : SubscriberOrder) : Routing → GoM σ (List Work)
  | sendToSubcriber this msg => do
    let subs ← Session.sendToSubcriberStart order this msg
    pure [.subscribers this msg subs]
  | broadcastSessionInfo this marshalIndent => do
    match ← Session.broadcastSessionInfoStart order marshalIndent this with
    | none => pure []
    | some (nmsg, subs) => pure [.sessionInfo nmsg subs]
  | overviewRun bsjson => overviewStart order bsjson
  | publish topic msg qos => mgrPublishStart order topic msg qos

variable {r : Routing} {order : SubscriberOrder} {b b₁ : Broker σ} {works : List Work}

theorem broadcastSessionInfoStart_run (order : SubscriberOrder)
    (marshalIndent : SessionInfo → Option GoString) (this : SessionRef) (b : Broker σ) :
    Session.broadcastSessionInfoStart order marshalIndent this b = (.ok none, b) ∨
      ∃ bs, Session.broadcastSessionInfoStart order marshalIndent this b =
        (.ok (some (b.packets.next, order.toList (b.subscriptionMgr.getSessions
            (sessionInfoTopic (b.sessions this).clientId)))),
          { b with
            packets := (b.packets.alloc (.publish { newPublish with payload := bs })).2 }) := by
  rw [Session.broadcastSessionInfoStart, bind_run_ok (session_run this b),
    bind_run_ok (getSessions_run _ b)]
  split
  · exact .inl rfl
  · cases marshalIndent ⟨(b.sessions this).clientId, (b.sessions this).peddingMsgList.length,
      (b.sessions this).inflightingList.length, (b.sessions this).channel.iSendList.length⟩ with
    | none => exact .inl rfl
    | some bs => exact .inr ⟨bs, rfl⟩

/-- What a call starts is a loop over the subscribers of the topic that it looks up. -/
theorem start_routes (hvalid : r.Valid b) (hstart : r.start order b = (.ok works, b₁)) :
    ∀ w ∈ works, w.Routes (r.published b) b₁ ∧
      w.remaining = order.toList (b.subscriptionMgr.getSessions (r.topic b)) ∧
      (r.isBroadcastSessionInfo ↔ ∃ nmsg, w = .sessionInfo nmsg w.remaining) := by
  intro w hw
  cases r with
  | sendToSubcriber this msg =>
    obtain ⟨hmsg, p, hp⟩ := hvalid
    rw [start, bind_run_ok (Session.sendToSubcriberStart_run order this hp)] at hstart
    obtain ⟨rfl, rfl⟩ := pure_eq_ok hstart
    obtain rfl := List.mem_singleton.mp hw
    refine ⟨⟨hmsg, ?_⟩, ?_, by simp [isBroadcastSessionInfo]⟩
    · rw [Heap.modify_self, hp]
      exact ⟨_, rfl, (congrArg ControlPacket.topicName hp).symm⟩
    · exact congrArg (fun p => order.toList (b.subscriptionMgr.getSessions p.topicName)) hp.symm
  | broadcastSessionInfo this marshalIndent =>
    rcases broadcastSessionInfoStart_run order marshalIndent this b with hnone | ⟨bs, hsome⟩
    · rw [start, bind_run_ok hnone] at hstart
      obtain ⟨rfl, -⟩ := pure_eq_ok hstart
      exact absurd hw List.not_mem_nil
    · rw [start, bind_run_ok hsome] at hstart
      obtain ⟨rfl, rfl⟩ := pure_eq_ok hstart
      obtain rfl := List.mem_singleton.mp hw
      refine ⟨⟨Nat.lt_succ_self _, ?_⟩, rfl, iff_of_true rfl ⟨_, rfl⟩⟩
      rw [Heap.alloc_self]
      exact ⟨_, rfl, rfl⟩
  | overviewRun bsjson =>
    obtain ⟨rfl, rfl⟩ := pure_eq_ok hstart
    obtain rfl := List.mem_singleton.mp hw
    refine ⟨⟨Nat.lt_succ_self _, ?_⟩, rfl, by simp [isBroadcastSessionInfo]⟩
    show OnTopic overviewTopic (Heap.cells _ b.packets.next)
    rw [Heap.alloc_self]
    exact ⟨_, rfl, rfl⟩
  | publish topic msg qos =>
    obtain ⟨rfl, rfl⟩ := pure_eq_ok hstart
    obtain rfl := List.mem_singleton.mp hw
    exact ⟨rfl, rfl, by simp [isBroadcastSessionInfo]⟩

/-- A message for a session that the lookup of `topic` returned carries this topic, so that
a live filter of the session matches it. -/
def Routed (tree : TreeSubsMgr SessionRef) (topic : GoString)
    (x : SessionRef × ControlPacket) : Prop :=
  ∃ qos p, (tree.getSessions topic).lookup x.1 = some qos ∧ x.2 = .publish p ∧
    p.topicName = topic ∧ ∀ ops, TreeSubsMgr.build ops = .ok tree →
      ∃ filter, TreeSubsMgr.live ops filter x.1 = some qos ∧
        TreeSubsMgr.Matches filter p.topicName

theorem routed_of_onTopic {tree : TreeSubsMgr SessionRef} {topic : GoString}
    {x : SessionRef × ControlPacket} {qos : UInt8}
    (hlookup : (tree.getSessions topic).lookup x.1 = some qos) (htopic : OnTopic topic x.2) :
    Routed tree topic x := by
  obtain ⟨p, hp, rfl⟩ := htopic
  exact ⟨qos, p, hlookup, hp, rfl, fun ops hbuild =>
    TreeSubsMgr.getSessions_sound ops hbuild p.topicName x.1 qos hlookup⟩

theorem sessionInfoTopic_ne_nil (id : GoString) : sessionInfoTopic id ≠ [] := by
  simp [sessionInfoTopic, str]

theorem published_eq_topic (h : r.isBroadcastSessionInfo = false) :
    r.published b = r.topic b := by
  cases r with
  | broadcastSessionInfo this marshalIndent => exact Bool.noConfusion h
  | _ => rfl

theorem published_ne_topic (h : r.isBroadcastSessionInfo = true) :
    r.published b = [] ∧ r.topic b ≠ [] := by
  cases r with
  | broadcastSessionInfo this marshalIndent => exact ⟨rfl, sessionInfoTopic_ne_nil _⟩
  | _ => exact Bool.noConfusion h

/-- After any steps of the process, a round of a loop hands out what was routed, unless it is
a round of `BroadcastSessionInfo` that finds its subscriber open. -/
theorem routed_iff {cfg : Config} {S : StoreMgr σ} (hvalid : r.Valid b)
    (hstart : r.start order b = (.ok works, b₁)) {as : List Action} {P P' : Process σ}
    (hP : P.broker = b₁) (hrun : (Process.system cfg S).exec as P = some P') {w w' : Work}
    (hw : w ∈ works) (hleft : w.Left w') {v : Σ _ : SessionRef, UInt8} {rest : Subscribers}
    (hv : w'.remaining = v :: rest) :
    (∀ x ∈ Session.handedBy (w'.round cfg S) P'.broker,
        Routed b.subscriptionMgr (r.topic b) x) ↔
      ¬ (r.isBroadcastSessionInfo ∧ (P'.broker.sessions v.1).isConnected ∧
        ¬ (P'.broker.sessions v.1).isClosed) := by
  obtain ⟨hroutes, hremaining, hinfo⟩ := start_routes hvalid hstart w hw
  have hsame : SameMessages b₁ P'.broker := hP ▸ Process.exec_sameMessages hrun
  obtain ⟨hroutes', hsub⟩ := hleft.routes hroutes
  have hround := Work.round_handed cfg S (hroutes'.kept hsame) hv
  have hlookup : (b.subscriptionMgr.getSessions (r.topic b)).lookup v.1 = some v.2 := by
    refine (order.mem_toList _ _ _).mp ?_
    rw [← hremaining]
    exact hsub (hv ▸ List.mem_cons_self)
  have hrouted : ∀ {x : SessionRef × ControlPacket}, x.1 = v.1 → OnTopic (r.topic b) x.2 →
      Routed b.subscriptionMgr (r.topic b) x := fun hx => routed_of_onTopic (hx ▸ hlookup)
  cases hbroadcast : r.isBroadcastSessionInfo with
  | false =>
    rw [published_eq_topic hbroadcast] at hround
    exact iff_of_true (fun x hx => hrouted (hround x hx).1 (hround x hx).2) (by simp)
  | true =>
    obtain ⟨nmsg, hw'⟩ := hinfo.mp hbroadcast
    rw [hw'] at hleft
    have hleft' := hleft.sessionInfo
    have htopic := published_ne_topic (b := b) hbroadcast
    have hmsg := hroutes'.kept hsame
    rw [hleft', hv, htopic.1] at hmsg
    have hhanded := broadcastSessionInfoRound_handed cfg (v := v) hmsg.2 hmsg.1
    rw [hleft', hv]
    show (∀ x ∈ Session.handedBy (Session.broadcastSessionInfoRound cfg nmsg v) P'.broker, _) ↔ _
    split at hhanded
    · next hopen =>
      obtain ⟨x, hx, p, hp, hempty⟩ := hhanded
      refine iff_of_false (fun hall => ?_) (not_not.mpr ⟨rfl, hopen⟩)
      obtain ⟨-, q, -, hq, hqtopic, -⟩ := hall (v.1, x) (hx ▸ List.mem_cons_self)
      obtain rfl := ControlPacket.publish.inj (hp.symm.trans hq)
      exact htopic.2 (hqtopic.symm.trans hempty)
    · next hopen =>
      refine iff_of_true (fun x hx => ?_) fun h => hopen h.2
      rw [hhanded] at hx
      exact absurd hx List.not_mem_nil

/-- A session that is connected and subscribes to `topic`. -/
def watches (topic : GoString) : Broker MemStore :=
  { (Process.start {} ⟨∅, ∅, ∅⟩ fun _ => true).broker with
    sessions := fun s =>
      { Session.newSession {} 0 s true with connected := 1, clientId := str "a" }
    subscriptionMgr := TreeSubsMgr.newNode.add topic 0 0 }

/-- Its subscriber is the only one. -/
theorem overviewRun_start (bsjson : GoString) : ∃ b₁,
    (overviewRun bsjson).start RangeOrder.ascending (watches overviewTopic) =
        (.ok [.overview 0 [⟨0, 0⟩]], b₁) ∧
      OnTopic overviewTopic (b₁.packets.cells 0) ∧ 0 < b₁.packets.next := by
  have hone : RangeOrder.ascending.toList
      ((watches overviewTopic).subscriptionMgr.getSessions overviewTopic) = [⟨0, 0⟩] := by
    decide +kernel
  have hstart : (overviewRun bsjson).start RangeOrder.ascending (watches overviewTopic) =
      (.ok [.overview 0 (RangeOrder.ascending.toList
        ((watches overviewTopic).subscriptionMgr.getSessions overviewTopic))], _) := rfl
  rw [hone] at hstart
  exact ⟨_, hstart, ⟨_, rfl, rfl⟩, Nat.zero_lt_one⟩

theorem routed_iff_overview : ∃ b₁ x,
    (overviewRun (str "json")).start RangeOrder.ascending (watches overviewTopic) =
        (.ok [.overview 0 [⟨0, 0⟩]], b₁) ∧
      Session.handedBy ((Work.overview 0 [⟨0, 0⟩]).round {} (MemStore.storeMgr default)) b₁ = [x] ∧
      Routed (watches overviewTopic).subscriptionMgr overviewTopic x := by
  obtain ⟨b₁, hstart, htopic, hmsg⟩ := overviewRun_start (str "json")
  obtain ⟨x, hx, -⟩ := handedBy_of_publish {} (b := b₁) (f := fun _ => true) rfl htopic hmsg rfl
  have hrun : (Process.system {} (MemStore.storeMgr default)).exec [] ⟨b₁, []⟩ =
      some ⟨b₁, []⟩ := rfl
  have hall := (routed_iff (r := overviewRun (str "json")) trivial hstart rfl hrun
    List.mem_cons_self .all rfl).mpr fun h => by exact Bool.noConfusion h.1
  exact ⟨b₁, (0, x), hstart, hx, hall _ (hx ▸ List.mem_cons_self)⟩

/-- The topic of the info of the sessions of `watches`. -/
def infoTopic : GoString := sessionInfoTopic (str "a")

theorem broadcastSessionInfo_start (bs : GoString) : ∃ b₁,
    (broadcastSessionInfo 0 fun _ => some bs).start RangeOrder.ascending (watches infoTopic) =
        (.ok [.sessionInfo 0 [⟨0, 0⟩]], b₁) ∧
      OnTopic [] (b₁.packets.cells 0) ∧ 0 < b₁.packets.next ∧
      b₁.sessions = (watches infoTopic).sessions := by
  have hone : RangeOrder.ascending.toList ((watches infoTopic).subscriptionMgr.getSessions
      (sessionInfoTopic ((watches infoTopic).sessions 0).clientId)) = [⟨0, 0⟩] := by
    decide +kernel
  let b₁ : Broker MemStore := { watches infoTopic with
    packets := ((watches infoTopic).packets.alloc (.publish { newPublish with payload := bs })).2 }
  have hrun : Session.broadcastSessionInfoStart RangeOrder.ascending (fun _ => some bs) 0
      (watches infoTopic) = (.ok (some (0, [⟨0, 0⟩])), b₁) := by
    rw [Session.broadcastSessionInfoStart, bind_run_ok (session_run _ _),
      bind_run_ok (getSessions_run _ _), hone]
    rfl
  refine ⟨b₁, ?_, ⟨_, rfl, rfl⟩, Nat.zero_lt_one, rfl⟩
  rw [start, bind_run_ok hrun]
  rfl

/-- A session that subscribes to the info of a session is handed a PUBLISH without a topic. -/
theorem routed_not_sessionInfo : ∃ b₁ x,
    (broadcastSessionInfo 0 fun _ => some (str "json")).start RangeOrder.ascending
        (watches infoTopic) = (.ok [.sessionInfo 0 [⟨0, 0⟩]], b₁) ∧
      (broadcastSessionInfo 0 fun _ => some (str "json")).topic (watches infoTopic) = infoTopic ∧
      Session.handedBy ((Work.sessionInfo 0 [⟨0, 0⟩]).round {} (MemStore.storeMgr default)) b₁ =
        [(0, x)] ∧
      OnTopic [] x ∧ ¬ Routed (watches infoTopic).subscriptionMgr infoTopic (0, x) := by
  obtain ⟨b₁, hstart, htopic, hmsg, hsessions⟩ := broadcastSessionInfo_start (str "json")
  have hhanded := broadcastSessionInfoRound_handed {} (v := ⟨0, 0⟩) htopic hmsg
  rw [hsessions, if_pos (by decide)] at hhanded
  obtain ⟨x, hx, p, hp, hempty⟩ := hhanded
  refine ⟨b₁, x, hstart, rfl, hx, ⟨p, hp, hempty⟩, ?_⟩
  rintro ⟨-, q, -, hq, hqtopic, -⟩
  obtain rfl := ControlPacket.publish.inj (hp.symm.trans hq)
  exact sessionInfoTopic_ne_nil _ (hqtopic.symm.trans hempty)

end Routing
end MqttBroker

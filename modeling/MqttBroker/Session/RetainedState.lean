import MqttBroker.Session.ExactlyOnce
import MqttBroker.Session.Inbound
import MqttBroker.Store.MemStoreTheorems

/-!
# Retained messages follow the last retained PUBLISH

What `GetAllRetainMsgs` returns after any PUBLISH and PUBREL packets of any clients. The
messages that wait for a PUBREL are in a store that is a map (`StoreMgr.IsMessageMap`), the
retained ones in the part of `memStore` that keeps them. `onPublish` clears a retained
message before it looks whether the PUBLISH is a retransmission.
-/

namespace MqttBroker

open Broker GoM Exec

/-! ## The store -/

/-- The messages that wait in a store, the retained ones in `memStore`. -/
def StoreMgr.withMemRetained {σ : Type} (S : StoreMgr σ) (order : RangeOrder GoString Msg) :
    StoreMgr (σ × MemStore) where
  saveByClientIdMsgId msg s :=
    ((S.saveByClientIdMsgId msg s.1).1, (S.saveByClientIdMsgId msg s.1).2, s.2)
  saveRetainMsg topic body qos s := (none, s.1, s.2.saveRetainMsg topic body qos)
  getMsgByClientIdMsgId clientId msgId s :=
    ((S.getMsgByClientIdMsgId clientId msgId s.1).1, (S.getMsgByClientIdMsgId clientId msgId s.1).2,
      s.2)
  removeMsgById id s := ((S.removeMsgById id s.1).1, (S.removeMsgById id s.1).2, s.2)
  getAllRetainMsgs s := (.ok (s.2.getAllRetainMsgs order), s)
  removeMsgByTopic topic s :=
    ((s.2.removeMsgByTopic topic).1.map .store, s.1, (s.2.removeMsgByTopic topic).2)

variable {σ : Type} {S : StoreMgr σ} {order : RangeOrder GoString Msg}

/-- The retained messages by topic. -/
abbrev retained (s : σ × MemStore) : GoMap GoString Msg := s.2.retainMsgs

namespace MemStore

theorem removeMsgByTopic_retainMsgs (topic : GoString) (s : MemStore) :
    (s.removeMsgByTopic topic).2.retainMsgs = s.retainMsgs.erase topic := by
  rw [removeMsgByTopic]
  split
  · rfl
  · next h => exact (GoMap.erase_of_notMem h).symm

/-- The retained message of a PUBLISH. -/
def retainedMsg (p : PublishPacket) : Msg :=
  { clientId := [], msgId := 0, topic := p.topicName, qos := p.header.qos, body := p.payload }

theorem saveRetainMsg_retainMsgs {p : PublishPacket} (h : 0 < p.payload.length) (s : MemStore) :
    (s.saveRetainMsg p.topicName p.payload p.header.qos).retainMsgs =
      s.retainMsgs.insert p.topicName (retainedMsg p) := by
  simp only [saveRetainMsg]
  rw [if_neg (by omega)]
  rfl

end MemStore

namespace Session

open MemStore

/-! ## What a packet does to the retained messages -/

/-- The retained message of a topic after a write of its own: replaced or removed. -/
def writeRetained (p : PublishPacket) (m : GoMap GoString Msg) (topic : GoString) : Option Msg :=
  if topic = p.topicName then if 0 < p.payload.length then some (retainedMsg p) else none
  else m.lookup topic

variable (S order) in
theorem clearCall_withMemRetained (p : PublishPacket) (s : σ × MemStore) :
    (clearCall (S.withMemRetained order) p s).1 = none ∧
      (clearCall (S.withMemRetained order) p s).2.1 = s.1 ∧
      retained (clearCall (S.withMemRetained order) p s).2 =
        if p.payload.length = 0 ∧ p.header.retain then (retained s).erase p.topicName
        else retained s := by
  rw [clearCall]
  split
  · refine ⟨?_, rfl, removeMsgByTopic_retainMsgs p.topicName s.2⟩
    show (if (s.2.removeMsgByTopic p.topicName).1.map GoError.store = some (.store .errNoExsit)
      then none else (s.2.removeMsgByTopic p.topicName).1.map GoError.store) = none
    rw [removeMsgByTopic]
    split
    · rfl
    · rfl
  · exact ⟨rfl, rfl, rfl⟩

variable (S order) in
theorem retainCall_withMemRetained (p : PublishPacket) (s : σ × MemStore) :
    (retainCall (S.withMemRetained order) p s).1 = none ∧
      (retainCall (S.withMemRetained order) p s).2.1 = s.1 ∧
      retained (retainCall (S.withMemRetained order) p s).2 =
        if p.header.retain ∧ 0 < p.payload.length then
          (retained s).insert p.topicName (retainedMsg p)
        else retained s := by
  rw [retainCall]
  split
  · next h => exact ⟨rfl, rfl, saveRetainMsg_retainMsgs h.2 s.2⟩
  · exact ⟨rfl, rfl, rfl⟩

/-- The PUBLISH is the last word on its topic: it is handled to its end, unless its message
has no place in the store or waits there already. -/
def Writes (p : PublishPacket) (waits : Prop) : Prop :=
  p.header.retain = true ∧
    (0 < p.payload.length → p.header.qos ≤ 2 ∧ ¬ (p.header.qos = 2 ∧ waits))

/-- What `onPublish` leaves of the retained messages `m` for each topic. -/
structure WritesTo (p : PublishPacket) (waits : Prop) (m m' : GoMap GoString Msg) : Prop where
  writes : Writes p waits → ∀ topic, m'.lookup topic = writeRetained p m topic
  keeps : ¬ Writes p waits → m' = m

variable {p : PublishPacket} {waits : Prop} {m m₁ m' : GoMap GoString Msg}

/-- A retained message is cleared first, and then another may be saved. -/
theorem writesTo_of_calls (saves : Prop)
    (hclear : m₁ = if p.payload.length = 0 ∧ p.header.retain then m.erase p.topicName else m)
    (hsaves : p.header.retain = true → 0 < p.payload.length →
      (saves ↔ p.header.qos ≤ 2 ∧ ¬ (p.header.qos = 2 ∧ waits)))
    (hsave : p.header.retain = true → 0 < p.payload.length → saves →
      m' = m₁.insert p.topicName (retainedMsg p))
    (hkeep : ¬ (p.header.retain = true ∧ 0 < p.payload.length ∧ saves) → m' = m₁) :
    WritesTo p waits m m' := by
  by_cases hretain : p.header.retain = true
  · by_cases hlen : 0 < p.payload.length
    · rw [if_neg (by omega)] at hclear
      subst hclear
      constructor
      · intro h topic
        rw [hsave hretain hlen ((hsaves hretain hlen).mpr (h.2 hlen)), GoMap.lookup_insert_eq,
          writeRetained, if_pos hlen]
      · intro h
        refine hkeep fun hall => h ⟨hretain, fun _ => (hsaves hretain hlen).mp hall.2.2⟩
    · rw [if_pos ⟨by omega, hretain⟩] at hclear
      constructor
      · intro h topic
        rw [hkeep fun hall => hlen hall.2.1, hclear, GoMap.lookup_erase_eq, writeRetained,
          if_neg hlen]
      · exact fun h => absurd ⟨hretain, fun hpos => absurd hpos hlen⟩ h
  · rw [if_neg fun h => hretain h.2] at hclear
    exact ⟨fun h => absurd h.1 hretain, fun _ => (hkeep fun h => hretain h.1).trans hclear⟩

/-- A QoS 0 or QoS 1 message is saved whatever waits in the store. -/
theorem saves_iff (hqos : p.header.qos = 0 ∨ p.header.qos = 1) :
    True ↔ p.header.qos ≤ 2 ∧ ¬ (p.header.qos = 2 ∧ waits) := by
  refine iff_of_true trivial ?_
  rcases hqos with hqos | hqos
  · rw [hqos]
    exact ⟨by decide, fun h => absurd h.1 (by decide)⟩
  · rw [hqos]
    exact ⟨by decide, fun h => absurd h.1 (by decide)⟩

/-- The store after a PUBLISH: its messages are in order, and the retained ones are as
`WritesTo` says. -/
theorem publishOutcome_withMemRetained {Valid : σ → Prop} {view : σ → Messages}
    (hS : S.IsMessageMap Valid view) (clientId : GoString) (p : PublishPacket) (s : σ × MemStore)
    (hvalid : Valid s.1) :
    Valid (publishOutcome (S.withMemRetained order) clientId p s).store.1 ∧
      WritesTo p (((view s.1).lookup (clientId, p.messageID)).isSome = true) (retained s)
        (retained (publishOutcome (S.withMemRetained order) clientId p s).store) := by
  obtain ⟨herr, hmsgs, hclear⟩ := clearCall_withMemRetained S order p s
  rw [publishOutcome]
  simp only [herr]
  generalize (clearCall (S.withMemRetained order) p s).2 = s₁ at hmsgs hclear
  obtain ⟨-, hretainMsgs, hretain⟩ := retainCall_withMemRetained S order p s₁
  have hvalid₁ : Valid s₁.1 := by rwa [hmsgs]
  split
  · next hqos =>
    rw [qos0Outcome]
    split
    · next h =>
      refine ⟨hvalid₁, writesTo_of_calls True hclear (fun _ _ => saves_iff (.inl hqos))
        (fun _ _ _ => ?_) fun hnot => absurd ⟨h.1, h.2, trivial⟩ hnot⟩
      show ((s₁.2.removeMsgByTopic p.topicName).2.saveRetainMsg p.topicName p.payload
        p.header.qos).retainMsgs = _
      rw [saveRetainMsg_retainMsgs h.2, removeMsgByTopic_retainMsgs, GoMap.insert_erase]
    · next h =>
      exact ⟨hvalid₁, writesTo_of_calls True hclear (fun _ _ => saves_iff (.inl hqos))
        (fun hr hl _ => absurd ⟨hr, hl⟩ h) fun _ => rfl⟩
  · next hqos =>
    refine ⟨hretainMsgs ▸ hvalid₁, writesTo_of_calls True hclear (fun _ _ => saves_iff (.inr hqos))
      (fun hr hl _ => ?_) fun hnot => ?_⟩
    · exact hretain.trans (if_pos ⟨hr, hl⟩)
    · exact hretain.trans (if_neg fun h => hnot ⟨h.1, h.2, trivial⟩)
  · next hqos =>
    obtain ⟨hget, hgetValid, hgetView⟩ := hS.get s₁.1 clientId p.messageID hvalid₁
    have hrun : ((S.withMemRetained order).getMsgByClientIdMsgId clientId p.messageID s₁).1 =
      found ((view s.1).lookup (clientId, p.messageID)) := by
      rw [← hmsgs]
      exact hget
    rw [qos2Outcome, hrun]
    cases hlookup : (view s.1).lookup (clientId, p.messageID) with
    | some smsg =>
      -- a retransmission: nothing is saved
      refine ⟨hgetValid, writesTo_of_calls False hclear (fun _ _ => ?_) (fun _ _ h => h.elim)
        fun _ => rfl⟩
      exact iff_of_false id fun h => h.2 ⟨hqos, rfl⟩
    | none =>
      obtain ⟨herr, hsaveValid, -⟩ := hS.save _ (storedMsg clientId p) hgetValid
        (by rw [hgetView, hmsgs]; exact hlookup)
      let s₂ := ((S.withMemRetained order).saveByClientIdMsgId (storedMsg clientId p)
        ((S.withMemRetained order).getMsgByClientIdMsgId clientId p.messageID s₁).2).2
      obtain ⟨-, hretainMsgs, hretain⟩ := retainCall_withMemRetained S order p s₂
      have hsave : ((S.withMemRetained order).saveByClientIdMsgId (storedMsg clientId p)
        ((S.withMemRetained order).getMsgByClientIdMsgId clientId p.messageID s₁).2).1 = none :=
        herr
      simp only [found, if_true, hsave]
      refine ⟨hretainMsgs ▸ hsaveValid, writesTo_of_calls True hclear (fun _ _ => ?_)
        (fun hr hl _ => ?_) fun hnot => ?_⟩
      · exact iff_of_true trivial ⟨hqos ▸ UInt8.le_refl _, by simp⟩
      · exact hretain.trans (if_pos ⟨hr, hl⟩)
      · exact hretain.trans (if_neg fun h => hnot ⟨h.1, h.2, trivial⟩)
  · next h0 h1 h2 =>
    refine ⟨hvalid₁, writesTo_of_calls False hclear (fun _ _ => ?_) (fun _ _ h => h.elim)
      fun _ => rfl⟩
    refine iff_of_false id fun h => ?_
    have hle : p.header.qos ≤ 2 := h.1
    have : p.header.qos = 0 ∨ p.header.qos = 1 ∨ p.header.qos = 2 := by grind
    rcases this with h | h | h
    · exact h0 h
    · exact h1 h
    · exact h2 h

/-- A PUBREL takes its message out of the store and leaves the retained ones. -/
theorem releaseCalls_withMemRetained {Valid : σ → Prop} {view : σ → Messages}
    (hS : S.IsMessageMap Valid view) (clientId : GoString) (msgId : UInt16) (s : σ × MemStore)
    (hvalid : Valid s.1) :
    Valid (releaseCalls (S.withMemRetained order) clientId msgId s).2.1 ∧
      retained (releaseCalls (S.withMemRetained order) clientId msgId s).2 = retained s := by
  obtain ⟨hget, hgetValid, hgetView⟩ := hS.get s.1 clientId msgId hvalid
  have hrun : ((S.withMemRetained order).getMsgByClientIdMsgId clientId msgId s).1 =
    found ((view s.1).lookup (clientId, msgId)) := hget
  rw [releaseCalls, hrun]
  cases hlookup : (view s.1).lookup (clientId, msgId) with
  | none => exact ⟨hgetValid, rfl⟩
  | some smsg =>
    obtain ⟨hremoveValid, -⟩ := hS.remove _ _ _ hgetValid (hgetView ▸ hlookup)
    exact ⟨hremoveValid, rfl⟩

/-! ## The store after a packet -/

/-- The store is the same before and after. -/
def SameStore (b b' : Broker σ) : Prop := b'.storeMgr = b.storeMgr

instance : Std.Refl (SameStore (σ := σ)) := ⟨fun _ => rfl⟩

instance : IsTrans (Broker σ) SameStore := ⟨fun _ _ _ h h' => h'.trans h⟩

/-- Deliveries ask nothing of the store. -/
theorem publishing_sameStore (msg : PacketRef) : Publishing msg (SameStore (σ := σ)) where
  queue _ _ _ _ := Respects.modify fun _ => rfl
  newPacket _ := Respects.modifyGet fun _ => rfl
  number _ := Respects.modify fun _ => rfl
  allocToken tType := by
    unfold allocToken
    split
    · exact Respects.pure _
    · exact Respects.modifyGet fun _ => rfl
  publish _ _ _ := Respects.modify fun _ => rfl
  send _ := by
    refine Respects.bind (Respects.gets _) fun ss => Respects.ite (Respects.pure _) ?_
    refine Respects.bind (Respects.modify fun _ => rfl) fun _ => ?_
    refine Respects.bind (Respects.gets _) fun p => ?_
    exact Respects.bind (Respects.modify fun _ => rfl) fun _ => Respects.pure _

theorem forward_sameStore (cfg : Config) (order : SubscriberOrder) (this : SessionRef)
    (forwarded : Option PacketRef) :
    Respects SameStore (forward cfg order this forwarded : GoM σ Unit) := by
  cases forwarded with
  | none => exact Respects.pure ()
  | some msg =>
    refine Respects.bind (Respects.gets _) fun s => Respects.ite ?_ ?_
    · refine Respects.bind ?_ fun subs =>
        rounds_respects ((publishing_sameStore msg).sendToSubcriberRound cfg this) subs
      refine Respects.bind (Respects.gets _) fun _ => ?_
      refine Respects.bind (Respects.modify fun _ => rfl) fun _ => ?_
      refine Respects.bind (Respects.gets _) fun _ => ?_
      exact Respects.bind (Respects.modify fun _ => rfl) fun _ => Respects.pure _
    · exact Respects.bind (Respects.gets _) fun _ => Respects.modify fun _ => rfl

theorem handleMsg_publish_storeMgr (cfg : Config) (S : StoreMgr σ) (order : SubscriberOrder)
    (this : SessionRef) (p : PublishPacket) (b : Broker σ) :
    (handleMsg cfg S order this (.publish p) b).2.storeMgr =
      (publishOutcome S (b.sessions this).clientId p b.storeMgr).store := by
  obtain ⟨b₁, hrun, hsends⟩ := onPublish_run (S := S) this b.packets.next p
    { b with packets := (b.packets.alloc (.publish p)).2 }
  rw [handleMsg, bind_run_ok (newPacket_run _ b), procFrontRemoteMsg, bind_run_ok hrun]
  exact (forward_sameStore cfg order this _ b₁).trans hsends.queues.storeMgr

theorem handleMsg_pubrel_storeMgr (cfg : Config) (S : StoreMgr σ) (order : SubscriberOrder)
    (this : SessionRef) (m : IdPacket) (b : Broker σ) :
    (handleMsg cfg S order this (.pubrel m) b).2.storeMgr =
      (releaseCalls S (b.sessions this).clientId m.messageID b.storeMgr).2 := by
  obtain ⟨handled, b₁, hrun, hsends⟩ := onPubrel_run (S := S) this m
    { b with packets := (b.packets.alloc (.pubrel m)).2 }
  rw [handleMsg, bind_run_ok (newPacket_run _ b), procFrontRemoteMsg, bind_run_ok hrun]
  exact (forward_sameStore cfg order this _ b₁).trans hsends.queues.storeMgr

end Session

/-! ## The last retained PUBLISH -/

/-- A broker, and the last PUBLISH with the retain flag that was published to each topic. -/
structure Retention (σ : Type) where
  broker : Broker (σ × MemStore)
  latest : GoString → Option PublishPacket

namespace Retention

/-- A packet of a client comes, and its message is forwarded in some order. -/
inductive Action
  | publish (this : SessionRef) (p : PublishPacket) (order : SubscriberOrder)
  | pubrel (this : SessionRef) (m : IdPacket) (order : SubscriberOrder)

/-- The packet is a PUBLISH with QoS 2 whose message is stored already. -/
def Retransmitted (view : σ → Messages) (this : SessionRef) (p : PublishPacket)
    (b : Broker (σ × MemStore)) : Prop :=
  p.header.qos = 2 ∧
    ((view b.storeMgr.1).lookup ((b.sessions this).clientId, p.messageID)).isSome = true

instance (view : σ → Messages) (this : SessionRef) (p : PublishPacket)
    (b : Broker (σ × MemStore)) : Decidable (Retransmitted view this p b) :=
  inferInstanceAs (Decidable (_ ∧ _))

/-- The last PUBLISH with the retain flag of each topic, a retransmission not counted. -/
def latestAfter (view : σ → Messages) (this : SessionRef) (p : PublishPacket) (r : Retention σ) :
    GoString → Option PublishPacket :=
  if p.header.retain ∧ ¬ Retransmitted view this p r.broker then
    Function.update r.latest p.topicName (some p)
  else r.latest

/-- The message that a topic should retain: its payload and its QoS. -/
def due (r : Retention σ) (topic : GoString) : Option (GoString × UInt8) :=
  (r.latest topic).bind fun p =>
    if 0 < p.payload.length then some (p.payload, p.header.qos) else none

variable (cfg : Config) (S : StoreMgr σ) (order : RangeOrder GoString Msg)
  (view : σ → Messages)

/-- Packets of any clients, one after another. A message that is forwarded may end in a queue
that is full: what its handler has done by then counts. -/
def system (Valid : σ → Prop) : StepSystem (Retention σ) Action where
  init r := Valid r.broker.storeMgr.1 ∧ retained r.broker.storeMgr = ∅ ∧
    ∀ topic, r.latest topic = none
  step a r := some <|
    match a with
    | .publish this p order' =>
      { broker := (Session.handleMsg cfg (S.withMemRetained order) order' this (.publish p)
          r.broker).2
        latest := latestAfter view this p r }
    | .pubrel this m order' =>
      { r with broker := (Session.handleMsg cfg (S.withMemRetained order) order' this (.pubrel m)
          r.broker).2 }

/-- What the store returns for a topic is what the topic should retain. -/
def RetainedRight (r : Retention σ) : Prop :=
  ∃ msgs, ((S.withMemRetained order).getAllRetainMsgs r.broker.storeMgr).1 = .ok msgs ∧
    ∀ topic, (msgs.filter fun m => m.topic = topic).map (fun m => (m.body, m.qos)) =
      (r.due topic).toList

/-- The packet is no retransmission with an empty payload while its topic has a retained message,
and a message with a payload has one of the three QoS. -/
def MayHandle (r : Retention σ) : Action → Prop
  | .publish this p _ => p.header.retain = true →
    ¬ (p.payload.length = 0 ∧ Retransmitted view this p r.broker ∧
        p.topicName ∈ retained r.broker.storeMgr) ∧
      ¬ (0 < p.payload.length ∧ 2 < p.header.qos)
  | .pubrel _ _ _ => True

/-! ## What a packet does -/

/-- The retained messages are those that are due. -/
def Matches (r : Retention σ) : Prop :=
  ∀ topic, ((retained r.broker.storeMgr).lookup topic).map (fun m => (m.body, m.qos)) = r.due topic

/-- The store is in order: each retained message is filed under its topic and has a QoS that
there is. -/
structure Orderly (Valid : σ → Prop) (r : Retention σ) : Prop where
  valid : Valid r.broker.storeMgr.1
  filed : ∀ topic msg, (retained r.broker.storeMgr).lookup topic = some msg →
    msg.topic = topic ∧ msg.qos ≤ 2

variable {cfg S order view} {Valid : σ → Prop} {r r' : Retention σ}

theorem retainedRight_iff (h : Orderly Valid r) : RetainedRight S order r ↔ Matches r := by
  have hall : ∀ topic,
      (((r.broker.storeMgr.2.getAllRetainMsgs order).filter fun m => m.topic = topic).map
          fun m => (m.body, m.qos)) =
        (((retained r.broker.storeMgr).lookup topic).map fun m => (m.body, m.qos)).toList := by
    intro topic
    have hkey : ∀ e ∈ order.toList (retained r.broker.storeMgr),
        decide (e.2.topic = topic) = decide (e.1 = topic) := fun e he => by
      rw [(h.filed e.1 e.2 ((order.mem_toList _ _ _).mp he)).1]
    rw [MemStore.getAllRetainMsgs, List.filter_map]
    rw [show List.filter ((fun m : Msg => decide (m.topic = topic)) ∘ Sigma.snd)
      (order.toList (retained r.broker.storeMgr)) = _ from List.filter_congr hkey,
      order.filter_key_toList]
    cases (retained r.broker.storeMgr).lookup topic with
    | none => rfl
    | some m => rfl
  constructor
  · rintro ⟨msgs, hmsgs, hright⟩ topic
    obtain rfl := Except.ok.inj hmsgs
    have hhead := congrArg List.head? ((hall topic).symm.trans (hright topic))
    rwa [Option.head?_toList, Option.head?_toList] at hhead
  · intro hmatches
    exact ⟨_, rfl, fun topic => (hall topic).trans (congrArg _ (hmatches topic))⟩

/-- The PUBLISH is published anew and has the retain flag. -/
abbrev Counts (view : σ → Messages) (this : SessionRef) (p : PublishPacket)
    (r : Retention σ) : Prop :=
  p.header.retain = true ∧ ¬ Retransmitted view this p r.broker

/-- A packet of a client leaves the store in order and writes to its own topic at most. -/
theorem publish_writesTo (hS : S.IsMessageMap Valid view) (h : Orderly Valid r)
    {this : SessionRef} {p : PublishPacket} {order' : SubscriberOrder}
    (hstep : (system cfg S order view Valid).step (.publish this p order') r = some r') :
    Valid r'.broker.storeMgr.1 ∧ r'.latest = latestAfter view this p r ∧
      Session.WritesTo p (((view r.broker.storeMgr.1).lookup
        ((r.broker.sessions this).clientId, p.messageID)).isSome = true)
        (retained r.broker.storeMgr) (retained r'.broker.storeMgr) := by
  obtain rfl := Option.some.inj hstep
  have hstore := Session.handleMsg_publish_storeMgr cfg (S.withMemRetained order) order' this p
    r.broker
  obtain ⟨hvalid, hwrites⟩ := Session.publishOutcome_withMemRetained hS
    (r.broker.sessions this).clientId p r.broker.storeMgr h.valid
  rw [← hstore] at hvalid hwrites
  exact ⟨hvalid, rfl, hwrites⟩

theorem pubrel_keeps (hS : S.IsMessageMap Valid view) (h : Orderly Valid r)
    {this : SessionRef} {m : IdPacket} {order' : SubscriberOrder}
    (hstep : (system cfg S order view Valid).step (.pubrel this m order') r = some r') :
    Valid r'.broker.storeMgr.1 ∧ r'.latest = r.latest ∧
      retained r'.broker.storeMgr = retained r.broker.storeMgr := by
  obtain rfl := Option.some.inj hstep
  have hstore := Session.handleMsg_pubrel_storeMgr cfg (S.withMemRetained order) order' this m
    r.broker
  obtain ⟨hvalid, hretained⟩ := Session.releaseCalls_withMemRetained hS
    (r.broker.sessions this).clientId m.messageID r.broker.storeMgr h.valid
  rw [← hstore] at hvalid hretained
  exact ⟨hvalid, rfl, hretained⟩

theorem Orderly.step (hS : S.IsMessageMap Valid view) (h : Orderly Valid r) {a : Action}
    (hstep : (system cfg S order view Valid).step a r = some r') : Orderly Valid r' := by
  cases a with
  | pubrel this m order' =>
    obtain ⟨hvalid, -, hretained⟩ := pubrel_keeps hS h hstep
    exact ⟨hvalid, by rw [hretained]; exact h.filed⟩
  | publish this p order' =>
    obtain ⟨hvalid, -, hwrites⟩ := publish_writesTo hS h hstep
    refine ⟨hvalid, fun topic msg hmsg => ?_⟩
    by_cases hw : Session.Writes p (((view r.broker.storeMgr.1).lookup
      ((r.broker.sessions this).clientId, p.messageID)).isSome = true)
    · rw [hwrites.writes hw, Session.writeRetained] at hmsg
      split at hmsg
      · next htopic =>
        split at hmsg
        · next hlen =>
          rw [← Option.some.inj hmsg]
          exact ⟨htopic.symm, (hw.2 hlen).1⟩
        · exact absurd hmsg (by simp)
      · exact h.filed topic msg hmsg
    · rw [hwrites.keeps hw] at hmsg
      exact h.filed topic msg hmsg

/-- What is due for a topic after a PUBLISH that counts. -/
theorem due_of_counts {this : SessionRef} {p : PublishPacket}
    (hlatest : r'.latest = latestAfter view this p r) (h : Counts view this p r)
    (topic : GoString) : r'.due topic =
      if topic = p.topicName then
        if 0 < p.payload.length then some (p.payload, p.header.qos) else none
      else r.due topic := by
  rw [due, hlatest, latestAfter, if_pos h]
  split
  · next htopic =>
    rw [htopic, Function.update_self]
    rfl
  · next htopic =>
    rw [Function.update_of_ne htopic]
    rfl

theorem due_of_not_counts {this : SessionRef} {p : PublishPacket}
    (hlatest : r'.latest = latestAfter view this p r) (h : ¬ Counts view this p r) :
    r'.due = r.due := by
  funext topic
  rw [due, hlatest, latestAfter, if_neg h]
  rfl

/-! A PUBLISH may be the last word on its topic for the store (`Writes`) and for what is due
(`Counts`), for one of them, or for none. -/

section Publish

variable {this : SessionRef} {p : PublishPacket} {order' : SubscriberOrder}

/-- The retained message is written, and it is the one that is due. -/
theorem written_iff (hr : Matches r) (hlatest : r'.latest = latestAfter view this p r)
    {waits : Prop} (hw : Session.Writes p waits)
    (hlookup : ∀ topic, (retained r'.broker.storeMgr).lookup topic =
      Session.writeRetained p (retained r.broker.storeMgr) topic)
    (hcounts : Counts view this p r) :
    MayHandle view r (.publish this p order') ↔ Matches r' := by
  refine iff_of_true (fun _ => ⟨fun hbad => hcounts.2 hbad.2.1, fun hbad =>
    absurd (hw.2 hbad.1).1 (UInt8.not_le.mpr hbad.2)⟩) fun topic => ?_
  rw [hlookup, due_of_counts hlatest hcounts, Session.writeRetained]
  split
  · split
    · rfl
    · rfl
  · exact hr topic

/-- A retransmission clears the topic, and nothing else is due than before. -/
theorem cleared_iff (hr : Matches r) (hlatest : r'.latest = latestAfter view this p r)
    (hretain : p.header.retain = true) (hlen : ¬ 0 < p.payload.length)
    (hlookup : ∀ topic, (retained r'.broker.storeMgr).lookup topic =
      Session.writeRetained p (retained r.broker.storeMgr) topic)
    (hcounts : ¬ Counts view this p r) :
    MayHandle view r (.publish this p order') ↔ Matches r' := by
  have hagain : Retransmitted view this p r.broker := by
    by_contra hnot
    exact hcounts ⟨hretain, hnot⟩
  have hdue := due_of_not_counts hlatest hcounts
  have hcleared : (retained r'.broker.storeMgr).lookup p.topicName = none := by
    rw [hlookup, Session.writeRetained, if_pos rfl, if_neg hlen]
  constructor
  · intro hmay topic
    rw [hdue, ← hr topic]
    by_cases htopic : topic = p.topicName
    · have hnotMem : p.topicName ∉ retained r.broker.storeMgr := fun hmem =>
        (hmay hretain).1 ⟨by omega, hagain, hmem⟩
      rw [htopic, hcleared, Finmap.lookup_eq_none.mpr hnotMem]
    · rw [hlookup, Session.writeRetained, if_neg htopic]
  · intro hmatches _
    refine ⟨fun hbad => ?_, fun hbad => hlen hbad.1⟩
    have hnone := hmatches p.topicName
    rw [hcleared, hdue, ← hr p.topicName] at hnone
    exact Finmap.lookup_eq_none.mp (Option.map_eq_none_iff.mp hnone.symm) hbad.2.2

/-- A message with a QoS that there is not is due, and is not saved. -/
theorem unsaved_iff (h : Orderly Valid r) (hlatest : r'.latest = latestAfter view this p r)
    (hkeep : retained r'.broker.storeMgr = retained r.broker.storeMgr)
    (hlen : 0 < p.payload.length) (hqos : 2 < p.header.qos) (hcounts : Counts view this p r) :
    MayHandle view r (.publish this p order') ↔ Matches r' := by
  refine iff_of_false (fun hmay => (hmay hcounts.1).2 ⟨hlen, hqos⟩) fun hmatches => ?_
  have hdue := hmatches p.topicName
  rw [hkeep, due_of_counts hlatest hcounts, if_pos rfl, if_pos hlen] at hdue
  obtain ⟨msg, hmsg, heq⟩ := Option.map_eq_some_iff.mp hdue
  have hle := (h.filed p.topicName msg hmsg).2
  rw [show msg.qos = p.header.qos from congrArg Prod.snd heq] at hle
  exact absurd hle (UInt8.not_le.mpr hqos)

/-- Nothing is written and nothing new is due. -/
theorem ignored_iff (hr : Matches r) (hlatest : r'.latest = latestAfter view this p r)
    (hkeep : retained r'.broker.storeMgr = retained r.broker.storeMgr)
    (hlen : p.header.retain = true → 0 < p.payload.length)
    (hcounts : ¬ Counts view this p r) :
    MayHandle view r (.publish this p order') ↔ Matches r' := by
  refine iff_of_true (fun hretain => ?_) fun topic => ?_
  · have hagain : Retransmitted view this p r.broker := by
      by_contra hnot
      exact hcounts ⟨hretain, hnot⟩
    have hpos := hlen hretain
    refine ⟨fun hbad => absurd hbad.1 (by omega), fun hbad => ?_⟩
    rw [hagain.1] at hbad
    exact absurd hbad.2 (by decide)
  · rw [hkeep, due_of_not_counts hlatest hcounts]
    exact hr topic

end Publish

/-- From matching messages, a packet leaves them matching exactly when it meets the condition. -/
theorem mayHandle_iff (hS : S.IsMessageMap Valid view) (h : Orderly Valid r) (hr : Matches r)
    {a : Action} (hstep : (system cfg S order view Valid).step a r = some r') :
    MayHandle view r a ↔ Matches r' := by
  cases a with
  | pubrel this m order' =>
    obtain ⟨-, hlatest, hretained⟩ := pubrel_keeps hS h hstep
    refine iff_of_true trivial fun topic => ?_
    rw [hretained, due, hlatest]
    exact hr topic
  | publish this p order' =>
    obtain ⟨-, hlatest, hwrites⟩ := publish_writesTo hS h hstep
    by_cases hw : Session.Writes p (((view r.broker.storeMgr.1).lookup
      ((r.broker.sessions this).clientId, p.messageID)).isSome = true)
    · by_cases hcounts : Counts view this p r
      · exact written_iff hr hlatest hw (hwrites.writes hw) hcounts
      · refine cleared_iff hr hlatest hw.1 (fun hlen => ?_) (hwrites.writes hw) hcounts
        exact hcounts ⟨hw.1, (hw.2 hlen).2⟩
    · have hlen : p.header.retain = true → 0 < p.payload.length := by
        intro hretain
        by_contra hlen
        exact hw ⟨hretain, fun hpos => absurd hpos hlen⟩
      by_cases hcounts : Counts view this p r
      · refine unsaved_iff h hlatest (hwrites.keeps hw) (hlen hcounts.1) ?_ hcounts
        by_contra hqos
        exact hw ⟨hcounts.1, fun _ => ⟨UInt8.not_lt.mp hqos, hcounts.2⟩⟩
      · exact ignored_iff hr hlatest (hwrites.keeps hw) hlen hcounts

theorem Orderly.init (h : (system cfg S order view Valid).init r) : Orderly Valid r := by
  obtain ⟨hvalid, hempty, -⟩ := h
  refine ⟨hvalid, fun topic msg hmsg => ?_⟩
  rw [hempty, Finmap.lookup_empty] at hmsg
  exact absurd hmsg (by simp)

/-- Along a run of PUBLISH and PUBREL packets, the store returns exactly the last retained
message of each topic if and only if all packets meet the condition. -/
theorem retainedRight_always_iff (hS : S.IsMessageMap Valid view)
    (hr : (system cfg S order view Valid).init r) (as : List Action) :
    (system cfg S order view Valid).Always (RetainedRight S order) as r ↔
      (system cfg S order view Valid).Along (MayHandle view) as r := by
  have horderly : Orderly Valid r := .init hr
  obtain ⟨-, hempty, hlatest⟩ := hr
  have hmatches : Matches r := fun topic => by
    rw [hempty, Finmap.lookup_empty, due, hlatest]
    rfl
  have hright : ∀ r, Orderly Valid r →
      (RetainedRight S order r ↔ Orderly Valid r ∧ Matches r) := fun _ h =>
    (retainedRight_iff h).trans (and_iff_right h).symm
  refine (StepSystem.always_congr (fun _ _ _ h hs => h.step hS hs) hright as r horderly).trans ?_
  refine StepSystem.always_iff_along (fun r a hgood => ⟨fun hmay r' hs => ?_, fun hall => ?_⟩) as r
    ⟨horderly, hmatches⟩
  · exact ⟨hgood.1.step hS hs, (mayHandle_iff hS hgood.1 hgood.2 hs).mp hmay⟩
  · exact (mayHandle_iff hS hgood.1 hgood.2 rfl).mpr (hall _ rfl).2

/-! ## Two clients -/

/-- A PUBLISH to "x" with the retain flag. -/
def retainPublish (payload : GoString) (qos : UInt8) (messageID : UInt16) : PublishPacket :=
  { newPublish with
    header := { newPublish.header with qos, retain := true }
    topicName := str "x"
    messageID
    payload }

/-- Sessions 0 and 1 are of the clients "a" and "b", and no packet has come. -/
def start : Retention PairStore where
  broker :=
    let b := (Process.start {} (PairStore.newStoreMgr, MemStore.newStoreMgr) fun _ => true).broker
    (b.setSession 0 fun s => { s with clientId := str "a" }).setSession 1
      fun s => { s with clientId := str "b" }
  latest _ := none

theorem start_init : (system {} (PairStore.storeMgr default) default PairStore.msgs
    PairStore.Valid).init start :=
  ⟨PairStore.valid_newStoreMgr, rfl, fun _ => rfl⟩

def replaceRun : List Action :=
  [.publish 0 (retainPublish (str "m") 2 1) RangeOrder.ascending,
    .publish 1 (retainPublish (str "n") 0 0) RangeOrder.ascending,
    .publish 0 (retainPublish (str "m") 2 1) RangeOrder.ascending,
    .pubrel 0 { newPubrel with messageID := 1 } RangeOrder.ascending,
    .publish 1 (retainPublish [] 1 2) RangeOrder.ascending]

/-- Two clients retain messages, one of which is sent twice, and the last is empty. -/
theorem retainedRight_always_iff_replaced :
    (system {} (PairStore.storeMgr default) default PairStore.msgs PairStore.Valid).Always
      (RetainedRight (PairStore.storeMgr default) default) replaceRun start := by
  refine (retainedRight_always_iff (PairStore.isMessageMap default) start_init _).mpr ?_
  have hpublish : ∀ this payload qos messageID, 0 < payload.length ∧ qos ≤ 2 ∨ qos = 1 → ∀ r,
      MayHandle PairStore.msgs r
        (.publish this (retainPublish payload qos messageID) RangeOrder.ascending) := by
    intro this payload qos messageID h r _
    rcases h with ⟨hlen, hqos⟩ | rfl
    · exact ⟨fun hbad => hlen.ne' hbad.1, fun hbad => UInt8.not_le.mpr hbad.2 hqos⟩
    · have hnot : ¬ (1 : UInt8) = 2 ∧ ¬ (2 : UInt8) < 1 := by decide
      exact ⟨fun hbad => hnot.1 hbad.2.1.1, fun hbad => hnot.2 hbad.2⟩
  refine StepSystem.along_of_forall (fun a ha r => ?_) start
  simp only [replaceRun, List.mem_cons, List.not_mem_nil, or_false] at ha
  rcases ha with rfl | rfl | rfl | rfl | rfl
  · exact hpublish _ _ _ _ (.inl (by decide)) r
  · exact hpublish _ _ _ _ (.inl (by decide)) r
  · exact hpublish _ _ _ _ (.inl (by decide)) r
  · trivial
  · exact hpublish _ _ _ _ (.inr rfl) r

def clearTwice : List Action :=
  [.publish 0 (retainPublish [] 2 1) RangeOrder.ascending,
    .publish 1 (retainPublish (str "n") 0 0) RangeOrder.ascending,
    .publish 0 (retainPublish [] 2 1) RangeOrder.ascending]

/-- Client "a" clears "x" with QoS 2, client "b" retains a message there, and "a" sends its
PUBLISH again: the message of "b" is gone. -/
theorem retained_lost_by_retransmission : ∃ r,
    (system {} (PairStore.storeMgr default) default PairStore.msgs PairStore.Valid).exec
      clearTwice start = some r ∧
      r.due (str "x") = some (str "n", 0) ∧ str "x" ∉ retained r.broker.storeMgr ∧
      ¬ RetainedRight (PairStore.storeMgr default) default r := by
  have hend : ∃ r, (system {} (PairStore.storeMgr default) default PairStore.msgs
      PairStore.Valid).exec clearTwice start = some r ∧ decide (r.due (str "x") =
        some (str "n", 0) ∧ str "x" ∉ retained r.broker.storeMgr) = true :=
    StepSystem.exists_of_any (by decide +kernel)
  obtain ⟨r, hexec, hr⟩ := hend
  obtain ⟨hdue, hnot⟩ := of_decide_eq_true hr
  have horderly : Orderly PairStore.Valid r :=
    StepSystem.Reach.invariant (fun _ => Orderly.init)
      (fun _ _ _ h _ hs => h.step (PairStore.isMessageMap default) hs)
      (StepSystem.reachable_of_exec start_init hexec)
  refine ⟨r, hexec, hdue, hnot, fun hright => ?_⟩
  have hmatches := (retainedRight_iff horderly).mp hright (str "x")
  rw [Finmap.lookup_eq_none.mpr hnot, hdue] at hmatches
  exact absurd hmatches (by simp)

end Retention
end MqttBroker

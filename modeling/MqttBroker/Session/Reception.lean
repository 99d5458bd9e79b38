import MqttBroker.Session.History
import MqttBroker.Session.Inbound

/-!
# What a session does for a message

The handlers of PUBLISH and PUBREL for any QoS, on a session whose channel runs and over a store
that is a map: what is forwarded, what is stored and what is acknowledged is what is due for the
packets that have been handled, also where the call of a subscriber's `Publish` blocks in the end.
-/

namespace MqttBroker

open Broker GoM Exec
open ControlPacket (inQos2)

/-- The id of a PUBACK. -/
def ControlPacket.pubackId : ControlPacket → Option UInt16
  | puback m => some m.messageID
  | _ => none

/-- The id of a PUBACK that a session has queued. -/
def Event.puback (this : SessionRef) : Event → Option UInt16
  | .send s p => if s = this then p.pubackId else none
  | _ => none

variable {σ : Type}

/-- The ids that a session has acknowledged with a PUBACK, so far. -/
def Broker.pubacks (b : Broker σ) (this : SessionRef) : List UInt16 :=
  b.trace.filterMap (Event.puback this)

namespace Session

variable (cfg : Config) {S : StoreMgr σ} {Valid : σ → Prop} {view : σ → Messages}
  {this : SessionRef} {s : σ} {h : List ControlPacket}

/-! ## Calls of the store -/

theorem clearCall_valid (hS : S.IsMessageMap Valid view) (p : PublishPacket) (hs : Valid s) :
    (clearCall S p s).1 = none ∧ Valid (clearCall S p s).2 ∧
      view (clearCall S p s).2 = view s := by
  rw [clearCall]
  split
  · obtain ⟨herr, hvalid, hview⟩ := hS.removeTopic s p.topicName hs
    refine ⟨?_, hvalid, hview⟩
    rcases herr with herr | herr
    · simp only [herr, reduceCtorEq, if_false]
    · simp only [herr, if_true]
  · exact ⟨rfl, hs, rfl⟩

theorem retainCall_valid (hS : S.IsMessageMap Valid view) (p : PublishPacket) (hs : Valid s) :
    (retainCall S p s).1 = none ∧ Valid (retainCall S p s).2 ∧
      view (retainCall S p s).2 = view s := by
  rw [retainCall]
  split
  · exact hS.saveRetain s p.topicName p.payload p.header.qos hs
  · exact ⟨rfl, hs, rfl⟩

/-- The acknowledgement of a PUBLISH. -/
theorem publishOutcome_pubackId (hS : S.IsMessageMap Valid view) (clientId : GoString)
    (p : PublishPacket) (hs : Valid s) :
    (publishOutcome S clientId p s).ack.bind ControlPacket.pubackId =
      (ControlPacket.publish p).pubackDue := by
  obtain ⟨herr, -⟩ := clearCall_valid hS p hs
  by_cases hqos : p.header.qos = 0 ∨ p.header.qos = 1 ∨ p.header.qos = 2
  · rw [publishOutcome, herr, ControlPacket.pubackDue]
    rcases hqos with hqos | hqos | hqos
    · simp only [hqos, qos0Outcome]
      split
      · rfl
      · rfl
    · simp only [hqos]
      rfl
    · simp only [hqos, (qos2Outcome_ack clientId p _).1]
      rfl
  · have hne : p.header.qos ≠ 1 := fun h => hqos (.inr (.inl h))
    rw [publishOutcome_unknown clientId herr hqos, ControlPacket.pubackDue, if_neg hne]
    rfl

/-- A PUBLISH that is not of QoS 2 leaves the stored messages, and its answer is no part of the
QoS 2 flow. -/
theorem publishOutcome_valid (hS : S.IsMessageMap Valid view) (clientId : GoString)
    {p : PublishPacket} (hqos : p.header.qos ≠ 2) (hs : Valid s) :
    (publishOutcome S clientId p s).forwards = decide (p.header.qos < 2) ∧
      Valid (publishOutcome S clientId p s).store ∧
      view (publishOutcome S clientId p s).store = view s ∧
      ∀ q ∈ (publishOutcome S clientId p s).ack, (Event.send this q).output this = none := by
  obtain ⟨herr, hvalid, hview⟩ := clearCall_valid hS p hs
  by_cases h0 : p.header.qos = 0
  · rw [publishOutcome, herr]
    simp only [h0, qos0Outcome]
    split
    · obtain ⟨-, hvalid₁, hview₁⟩ := hS.removeTopic _ p.topicName hvalid
      obtain ⟨-, hvalid₂, hview₂⟩ := hS.saveRetain _ p.topicName p.payload 0 hvalid₁
      exact ⟨rfl, hvalid₂, hview₂.trans (hview₁.trans hview), fun q hq => absurd hq (by simp)⟩
    · exact ⟨rfl, hvalid, hview, fun q hq => absurd hq (by simp)⟩
  · by_cases h1 : p.header.qos = 1
    · rw [publishOutcome, herr]
      simp only [h1, qos1Outcome]
      obtain ⟨herr₁, hvalid₁, hview₁⟩ := retainCall_valid hS p hvalid
      rw [herr₁]
      refine ⟨rfl, hvalid₁, hview₁.trans hview, fun q hq => ?_⟩
      rw [← Option.some.inj hq]
      rfl
    · have hunknown : ¬ (p.header.qos = 0 ∨ p.header.qos = 1 ∨ p.header.qos = 2) :=
        fun hknown => hknown.elim h0 fun hknown => hknown.elim h1 hqos
      have hlt : ¬ p.header.qos < 2 := by
        intro hlt
        have hnat : p.header.qos.toNat < 2 := hlt
        have hne0 : p.header.qos.toNat ≠ 0 := fun h => h0 (UInt8.toNat_inj.mp h)
        have hne1 : p.header.qos.toNat ≠ 1 := fun h => h1 (UInt8.toNat_inj.mp h)
        omega
      rw [publishOutcome_unknown clientId herr hunknown, decide_eq_false hlt]
      exact ⟨rfl, hvalid, hview, fun q hq => absurd hq (by simp)⟩

/-! ## Answers -/

/-- A running channel queues the answers. -/
theorem filterMap_of_sends {α : Type} {f : Event → Option α} {ps : List ControlPacket}
    {b b' : Broker σ} (hsends : Sends this ps b b')
    (hrunning : (b.sessions this).channel.isStoped = false) :
    b'.trace.filterMap f = b.trace.filterMap f ++ ps.filterMap fun p => f (.send this p) := by
  rw [hsends.trace, hrunning, if_neg Bool.false_ne_true, List.filterMap_append, List.filterMap_map]
  rfl

theorem outputs_of_sends {acks : Option ControlPacket} {b b' : Broker σ}
    (hsends : Sends this acks.toList b b')
    (hrunning : (b.sessions this).channel.isStoped = false)
    (hacks : ∀ q ∈ acks, (Event.send this q).output this = none) :
    b'.outputs this = b.outputs this := by
  have hnone : (acks.toList.filterMap fun q => (Event.send this q).output this) = [] :=
    List.filterMap_eq_nil_iff.mpr fun q hq => hacks q (Option.mem_toList.mp hq)
  rw [outputs, filterMap_of_sends hsends hrunning, hnone, List.append_nil]
  rfl

theorem pubacks_of_sends {acks : Option ControlPacket} {b b' : Broker σ}
    (hsends : Sends this acks.toList b b')
    (hrunning : (b.sessions this).channel.isStoped = false) :
    b'.pubacks this = b.pubacks this ++ (acks.bind ControlPacket.pubackId).toList := by
  have hack : (acks.toList.filterMap fun q => (Event.send this q).puback this) =
      (acks.bind ControlPacket.pubackId).toList := by
    cases acks with
    | none => rfl
    | some q =>
      have hself : (Event.send this q).puback this = q.pubackId := if_pos rfl
      show [q].filterMap _ = q.pubackId.toList
      rw [List.filterMap_cons, hself]
      cases q.pubackId with
      | none => rfl
      | some id => rfl
  rw [pubacks, filterMap_of_sends hsends hrunning, hack]
  rfl

/-- Forwarding queues no PUBACK. -/
theorem forward_pubacks (order : SubscriberOrder) {forwarded : Option PacketRef} {b : Broker σ}
    (hvalid : ∀ r, forwarded = some r → b.ValidMsg r) :
    (forward cfg order this forwarded b).2.pubacks this = b.pubacks this := by
  cases forwarded with
  | none => rfl
  | some r =>
    obtain ⟨p, hp⟩ := (hvalid r rfl).publish
    have hdel := forward_delivered cfg order this (hvalid r rfl) hp
    rw [pubacks, hdel.filterMap_trace fun e he => ?_, List.filterMap_append]
    · have hevent : (forwardEvent this (b.sessions this).isServer p).puback this = none := by
        rw [forwardEvent]
        split
        · rfl
        · rfl
      rw [List.filterMap_cons_none hevent]
      exact List.append_nil _
    · cases e with
      | send s q =>
        rw [Event.puback]
        split
        · cases q with
          | puback m =>
            have hkind : (ControlPacket.puback m).kind = PacketType.publish := of_decide_eq_true he
            rw [ControlPacket.kind] at hkind
            exact absurd hkind (by decide)
          | _ => rfl
        · rfl
      | _ => rfl

/-! ## The handlers -/

variable (S this) in
/-- A PUBLISH is answered, and forwarded as its outcome says. -/
theorem handleMsg_publish (order : SubscriberOrder) {p : PublishPacket}
    (htype : (ControlPacket.publish p).type = PacketType.publish) (b : Broker σ) :
    ∃ b₁, handleMsg cfg S order this (.publish p) b = forward cfg order this
        (if (publishOutcome S (b.sessions this).clientId p b.storeMgr).forwards then
          some b.packets.next else none) b₁ ∧
      Sends this (publishOutcome S (b.sessions this).clientId p b.storeMgr).ack.toList
        { b with
          packets := (b.packets.alloc (.publish p)).2
          storeMgr := (publishOutcome S (b.sessions this).clientId p b.storeMgr).store } b₁ ∧
      b₁.ValidMsg b.packets.next := by
  obtain ⟨b₁, hrun, hsends⟩ := onPublish_run (S := S) this b.packets.next p
    { b with packets := (b.packets.alloc (.publish p)).2 }
  have hvalid : ({ b with packets := (b.packets.alloc (.publish p)).2 } : Broker σ).ValidMsg
      b.packets.next :=
    newPacket_validMsg rfl htype (newPacket_run _ b)
  refine ⟨b₁, ?_, hsends, hsends.validMsg hvalid⟩
  rw [handleMsg, bind_run_ok (newPacket_run _ b), procFrontRemoteMsg, bind_run_ok hrun]
  rfl

/-- A PUBLISH of QoS 1 is acknowledged, and nothing else. -/
theorem handleMsg_pubacks (hS : S.IsMessageMap Valid view) (order : SubscriberOrder)
    {p : ControlPacket} (hp : p.delivers = true) {b : Broker σ} (hready : Ready Valid this b) :
    (handleMsg cfg S order this p b).2.pubacks this =
      b.pubacks this ++ p.pubackDue.toList := by
  cases p with
  | publish p =>
    obtain ⟨b₁, hmsg, hsends, hvalid⟩ :=
      handleMsg_publish cfg S this order (of_decide_eq_true hp) b
    rw [hmsg, forward_pubacks cfg order, pubacks_of_sends hsends hready.running,
      publishOutcome_pubackId hS _ p hready.valid]
    · rfl
    · intro r hr
      split at hr
      · exact Option.some.inj hr ▸ hvalid
      · exact absurd hr (by simp)
  | pubrel m =>
    obtain ⟨handled, b₁, hrun, hsends⟩ := onPubrel_run (S := S) this m
      { b with packets := (b.packets.alloc (.pubrel m)).2 }
    have hmsg : handleMsg cfg S order this (.pubrel m) b =
        forward cfg order this handled.forwarded b₁ := by
      rw [handleMsg, bind_run_ok (newPacket_run _ b), procFrontRemoteMsg, bind_run_ok hrun]
    rw [hmsg, forward_pubacks cfg order (onPubrel_forwards S hrun)]
    have hanswer : Sends this
        (some (ControlPacket.pubcomp { newPubcomp with messageID := m.messageID })).toList _ b₁ :=
      hsends
    exact pubacks_of_sends hanswer hready.running
  | _ => exact absurd hp Bool.false_ne_true

/-- A PUBLISH that is not of QoS 2 is forwarded at once, or never. -/
theorem handleMsg_atOnce (hS : S.IsMessageMap Valid view) (order : SubscriberOrder)
    {p : PublishPacket} (htype : (ControlPacket.publish p).type = PacketType.publish)
    (hqos : p.header.qos ≠ 2) {b : Broker σ} (hready : Ready Valid this b) :
    Ready Valid this (handleMsg cfg S order this (.publish p) b).2 ∧
      (∀ id, (handleMsg cfg S order this (.publish p) b).2.stored view this id =
        b.stored view this id) ∧
      (handleMsg cfg S order this (.publish p) b).2.outputs this = b.outputs this ++
        if p.header.qos < 2 then [.forward p.topicName p.payload] else [] := by
  obtain ⟨hforwards, hvalid, hview, hacks⟩ :=
    publishOutcome_valid hS (b.sessions this).clientId hqos hready.valid
  obtain ⟨b₁, hmsg, hsends, hmsgValid⟩ := handleMsg_publish cfg S this order htype b
  have hready₁ : Ready Valid this b₁ :=
    ⟨hsends.queues.storeMgr ▸ hvalid, hsends.isStoped.trans hready.running⟩
  have hout : b₁.outputs this = b.outputs this :=
    (outputs_of_sends hsends hready.running hacks).trans rfl
  have hstored : ∀ id, b₁.stored view this id = b.stored view this id := by
    intro id
    have hclient : (b₁.sessions this).clientId = (b.sessions this).clientId := hsends.clientId
    rw [stored, stored, hclient, hsends.queues.storeMgr, hview]
  rw [hmsg, hforwards]
  by_cases hlt : p.header.qos < 2
  · have hcell : b₁.packets.cells b.packets.next = .publish p :=
      (hsends.queues.cells _ (Nat.lt_succ_self _)).trans (Heap.alloc_self _ _)
    obtain ⟨hfout, hfstore, hfline⟩ := forward_outputs cfg order this hmsgValid hcell
    rw [decide_eq_true hlt, if_pos rfl, if_pos hlt]
    refine ⟨hready₁.congr (hfstore ▸ hready₁.valid) hfline, fun id => ?_, ?_⟩
    · rw [stored_congr view (congrArg view hfstore) hfline]
      exact hstored id
    · rw [hfout, hout]
  · rw [decide_eq_false hlt, if_neg Bool.false_ne_true, if_neg hlt]
    exact ⟨hready₁, hstored, hout.trans (List.append_nil _).symm⟩

/-- One packet: the store follows the QoS 2 packets, and what is due is done. -/
theorem handleMsg_outputsOf (hS : S.IsMessageMap Valid view) (order : SubscriberOrder)
    {p : ControlPacket} (hp : p.delivers = true) {b : Broker σ}
    (ht : Tracks Valid view this (fun _ => none) (h.filter inQos2) b) :
    Tracks Valid view this (fun _ => none) ((h ++ [p]).filter inQos2)
        (handleMsg cfg S order this p b).2 ∧
      (handleMsg cfg S order this p b).2.outputs this = b.outputs this ++ outputsOf h p := by
  rw [List.filter_append, List.filter_singleton, outputsOf]
  by_cases hqos : p.inQos2 = true
  · obtain ⟨htracks, hout, -⟩ := handleMsg_tracks cfg hS order hqos ht
    rw [hqos, if_pos rfl]
    exact ⟨htracks, hout⟩
  · cases p with
    | publish m =>
      obtain ⟨hready, hstored, hout⟩ := handleMsg_atOnce cfg hS order (of_decide_eq_true hp)
        (fun h => hqos (decide_eq_true h)) ht.ready
      rw [if_neg hqos, Bool.eq_false_of_not_eq_true hqos]
      refine ⟨⟨hready, fun id => ?_⟩, hout.trans (congrArg _ ?_)⟩
      · rw [hstored, ht.stored]
        exact congrArg (heldAfter _ · id) (List.append_nil _).symm
      · by_cases hlt : m.header.qos < 2
        · rw [if_pos hlt, ControlPacket.atOnce, if_pos (decide_eq_true hlt)]
          rfl
        · rw [if_neg hlt, ControlPacket.atOnce, decide_eq_false hlt]
          rfl
    | pubrel m => exact absurd rfl hqos
    | _ => exact absurd hp Bool.false_ne_true

end Session
end MqttBroker

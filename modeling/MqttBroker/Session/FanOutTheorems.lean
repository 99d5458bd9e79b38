import MqttBroker.Session.Frames
import MqttBroker.Session.Sound

/-!
# What subscribers are handed

The packets that `sendToSubcriber` and `sessionMgr.Publish` give to `Publish`, read off the
trace. A subscriber gets the topic and the payload that were published, without the retain
flag, and the QoS that was published: the copy with the lower QoS is not the packet that is
sent. So the QoS is the lower one exactly for the subscribers whose granted QoS is not
lower.
-/

namespace MqttBroker

open Broker GoM Exec

variable {σ : Type} (cfg : Config)

/-- The packets handed to `Publish` so far, each with its session. -/
def Broker.handed (b : Broker σ) : List (SessionRef × ControlPacket) :=
  b.calls.filterMap fun
    | .publish s _ msg => some (s, msg)
    | _ => none

/-- What a subscriber with the granted QoS should be handed for a published message. -/
def Faithful (published : PublishPacket) (granted : UInt8) (msg : ControlPacket) : Prop :=
  ∃ p, msg = .publish p ∧ p.header.qos = min published.header.qos granted ∧
    p.topicName = published.topicName ∧ p.payload = published.payload ∧ p.header.retain = false

/-- A packet, numbered for each of the sessions. -/
def numberedFor (p : PublishPacket) (ids : List (SessionRef × UInt16)) :
    List (SessionRef × ControlPacket) :=
  ids.map fun v => (v.1, .publish { p with messageID := v.2 })

/-- The QoS that was published is the lower one when it is at most the granted one. -/
theorem faithful_iff {published : PublishPacket} {granted : UInt8} {id : UInt16} :
    Faithful published granted (.publish { published with
      header := { published.header with retain := false }, messageID := id }) ↔
        published.header.qos ≤ granted := by
  have hmin : published.header.qos = min published.header.qos granted ↔
      published.header.qos ≤ granted := by
    show published.header.qos = (if published.header.qos ≤ granted then _ else _) ↔ _
    constructor
    · intro h
      by_contra hlt
      rw [if_neg hlt] at h
      exact hlt (h ▸ UInt8.le_refl _)
    · intro h
      rw [if_pos h]
  constructor
  · rintro ⟨p, hp, hqos, -⟩
    obtain rfl := ControlPacket.publish.inj hp
    exact hmin.mp hqos
  · exact fun h => ⟨_, rfl, hmin.mpr h, rfl, rfl, rfl⟩

/-! ## One call of `Publish` -/

namespace Session

/-- `Publish` records the packet with the next id of the session, and leaves it so. -/
theorem publish_handed (this : SessionRef) {msg : PacketRef} {b : Broker σ} {p : PublishPacket}
    (hp : b.packets.cells msg = .publish p) (hmsg : msg < b.packets.next) :
    (publish cfg this msg b).2.handed =
        b.handed ++ [(this, .publish { p with messageID := (b.sessions this).nextId })] ∧
      (publish cfg this msg b).2.packets.cells msg =
        .publish { p with messageID := (b.sessions this).nextId } ∧
      msg < (publish cfg this msg b).2.packets.next ∧
      ∀ s, (((publish cfg this msg b).2.sessions s).isConnected ∧
          ¬ ((publish cfg this msg b).2.sessions s).isClosed ↔
        (b.sessions s).isConnected ∧ ¬ (b.sessions s).isClosed) := by
  obtain ⟨t, b₁, hpub, hrun⟩ := publish_run cfg this msg b
  have hcell : b₁.packets.cells msg =
      .publish { p with messageID := (b.sessions this).nextId } := by
    rw [hpub.packets, Heap.modify_self, hp]
    rfl
  have hlt : msg < b₁.packets.next := by
    rw [hpub.packets]
    exact hmsg
  have hq := enqueue_queues cfg this ⟨msg, t⟩ b₁
  rw [hrun]
  refine ⟨?_, ?_, lt_of_lt_of_le hlt hq.packets_next, fun s => (hq.isConnected_iff s).trans ?_⟩
  · rw [handed, hq.calls, calls, hpub.trace, hcell, List.filter_append, List.filterMap_append]
    rfl
  · rw [hq.cells msg hlt, hcell]
  · rw [hpub.sessions]
    by_cases hs : s = this
    · rw [hs, setSession_self]
      exact Iff.rfl
    · rw [setSession_of_ne _ _ hs]

/-- `Publish` on a session that is open returns no error. -/
theorem publish_no_error {this : SessionRef} {msg : PacketRef} {b b' : Broker σ}
    {r : Option TokenRef × Option GoError}
    (hopen : (b.sessions this).isConnected ∧ ¬ (b.sessions this).isClosed)
    (h : publish cfg this msg b = (.ok r, b')) : r.2 = none := by
  obtain ⟨t, b₁, hpub, hrun⟩ := publish_run cfg this msg b
  have hopen₁ : (b₁.sessions this).isConnected ∧ ¬ (b₁.sessions this).isClosed := by
    rw [hpub.sessions, setSession_self]
    exact hopen
  rw [hrun, enqueue, bind_run_ok (session_run this b₁), if_neg (by tauto)] at h
  split at h
  · obtain ⟨_, b₂, -, h₂⟩ := bind_eq_ok h
    rw [← (pure_eq_ok h₂).1]
  · rw [pushPedding, bind_run_ok (session_run this b₁)] at h
    split at h
    · rw [← (pure_eq_ok h).1]
    · split at h
      · obtain ⟨_, b₂, -, h₂⟩ := bind_eq_ok h
        rw [← (pure_eq_ok h₂).1]
      · exact absurd (congrArg Prod.fst h) (by simp)

/-! ## `sendToSubcriber` -/

/-- Whether `sendToSubcriber`, called on `this`, publishes to a subscriber. -/
def serves (this : SessionRef) (b : Broker σ) (s : SessionRef) : Bool :=
  decide (¬ (cfg.sendToSelf = false ∧ s = this) ∧ (b.sessions s).isConnected ∧
    ¬ (b.sessions s).isClosed)

variable {cfg}

theorem serves_congr {this : SessionRef} {b b' : Broker σ}
    (h : ∀ s, ((b'.sessions s).isConnected ∧ ¬ (b'.sessions s).isClosed ↔
      (b.sessions s).isConnected ∧ ¬ (b.sessions s).isClosed)) :
    serves cfg this b' = serves cfg this b := by
  funext s
  exact decide_eq_decide.mpr (and_congr_right fun _ => h s)

variable (cfg)

/-- A round that serves a subscriber allocates the copy and calls `Publish`. -/
theorem sendToSubcriberRound_run {this : SessionRef} {msg : PacketRef} {b : Broker σ}
    {p : PublishPacket} {v : Σ _ : SessionRef, UInt8} (hp : b.packets.cells msg = .publish p)
    (h : serves cfg this b v.1 = true) : ∃ nmsg, sendToSubcriberRound cfg this msg v b =
      (publish cfg v.1 msg >>= fun r => pure r.2.isNone : GoM σ Bool)
        { b with packets := (b.packets.alloc nmsg).2 } := by
  obtain ⟨hself, hopen⟩ := of_decide_eq_true h
  rw [sendToSubcriberRound, bind_run_ok (session_run _ _), if_neg hself, if_pos hopen,
    bind_run_ok (packet_run _ _), hp]
  exact ⟨_, bind_run_ok (newPacket_run _ _)⟩

theorem sendToSubcriberRound_of_serves {this : SessionRef} {msg : PacketRef} {b : Broker σ}
    {p : PublishPacket} {v : Σ _ : SessionRef, UInt8} (hp : b.packets.cells msg = .publish p)
    (hmsg : msg < b.packets.next) (h : serves cfg this b v.1 = true) : ∃ b₁ : Broker σ,
      sendToSubcriberRound cfg this msg v b =
        (publish cfg v.1 msg >>= fun r => pure r.2.isNone : GoM σ Bool) b₁ ∧
      b₁.packets.cells msg = .publish p ∧ msg < b₁.packets.next ∧ b₁.sessions = b.sessions ∧
      b₁.handed = b.handed := by
  obtain ⟨nmsg, hrun⟩ := sendToSubcriberRound_run cfg hp h
  refine ⟨_, hrun, ?_, Nat.lt_succ_of_lt hmsg, rfl, rfl⟩
  rw [← hp]
  exact Heap.alloc_of_lt _ hmsg

theorem sendToSubcriberRound_of_not_serves {this : SessionRef} {msg : PacketRef} {b : Broker σ}
    {v : Σ _ : SessionRef, UInt8} (h : serves cfg this b v.1 = false) :
    sendToSubcriberRound cfg this msg v b = (.ok true, b) := by
  have hnot := of_decide_eq_false h
  rw [sendToSubcriberRound, bind_run_ok (session_run _ _)]
  by_cases hself : cfg.sendToSelf = false ∧ v.1 = this
  · rw [if_pos hself]
    rfl
  · rw [if_neg hself, if_neg (by tauto)]
    rfl

/-- The loop hands the packet, as it is, to the subscribers that are served, in order; when
it returns it has come to the last of them. -/
theorem rounds_handed (this : SessionRef) {msg : PacketRef} {p : PublishPacket}
    (l : Subscribers) :
    ∀ {b : Broker σ} {id : UInt16}, b.packets.cells msg = .publish { p with messageID := id } →
      msg < b.packets.next → ∃ ids,
        (rounds (sendToSubcriberRound cfg this msg) l b).2.handed =
          b.handed ++ numberedFor p ids ∧
        ids.map Prod.fst <+: (l.filter fun v => serves cfg this b v.1).map Sigma.fst ∧
        ((rounds (sendToSubcriberRound cfg this msg) l b).1 = .ok () →
          ids.map Prod.fst = (l.filter fun v => serves cfg this b v.1).map Sigma.fst) := by
  induction l with
  | nil =>
    intro b id _ _
    refine ⟨[], ?_, List.prefix_refl _, fun _ => rfl⟩
    exact (List.append_nil _).symm
  | cons v l ih =>
    intro b id hcell hmsg
    rw [rounds, bind_run]
    cases hserves : serves cfg this b v.1 with
    | false =>
      rw [sendToSubcriberRound_of_not_serves cfg hserves,
        List.filter_cons_of_neg (by simp [hserves])]
      exact ih hcell hmsg
    | true =>
      obtain ⟨b₁, hrun, hcell₁, hlt₁, hsess₁, hhanded₁⟩ :=
        sendToSubcriberRound_of_serves cfg hcell hmsg hserves
      obtain ⟨hhanded, hcell₂, hlt₂, hopen₂⟩ := publish_handed cfg v.1 hcell₁ hlt₁
      rw [hsess₁] at hhanded hopen₂
      have hserves₂ : serves cfg this _ = serves cfg this b := serves_congr hopen₂
      have hopen : (b₁.sessions v.1).isConnected ∧ ¬ (b₁.sessions v.1).isClosed := by
        rw [hsess₁]
        exact (of_decide_eq_true hserves).2
      rw [hrun, List.filter_cons_of_pos (by simp [hserves]), bind_run]
      rcases hr : publish cfg v.1 msg b₁ with ⟨e | r, b₂⟩
      · rw [hr, hhanded₁] at hhanded
        refine ⟨[(v.1, (b.sessions v.1).nextId)], hhanded, ?_, fun h => absurd h (by simp)⟩
        exact List.prefix_append _ _
      · have herr : r.2 = none := publish_no_error cfg hopen hr
        rw [hr] at hhanded hcell₂ hlt₂ hserves₂
        obtain ⟨ids, hids, hpre, hall⟩ := ih hcell₂ hlt₂
        rw [hserves₂] at hpre hall
        simp only [herr, Option.isNone_none, pure_run, if_true]
        refine ⟨(v.1, (b.sessions v.1).nextId) :: ids, ?_, ?_, fun h => ?_⟩
        · rw [hids, hhanded, hhanded₁, List.append_assoc]
          rfl
        · exact (List.prefix_cons_inj _).mpr hpre
        · exact congrArg (v.1 :: ·) (hall h)

/-- The subscribers that a call of `sendToSubcriber` on `this` publishes to. -/
def recipients (order : SubscriberOrder) (this : SessionRef) (topicName : GoString)
    (b : Broker σ) : List SessionRef :=
  ((order.toList (b.subscriptionMgr.getSessions topicName)).filter
    fun v => serves cfg this b v.1).map Sigma.fst

/-- `sendToSubcriber` hands the packet without its retain flag to the recipients. -/
theorem sendToSubcriber_handed (order : SubscriberOrder) (this : SessionRef) {msg : PacketRef}
    {p : PublishPacket} {b : Broker σ} (hp : b.packets.cells msg = .publish p)
    (hmsg : msg < b.packets.next) : ∃ ids,
      (sendToSubcriber cfg order this msg b).2.handed = b.handed ++
        numberedFor { p with header := { p.header with retain := false } } ids ∧
      ids.map Prod.fst <+: recipients cfg order this p.topicName b ∧
      ((sendToSubcriber cfg order this msg b).1 = .ok () →
        ids.map Prod.fst = recipients cfg order this p.topicName b) := by
  have hcell : (b.packets.modify msg ControlPacket.clearRetain).cells msg =
      .publish { ({ p with header := { p.header with retain := false } } : PublishPacket) with
        messageID := p.messageID } := by
    rw [Heap.modify_self, hp]
    rfl
  obtain ⟨ids, hids, hpre, hall⟩ := rounds_handed cfg this
    (order.toList (b.subscriptionMgr.getSessions p.topicName))
    (b := { b with
      packets := b.packets.modify msg ControlPacket.clearRetain
      trace := b.trace ++ [.sendToSubcriber this (.publish p)] }) hcell hmsg
  rw [sendToSubcriber, bind_run_ok (sendToSubcriberStart_run order this hp)]
  refine ⟨ids, ?_, hpre, hall⟩
  rw [hids, handed, calls, List.filter_append, List.filterMap_append]
  exact congrArg (· ++ _) (List.append_nil _)

end Session

/-! ## `sessionMgr.Publish` -/

namespace SessionMgr

/-- The packet that `sessionMgr.Publish` makes for each subscriber. -/
def published (topic msg : GoString) (qos : UInt8) : PublishPacket :=
  { header := { newPublish.header with qos := qos }, topicName := topic, payload := msg }

theorem publishRound_run (topic msg : GoString) (qos : UInt8) (v : Σ _ : SessionRef, UInt8)
    (b : Broker σ) : ∃ (pkg : PacketRef) (b₁ : Broker σ),
      publishRound cfg topic msg qos v b =
        (Session.publish cfg v.1 pkg >>= fun _ => pure true : GoM σ Bool) b₁ ∧
      b₁.packets.cells pkg = .publish (published topic msg qos) ∧ pkg < b₁.packets.next ∧
      b₁.sessions = b.sessions ∧ b₁.handed = b.handed := by
  rw [publishRound]
  refine ⟨_, _, bind_run_ok (newPacket_run _ _), ?_, Nat.lt_succ_self _, rfl, rfl⟩
  exact Heap.alloc_self ..

/-- The loop hands a packet of its own to every subscriber. -/
theorem rounds_handed (topic msg : GoString) (qos : UInt8) (l : Subscribers) :
    ∀ b : Broker σ, ∃ ids,
      (rounds (publishRound cfg topic msg qos) l b).2.handed =
        b.handed ++ numberedFor (published topic msg qos) ids ∧
      ids.map Prod.fst <+: l.map Sigma.fst ∧
      ((rounds (publishRound cfg topic msg qos) l b).1 = .ok () →
        ids.map Prod.fst = l.map Sigma.fst) := by
  induction l with
  | nil =>
    intro b
    exact ⟨[], (List.append_nil _).symm, List.prefix_refl _, fun _ => rfl⟩
  | cons v l ih =>
    intro b
    obtain ⟨pkg, b₁, hrun, hcell, hlt, hsess, hhanded₁⟩ := publishRound_run cfg topic msg qos v b
    obtain ⟨hhanded, -, -, -⟩ := Session.publish_handed cfg v.1 hcell hlt
    rw [hsess, hhanded₁] at hhanded
    rw [rounds, bind_run, hrun, bind_run]
    rcases hr : Session.publish cfg v.1 pkg b₁ with ⟨e | r, b₂⟩
    · rw [hr] at hhanded
      refine ⟨[(v.1, (b.sessions v.1).nextId)], hhanded, ?_, fun h => absurd h (by simp)⟩
      exact List.prefix_append [v.1] _
    · rw [hr] at hhanded
      obtain ⟨ids, hids, hpre, hall⟩ := ih b₂
      simp only [pure_run, if_true]
      refine ⟨(v.1, (b.sessions v.1).nextId) :: ids, ?_, ?_, fun h => ?_⟩
      · rw [hids, hhanded, List.append_assoc]
        rfl
      · exact (List.prefix_cons_inj _).mpr hpre
      · exact congrArg (v.1 :: ·) (hall h)

theorem publish_handed (order : SubscriberOrder) (topic msg : GoString) (qos : UInt8)
    (b : Broker σ) : ∃ ids,
      (publish cfg order topic msg qos b).2.handed =
        b.handed ++ numberedFor (published topic msg qos) ids ∧
      ids.map Prod.fst <+: (order.toList (b.subscriptionMgr.getSessions topic)).map Sigma.fst ∧
      ((publish cfg order topic msg qos b).1 = .ok () → ids.map Prod.fst =
        (order.toList (b.subscriptionMgr.getSessions topic)).map Sigma.fst) := by
  rw [publish, bind_run_ok (getSessions_run _ _)]
  exact rounds_handed cfg topic msg qos _ b

end SessionMgr

/-! ## The QoS of a delivery -/

/-- The deliveries `new` of a published message go to subscribers of its topic, and each is
what its subscriber should be handed if and only if the published QoS is at most the
granted one. -/
def FaithfulIff (b : Broker σ) (published : PublishPacket)
    (new : List (SessionRef × ControlPacket)) : Prop :=
  ∀ s m, (s, m) ∈ new → ∃ granted,
    (b.subscriptionMgr.getSessions published.topicName).lookup s = some granted ∧
      (Faithful published granted m ↔ published.header.qos ≤ granted)

theorem faithfulIff_numberedFor (order : SubscriberOrder) {b : Broker σ}
    {published p : PublishPacket} {ids : List (SessionRef × UInt16)}
    (hp : p = { published with header := { published.header with retain := false } })
    (hids : ∀ s ∈ ids.map Prod.fst, s ∈
      (order.toList (b.subscriptionMgr.getSessions published.topicName)).map Sigma.fst) :
    FaithfulIff b published (numberedFor p ids) := by
  intro s m hmem
  obtain ⟨v, hv, hsm⟩ := List.mem_map.mp hmem
  obtain ⟨rfl, rfl⟩ := Prod.ext_iff.mp hsm
  obtain ⟨⟨s, granted⟩, hsub, hs⟩ := List.mem_map.mp (hids v.1 (List.mem_map_of_mem hv))
  obtain rfl : s = v.1 := hs
  refine ⟨granted, (order.mem_toList _ _ _).mp hsub, ?_⟩
  rw [hp]
  exact faithful_iff

/-- `sendToSubcriber` and `sessionMgr.Publish` hand each subscriber they come to a packet
that is right if and only if the published QoS is at most the QoS granted to it; unless a
call of `Publish` blocks, they come to all of them. -/
theorem handed_faithful_iff (order : SubscriberOrder) (this : SessionRef) {msg : PacketRef}
    {p : PublishPacket} {b : Broker σ} (hp : b.packets.cells msg = .publish p)
    (hmsg : msg < b.packets.next) :
    (∃ new, (Session.sendToSubcriber cfg order this msg b).2.handed = b.handed ++ new ∧
      FaithfulIff b p new ∧
      ((Session.sendToSubcriber cfg order this msg b).1 = .ok () →
        new.map Prod.fst = Session.recipients cfg order this p.topicName b)) ∧
    ∀ topic payload qos, ∃ new,
      (SessionMgr.publish cfg order topic payload qos b).2.handed = b.handed ++ new ∧
      FaithfulIff b (SessionMgr.published topic payload qos) new ∧
      ((SessionMgr.publish cfg order topic payload qos b).1 = .ok () → new.map Prod.fst =
        (order.toList (b.subscriptionMgr.getSessions topic)).map Sigma.fst) := by
  have hfst : ∀ (q : PublishPacket) (ids : List (SessionRef × UInt16)),
      (numberedFor q ids).map Prod.fst = ids.map Prod.fst := by
    intro q ids
    rw [numberedFor, List.map_map]
    rfl
  constructor
  · obtain ⟨ids, hids, hpre, hall⟩ := Session.sendToSubcriber_handed cfg order this hp hmsg
    refine ⟨_, hids, faithfulIff_numberedFor order rfl fun s hs => ?_, fun h => ?_⟩
    · obtain ⟨v, hv, rfl⟩ := List.mem_map.mp (hpre.subset hs)
      exact List.mem_map_of_mem (List.mem_of_mem_filter hv)
    · rw [hfst]
      exact hall h
  · intro topic payload qos
    obtain ⟨ids, hids, hpre, hall⟩ := SessionMgr.publish_handed cfg order topic payload qos b
    refine ⟨_, hids, faithfulIff_numberedFor order rfl fun s hs => ?_, fun h => ?_⟩
    · exact hpre.subset hs
    · rw [hfst]
      exact hall h

/-- A message for `x` with QoS 1. -/
def publishedX : PublishPacket :=
  { header := { newPublish.header with qos := 1 }
    topicName := str "x"
    messageID := 7
    payload := str "m" }

/-- Two connected sessions subscribe to `x`, one with QoS 0 and one with QoS 2. -/
def twoSubscribers : Broker Unit :=
  { (Process.start {} () fun _ => true).broker with
    packets := ⟨fun _ => .publish publishedX, 1⟩
    sessions := fun s => { Session.newSession {} 0 s true with connected := 1 }
    subscriptionMgr := (TreeSubsMgr.newNode.add (str "x") 0 0).add (str "x") 2 1 }

theorem handed_faithful_iff_twoSubscribers : ∃ new,
    (Session.sendToSubcriber {} RangeOrder.ascending 2 0 twoSubscribers).2.handed = new ∧
      FaithfulIff twoSubscribers publishedX new ∧ new.map Prod.fst = [0, 1] := by
  obtain ⟨new, hnew, hiff, hall⟩ := (handed_faithful_iff {} RangeOrder.ascending 2
    (b := twoSubscribers) (p := publishedX) rfl Nat.zero_lt_one).1
  refine ⟨new, hnew, hiff, ?_⟩
  have hreturns : (Session.sendToSubcriber {} RangeOrder.ascending 2 0 twoSubscribers).1 =
      .ok () := by
    decide +kernel
  have hrecipients : Session.recipients {} RangeOrder.ascending 2 (str "x") twoSubscribers =
      [0, 1] := by
    decide +kernel
  exact (hall hreturns).trans hrecipients

/-- The subscriber with QoS 0 is handed a packet with QoS 1. -/
theorem handed_not_faithful_lowerQos : ∃ m,
    (0, m) ∈ (Session.sendToSubcriber {} RangeOrder.ascending 2 0 twoSubscribers).2.handed ∧
    (twoSubscribers.subscriptionMgr.getSessions (str "x")).lookup 0 = some 0 ∧
    ¬ Faithful publishedX 0 m := by
  refine ⟨.publish { publishedX with messageID := 1 }, ?_, ?_, ?_⟩
  · decide +kernel
  · decide +kernel
  · rintro ⟨p, hp, hqos, -⟩
    obtain rfl := ControlPacket.publish.inj hp
    exact absurd hqos (by decide)

end MqttBroker

import MqttBroker.Session.ExactlyOnce
import MqttBroker.Session.FanOutTheorems
import MqttBroker.Session.System
import MqttBroker.Store.MemStore
import MqttBroker.Topic.LookupTheorems

/-!
# Retained messages for a new subscription

What `procRetainMessages` publishes to a session that has subscribed. Its loop calls the
subscribed filters and the stored messages by the same name, so that a message's topic is
matched against itself: all retained messages are published, whatever was subscribed to.

The goroutine runs next to all others. Its rounds are therefore looked at in any states that
they may find; a round that blocks on a full `peddingChan` has made its call of `Publish`.
-/

namespace MqttBroker

open Broker GoM Exec

variable {σ : Type} (cfg : Config)

namespace Session

/-- What a computation hands to `Publish`. -/
def handedBy {α : Type} (m : GoM σ α) (b : Broker σ) : List (SessionRef × ControlPacket) :=
  (m b).2.handed.drop b.handed.length

/-- Whether a round of a loop is followed by the next one, at once or when it is no longer
blocked. -/
def goesOn : Except Fault Bool → Bool
  | .ok more => more
  | .error (.blocked _ _) => true
  | .error (.panic _) => false

/-- What the loop of `procRetainMessages` hands to `Publish`; round `n` finds state `states n`. -/
def procRetainHanded (this : SessionRef) (states : ℕ → Broker σ) :
    ℕ → List Msg → List (SessionRef × ControlPacket)
  | _, [] => []
  | n, msg :: msgs =>
    handedBy (procRetainRound cfg this msg) (states n) ++
      if goesOn (procRetainRound cfg this msg (states n)).1 then
        procRetainHanded this states (n + 1) msgs
      else []

/-- A stored message as it is to be published to the session. -/
def RetainedCopy (this : SessionRef) (msg : Msg) (v : SessionRef × ControlPacket) : Prop :=
  v.1 = this ∧ ∃ p, v.2 = .publish p ∧ p.topicName = msg.topic ∧ p.payload = msg.body ∧
    p.header.retain = true

/-- The published messages are the stored ones that match a filter, once each. -/
def RetainedExact (this : SessionRef) (filters : List GoString) (stored : Multiset Msg)
    (published : List (SessionRef × ControlPacket)) : Prop :=
  ∃ l : List Msg, (l : Multiset Msg) =
      stored.filter (fun msg => ∃ filter ∈ filters, TreeSubsMgr.Matches filter msg.topic) ∧
    List.Forall₂ (RetainedCopy this) l published

/-- A round publishes its message and does not end the loop. -/
theorem procRetainRound_handed (this : SessionRef) (msg : Msg) (b : Broker σ) :
    (∃ v, handedBy (procRetainRound cfg this msg) b = [v] ∧ RetainedCopy this msg v) ∧
      goesOn (procRetainRound cfg this msg b).1 = true := by
  have hrun : ∃ (p : PublishPacket) (b₁ : Broker σ),
      procRetainRound cfg this msg b =
        (publish cfg this b.packets.next >>= fun _ => pure true : GoM σ Bool) b₁ ∧
      b₁.packets.cells b.packets.next = .publish p ∧ b.packets.next < b₁.packets.next ∧
      b₁.handed = b.handed ∧ p.topicName = msg.topic ∧ p.payload = msg.body ∧
      p.header.retain = true := by
    rw [procRetainRound, bind_run_ok (newPacket_run _ _), TreeSubsMgr.isTopicMatch_self]
    exact ⟨_, _, rfl, Heap.alloc_self .., Nat.lt_succ_self _, rfl, rfl, rfl, rfl⟩
  obtain ⟨p, b₁, hrun, hcell, hlt, hsame, htopic, hpayload, hretain⟩ := hrun
  have hhanded := (publish_handed cfg this hcell hlt).1
  have hsnd := bind_pure_snd (publish cfg this b.packets.next) (fun _ => true) b₁
  constructor
  · refine ⟨(this, .publish { p with messageID := (b₁.sessions this).nextId }), ?_, rfl, _, rfl,
      htopic, hpayload, hretain⟩
    rw [handedBy, hrun, hsnd, hhanded, hsame, List.drop_left]
  · rw [hrun, bind_run]
    rcases hr : publish cfg this b.packets.next b₁ with ⟨e | r, b₂⟩
    · have hblocked := publish_blocks cfg this b.packets.next b₁ e b₂ hr
      cases e with
      | panic p => exact hblocked.elim
      | blocked s pt => rfl
    · rfl

/-- The loop publishes all messages, in any states that its rounds find. -/
theorem procRetainHanded_forall₂ (this : SessionRef) (states : ℕ → Broker σ) (msgs : List Msg) :
    ∀ n, List.Forall₂ (RetainedCopy this) msgs (procRetainHanded cfg this states n msgs) := by
  induction msgs with
  | nil => exact fun n => .nil
  | cons msg msgs ih =>
    intro n
    obtain ⟨⟨v, hv, hcopy⟩, hgo⟩ := procRetainRound_handed cfg this msg (states n)
    rw [procRetainHanded, hv, if_pos hgo]
    exact .cons hcopy (ih (n + 1))

/-- The messages that `procRetainMessages` reads from the store are all that are retained. -/
theorem procRetainStart_run (order : RangeOrder GoString Msg) (b : Broker MemStore) :
    ∃ msgs, procRetainStart (MemStore.storeMgr order) b = (.ok msgs, b) ∧
      (msgs : Multiset Msg) = b.storeMgr.retainMsgs.entries.map Sigma.snd := by
  refine ⟨b.storeMgr.getAllRetainMsgs order, rfl, ?_⟩
  rw [MemStore.getAllRetainMsgs, ← order.perm b.storeMgr.retainMsgs]
  rfl

/-- After a SUBSCRIBE, the retained messages published to the session are those that match
one of its filters exactly when all retained messages do. -/
theorem procRetainMessages_exact_iff (order : RangeOrder GoString Msg) (this : SessionRef)
    (m : SubscribePacket) {b b' : Broker MemStore} {handled : Handled}
    (hsub : onSubscribe this m b = (.ok handled, b')) :
    b'.spawned = b.spawned ++ [.procRetainMessages this] ∧
      ∀ start : Broker MemStore, ∃ msgs,
        procRetainStart (MemStore.storeMgr order) start = (.ok msgs, start) ∧
          ∀ states : ℕ → Broker MemStore,
            (RetainedExact this m.topics (start.storeMgr.retainMsgs.entries.map Sigma.snd)
                (procRetainHanded cfg this states 0 msgs) ↔
              ∀ topic msg, start.storeMgr.retainMsgs.lookup topic = some msg →
                ∃ filter ∈ m.topics, TreeSubsMgr.Matches filter msg.topic) := by
  constructor
  · rw [onSubscribe, bind_run_ok (get_run b)] at hsub
    cases hadd : TreeSubsMgr.addAll this m.topics m.qoss b.subscriptionMgr with
    | error e =>
      simp only [hadd] at hsub
      exact absurd (congrArg Prod.fst hsub) (by simp)
    | ok tree =>
      simp only [hadd] at hsub
      rw [bind_run_ok (modifySubscriptionMgr_run _ _), bind_run_ok (spawn_run _ _)] at hsub
      obtain ⟨err, b₁, hsend, hpure⟩ := bind_eq_ok hsub
      have hq := Channel.sendNew_queues this (.suback
        { newSuback with messageID := m.messageID, returnCodes := m.qoss })
        { b with subscriptionMgr := tree, spawned := b.spawned ++ [.procRetainMessages this] }
      rw [hsend] at hq
      rw [← (pure_eq_ok hpure).2, hq.spawned]
  · intro start
    obtain ⟨msgs, hrun, hmsgs⟩ := procRetainStart_run order start
    refine ⟨msgs, hrun, fun states => ?_⟩
    have hall := procRetainHanded_forall₂ cfg this states msgs 0
    have hmem : (∀ topic msg, start.storeMgr.retainMsgs.lookup topic = some msg →
        ∃ filter ∈ m.topics, TreeSubsMgr.Matches filter msg.topic) ↔
        ∀ msg ∈ (msgs : Multiset Msg), ∃ filter ∈ m.topics,
          TreeSubsMgr.Matches filter msg.topic := by
      rw [hmsgs]
      simp only [Multiset.mem_map, Sigma.exists, ← Finmap.mem_lookup_iff, Option.mem_def]
      constructor
      · rintro h msg ⟨topic, msg', hlookup, rfl⟩
        exact h topic msg' hlookup
      · exact fun h topic msg hlookup => h msg ⟨topic, msg, hlookup, rfl⟩
    rw [← hmsgs, hmem, ← Multiset.filter_eq_self]
    constructor
    · rintro ⟨l, hl, hcopies⟩
      have hlen : l.length = msgs.length := hcopies.length_eq.trans hall.length_eq.symm
      refine Multiset.eq_of_le_of_card_le (Multiset.filter_le _ _) ?_
      rw [← hl, Multiset.coe_card, Multiset.coe_card, hlen]
    · exact fun h => ⟨msgs, h.symm, hall⟩

/-- The message `m` for `x`, as it is retained. -/
def retainedX : Msg :=
  { clientId := [], msgId := 0, topic := str "x", qos := 0, body := str "m" }

/-- A broker whose store retains it. -/
def retainsX : Broker MemStore :=
  { (Process.start {} ⟨∅, ∅, Finmap.singleton (str "x") retainedX⟩ fun _ => true).broker with
    sessions := fun s => { Session.newSession {} 0 s true with connected := 1 } }

/-- A SUBSCRIBE with one filter. -/
def subscribeTo (filter : GoString) : SubscribePacket :=
  { header := { messageType := PacketType.subscribe, qos := 1 }
    messageID := 1
    topics := [filter]
    qoss := [0] }

theorem procRetainMessages_exact_iff_match : ∃ msgs,
    procRetainStart (MemStore.storeMgr default) retainsX = (.ok msgs, retainsX) ∧
      RetainedExact 0 [str "+"] (retainsX.storeMgr.retainMsgs.entries.map Sigma.snd)
        (procRetainHanded {} 0 (fun _ => retainsX) 0 msgs) := by
  obtain ⟨msgs, hrun, hiff⟩ := (procRetainMessages_exact_iff {} default 0 (subscribeTo (str "+"))
    (b := retainsX) rfl).2 retainsX
  refine ⟨msgs, hrun, (hiff fun _ => retainsX).mpr fun topic msg hmsg => ?_⟩
  have hx : msg = retainedX := by
    by_cases htopic : topic = str "x"
    · rw [htopic] at hmsg
      exact (Option.some.inj hmsg).symm
    · have hnone : retainsX.storeMgr.retainMsgs.lookup topic = none :=
        Finmap.lookup_eq_none.mpr fun h => htopic (Finmap.mem_singleton _ _ _ |>.mp h)
      rw [hnone] at hmsg
      exact absurd hmsg (by simp)
  rw [hx]
  exact ⟨str "+", List.mem_cons_self, by decide⟩

/-- A message that matches no filter of the SUBSCRIBE is published to the session. -/
theorem procRetainMessages_leak :
    (∃ b, onSubscribe 0 (subscribeTo (str "y")) retainsX = (.ok {}, b) ∧
      b.spawned = [.procRetainMessages 0]) ∧
    ∃ msgs v, procRetainStart (MemStore.storeMgr default) retainsX = (.ok msgs, retainsX) ∧
      v ∈ procRetainHanded {} 0 (fun _ => retainsX) 0 msgs ∧ RetainedCopy 0 retainedX v ∧
      ¬ ∃ filter ∈ (subscribeTo (str "y")).topics,
        TreeSubsMgr.Matches filter retainedX.topic := by
  refine ⟨⟨_, rfl, rfl⟩, ?_⟩
  obtain ⟨msgs, hrun, hmsgs⟩ := procRetainStart_run default retainsX
  have hone : msgs = [retainedX] := Multiset.coe_eq_singleton.mp hmsgs
  have hall := procRetainHanded_forall₂ {} 0 (fun _ => retainsX) msgs 0
  rw [hone] at hall hrun
  obtain ⟨v, rest, hcopy, -, hv⟩ := List.forall₂_cons_left_iff.mp hall
  refine ⟨[retainedX], v, hrun, ?_, hcopy, by decide⟩
  rw [hv]
  exact List.mem_cons_self

end Session
end MqttBroker

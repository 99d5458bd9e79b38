import MqttBroker.Session.Flood
import MqttBroker.Session.Inbound
import MqttBroker.Session.Places
import MqttBroker.Session.Routing
import MqttBroker.Session.SystemTheorems
import MqttBroker.Session.Timing
import MqttBroker.Store.MemStore

/-!
# Receive loops that wait on themselves

A session that is subscribed to what it publishes gets its own messages from its own receive
loop. When its window and its `peddingChan` are full, `Publish` blocks there; the entries of the
window are removed by acknowledgements, which the same loop would have to read. The loop comes
into this state when it reads a message that comes back to it while its window and its queue
hold as many entries as they have places, or when another goroutine takes the last place before
it has published the message. Where a place is left for it both times, it never does; without
`SendToSelf` nothing comes back.
-/

namespace MqttBroker

open Broker GoM Exec

variable {σ : Type}

/-! ## Messages that come back -/

/-- The topic of the message that a session may forward when it reads a packet. -/
def Broker.forwardTopic (S : StoreMgr σ) (b : Broker σ) (s : SessionRef) :
    ControlPacket → Option GoString
  | .publish p => if p.header.qos < 2 then some p.topicName else none
  | .pubrel m =>
    match (S.getMsgByClientIdMsgId (b.sessions s).clientId m.messageID b.storeMgr).1 with
    | .ok smsg => some smsg.topic
    | .error _ => none
  | _ => none

/-- The session is subscribed to the topic of that message. -/
def Broker.comesBack (S : StoreMgr σ) (b : Broker σ) (s : SessionRef) (p : ControlPacket) : Bool :=
  (b.forwardTopic S s p).any fun topic => ((b.subscriptionMgr.getSessions topic).lookup s).isSome

variable {cfg : Config} {S : StoreMgr σ}

namespace Session

theorem publishOutcome_forwards {clientId : GoString} {p : PublishPacket} {s : σ}
    (h : (publishOutcome S clientId p s).forwards = true) : p.header.qos < 2 := by
  cases hclear : (clearCall S p s).1 with
  | some err =>
    rw [publishOutcome, hclear] at h
    exact absurd h Bool.false_ne_true
  | none =>
    by_cases hqos : p.header.qos = 0 ∨ p.header.qos = 1 ∨ p.header.qos = 2
    · rcases hqos with hqos | hqos | hqos
      · rw [hqos]
        decide
      · rw [hqos]
        decide
      · rw [publishOutcome, hclear] at h
        simp only [hqos] at h
        rw [(qos2Outcome_ack clientId p _).2] at h
        exact absurd h Bool.false_ne_true
    · rw [publishOutcome_unknown _ hclear hqos] at h
      exact absurd h Bool.false_ne_true

/-- What `onPubrel` forwards is the message that the store has under the id. -/
theorem onPubrel_forwardTopic {this : SessionRef} {m : IdPacket} {b b' : Broker σ}
    {handled : Handled} {msg : PacketRef} (h : onPubrel S this m b = (.ok handled, b'))
    (hmsg : handled.forwarded = some msg) : ∃ q, b'.packets.cells msg = .publish q ∧
      b.forwardTopic S this (.pubrel m) = some q.topicName ∧
      b'.subscriptionMgr = b.subscriptionMgr := by
  obtain ⟨b₁, hsend, hsends⟩ :=
    Channel.sendNew_sends this (.pubcomp { newPubcomp with messageID := m.messageID }) b
  rw [onPubrel, bind_run_ok hsend, bind_run_ok (session_run _ _), hsends.clientId,
    bind_run_ok (callStore_run _ _), hsends.queues.storeMgr] at h
  rw [Broker.forwardTopic]
  cases hget : (S.getMsgByClientIdMsgId (b.sessions this).clientId m.messageID b.storeMgr).1 with
  | error _ =>
    rw [hget] at h
    rw [← (pure_eq_ok h).1] at hmsg
    exact absurd hmsg (by simp)
  | ok smsg =>
    rw [hget] at h
    simp only [] at h
    rw [bind_run_ok (callStore_run _ _), bind_run_ok (newPacket_run _ _)] at h
    obtain ⟨rfl, rfl⟩ := pure_eq_ok h
    obtain rfl := Option.some.inj hmsg
    exact ⟨_, Heap.alloc_self .., rfl, hsends.queues.subscriptionMgr⟩

/-- What a handler forwards is on the topic that the packet gives. -/
theorem procFrontRemoteMsg_forwardTopic {this : SessionRef} {p : ControlPacket} {b b' : Broker σ}
    {timeout : ℤ} {handled : Handled} {msg : PacketRef}
    (h : procFrontRemoteMsg cfg S this b.packets.next p (b.reads this p timeout) =
      (.ok handled, b')) (hmsg : handled.forwarded = some msg) :
    ∃ q, b'.packets.cells msg = .publish q ∧ b.forwardTopic S this p = some q.topicName ∧
      b'.subscriptionMgr = b.subscriptionMgr := by
  have hother : p.kind ≠ PacketType.publish → p.kind ≠ PacketType.pubrel → False := by
    intro hpub hrel
    have hnone := procFrontRemoteMsg_forwards_none cfg S hpub hrel _ handled b' h
    exact absurd (hnone.symm.trans hmsg) (by simp)
  cases p with
  | publish m =>
    obtain ⟨b₁, hrun, hsends⟩ :=
      onPublish_run (S := S) this b.packets.next m (b.reads this (.publish m) timeout)
    obtain ⟨hhandled, rfl⟩ := Prod.mk.inj (hrun.symm.trans h)
    obtain rfl := Except.ok.inj hhandled
    obtain ⟨hforwards, rfl⟩ : (publishOutcome S _ m _).forwards = true ∧ b.packets.next = msg := by
      rw [Outcome.handled] at hmsg
      split at hmsg
      · next hforwards => exact ⟨hforwards, Option.some.inj hmsg⟩
      · exact absurd hmsg (by simp)
    refine ⟨m, ?_, if_pos (publishOutcome_forwards hforwards), hsends.queues.subscriptionMgr⟩
    rw [hsends.queues.cells _ (Nat.lt_succ_self b.packets.next)]
    exact Heap.alloc_self ..
  | pubrel m =>
    obtain ⟨q, hq, hsome, hsubs⟩ := onPubrel_forwardTopic h hmsg
    have hclientId : ((b.reads this (.pubrel m) timeout).sessions this).clientId =
        (b.sessions this).clientId := by
      rw [reads_self]
    rw [Broker.forwardTopic, hclientId] at hsome
    exact ⟨q, hq, hsome, hsubs⟩
  | _ =>
    refine (hother ?_ ?_).elim
    · rw [ControlPacket.kind]
      decide
    · rw [ControlPacket.kind]
      decide

end Session

/-- A receive loop that reads a packet has nothing left to do, or a loop over the subscribers of a
topic, which comes to the session itself only if the message comes back. -/
theorem recvStart_own {order : SubscriberOrder} {s : SessionRef} {p : ControlPacket}
    {b b' : Broker σ} {work : List Work} (h : recvStart cfg S order s p b = (.ok work, b')) :
    work = [] ∨ ∃ msg rest, work = [.subscribers s msg rest] ∧ (rest.map Sigma.fst).Nodup ∧
      (s ∈ rest.map Sigma.fst → b.comesBack S s p = true) := by
  by_cases hrunning : (b.sessions s).clostep = .running
  · rw [recvStart_run cfg S order p hrunning] at h
    obtain ⟨handled, b₁, hproc, hforward⟩ := bind_eq_ok h
    cases hmsg : handled.forwarded with
    | none =>
      rw [hmsg] at hforward
      exact .inl (pure_eq_ok hforward).1.symm
    | some msg =>
      obtain ⟨q, hq, htopic, hsubs⟩ := Session.procFrontRemoteMsg_forwardTopic hproc hmsg
      rw [hmsg, forwardStart, bind_run_ok (session_run s b₁)] at hforward
      split at hforward
      · rw [bind_run_ok (Session.sendToSubcriberStart_run order s hq)] at hforward
        refine .inr ⟨msg, _, (pure_eq_ok hforward).1.symm, order.nodup_keys _, fun hmem => ?_⟩
        obtain ⟨⟨_, granted⟩, hv, rfl⟩ := List.mem_map.mp hmem
        rw [hsubs, order.mem_toList] at hv
        rw [Broker.comesBack, htopic, Option.any_some, hv]
        rfl
      · rw [bind_run_ok (packet_run msg b₁), bind_run_ok (emit_run _ _)] at hforward
        exact .inl (pure_eq_ok hforward).1.symm
  · rw [recvStart_ended order p hrunning] at h
    exact .inl (Except.ok.inj (congrArg Prod.fst h)).symm

/-! ## Receive loops that publish to their own session -/

namespace Goroutine

/-- The receive loop of `s` has a message to publish to `s` itself. -/
def Delivers (cfg : Config) (s : SessionRef) (g : Goroutine) : Prop :=
  g.owner = some s ∧ (g.waiting.map Prod.fst = some s ∨
    cfg.sendToSelf = true ∧ ∃ w ∈ g.work, s ∈ w.remaining.map Sigma.fst)

instance (cfg : Config) (s : SessionRef) (g : Goroutine) : Decidable (g.Delivers cfg s) :=
  inferInstanceAs (Decidable (_ ∧ (_ ∨ _ ∧ _)))

/-- What a receive loop waits for is one loop over subscribers, which comes to each session once,
and not again to the one that it is blocked on. -/
def Forwards (g : Goroutine) : Prop :=
  ∀ s, g.owner = some s → g.work = [] ∨ ∃ msg rest, g.work = [.subscribers s msg rest] ∧
    (rest.map Sigma.fst).Nodup ∧ ∀ t, g.waiting.map Prod.fst = some t → t ∉ rest.map Sigma.fst

end Goroutine

/-- A round over subscribers publishes to the first, and not to the session that it is for without
`SendToSelf`. -/
theorem Work.call_subscribers {this t : SessionRef} {msg msg' : PacketRef} {rest : Subscribers}
    {v : Σ _ : SessionRef, UInt8} {b : Broker σ}
    (h : (subscribers this msg (v :: rest)).call cfg b = some (t, msg')) :
    v.1 = t ∧ (t = this → cfg.sendToSelf = true) := by
  rw [call] at h
  by_cases hself : cfg.sendToSelf = false ∧ v.1 = this
  · rw [if_pos hself] at h
    exact absurd h (by simp)
  rw [if_neg hself] at h
  split at h
  · obtain rfl : v.1 = t := congrArg Prod.fst (Option.some.inj h)
    exact ⟨rfl, fun hthis => Bool.eq_true_of_not_eq_false fun hoff => hself ⟨hoff, hthis⟩⟩
  · exact absurd h (by simp)

/-! ## Places that are taken -/

/-- The entry is removed by an acknowledgement only. -/
def Broker.awaited (b : Broker σ) (pt : PacketAndToken) : Bool :=
  0 < (b.packets.cells pt.p).details.qos

/-- The places that the entries of a session take, but for those of QoS 0 in the window. -/
def Broker.taken (b : Broker σ) (s : SessionRef) : ℕ := (b.sessions s).taken b.awaited

/-- The places of a window and of the queue behind it. -/
def Config.places (cfg : Config) : ℕ := cfg.maxSizeOfInflight + cfg.maxSizeOfPublishMsg

/-- Entries that exist are awaited before and after a step. -/
theorem Broker.taken_of_sameMessages {b b' : Broker σ} (h : SameMessages b b') (hb : b.InRange)
    (s : SessionRef) : (b.sessions s).taken b'.awaited = b.taken s := by
  have hqos : ∀ p : ControlPacket, p.message.details.qos = p.details.qos := by
    rintro (_ | _ | _ | _ | _ | _ | _ | _ | _ | _ | _ | _ | _ | _)
    all_goals rfl
  have hcount : (b.sessions s).flight.countP b'.awaited =
      (b.sessions s).flight.countP b.awaited := by
    refine List.countP_congr fun pt hpt => ?_
    have hlt := hb.entries s pt (List.mem_append_left _ hpt)
    rw [Broker.awaited, Broker.awaited, ← hqos, h.message pt.p hlt, hqos]
  rw [Broker.taken, Session.taken, Session.taken, hcount]

namespace Process

variable {P P' : Process σ} {a : Action}

theorem advance_owner {g g' : Goroutine} {b b' : Broker σ}
    (h : advance cfg S g b = some (some g', b')) : g'.owner = g.owner := by
  obtain ⟨owner, waiting, work⟩ := g
  cases waiting with
  | some held =>
    obtain ⟨s, pt⟩ := held
    rcases hr : Session.pushPedding cfg s pt b with ⟨e | r, b₁⟩
    · simp [advance, hr] at h
    · obtain ⟨rfl, -⟩ : _ = g' ∧ b₁ = b' := by simpa [advance, hr] using h
      rfl
  | none =>
    cases work with
    | nil => simp [advance] at h
    | cons w ws =>
      rcases hr : w.round cfg S b with ⟨(p | ⟨s, pt⟩) | (_ | _), b₁⟩
      · simp [advance, hr] at h
      all_goals
        obtain ⟨rfl, -⟩ : _ = g' ∧ b₁ = b' := by simpa [advance, hr] using h
        rfl

/-- The next step of a receive loop over subscribers: it blocks on the first or goes on behind it,
or it ends. -/
theorem advance_subscribers {s : SessionRef} {msg : PacketRef} {v : Σ _ : SessionRef, UInt8}
    {rest : Subscribers} {owner : Option SessionRef} {b b' : Broker σ} {g' : Goroutine}
    (hb : b.InRange) (hvalid : (Work.subscribers s msg (v :: rest)).Valid b)
    (h : advance cfg S { owner, work := [.subscribers s msg (v :: rest)] } b =
      some (some g', b')) :
    (g'.work = [] ∧ g'.waiting = none) ∨ g'.work = [.subscribers s msg rest] ∧
      ∀ t, g'.waiting.map Prod.fst = some t →
        v.1 = t ∧ (t = s → cfg.sendToSelf = true) := by
  rcases hr : (Work.subscribers s msg (v :: rest)).round cfg S b with ⟨e | go, b₁⟩
  · cases hcall : (Work.subscribers s msg (v :: rest)).call cfg b with
    | none =>
      obtain ⟨go, b₂, hround, -⟩ := Work.round_drains (S := S) hcall
      exact absurd (congrArg Prod.fst (hr.symm.trans hround)) (by simp)
    | some c =>
      obtain ⟨t, m⟩ := c
      have hround := Work.round_feeds (S := S) hb hvalid hcall
      rw [hr] at hround
      obtain ⟨⟨pt, rfl⟩, -⟩ := hround
      obtain ⟨rfl, -⟩ : _ = g' ∧ b₁ = b' := by simpa [advance, hr] using h
      refine .inr ⟨rfl, fun t' ht' => ?_⟩
      obtain rfl : t = t' := Option.some.inj ht'
      exact Work.call_subscribers hcall
  · cases go with
    | true =>
      obtain ⟨rfl, -⟩ : _ = g' ∧ b₁ = b' := by simpa [advance, hr] using h
      exact .inr ⟨rfl, fun t ht => absurd ht (by simp)⟩
    | false =>
      obtain ⟨rfl, -⟩ : _ = g' ∧ b₁ = b' := by simpa [advance, hr] using h
      exact .inl ⟨rfl, rfl⟩

/-- The next step of a receive loop: it ends, its send on a full `peddingChan` goes through, or it
makes a round. -/
theorem advance_own {g g' : Goroutine} {s : SessionRef} {b b' : Broker σ} (hb : b.InRange)
    (hvalid : ∀ w ∈ g.work, w.Valid b) (hg : g.Forwards) (hs : g.owner = some s)
    (h : advance cfg S g b = some (some g', b')) :
    (g'.work = [] ∧ g'.waiting = none) ∨
      (g.waiting ≠ none ∧ g'.waiting = none ∧ g'.work = g.work) ∨
      ∃ msg v rest, g.waiting = none ∧ g.work = [.subscribers s msg (v :: rest)] ∧
        ((v :: rest).map Sigma.fst).Nodup ∧ g'.work = [.subscribers s msg rest] ∧
        ∀ t, g'.waiting.map Prod.fst = some t → v.1 = t ∧ (t = s → cfg.sendToSelf = true) := by
  obtain ⟨owner, waiting, work⟩ := g
  cases waiting with
  | some held =>
    obtain ⟨t, pt⟩ := held
    rcases hr : Session.pushPedding cfg t pt b with ⟨e | r, b₁⟩
    · simp [advance, hr] at h
    · obtain ⟨rfl, -⟩ : _ = g' ∧ b₁ = b' := by simpa [advance, hr] using h
      exact .inr (.inl ⟨by simp, rfl, rfl⟩)
  | none =>
    rcases hg s hs with hnil | ⟨msg, rest, hwork, hnodup, -⟩
    · obtain rfl : work = [] := hnil
      simp [advance] at h
    · obtain rfl : work = [.subscribers s msg rest] := hwork
      cases rest with
      | nil =>
        obtain ⟨rfl, -⟩ : _ = g' ∧ b = b' := by simpa [advance, Work.round, pure_run] using h
        exact .inl ⟨rfl, rfl⟩
      | cons v rest =>
        rcases advance_subscribers hb (hvalid _ List.mem_cons_self) h with hend | ⟨hleft, hwaits⟩
        · exact .inl hend
        · exact .inr (.inr ⟨msg, v, rest, rfl, rfl, hnodup, hleft, hwaits⟩)

theorem advance_forwards {g g' : Goroutine} {b b' : Broker σ} (hb : b.InRange)
    (hvalid : ∀ w ∈ g.work, w.Valid b) (hg : g.Forwards)
    (h : advance cfg S g b = some (some g', b')) : g'.Forwards := by
  intro s hs
  have hs₀ : g.owner = some s := (advance_owner h).symm.trans hs
  rcases advance_own hb hvalid hg hs₀ h with
    ⟨hnil, -⟩ | ⟨-, hwaiting, hwork⟩ | ⟨msg, v, rest, -, -, hnodup, hleft, hwaits⟩
  · exact .inl hnil
  · rcases hg s hs₀ with hnil | ⟨msg, rest, hloop, hnodup, -⟩
    · exact .inl (hwork.trans hnil)
    · refine .inr ⟨msg, rest, hwork.trans hloop, hnodup, fun t ht => ?_⟩
      rw [hwaiting] at ht
      exact absurd ht (by simp)
  · obtain ⟨hfirst, hrest⟩ := List.nodup_cons.mp hnodup
    refine .inr ⟨msg, rest, hleft, hrest, fun t ht => ?_⟩
    rw [← (hwaits t ht).1]
    exact hfirst

/-- A receive loop that has a message for its own session after a step had it before, and the step
has not published it. -/
theorem advance_delivers {g g' : Goroutine} {s : SessionRef} {b b' : Broker σ} (hb : b.InRange)
    (hvalid : ∀ w ∈ g.work, w.Valid b) (hg : g.Forwards)
    (h : advance cfg S g b = some (some g', b')) (hdelivers : g'.Delivers cfg s) :
    g.Delivers cfg s ∧ (g.enters cfg b = some s → g'.waiting ≠ none) := by
  obtain ⟨hs', hmsg⟩ := hdelivers
  have hs : g.owner = some s := (advance_owner h).symm.trans hs'
  rcases advance_own hb hvalid hg hs h with
    ⟨hnil, hnone⟩ | ⟨hwait, hnone, hwork⟩ | ⟨msg, v, rest, hnone, hwork, hnodup, hleft, hwaits⟩
  · rw [hnil, hnone] at hmsg
    exact absurd hmsg (by simp)
  · rw [hnone, hwork] at hmsg
    obtain ⟨hself, w, hw, hmem⟩ := hmsg.resolve_left (by simp)
    refine ⟨⟨hs, .inr ⟨hself, w, hw, hmem⟩⟩, fun henters _ => ?_⟩
    -- it was blocked on `s`, and does not come to `s` again
    obtain ⟨⟨t, pt⟩, hheld⟩ := Option.ne_none_iff_exists'.mp hwait
    rw [Goroutine.enters, hheld] at henters
    obtain rfl : t = s := Option.some.inj henters
    rcases hg t hs with hnil | ⟨msg, rest, hloop, -, hnot⟩
    · rw [hnil] at hw
      exact absurd hw List.not_mem_nil
    · rw [hloop] at hw
      rw [List.mem_singleton.mp hw] at hmem
      exact hnot t (by rw [hheld]; rfl) hmem
  · have hmem : ∀ t ∈ (v :: rest).map Sigma.fst, ∃ w ∈ g.work, t ∈ w.remaining.map Sigma.fst := by
      rw [hwork]
      exact fun t ht => ⟨_, List.mem_singleton_self _, ht⟩
    rcases hmsg with hwaiting | ⟨hself, w, hw, hrest⟩
    · obtain ⟨rfl, hself⟩ := hwaits s hwaiting
      refine ⟨⟨hs, .inr ⟨hself rfl, hmem _ List.mem_cons_self⟩⟩, fun _ hnone' => ?_⟩
      rw [hnone'] at hwaiting
      exact absurd hwaiting (by simp)
    · rw [hleft] at hw
      rw [List.mem_singleton.mp hw] at hrest
      refine ⟨⟨hs, .inr ⟨hself, hmem s (List.mem_cons_of_mem _ hrest)⟩⟩, fun henters _ => ?_⟩
      -- the round was for another subscriber
      rw [Goroutine.enters, hnone, hwork] at henters
      obtain ⟨⟨t, m⟩, hcall, rfl⟩ := Option.map_eq_some_iff.mp henters
      refine (List.nodup_cons.mp hnodup).1 ?_
      rw [(Work.call_subscribers hcall).1]
      exact hrest

/-! ## Where goroutines come from -/

theorem run_goroutines {α : Type} {m : GoM σ α} (h : P.run m = some P') :
    P'.goroutines = P.goroutines := by
  rcases hr : m P.broker with ⟨e | x, b'⟩
  · simp [run, hr] at h
  · obtain rfl : { P with broker := b' } = P' := by simpa [run, hr] using h
    rfl

/-- A goroutine that is started with its work. -/
theorem launch_goroutines {owner : Option SessionRef} {m : GoM σ (List Work)} {b : Broker σ}
    (h : { P with broker := b }.launch owner m = some P') :
    ∃ work b', m b = (.ok work, b') ∧
      P'.goroutines = P.goroutines ++ [{ owner := owner, work := work }] := by
  rcases hr : m b with ⟨e | work, b'⟩
  · simp [launch, hr] at h
  · obtain rfl : { broker := b', goroutines := P.goroutines ++ [{ owner, work }] } = P' := by
      simpa [launch, hr] using h
    exact ⟨work, b', rfl, rfl⟩

theorem step_advance {i : ℕ} (h : step cfg S (.advance i) P = some P') :
    ∃ g r, P.goroutines[i]? = some g ∧ advance cfg S g P.broker = some (r, P'.broker) := by
  rw [step] at h
  split at h
  · exact absurd h (by simp)
  · next g hg =>
      obtain ⟨⟨r, b'⟩, hadv, rfl⟩ := Option.map_eq_some_iff.mp h
      refine ⟨g, r, hg, ?_⟩
      cases r with
      | none | some => exact hadv

/-- A session reads only when its loop has nothing left to do. -/
theorem recvPacket_free {s : SessionRef} {p : Inbound} {order : SubscriberOrder}
    (h : step cfg S (.recvPacket s p order) P = some P') :
    ∀ g ∈ P.goroutines, g.owner ≠ some s := by
  rw [step] at h
  split at h
  · exact absurd h (by simp)
  · next hfree => exact fun g hg howner => hfree ⟨g, hg, howner⟩

/-- The goroutines that a step leaves as they are. -/
def others (P : Process σ) : Action → List Goroutine
  | .advance i => P.goroutines.eraseIdx i
  | _ => P.goroutines

theorem others_subset (P : Process σ) (a : Action) : P.others a ⊆ P.goroutines := by
  cases a with
  | advance i => exact (List.eraseIdx_sublist ..).subset
  | _ => exact List.Subset.refl _

/-- A goroutine that a step has started; a receive loop waits for it if the step reads a packet. -/
structure Started (cfg : Config) (S : StoreMgr σ) (P : Process σ) (a : Action)
    (g : Goroutine) : Prop where
  waiting : g.waiting = none
  reads : ∀ s, g.owner = some s → ∃ p order b', a = .recvPacket s p order ∧
    recvStart cfg S order s p.1 P.broker = (.ok g.work, b')

/-- The goroutines after a step were there before, have been started by it or have advanced. -/
theorem step_goroutines (h : step cfg S a P = some P') {g' : Goroutine}
    (hg' : g' ∈ P'.goroutines) :
    g' ∈ P.others a ∨ Started cfg S P a g' ∨
      ∃ i g, a = .advance i ∧ P.goroutines[i]? = some g ∧
        advance cfg S g P.broker = some (some g', P'.broker) := by
  have hrun : ∀ {α : Type} {m : GoM σ α}, P.run m = some P' → g' ∈ P.goroutines := by
    intro α m hm
    rw [← run_goroutines hm]
    exact hg'
  have hlaunch : ∀ {m : GoM σ (List Work)} {b : Broker σ},
      { P with broker := b }.launch none m = some P' →
        g' ∈ P.goroutines ∨ Started cfg S P a g' := by
    intro m b hm
    obtain ⟨work, b', -, hgs⟩ := launch_goroutines hm
    rw [hgs] at hg'
    rcases List.mem_append.mp hg' with hold | hnew
    · exact .inl hold
    · rw [List.mem_singleton.mp hnew]
      exact .inr ⟨rfl, fun s hs => absurd hs (by simp)⟩
  cases a with
  | handleConnection | sendRound | tick | closer | send =>
    rw [step] at h
    exact .inl (hrun h)
  | elapse => exact .inl (hrun (m := Exec.modify fun b => { b with now := b.now + _ }) h)
  | clientPublish | mgrPublish | overview | sessionInfo =>
    rw [step] at h
    exact (hlaunch (b := P.broker) h).imp_right .inl
  | recvError s =>
    rw [step] at h
    split at h
    · exact absurd h (by simp)
    · exact .inl (hrun h)
  | recvPacket s p order =>
    rw [step] at h
    split at h
    · exact absurd h (by simp)
    · obtain ⟨work, b', hstart, hgs⟩ := launch_goroutines (b := P.broker) h
      rw [hgs] at hg'
      rcases List.mem_append.mp hg' with hold | hnew
      · exact .inl hold
      · rw [List.mem_singleton.mp hnew]
        refine .inr (.inl ⟨rfl, fun s' hs' => ?_⟩)
        obtain rfl : s = s' := Option.some.inj hs'
        exact ⟨p, order, b', rfl, hstart⟩
  | start i order =>
    rw [step] at h
    split at h
    · exact absurd h (by simp)
    · exact (hlaunch h).imp_right .inl
  | advance i =>
    rw [step] at h
    split at h
    · exact absurd h (by simp)
    · next g hg =>
        obtain ⟨⟨r, b'⟩, hadv, rfl⟩ := Option.map_eq_some_iff.mp h
        cases r with
        | none => exact .inl hg'
        | some r =>
          obtain ⟨hi, -⟩ := List.getElem?_eq_some_iff.mp hg
          rcases List.mem_cons.mp ((List.set_perm_cons_eraseIdx hi r).mem_iff.mp hg') with
            rfl | hold
          · exact .inr (.inr ⟨i, g, rfl, hg, hadv⟩)
          · exact .inl hold

/-! ## Room for the messages that come back -/

/-- A receive loop has no message for its own session, or the session has a place for it. -/
def HasRoom (cfg : Config) (P : Process σ) (s : SessionRef) : Prop :=
  (∃ g ∈ P.goroutines, g.Delivers cfg s) → P.broker.taken s < cfg.places

/-- A message that comes back is read when there is a place for it, and until it has been published
no other goroutine takes the last place. -/
def LeavesRoom (cfg : Config) (S : StoreMgr σ) (P : Process σ) : Action → Prop
  | .recvPacket s p _ => cfg.sendToSelf = true → P.broker.comesBack S s p.1 = true →
      P.broker.taken s < cfg.places
  | .advance i => ∀ g ∈ P.goroutines[i]?, ∀ s ∈ g.enters cfg P.broker,
      (∃ own ∈ P.others (.advance i), own.Delivers cfg s) → P.broker.taken s + 1 < cfg.places
  | .send s _ => (∃ own ∈ P.goroutines, own.Delivers cfg s) → P.broker.taken s + 1 < cfg.places
  | _ => True

instance (cfg : Config) (S : StoreMgr σ) (P : Process σ) (a : Action) :
    Decidable (LeavesRoom cfg S P a) := by
  cases a with
  | recvPacket s p order => exact inferInstanceAs (Decidable (_ → _ → _))
  | advance i => exact inferInstanceAs (Decidable (∀ g ∈ P.goroutines[i]?, ∀ s ∈ _, _ → _))
  | send s p => exact inferInstanceAs (Decidable (_ → _))
  | _ => exact inferInstanceAs (Decidable True)

/-- A message that comes back is on its way only behind a PUBLISH or a PUBREL. -/
theorem Started.delivers {g : Goroutine} {s : SessionRef} (h : Started cfg S P a g)
    (hdelivers : g.Delivers cfg s) : ∃ p order, a = .recvPacket s p order ∧
      ¬ p.1.acknowledges ∧ cfg.sendToSelf = true ∧ P.broker.comesBack S s p.1 = true := by
  obtain ⟨howner, hmsg⟩ := hdelivers
  obtain ⟨p, order, b', rfl, hstart⟩ := h.reads s howner
  rw [h.waiting] at hmsg
  obtain ⟨hself, w, hw, hmem⟩ := hmsg.resolve_left (by simp)
  rcases recvStart_own hstart with hnil | ⟨msg, rest, hwork, -, hback⟩
  · rw [hnil] at hw
    exact absurd hw List.not_mem_nil
  · rw [hwork, List.mem_singleton] at hw
    subst hw
    refine ⟨p, order, rfl, fun hacks => ?_, hself, hback hmem⟩
    have hback := hback hmem
    obtain ⟨p, hp⟩ := p
    cases p with
    | puback | pubrec | pubcomp | suback | unsuback =>
      exact absurd hback Bool.false_ne_true
    | _ => exact hacks

/-- Where a message that a receive loop has for its own session after a step comes from. -/
theorem step_delivers (hP : P.Consistent) (hforwards : ∀ g ∈ P.goroutines, g.Forwards)
    (h : (system cfg S).step a P = some P') {g' : Goroutine} (hg' : g' ∈ P'.goroutines)
    {s : SessionRef} (hdelivers : g'.Delivers cfg s) :
    g' ∈ P.others a ∨
      (∃ p order, a = .recvPacket s p order ∧ ¬ p.1.acknowledges ∧ cfg.sendToSelf = true ∧
        P.broker.comesBack S s p.1 = true) ∨
      ∃ i g, a = .advance i ∧ P.goroutines[i]? = some g ∧
        advance cfg S g P.broker = some (some g', P'.broker) ∧ g.Delivers cfg s ∧
          (g.enters cfg P.broker = some s → g'.waiting ≠ none) := by
  rcases step_goroutines h hg' with hold | hnew | ⟨i, g, rfl, hg, hadv⟩
  · exact .inl hold
  · exact .inr (.inl (hnew.delivers hdelivers))
  · have hmem := List.mem_of_getElem? hg
    obtain ⟨hbefore, hkeeps⟩ := advance_delivers hP.sound.inRange (hP.valid g hmem)
      (hforwards g hmem) hadv hdelivers
    exact .inr (.inr ⟨i, g, rfl, hg, hadv, hbefore, hkeeps⟩)

theorem forwards_step (hP : P.Consistent) (hforwards : ∀ g ∈ P.goroutines, g.Forwards)
    (h : (system cfg S).step a P = some P') : ∀ g' ∈ P'.goroutines, g'.Forwards := by
  intro g' hg'
  rcases step_goroutines h hg' with hold | hnew | ⟨i, g, rfl, hg, hadv⟩
  · exact hforwards g' (others_subset P a hold)
  · intro s howner
    obtain ⟨p, order, b', -, hstart⟩ := hnew.reads s howner
    rcases recvStart_own hstart with hnil | ⟨msg, rest, hwork, hnodup, -⟩
    · exact .inl hnil
    · refine .inr ⟨msg, rest, hwork, hnodup, fun t ht => ?_⟩
      rw [hnew.waiting] at ht
      exact absurd ht (by simp)
  · have hmem := List.mem_of_getElem? hg
    exact advance_forwards hP.sound.inRange (hP.valid g hmem) (hforwards g hmem) hadv

/-- A step keeps the room for what the session's own loop has for it. -/
theorem hasRoom_step (hP : P.Consistent) (hforwards : ∀ g ∈ P.goroutines, g.Forwards)
    (hroom : ∀ s, P.HasRoom cfg s) (hok : LeavesRoom cfg S P a)
    (h : (system cfg S).step a P = some P') (s : SessionRef) : P'.HasRoom cfg s := by
  rintro ⟨g', hg', hdelivers⟩
  have hkept := Broker.taken_of_sameMessages (step_sameMessages h) hP.sound.inRange s
  have hsame : (∀ f, (P'.broker.sessions s).taken f ≤ (P.broker.sessions s).taken f) →
      P.broker.taken s < cfg.places → P'.broker.taken s < cfg.places := by
    intro hdrains hlt
    refine lt_of_le_of_lt (hdrains _) ?_
    rw [hkept]
    exact hlt
  have hfed : ∀ t, Feeds t P.broker P'.broker → (∃ g ∈ P.goroutines, g.Delivers cfg s) →
      (s = t → P.broker.taken s + 1 < cfg.places) → P'.broker.taken s < cfg.places := by
    intro t hfeeds hbefore hlast
    have hone := hfeeds s P'.broker.awaited
    rw [hkept] at hone
    refine lt_of_le_of_lt hone ?_
    by_cases hs : s = t
    · rw [if_pos hs]
      exact hlast hs
    · rw [if_neg hs]
      exact hroom s hbefore
  rcases step_delivers hP hforwards h hg' hdelivers with
    hold | ⟨p, order, rfl, hacks, hself, hback⟩ | ⟨i, g, rfl, hg, hadv, hbefore, hkeeps⟩
  · have hmem := others_subset P a hold
    -- the loop had it before, and another goroutine may take a place meanwhile
    by_cases hpublishes : a.publishes
    · cases a with
      | send t p =>
        exact hfed t (step_send_feeds h) ⟨g', hmem, hdelivers⟩
          fun hs => hs ▸ hok ⟨g', hmem, hs ▸ hdelivers⟩
      | advance i =>
        obtain ⟨g, r, hg, hadv⟩ := step_advance h
        rcases advance_places hP.sound.inRange (hP.valid g (List.mem_of_getElem? hg)) hadv with
          hdrains | ⟨t, henters, -, hfeeds⟩
        · exact hsame (hdrains s not_false) (hroom s ⟨g', hmem, hdelivers⟩)
        · exact hfed t hfeeds ⟨g', hmem, hdelivers⟩
            fun hs => hs ▸ hok g hg t henters ⟨g', hold, hs ▸ hdelivers⟩
      | _ => exact hpublishes.elim
    · refine hsame (step_drains hpublishes h s ?_) (hroom s ⟨g', hmem, hdelivers⟩)
      -- the loop has something left to do, so that it does not read
      rintro ⟨p, order, rfl, -⟩
      exact recvPacket_free h g' hmem hdelivers.1
  · -- the loop has just read it
    have hpublishes : ¬ (Action.recvPacket s p order).publishes := fun hsends => hsends
    refine hsame (step_drains hpublishes h s ?_) (hok hself hback)
    rintro ⟨p', order', hread, hacks'⟩
    injection hread with _ hp
    exact hacks (hp ▸ hacks')
  · -- the loop goes on; where it enters an entry of its own session, it has nothing left for it
    have hmem := List.mem_of_getElem? hg
    rcases advance_places hP.sound.inRange (hP.valid g hmem) hadv with
      hdrains | ⟨t, henters, hnone, hfeeds⟩
    · exact hsame (hdrains s not_false) (hroom s ⟨g, hmem, hbefore⟩)
    · exact hfed t hfeeds ⟨g, hmem, hbefore⟩
        fun hs => absurd (hnone g' rfl) (hkeeps (hs ▸ henters))

/-! ## Receive loops that wait on themselves -/

/-- The receive loop of the session is blocked in `Publish` on the session itself. -/
def WaitsOnItself (s : SessionRef) (P : Process σ) : Prop :=
  ∃ g ∈ P.goroutines, g.owner = some s ∧ ∃ pt, g.waiting = some (s, pt)

/-- It is so with a full queue and a full window, whose entries only acknowledgements remove. -/
structure SelfWait (cfg : Config) (s : SessionRef) (P : Process σ) : Prop where
  waits : P.WaitsOnItself s
  chan_open : (P.broker.sessions s).peddingChan.closed = false
  chan_full : cfg.maxSizeOfPublishMsg ≤ (P.broker.sessions s).peddingChan.len
  window_full : cfg.maxSizeOfInflight ≤ (P.broker.sessions s).inflightingList.length
  qos : ∀ imsg ∈ (P.broker.sessions s).inflightingList,
    0 < (P.broker.packets.cells imsg.pt.p).details.qos

instance (s : SessionRef) (P : Process σ) : Decidable (P.WaitsOnItself s) :=
  decidable_of_iff (∃ g ∈ P.goroutines, g.owner = some s ∧ g.waiting.map Prod.fst = some s) <| by
    simp [WaitsOnItself]

theorem WaitsOnItself.delivers {s : SessionRef} (h : P.WaitsOnItself s) :
    ∃ g ∈ P.goroutines, g.Delivers cfg s := by
  obtain ⟨g, hg, howner, pt, hwaiting⟩ := h
  refine ⟨g, hg, howner, .inl ?_⟩
  rw [hwaiting]
  rfl

/-- Every place is taken where a receive loop waits on itself. -/
theorem SelfWait.places_le {s : SessionRef} (h : SelfWait cfg s P) :
    cfg.places ≤ P.broker.taken s := by
  have hall : (P.broker.sessions s).flight.countP P.broker.awaited =
      (P.broker.sessions s).inflightingList.length := by
    rw [List.countP_eq_length.mpr, Session.flight, List.length_map]
    intro pt hpt
    obtain ⟨imsg, himsg, rfl⟩ := List.mem_map.mp hpt
    exact decide_eq_true (h.qos imsg himsg)
  rw [Broker.taken, Session.taken, hall]
  exact Nat.add_le_add h.window_full (h.chan_full.trans (le_max_right _ _))

/-- In every run that leaves a place for what comes back, no receive loop waits on itself. -/
theorem recv_never_waits_on_itself (cfg : Config) (S : StoreMgr σ) {P : Process σ}
    (h : (system cfg S).Reach (LeavesRoom cfg S) P) (s : SessionRef) : ¬ SelfWait cfg s P := by
  have hinv : P.Consistent ∧ (∀ g ∈ P.goroutines, g.Forwards) ∧ ∀ s, P.HasRoom cfg s := by
    refine h.invariant (I := fun P => P.Consistent ∧ (∀ g ∈ P.goroutines, g.Forwards) ∧
      ∀ s, P.HasRoom cfg s) ?_ ?_
    · intro P h0
      have hinit : Initial cfg P := h0
      have hnone : ∀ g, g ∉ P.goroutines := by
        rw [hinit.goroutines]
        exact fun g => List.not_mem_nil
      exact ⟨hinit.consistent, fun g hg => absurd hg (hnone g),
        fun s ⟨g, hg, _⟩ => absurd hg (hnone g)⟩
    · rintro P a P' ⟨hP, hforwards, hroom⟩ hok hstep
      exact ⟨(step_moves hP hstep).consistent hP, forwards_step hP hforwards hstep,
        hasRoom_step hP hforwards hroom hok hstep⟩
  intro hs
  exact absurd hs.places_le (Nat.not_le_of_lt (hinv.2.2 s (WaitsOnItself.delivers hs.waits)))

/-- A window of one place, and a queue of two. -/
def narrow : Config := { maxSizeOfInflight := 1, maxSizeOfPublishMsg := 2 }

/-- Session 0 connects and subscribes to `x`. -/
def subscribed : List Action :=
  [.handleConnection 0, .recvPacket 0 (inboundConnect (str "a")) RangeOrder.ascending,
    .advance 0, .sendRound 0 true,
    .recvPacket 0 (inboundSubscribe 120 1) RangeOrder.ascending, .advance 0,
    .sendRound 0 true]

/-- A message of QoS 0 fills the window, a client publishes one of QoS 1 while the next own message
is on its way, and the third own message has to wait for the two in the queue. -/
def ownMessages : List Action :=
  subscribed ++ [.recvPacket 0 (inboundPublish (str "x") (str "m") 0 0) RangeOrder.ascending,
    .advance 0, .advance 0, .advance 0,
    .recvPacket 0 (inboundPublish (str "x") (str "m") 1 7) RangeOrder.ascending,
    .clientPublish 0 (str "x") (str "n") 1 false, .advance 1, .advance 1,
    .advance 0, .advance 0, .advance 0,
    .recvPacket 0 (inboundPublish (str "x") (str "m") 1 8) RangeOrder.ascending, .advance 0]

/-- With a window of one place and a queue of two, the receive loop waits for the entry of QoS 0,
which it does not have to acknowledge itself. -/
theorem recv_never_waits_on_itself_qos0 : ∃ P : Process MemStore,
    (system narrow (MemStore.storeMgr default)).Reach
        (LeavesRoom narrow (MemStore.storeMgr default)) P ∧
      P.WaitsOnItself 0 ∧ ¬ SelfWait narrow 0 P := by
  have hok : (system narrow (MemStore.storeMgr default)).Along
      (LeavesRoom narrow (MemStore.storeMgr default)) ownMessages
      (start narrow MemStore.newStoreMgr fun _ => true) :=
    StepSystem.along_of_check (c := fun P a => LeavesRoom narrow (MemStore.storeMgr default) P a)
      (fun _ _ h => of_decide_eq_true h) (by decide +kernel)
  have hend : ((system narrow (MemStore.storeMgr default)).exec ownMessages
      (start narrow MemStore.newStoreMgr fun _ => true)).any (fun P =>
        decide (P.WaitsOnItself 0)) = true := by
    decide +kernel
  obtain ⟨P, hreach, hP⟩ := StepSystem.exists_reach_of_any
    (start_initial narrow MemStore.newStoreMgr fun _ => true) hok hend
  exact ⟨P, hreach, of_decide_eq_true hP, recv_never_waits_on_itself narrow _ hreach 0⟩

/-! ## Without `SendToSelf` -/

/-- Where sessions do not get their own messages, no receive loop waits on itself. -/
theorem not_waitsOnItself_of_sendToSelf (hself : cfg.sendToSelf = false)
    (h : (system cfg S).Reachable P) (s : SessionRef) : ¬ P.WaitsOnItself s := by
  have hinv : P.Consistent ∧ (∀ g ∈ P.goroutines, g.Forwards) ∧
      ∀ g ∈ P.goroutines, ¬ g.Delivers cfg s := by
    refine h.invariant (I := fun P => P.Consistent ∧ (∀ g ∈ P.goroutines, g.Forwards) ∧
      ∀ g ∈ P.goroutines, ¬ g.Delivers cfg s) ?_ ?_
    · intro P h0
      have hinit : Initial cfg P := h0
      have hnone : ∀ g, g ∉ P.goroutines := by
        rw [hinit.goroutines]
        exact fun g => List.not_mem_nil
      exact ⟨hinit.consistent, fun g hg => absurd hg (hnone g), fun g hg => absurd hg (hnone g)⟩
    · rintro P a P' ⟨hP, hforwards, hnone⟩ - hstep
      refine ⟨(step_moves hP hstep).consistent hP, forwards_step hP hforwards hstep, ?_⟩
      intro g' hg' hdelivers
      rcases step_delivers hP hforwards hstep hg' hdelivers with
        hold | ⟨-, -, -, -, hon, -⟩ | ⟨i, g, -, hg, -, hbefore, -⟩
      · exact hnone g' (others_subset P a hold) hdelivers
      · exact absurd (hself.symm.trans hon) Bool.false_ne_true
      · exact hnone g (List.mem_of_getElem? hg) hbefore
  intro hs
  obtain ⟨g, hg, hdelivers⟩ := WaitsOnItself.delivers hs
  exact hinv.2.2 g hg hdelivers

/-! ## A receive loop that waits on itself -/

variable {order : SubscriberOrder} {s : SessionRef} {p : PublishPacket}

/-- With full lists, the next message makes the receive loop wait on itself. -/
theorem selfWait_of_flooded (hself : cfg.sendToSelf = true) (hp : Decoded (.publish p))
    (hretain : p.header.retain = false) (hqos : p.header.qos = 1) {b : Broker σ}
    (h : Flooded cfg order p.topicName s (cfg.maxSizeOfInflight + cfg.maxSizeOfPublishMsg) b) :
    ∃ P', (system cfg S).exec [.recvPacket s ⟨.publish p, hp⟩ order, .advance 0]
        { broker := b, goroutines := [] } = some P' ∧ SelfWait cfg s P' := by
  obtain ⟨msg, granted, t, b₁, b₂, hstart, hround, h₂⟩ := h.entering (S := S) hself hretain hqos
  have hwindow : cfg.maxSizeOfInflight ≤ (b₂.sessions s).inflightingList.length := by
    rw [h₂.inflightingList, h.window]
    omega
  have hchan : (b₂.sessions s).peddingChan = { len := cfg.maxSizeOfPublishMsg } := by
    rw [h₂.peddingChan, h.chan, Nat.add_sub_cancel_left]
  have hblocked : Session.enqueue cfg s ⟨msg, t⟩ b₂ = (.error (.blocked s ⟨msg, t⟩), b₂) := by
    rw [Session.enqueue_of_full h₂.active hwindow]
    apply Session.pushPedding_blocks
    · rw [hchan]
    · rw [hchan]
  have hadvance :
      advance cfg S { owner := some s, work := [.subscribers s msg [⟨s, granted⟩]] } b₁ =
      some (some { owner := some s, waiting := some (s, ⟨msg, t⟩),
                   work := [.subscribers s msg []] },
        b₂) := by
    simp [advance, hround, bind_run, hblocked, Work.next]
  refine ⟨{ broker := b₂, goroutines := [{
    owner := some s, waiting := some (s, ⟨msg, t⟩), work := [.subscribers s msg []] }] }, ?_, ?_⟩
  · rw [StepSystem.exec_cons (step_recvPacket (p := ⟨.publish p, hp⟩) hstart)]
    show ((advance cfg S _ b₁).map _).bind _ = _
    rw [hadvance]
    rfl
  · constructor
    · exact ⟨_, List.mem_singleton.mpr rfl, rfl, ⟨msg, t⟩, rfl⟩
    · rw [hchan]
    · rw [hchan]
    · exact hwindow
    · exact fun imsg himsg => (h₂.entries h rfl imsg himsg).2

/-- However large the window and the queue are, a subscribed session can fill them with its own
messages. -/
theorem selfWait_reached (hself : cfg.sendToSelf = true)
    (hsize : 2 * cfg.maxSizeOfInflight < cfg.maxSizeOfPublishMsg) (hp : Decoded (.publish p))
    (hretain : p.header.retain = false) (hqos : p.header.qos = 1) {b : Broker σ}
    (hreach : (system cfg S).Reachable { broker := b, goroutines := [] })
    (h : Flooded cfg order p.topicName s 0 b) :
    ∃ P', (system cfg S).Reachable P' ∧ SelfWait cfg s P' := by
  have hall : ∀ k ≤ cfg.maxSizeOfInflight + cfg.maxSizeOfPublishMsg, ∃ b',
      (system cfg S).Reachable { broker := b', goroutines := [] } ∧
        Flooded cfg order p.topicName s k b' := by
    intro k
    induction k with
    | zero => exact fun _ => ⟨b, hreach, h⟩
    | succ k ih =>
      intro hk
      obtain ⟨b', hreach', h'⟩ := ih (Nat.le_of_succ_le hk)
      obtain ⟨b'', hexec, h''⟩ := flooded_succ (S := S) hself hsize hk hp hretain hqos h'
      exact ⟨b'', StepSystem.reach_of_exec hreach' (StepSystem.along_true _ _) hexec, h''⟩
  obtain ⟨b', hreach', h'⟩ := hall _ (le_refl _)
  obtain ⟨P', hexec, hwait⟩ := selfWait_of_flooded (S := S) hself hp hretain hqos h'
  exact ⟨P', StepSystem.reach_of_exec hreach' (StepSystem.along_true _ _) hexec, hwait⟩

/-- With the window of 100 and the queue of 10240 that are configured, session 0 publishes 10341
messages to `x`, and its receive loop waits on itself. -/
theorem recv_waits_on_itself : ∃ P : Process MemStore,
    (system {} (MemStore.storeMgr default)).Reachable P ∧ SelfWait {} 0 P := by
  have hend : ((system {} (MemStore.storeMgr default)).exec subscribed
      (start {} MemStore.newStoreMgr fun _ => true)).any (fun P => P.goroutines.isEmpty && decide
        (RangeOrder.ascending.toList (P.broker.subscriptionMgr.getSessions (str "x")) = [⟨0, 1⟩] ∧
          ((P.broker.sessions 0).isServer = true ∧ (P.broker.sessions 0).clostep = .running ∧
            (P.broker.sessions 0).isConnected ∧ (P.broker.sessions 0).channel.isStoped = false) ∧
          (P.broker.sessions 0).channel.iSendList = [] ∧
          (P.broker.sessions 0).inflightingList = [] ∧
          (P.broker.sessions 0).peddingChan = {})) = true := by
    decide +kernel
  obtain ⟨⟨b, goroutines⟩, hreach, hP⟩ := StepSystem.exists_reachable_of_any
    (start_initial {} MemStore.newStoreMgr fun _ => true) hend
  rw [Bool.and_eq_true, List.isEmpty_iff] at hP
  obtain ⟨hidle, hstate⟩ := hP
  obtain rfl : goroutines = [] := hidle
  obtain ⟨hsubs, ⟨hserver, hrunning, hconnected, hstarted⟩, hsends, hwindow, hchan⟩ :=
    of_decide_eq_true hstate
  have hflooded : Flooded {} RangeOrder.ascending (str "x") 0 0 b := by
    refine ⟨⟨1, hsubs⟩, ⟨hserver, hrunning, hconnected, hstarted⟩, ?_, ?_, hchan, ?_⟩
    · rw [hsends]
      exact le_refl 0
    · rw [hwindow]
      rfl
    · rw [hwindow]
      exact fun imsg himsg => absurd himsg List.not_mem_nil
  exact selfWait_reached rfl (by decide) (publishOf_decoded (str "x") (str "m") 1 7) rfl rfl hreach
    hflooded

end Process
end MqttBroker

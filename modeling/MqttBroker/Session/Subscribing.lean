import MqttBroker.Session.InFlight
import MqttBroker.Session.Panics
import MqttBroker.Session.Routing
import MqttBroker.Topic.WholeFilter

/-!
# Subscribing

`Client.Subcribe` sends the filters and the QoS bytes of a map as two lists, the broker files
them and answers with the second list, and the client pairs the list it kept with the one that
comes back. Nothing but positions ties them together, over two packets and the lookup of an
entry in flight. The client and the broker are two processes here, each with whatever else it
does, and share nothing but the bytes that are written.
-/

namespace MqttBroker

open Broker GoM Exec

variable {σ σ' : Type}

/-! ## The call -/

namespace Client

/-- The loop of `Subcribe`. -/
def subcribeLoop : List (Σ _ : GoString, UInt8) → SubscribePacket → SubscribePacket
  | [], subMsg => subMsg
  | ⟨sub, qos⟩ :: rest, subMsg =>
    subcribeLoop rest { subMsg with topics := subMsg.topics ++ [sub], qoss := subMsg.qoss ++ [qos] }

/-- The packet that `Subcribe` builds, in the order in which it ranges over the map. -/
def subMsg (order : RangeOrder GoString UInt8) (submap : GoMap GoString UInt8) : SubscribePacket :=
  subcribeLoop (order.toList submap) newSubscribe

/-- `Client.Subcribe`. -/
def subcribe (cfg : Config) (session : SessionRef) (order : RangeOrder GoString UInt8)
    (submap : GoMap GoString UInt8) : GoM σ (Option TokenRef × Option GoError) := do
  let msg ← newPacket (.subscribe (subMsg order submap))
  Session.send cfg session msg

theorem subcribeLoop_eq (l : List (Σ _ : GoString, UInt8)) : ∀ m : SubscribePacket,
    subcribeLoop l m =
      { m with topics := m.topics ++ l.map Sigma.fst, qoss := m.qoss ++ l.map Sigma.snd } := by
  induction l with
  | nil =>
    intro m
    rw [subcribeLoop, List.map_nil, List.map_nil, List.append_nil, List.append_nil]
  | cons e l ih =>
    intro m
    rw [subcribeLoop, ih]
    simp only [List.append_assoc, List.singleton_append, List.map_cons]

variable (order : RangeOrder GoString UInt8) (submap : GoMap GoString UInt8)

theorem subMsg_eq : subMsg order submap =
    { newSubscribe with
      topics := (order.toList submap).map Sigma.fst
      qoss := (order.toList submap).map Sigma.snd } :=
  subcribeLoop_eq _ _

/-- The packet is one that `NewControlPacket` started. -/
def outbound : Outbound := ⟨.subscribe (subMsg order submap), by rw [subMsg_eq]; rfl⟩

/-- The call is a call of `Send`, a step of the client's process. -/
theorem step_subcribe {cfg : Config} {S : StoreMgr σ} {session : SessionRef} {P : Process σ}
    {b : Broker σ} {r : Option TokenRef × Option GoError}
    (h : subcribe cfg session order submap P.broker = (.ok r, b)) :
    (Process.system cfg S).step (.send session (outbound order submap)) P =
      some { P with broker := b } := by
  show P.run (subcribe cfg session order submap) = _
  rw [Process.run, h]

end Client

/-- `SubscribeToken.Result`. -/
def Token.result (t : Token) : Option (GoMap GoString UInt8) :=
  match t.kind with
  | .subscribe _ subResult => some subResult
  | _ => none

/-! ## What is written and read -/

/-- `ReadPacket` makes the second packet of what `Write` wrote of the first, if the fixed header
comes over as it was written. -/
inductive Carried : ControlPacket → ControlPacket → Prop
  | subscribe {m : SubscribePacket} {fh : FixedHeader} {buf : GoString} : m.body = .ok buf →
      fh.messageType = PacketType.subscribe → fh.remainingLength = buf.length →
      Carried (.subscribe m) (.subscribe (.unpack fh buf))
  | suback {m : SubackPacket} {fh : FixedHeader} : fh.messageType = PacketType.suback →
      Carried (.suback m) (.suback (.unpack fh m.body))

theorem Carried.of_subscribe {m : SubscribePacket} {p : ControlPacket}
    (h : Carried (.subscribe m) p) (hlength : m.topics.length = m.qoss.length)
    (hshort : ∀ topic ∈ m.topics, topic.length < 65536) :
    ∃ fh, p = .subscribe { m with header := fh } := by
  cases h with
  | @subscribe _ fh buf hbody _ hremaining =>
    obtain ⟨buf', hbody', hunpack⟩ := SubscribePacket.unpack_body hlength hshort
    obtain rfl : buf' = buf := Except.ok.inj (hbody'.symm.trans hbody)
    exact ⟨fh, congrArg ControlPacket.subscribe (hunpack fh hremaining)⟩

theorem Carried.of_suback {m : SubackPacket} {p : ControlPacket} (h : Carried (.suback m) p) :
    ∃ fh, p = .suback { m with header := fh } := by
  cases h with
  | @suback _ fh _ => exact ⟨fh, congrArg ControlPacket.suback (SubackPacket.unpack_body m fh)⟩

/-- A SUBSCRIBE is known by its message and its id. -/
theorem ControlPacket.eq_of_message_subscribe {m : SubscribePacket} {id : UInt16}
    {p : ControlPacket} (h : p.message = (ControlPacket.subscribe m).message)
    (hid : p.messageID = id) : p = .subscribe { m with messageID := id } := by
  cases p with
  | subscribe m' =>
    have hm : ({ m' with messageID := 0 } : SubscribePacket) = { m with messageID := 0 } :=
      ControlPacket.subscribe.inj h
    have hid' : m'.messageID = id := hid
    rw [← hid']
    exact congrArg (fun x => ControlPacket.subscribe { x with messageID := m'.messageID }) hm
  | _ => exact ControlPacket.noConfusion h

theorem ControlPacket.eq_of_message_suback {m : SubackPacket} {p : ControlPacket}
    (h : p.message = (ControlPacket.suback m).message) : p = .suback m := by
  cases p with
  | suback m' => exact h
  | _ => exact ControlPacket.noConfusion h

/-- Between `P` and `P'`, the channel of `s` was handed the packet behind `r` and no other. -/
def Queued (s : SessionRef) (r : PacketRef) (P P' : Process σ) : Prop :=
  (P'.broker.sessions s).channel.iSendList = (P.broker.sessions s).channel.iSendList ++ [r]

/-! ## The client sends -/

namespace Client

/-- The broker when the switch of `Send` is through with the SUBSCRIBE `m`. -/
def numbered (c : SessionRef) (m : SubscribePacket) (b : Broker σ) : Broker σ :=
  { b.setSession c Session.advanceMsgId with
    packets := (b.packets.alloc (.subscribe { m with messageID := (b.sessions c).nextId })).2
    tokens := (b.tokens.alloc { kind := .subscribe m.topics ∅ }).2 }

/-- The entry of a SUBSCRIBE, and its place in the send list. -/
def entered (cfg : Config) (now : ℤ) (msg : PacketRef) (t : TokenRef) (s : Session) : Session :=
  Session.queueSend msg
    (Session.queueInflight { pt := ⟨msg, some t⟩, timeout := now + cfg.sentTimeout } s)

theorem sendCase_subscribe_run {c : SessionRef} {m : SubscribePacket} {b : Broker σ} :
    (Session.sendCase c b.packets.next (.subscribe m) (some b.tokens.next)
      (some (.subscribe [] ∅)) : GoM σ Bool)
      { b with
        packets := (b.packets.alloc (.subscribe m)).2
        tokens := (b.tokens.alloc { kind := .subscribe [] ∅ }).2 } =
        (.ok true, numbered c m b) := by
  have htokens : (b.tokens.alloc { kind := .subscribe [] ∅ }).2.modify b.tokens.next
      (fun tok => { tok with kind := .subscribe m.topics ∅ }) =
        (b.tokens.alloc { kind := .subscribe m.topics ∅ }).2 := Heap.alloc_modify b.tokens rfl
  have hpackets : (b.packets.alloc (.subscribe m)).2.modify b.packets.next
      (ControlPacket.setMessageID (b.sessions c).nextId) =
        (b.packets.alloc (.subscribe { m with messageID := (b.sessions c).nextId })).2 :=
    Heap.alloc_modify b.packets rfl
  rw [numbered, ← htokens, ← hpackets]
  rfl

/-- `Send` of the SUBSCRIBE `m` on a running channel. -/
theorem send_subscribe_run (cfg : Config) {c : SessionRef} {m : SubscribePacket} {b : Broker σ}
    (hm : m.header.messageType = PacketType.subscribe)
    (h : (b.sessions c).channel.isStoped = false) :
    (newPacket (.subscribe m) >>= fun msg => Session.send cfg c msg : GoM σ _) b =
      (.ok (some b.tokens.next, none),
        { (numbered c m b).setSession c (entered cfg b.now b.packets.next b.tokens.next) with
          trace := b.trace ++
            [.send c (.subscribe { m with messageID := (b.sessions c).nextId })] }) := by
  have hstoped : ¬ (b.sessions c).channel.isStoped = true := by
    rw [h]
    exact Bool.false_ne_true
  have htype : (ControlPacket.subscribe m).type = 8 := hm
  let b₁ : Broker σ := { b with packets := (b.packets.alloc (.subscribe m)).2 }
  have hpacket : packet b.packets.next b₁ = (.ok (.subscribe m), b₁) := by
    rw [packet_run]
    exact congrArg (fun p => (Except.ok p, b₁)) (Heap.alloc_self _ _)
  have htoken : (allocToken 8 : GoM σ (Option TokenRef)) b₁ =
      (.ok (some b.tokens.next),
        { b₁ with tokens := (b.tokens.alloc { kind := .subscribe [] ∅ }).2 }) := rfl
  have hkind : (newToken 8).map Token.kind = some (.subscribe [] ∅) := rfl
  have hcase := sendCase_subscribe_run (c := c) (m := m) (b := b)
  let imsg : InflightingMsg :=
    { pt := ⟨b.packets.next, some b.tokens.next⟩, timeout := b.now + cfg.sentTimeout }
  let b₂ := (numbered c m b).setSession c (Session.queueInflight imsg)
  have hpush : Session.pushInflight cfg c imsg.pt (numbered c m b) = (.ok (), b₂) := rfl
  have hrunning : (b₂.sessions c).channel.isStoped = false := by
    have hsession : (numbered c m b).sessions c = Session.advanceMsgId (b.sessions c) :=
      setSession_self c _ b
    rw [setSession_self, hsession]
    exact h
  have hcell : b₂.packets.cells b.packets.next =
      .subscribe { m with messageID := (b.sessions c).nextId } := Heap.alloc_self _ _
  rw [bind_run_ok (newPacket_run _ b), Session.send, bind_run_ok (session_run c _), if_neg hstoped,
    bind_run_ok hpacket, htype, bind_run_ok htoken, hkind, bind_run_ok hcase, if_pos rfl,
    bind_run_ok hpush]
  show (Channel.send c b.packets.next >>= fun err => pure (some b.tokens.next, err) : GoM σ _) b₂ =
    _
  rw [bind_run_ok (Channel.send_running _ hrunning), hcell, setSession_setSession]
  rfl

section

variable {cfg : Config} {c : SessionRef} {order : RangeOrder GoString UInt8}
  {submap : GoMap GoString UInt8} {t : TokenRef} {sub : PacketRef} {err : Option GoError}
  {b b' : Broker σ}

/-- A call that returns a token has sent its packet. -/
theorem subcribe_sends (h : subcribe cfg c order submap b = (.ok (some t, err), b')) :
    t = b.tokens.next ∧
      b' = { (numbered c (subMsg order submap) b).setSession c
          (entered cfg b.now b.packets.next t) with
        trace := b.trace ++ [.send c
          (.subscribe { subMsg order submap with messageID := (b.sessions c).nextId })] } := by
  cases hstoped : (b.sessions c).channel.isStoped with
  | true =>
    have hrun : subcribe cfg c order submap b = (.ok (none, some Session.errStoped),
        { b with packets := (b.packets.alloc (.subscribe (subMsg order submap))).2 }) := by
      rw [subcribe, bind_run_ok (newPacket_run _ b), Session.send, bind_run_ok (session_run c _),
        if_pos hstoped]
      rfl
    have hnone := Except.ok.inj (congrArg Prod.fst (hrun.symm.trans h))
    exact absurd (congrArg Prod.fst hnone) (by simp)
  | false =>
    have htype : (subMsg order submap).header.messageType = PacketType.subscribe := by
      rw [subMsg_eq]
      rfl
    have hrun := h.symm.trans (send_subscribe_run cfg htype hstoped)
    obtain rfl : t = b.tokens.next :=
      Option.some.inj (congrArg Prod.fst (Except.ok.inj (congrArg Prod.fst hrun)))
    exact ⟨rfl, congrArg Prod.snd hrun⟩

/-- On a running channel the call returns a token, and its packet is queued. -/
theorem subcribe_run (cfg : Config) (order : RangeOrder GoString UInt8)
    (submap : GoMap GoString UInt8) (h : (b.sessions c).channel.isStoped = false) : ∃ b',
      subcribe cfg c order submap b = (.ok (some b.tokens.next, none), b') ∧
      (b'.sessions c).channel.iSendList =
        (b.sessions c).channel.iSendList ++ [b.packets.next] := by
  have htype : (subMsg order submap).header.messageType = PacketType.subscribe := by
    rw [subMsg_eq]
    rfl
  refine ⟨_, send_subscribe_run cfg htype h, ?_⟩
  show (((numbered c (subMsg order submap) b).setSession c
    (entered cfg b.now b.packets.next b.tokens.next)).sessions c).channel.iSendList = _
  rw [setSession_self]
  show _ = (Session.advanceMsgId (b.sessions c)).channel.iSendList ++ _
  exact congrArg (fun x => x.channel.iSendList ++ _) (setSession_self c Session.advanceMsgId b)

/-- The SUBSCRIBE has the id that the session gave it, and its entry waits with a token that
knows the filters. -/
theorem subcribe_waits (h : subcribe cfg c order submap b = (.ok (some t, err), b'))
    (hqueued : (b'.sessions c).channel.iSendList =
      (b.sessions c).channel.iSendList ++ [sub]) :
    b'.packets.cells sub =
        .subscribe { subMsg order submap with messageID := (b.sessions c).nextId } ∧
      sub < b'.packets.next ∧
      Waits c ⟨sub, some t⟩ (b'.idOf sub) t (.subscribe (subMsg order submap).topics ∅) b' := by
  obtain ⟨rfl, rfl⟩ := subcribe_sends h
  have hsession : (((numbered c (subMsg order submap) b).setSession c
      (entered cfg b.now b.packets.next b.tokens.next)).sessions c) =
        entered cfg b.now b.packets.next b.tokens.next (Session.advanceMsgId (b.sessions c)) := by
    rw [setSession_self]
    exact congrArg _ (setSession_self c _ b)
  obtain rfl : sub = b.packets.next := by
    have hlist := congrArg (fun s => s.channel.iSendList) hsession
    have hlast := List.append_cancel_left (hqueued.symm.trans hlist)
    exact List.singleton_inj.mp hlast
  have hcell := Heap.alloc_self (ControlPacket.subscribe
    { subMsg order submap with messageID := (b.sessions c).nextId }) b.packets
  refine ⟨hcell, Nat.lt_succ_self _, ?_, rfl, rfl, ?_, ?_⟩
  · show _ ∈ Session.flight (((numbered c (subMsg order submap) b).setSession c _).sessions c)
    rw [hsession]
    exact List.mem_map_of_mem (List.mem_append_right _ (List.mem_singleton_self _))
  · intro hpublish
    have hsubscribe : PacketType.subscribe = PacketType.publish :=
      (congrArg ControlPacket.kind hcell).symm.trans hpublish
    exact absurd hsubscribe (by decide)
  · exact congrArg Token.kind (Heap.alloc_self
      { kind := .subscribe (subMsg order submap).topics ∅ } b.tokens)

end

/-- Other flows go on between `P` and `P'`: any steps but acknowledgements of `id` to `c`. -/
def OtherFlows (cfg : Config) (S : StoreMgr σ) (c : SessionRef) (id : UInt16)
    (P P' : Process σ) : Prop :=
  ∃ as, (Process.system cfg S).exec as P = some P' ∧
    (Process.system cfg S).Along (fun P a => ¬ a.answers P.broker c id) as P

/-- `Subcribe` is called on session `c` of a running process, and its packet is written. In
the end the ids in flight are distinct. -/
structure Asks (cfg : Config) (S : StoreMgr σ) (c : SessionRef)
    (order : RangeOrder GoString UInt8) (submap : GoMap GoString UInt8) (t : TokenRef)
    (sub : PacketRef) (before called written answered : Process σ) : Prop where
  reachable : (Process.system cfg S).Reachable before
  call : ∃ err, subcribe cfg c order submap before.broker = (.ok (some t, err), called.broker)
  goroutines : called.goroutines = before.goroutines
  queued : Queued c sub before called
  writes : OtherFlows cfg S c (called.broker.idOf sub) called written
  waits : OtherFlows cfg S c (called.broker.idOf sub) written answered
  distinct : ((answered.broker.sessions c).inflightingList.map fun imsg =>
    answered.broker.idOf imsg.pt.p).Nodup

section

variable {cfg : Config} {S : StoreMgr σ} {c : SessionRef} {order : RangeOrder GoString UInt8}
  {submap : GoMap GoString UInt8} {t : TokenRef} {sub : PacketRef} {id : UInt16}
  {before called written answered P P' : Process σ}

theorem OtherFlows.waits {pt : PacketAndToken} {kind : TokenKind}
    (h : OtherFlows cfg S c id P P')
    (hwaits : P.Consistent ∧ Waits c pt id t kind P.broker) :
    P'.Consistent ∧ Waits c pt id t kind P'.broker := by
  obtain ⟨as, hexec, halong⟩ := h
  exact Process.exec_waits hwaits.1 hwaits.2 halong hexec

theorem OtherFlows.sameMessages (h : OtherFlows cfg S c id P P') :
    SameMessages P.broker P'.broker := by
  obtain ⟨as, hexec, -⟩ := h
  exact Process.exec_sameMessages hexec

namespace Asks

theorem consistent (h : Asks cfg S c order submap t sub before called written answered) :
    called.Consistent := by
  obtain ⟨err, hcall⟩ := h.call
  have hstep := step_subcribe order submap (S := S) hcall
  rw [← h.goroutines] at hstep
  exact Process.step_consistent (Process.reach_consistent h.reachable) hstep

/-- The entry waits from the call on. -/
theorem entry_waits (h : Asks cfg S c order submap t sub before called written answered) :
    Waits c ⟨sub, some t⟩ (called.broker.idOf sub) t
      (.subscribe (subMsg order submap).topics ∅) called.broker := by
  obtain ⟨err, hcall⟩ := h.call
  exact (subcribe_waits hcall h.queued).2.2

/-- What is written is the SUBSCRIBE, with its id. -/
theorem packet (h : Asks cfg S c order submap t sub before called written answered) :
    written.broker.packets.cells sub =
      .subscribe { subMsg order submap with messageID := called.broker.idOf sub } := by
  obtain ⟨err, hcall⟩ := h.call
  obtain ⟨hcell, hlt, -⟩ := subcribe_waits hcall h.queued
  have hid := (h.writes.waits ⟨h.consistent, h.entry_waits⟩).2.id_eq
  have hmessage := h.writes.sameMessages.message sub hlt
  rw [hcell] at hmessage
  exact ControlPacket.eq_of_message_subscribe hmessage hid

end Asks

end

end Client

/-! ## The broker answers -/

/-- The receive loop of the session is not inside a handler, and the session is not closing. -/
structure Receives (s : SessionRef) (P : Process σ) : Prop where
  running : (P.broker.sessions s).clostep = .running
  free : ∀ g ∈ P.goroutines, g.owner ≠ some s

theorem Process.step_reads {cfg : Config} {S : StoreMgr σ} {s : SessionRef} {p : Inbound}
    {order : SubscriberOrder} {P : Process σ} {works : List Work} {b' : Broker σ}
    (hreceives : Receives s P)
    (hrun : recvStart cfg S order s p.1 P.broker = (.ok works, b')) :
    (system cfg S).step (.recvPacket s p order) P = some
      { broker := b', goroutines := P.goroutines ++ [{ owner := some s, work := works }] } := by
  show (if ∃ g ∈ P.goroutines, g.owner = some s then none
    else P.launch (some s) (recvStart cfg S order s p.1)) = _
  rw [if_neg fun ⟨g, hg, howner⟩ => hreceives.free g hg howner, launch, hrun]

/-- The SUBACK of a SUBSCRIBE. -/
def subackFor (m : SubscribePacket) : SubackPacket :=
  { newSuback with messageID := m.messageID, returnCodes := m.qoss }

/-- With one QoS for each filter, the handler files the filters and queues the SUBACK. -/
theorem Session.onSubscribe_files {s : SessionRef} {m : SubscribePacket} {b : Broker σ}
    {tree : TreeSubsMgr SessionRef}
    (htree : TreeSubsMgr.addAll s m.topics m.qoss b.subscriptionMgr = .ok tree)
    (hrunning : (b.sessions s).channel.isStoped = false) : ∃ b',
      onSubscribe s m b = (.ok {}, b') ∧ b'.subscriptionMgr = tree ∧
      (b'.sessions s).channel.iSendList = (b.sessions s).channel.iSendList ++ [b.packets.next] ∧
      b'.packets = (b.packets.alloc (.suback (subackFor m))).2 := by
  let b₁ : Broker σ :=
    { b with
      subscriptionMgr := tree
      spawned := b.spawned ++ [.procRetainMessages s]
      packets := (b.packets.alloc (.suback (subackFor m))).2 }
  have hsend := Channel.send_running b.packets.next (b := b₁) hrunning
  refine ⟨{ b₁.setSession s (queueSend b.packets.next) with
    trace := b₁.trace ++ [.send s (b₁.packets.cells b.packets.next)] }, ?_, rfl, ?_, rfl⟩
  · rw [onSubscribe, bind_run_ok (get_run b), htree]
    exact bind_run_ok hsend
  · exact congrArg (fun x => x.channel.iSendList) (setSession_self s _ b₁)

/-- The step that handles a SUBSCRIBE. -/
theorem Process.step_subscribe (cfg : Config) (S : StoreMgr σ) {s : SessionRef} {q : Inbound}
    {m : SubscribePacket} {P : Process σ} (order : SubscriberOrder) (hq : q.1 = .subscribe m)
    (hlength : m.topics.length = m.qoss.length) (hreceives : Receives s P)
    (hrunning : (P.broker.sessions s).channel.isStoped = false) : ∃ P' suback,
      (system cfg S).step (.recvPacket s q order) P = some P' ∧ Queued s suback P P' ∧
      TreeSubsMgr.addAll s m.topics m.qoss P.broker.subscriptionMgr =
        .ok P'.broker.subscriptionMgr ∧
      suback < P'.broker.packets.next ∧
      P'.broker.packets.cells suback = .suback (subackFor m) := by
  have hrun := recvStart_run cfg S order (.subscribe m) hreceives.running
  obtain ⟨tree, htree⟩ :=
    TreeSubsMgr.addAll_isOk s m.topics m.qoss P.broker.subscriptionMgr hlength.le
  let timeout := (P.broker.sessions s).deadline cfg P.broker.now
  let b₁ := P.broker.reads s (.subscribe m) timeout
  have hsession : b₁.sessions s = { P.broker.sessions s with timeout := timeout } :=
    reads_self (.subscribe m) timeout
  obtain ⟨b', hhandled, hfiled, hlist, hpackets⟩ :=
    Session.onSubscribe_files (m := m) (b := b₁) htree (by rw [hsession]; exact hrunning)
  have hend : recvStart cfg S order s q.1 P.broker = (.ok [], b') := by
    rw [hq, hrun]
    exact bind_run_ok hhandled
  refine ⟨{ broker := b', goroutines := P.goroutines ++ [{ owner := some s, work := [] }] },
    b₁.packets.next, ?_, ?_, ?_, ?_, ?_⟩
  · exact step_reads hreceives hend
  · rw [Queued, hlist, hsession]
  · rw [hfiled]
    exact htree
  · show b₁.packets.next < b'.packets.next
    rw [hpackets]
    exact Nat.lt_succ_self _
  · show b'.packets.cells b₁.packets.next = _
    rw [hpackets, Heap.alloc_self]

/-! ## The client reads the answer -/

namespace Session

theorem subResults_eq (l : List (Σ _ : GoString, UInt8)) : ∀ m : GoMap GoString UInt8,
    subResults (l.map Sigma.fst) (l.map Sigma.snd) m =
      .ok (l.foldl (fun m e => m.insert e.1 e.2) m) := by
  induction l with
  | nil =>
    intro m
    rw [List.map_nil, List.map_nil, subResults, List.foldl_nil]
  | cons e l ih =>
    intro m
    rw [List.map_cons, List.map_cons, subResults, ih, List.foldl_cons]

variable {this : SessionRef} {t : TokenRef} {m : SubackPacket} {subs : List GoString}
  {subResult results : GoMap GoString UInt8} {b : Broker σ}

theorem subackResults_run (hkind : (b.tokens.cells t).kind = .subscribe subs subResult)
    (hresults : subResults subs m.returnCodes subResult = .ok results) :
    subackResults (.suback m) t b = (.ok (), { b with
      tokens := b.tokens.modify t fun tok => { tok with kind := .subscribe subs results } }) := by
  rw [subackResults, bind_run_ok (token_run t b), hkind]
  simp only [hresults]
  rfl

theorem flowComplete_run (hopen : (b.tokens.cells t).complete = false) :
    flowComplete t b = (.ok (), { b with
      tokens := b.tokens.modify t fun tok => { tok with complete := true } }) := by
  rw [flowComplete, bind_run_ok (token_run t b), hopen, if_neg Bool.false_ne_true]
  rfl

/-- The entry with the id leaves, and its token is complete with the results. -/
theorem finishFlow_completes {imsg : InflightingMsg}
    (htype : (ControlPacket.suback m).type = PacketType.suback)
    (hfind : (b.sessions this).inflightingList.find? (hasId b m.messageID) = some imsg)
    (htoken : imsg.pt.t = some t) (hlt : t < b.tokens.next)
    (hkind : (b.tokens.cells t).kind = .subscribe subs subResult)
    (hopen : (b.tokens.cells t).complete = false)
    (hresults : subResults subs m.returnCodes subResult = .ok results) : ∃ b',
      finishFlow this (.suback m) b = (.ok (), b') ∧
      Completed t (.subscribe subs results) b' := by
  have hremove := removeInflightMsg_run this m.messageID b
  rw [hfind] at hremove
  let b₁ := withoutInflight this m.messageID b
  have hwrite := subackResults_run (b := b₁) hkind hresults
  let knows : Token → Token := fun tok => { tok with kind := .subscribe subs results }
  let b₂ : Broker σ := { b₁ with tokens := b.tokens.modify t knows }
  have hself : b₂.tokens.cells t = knows (b.tokens.cells t) := Heap.modify_self t knows b.tokens
  have hclose := flowComplete_run (t := t) (b := b₂) (by rw [hself]; exact hopen)
  refine ⟨{ b₂ with tokens := b₂.tokens.modify t fun tok => { tok with complete := true } }, ?_,
    hlt, ?_, ?_⟩
  · rw [finishFlow]
    show (removeInflightMsg this m.messageID >>= _ : GoM σ Unit) b = _
    rw [bind_run_ok hremove]
    simp only [htoken]
    rw [if_pos htype]
    exact (bind_run_ok hwrite).trans hclose
  · show ((b₂.tokens.modify t fun tok => { tok with complete := true }).cells t).kind = _
    rw [Heap.modify_self, hself]
  · show ((b₂.tokens.modify t fun tok => { tok with complete := true }).cells t).complete = _
    rw [Heap.modify_self]

/-- The rest of the handler leaves a complete token alone. -/
theorem onAck_completes (cfg : Config) {imsg : InflightingMsg}
    (htype : (ControlPacket.suback m).type = PacketType.suback)
    (hfind : (b.sessions this).inflightingList.find? (hasId b m.messageID) = some imsg)
    (htoken : imsg.pt.t = some t) (hlt : t < b.tokens.next)
    (hkind : (b.tokens.cells t).kind = .subscribe subs subResult)
    (hopen : (b.tokens.cells t).complete = false)
    (hresults : subResults subs m.returnCodes subResult = .ok results) : ∃ b',
      onAck cfg this (.suback m) b = (.ok {}, b') ∧ Completed t (.subscribe subs results) b' := by
  obtain ⟨b₁, hfinish, hcompleted⟩ :=
    finishFlow_completes htype hfind htoken hlt hkind hopen hresults
  have hdone : finishesFlow (.suback m) = true := by
    rw [finishesFlow, htype, if_neg (by decide)]
    decide
  have hrefill := Stays.refill (σ := σ) cfg this b₁
  obtain ⟨u, b₂, hrun⟩ := (refill_returns (σ := σ) cfg this).ok b₁
  rw [hrun] at hrefill
  refine ⟨b₂, ?_, hcompleted.stays hrefill⟩
  rw [onAck, onInflightDone, if_pos hdone]
  exact bind_run_ok ((bind_run_ok hfinish).trans hrun)

end Session

/-- The step that reads the SUBACK of the entry that waits. -/
theorem Process.step_suback (cfg : Config) (S : StoreMgr σ) {c : SessionRef} {p : Inbound}
    {m : SubackPacket} {P : Process σ} {pt : PacketAndToken} {t : TokenRef}
    {subs : List GoString} {subResult results : GoMap GoString UInt8} (order : SubscriberOrder)
    (hp : p.1 = .suback m) (hP : P.Consistent)
    (hwaits : Waits c pt m.messageID t (.subscribe subs subResult) P.broker)
    (hdistinct : ((P.broker.sessions c).inflightingList.map fun imsg =>
      P.broker.idOf imsg.pt.p).Nodup) (hreceives : Receives c P)
    (hresults : Session.subResults subs m.returnCodes subResult = .ok results) : ∃ P',
      (system cfg S).step (.recvPacket c p order) P = some P' ∧
      Completed t (.subscribe subs results) P'.broker := by
  have hrun := recvStart_run cfg S order (.suback m) hreceives.running
  let timeout := (P.broker.sessions c).deadline cfg P.broker.now
  let b₁ := P.broker.reads c (.suback m) timeout
  have hlist : (b₁.sessions c).inflightingList = (P.broker.sessions c).inflightingList := by
    show ((P.broker.reads c _ timeout).sessions c).inflightingList = _
    rw [reads_self]
  obtain ⟨imsg, himsg, rfl⟩ := List.mem_map.mp hwaits.flight
  have hentry : ∀ imsg ∈ (P.broker.sessions c).inflightingList,
      imsg.pt ∈ P.broker.entries c := fun imsg himsg =>
    List.mem_append_left _ (List.mem_map_of_mem himsg)
  -- the packet that is read is a new one
  have hids : ∀ imsg ∈ (P.broker.sessions c).inflightingList,
      b₁.idOf imsg.pt.p = P.broker.idOf imsg.pt.p := fun imsg himsg =>
    congrArg ControlPacket.messageID
      (Heap.alloc_of_lt _ (hP.sound.inRange.entries c imsg.pt (hentry imsg himsg)))
  have hfind : (b₁.sessions c).inflightingList.find? (Session.hasId b₁ m.messageID) =
      some imsg := by
    rw [hlist, ← hwaits.id_eq, ← hids imsg himsg]
    refine find?_hasId ?_ himsg
    rw [List.map_congr_left hids]
    exact hdistinct
  have hlive := hP.sound.live c imsg.pt (List.mem_append_right _ (hentry imsg himsg)) t
    hwaits.token
  have htype : (ControlPacket.suback m).type = PacketType.suback := by
    have htyped := p.2.typed
    rw [hp] at htyped
    exact htyped
  obtain ⟨b', hhandled, hcompleted⟩ := Session.onAck_completes cfg (b := b₁) htype hfind
    hwaits.token hlive.1 hwaits.kind_eq hlive.2.1 hresults
  have hend : recvStart cfg S order c p.1 P.broker = (.ok [], b') := by
    rw [hp, hrun]
    exact bind_run_ok hhandled
  refine ⟨{ broker := b', goroutines := P.goroutines ++ [{ owner := some c, work := [] }] },
    ?_, hcompleted⟩
  exact step_reads hreceives hend

/-! ## The round trip -/

/-- The client process `before` calls `Subcribe`, its packet is written and the process goes on
to `answered`, while other flows come in between. If the filters fit their length bytes and the
session of the broker takes packets, the broker handles the SUBSCRIBE: the subscriptions of the
session are the previous ones updated with `submap`, and those of other sessions stay. The
SUBACK that it queues may be written at any later time. If the client's session takes packets,
it handles the SUBACK: the token is complete then, stays so in every further run, and its result
is `submap`. -/
theorem subscribe_round_trip {cfg : Config} {S : StoreMgr σ} (cfg' : Config) (S' : StoreMgr σ')
    {c s : SessionRef} {order : RangeOrder GoString UInt8} {submap : GoMap GoString UInt8}
    {t : TokenRef} {sub : PacketRef} {before called written answered : Process σ}
    {serving : Process σ'} {q : Inbound}
    (hasks : Client.Asks cfg S c order submap t sub before called written answered)
    (hshort : ∀ filter ∈ submap, filter.length < 65536)
    (hcarried : Carried (written.broker.packets.cells sub) q.1)
    (hserving : Receives s serving)
    (hrunning : (serving.broker.sessions s).channel.isStoped = false)
    (hanswered : Receives c answered) (subscribers : SubscriberOrder) : ∃ handled suback m,
      (Process.system cfg' S').step (.recvPacket s q subscribers) serving = some handled ∧
      (∀ filter session, handled.broker.subscriptionMgr.filed filter session =
        if session = s then
          (submap.lookup filter).or (serving.broker.subscriptionMgr.filed filter session)
        else serving.broker.subscriptionMgr.filed filter session) ∧
      Queued s suback serving handled ∧ handled.broker.packets.cells suback = .suback m ∧
      ∀ bs replied, (Process.system cfg' S').exec bs handled = some replied →
        ∀ p : Inbound, Carried (replied.broker.packets.cells suback) p.1 →
          ∀ subscribers', ∃ acked,
            (Process.system cfg S).step (.recvPacket c p subscribers') answered = some acked ∧
            ∀ as after, (Process.system cfg S).exec as acked = some after →
              (after.broker.tokens.cells t).complete = true ∧
              (after.broker.tokens.cells t).result = some submap := by
  have heq := Client.subMsg_eq order submap
  have hlength : (Client.subMsg order submap).topics.length =
      (Client.subMsg order submap).qoss.length := by
    rw [heq, List.length_map, List.length_map]
  have htopics : ∀ topic ∈ (Client.subMsg order submap).topics, topic.length < 65536 := by
    intro topic htopic
    rw [heq] at htopic
    obtain ⟨⟨filter, qos⟩, he, rfl⟩ := List.mem_map.mp htopic
    refine hshort _ (Finmap.mem_iff.mpr ⟨qos, ?_⟩)
    exact (order.mem_toList submap filter qos).mp he
  -- the SUBSCRIBE at the broker
  rw [hasks.packet] at hcarried
  obtain ⟨fh, hq⟩ := hcarried.of_subscribe hlength htopics
  obtain ⟨handled, suback, hstep, hqueued, hfiled, hlt, hcell⟩ :=
    Process.step_subscribe cfg' S' subscribers hq hlength hserving hrunning
  refine ⟨handled, suback, _, hstep, ?_, hqueued, hcell, fun bs replied hreplied p hp o => ?_⟩
  · rw [heq] at hfiled
    have hupdated := TreeSubsMgr.filed_addAll _ (order.nodup_keys submap) hfiled
    simpa only [order.dlookup_toList] using hupdated
  · -- the SUBACK at the client
    have hmessage := (Process.exec_sameMessages hreplied).message suback hlt
    rw [hcell] at hmessage
    rw [ControlPacket.eq_of_message_suback hmessage] at hp
    obtain ⟨fh', hp'⟩ := hp.of_suback
    obtain ⟨hconsistent, hwaits⟩ :=
      hasks.waits.waits (hasks.writes.waits ⟨hasks.consistent, hasks.entry_waits⟩)
    have hresults : Session.subResults (Client.subMsg order submap).topics
        (Client.subMsg order submap).qoss ∅ = .ok submap := by
      rw [heq, Session.subResults_eq, order.foldl_insert_toList]
    obtain ⟨acked, hack, hcompleted⟩ := Process.step_suback cfg S o hp' hconsistent hwaits
      hasks.distinct hanswered hresults
    refine ⟨acked, hack, fun as after hafter => ?_⟩
    obtain ⟨-, hkind, hcomplete⟩ := Process.exec_completed
      (Process.step_consistent hconsistent hack) hcompleted hafter
    refine ⟨hcomplete, ?_⟩
    rw [Token.result, hkind]

/-! A client that is connected subscribes to two filters and publishes a message meanwhile. -/

namespace Client

/-- The filter `a` with QoS 1, and `b` with QoS 2. -/
def twoFilters : GoMap GoString UInt8 := (Finmap.singleton (str "a") 1).insert (str "b") 2

/-- An order in which `b` comes first. -/
noncomputable def bFirst : RangeOrder GoString UInt8 where
  toList m := if m = twoFilters then [⟨str "b", 2⟩, ⟨str "a", 1⟩] else m.entries.toList
  perm m := by
    split
    · next hm =>
      rw [hm]
      rfl
    · exact m.entries.coe_toList

/-- The packet that `Subcribe` builds of it. -/
def twoSub : Outbound :=
  ⟨.subscribe { newSubscribe with topics := [str "b", str "a"], qoss := [2, 1] }, rfl⟩

theorem subMsg_twoFilters : .subscribe (subMsg bFirst twoFilters) = twoSub.1 := by
  have hlist : bFirst.toList twoFilters = [⟨str "b", 2⟩, ⟨str "a", 1⟩] := by simp [bFirst]
  rw [subMsg_eq, hlist]
  rfl

/-- The CONNECT of the client and the CONNACK that comes back. -/
def handshake : List Action :=
  [.send 0 (outboundConnect (str "c")), .sendRound 0 true,
    .recvPacket 0 (inboundConnack 0) RangeOrder.ascending, .advance 0]

/-- A message is published with QoS 1. -/
def publishes : List Action :=
  [.clientPublish 0 (str "x") (str "m") 1 false, .advance 0, .advance 0]

/-- A round of the send loop writes the SUBSCRIBE. -/
def writes : List Action := [.sendRound 0 true, .elapse 1]

/-- What is to be checked of the whole run. -/
theorem twoSub_run : ((Process.system {} (MemStore.storeMgr default)).exec handshake
    (Process.start {} MemStore.newStoreMgr fun _ => false)).any (fun before =>
      decide ((before.broker.sessions 0).channel.isStoped = false) &&
      ((Process.system {} (MemStore.storeMgr default)).exec (.send 0 twoSub :: publishes)
        before).any fun written =>
          decide ((written.broker.sessions 0).channel.iSendList.all fun r =>
            (written.broker.packets.cells r).details.qos ≠ 0) &&
          ((Process.system {} (MemStore.storeMgr default)).exec writes written).any fun answered =>
            decide ((answered.broker.sessions 0).clostep = .running ∧
              (∀ g ∈ answered.goroutines, g.owner ≠ some 0) ∧
              ((answered.broker.sessions 0).inflightingList.map fun imsg =>
                answered.broker.idOf imsg.pt.p) = [1, 2])) = true := by
  decide +kernel

/-- No step of the two lists is an acknowledgement. -/
theorem twoSub_asks : ∃ sub t before called written answered,
    Asks {} (MemStore.storeMgr default) 0 bFirst twoFilters t sub before called
      written answered ∧ Receives 0 answered := by
  obtain ⟨before, hbefore, hcheck⟩ := StepSystem.exists_of_any twoSub_run
  obtain ⟨hopen, hrest⟩ := Bool.and_eq_true_iff.mp hcheck
  obtain ⟨written, hwritten, hcheck⟩ := StepSystem.exists_of_any hrest
  obtain ⟨hqos, hrest⟩ := Bool.and_eq_true_iff.mp hcheck
  obtain ⟨answered, hanswered, hcheck⟩ := StepSystem.exists_of_any hrest
  obtain ⟨hrunning, hfree, hids⟩ := of_decide_eq_true hcheck
  obtain ⟨b', hcall, hqueued⟩ :=
    subcribe_run {} bFirst twoFilters (of_decide_eq_true hopen)
  have hstep := step_subcribe bFirst twoFilters (S := MemStore.storeMgr default) hcall
  have houtbound : outbound bFirst twoFilters = twoSub := Subtype.ext subMsg_twoFilters
  rw [houtbound] at hstep
  rw [StepSystem.exec_cons hstep] at hwritten
  refine ⟨_, _, before, { before with broker := b' }, written, answered, ⟨?_, ⟨_, hcall⟩, rfl,
    hqueued, ⟨publishes, hwritten, ?_⟩, ⟨writes, hanswered, ?_, fun _ _ => ?_⟩, ?_⟩, hrunning,
    hfree⟩
  · exact StepSystem.reachable_of_exec (Process.start_initial {} _ _) hbefore
  · refine StepSystem.along_of_forall (fun a ha P => ?_) _
    simp only [publishes, List.mem_cons, List.not_mem_nil, or_false] at ha
    obtain rfl | rfl | rfl := ha
    · exact not_false
    · exact not_false
    · exact not_false
  · rintro ⟨-, -, r, rest, hlist, -, hzero, -⟩
    have hall := of_decide_eq_true hqos
    rw [hlist, List.all_cons] at hall
    exact of_decide_eq_true (Bool.and_eq_true_iff.mp hall).1 hzero
  · exact ⟨not_false, fun _ _ => trivial⟩
  · rw [hids]
    decide

end Client

/-- The broker's session is that of a client that has connected. -/
theorem twoSub_serving : ∃ serving : Process MemStore, Receives 0 serving ∧
    (serving.broker.sessions 0).channel.isStoped = false := by
  have hrun : ((Process.system {} (MemStore.storeMgr default)).exec
      [.recvPacket 0 ⟨_, connectAs_decoded (str "c")⟩ RangeOrder.ascending, .advance 0]
      (Process.start {} MemStore.newStoreMgr fun _ => true)).any (fun P =>
        decide (((P.broker.sessions 0).clostep = .running ∧ ∀ g ∈ P.goroutines, g.owner ≠ some 0) ∧
          (P.broker.sessions 0).channel.isStoped = false)) = true := by
    decide +kernel
  obtain ⟨serving, -, hcheck⟩ := StepSystem.exists_of_any hrun
  obtain ⟨⟨hrunning, hfree⟩, hopen⟩ := of_decide_eq_true hcheck
  exact ⟨serving, ⟨hrunning, hfree⟩, hopen⟩

/-- The call of `Subcribe` sends `b` before `a`, the broker files each with its own QoS, and the
client's token gets the map back. -/
theorem subscribe_round_trip_twoFilters : ∃ sub t before called written answered,
    Client.Asks {} (MemStore.storeMgr default) 0 Client.bFirst Client.twoFilters t sub before
      called written answered ∧
    ∃ (q p : Inbound) (serving handled : Process MemStore) (acked : Process MemStore),
      (Process.system {} (MemStore.storeMgr default)).step
        (.recvPacket 0 q RangeOrder.ascending) serving = some handled ∧
      handled.broker.subscriptionMgr.filed (str "a") 0 = some 1 ∧
      handled.broker.subscriptionMgr.filed (str "b") 0 = some 2 ∧
      (Process.system {} (MemStore.storeMgr default)).step
        (.recvPacket 0 p RangeOrder.ascending) answered = some acked ∧
      (acked.broker.tokens.cells t).complete = true ∧
      (acked.broker.tokens.cells t).result = some Client.twoFilters := by
  obtain ⟨sub, t, before, called, written, answered, hasks, hanswered⟩ := Client.twoSub_asks
  obtain ⟨serving, hserving, hrunning⟩ := twoSub_serving
  -- the SUBSCRIBE as it comes over
  have hsub : Client.subMsg Client.bFirst Client.twoFilters =
      { newSubscribe with topics := [str "b", str "a"], qoss := [2, 1] } :=
    ControlPacket.subscribe.inj Client.subMsg_twoFilters
  have hshort : ∀ topic ∈ [str "b", str "a"], topic.length < 65536 := by decide
  obtain ⟨buf, hbody, -⟩ := SubscribePacket.unpack_body
    (m := { newSubscribe with
      messageID := called.broker.idOf sub, topics := [str "b", str "a"], qoss := [2, 1] }) rfl
    hshort
  let fh : FixedHeader := { newSubscribe.header with remainingLength := buf.length }
  have hcarried : Carried (written.broker.packets.cells sub) (.subscribe (.unpack fh buf)) := by
    rw [hasks.packet, hsub]
    exact .subscribe hbody rfl rfl
  obtain ⟨handled, suback, m, hhandled, hfiled, -, hcell, hacked⟩ :=
    subscribe_round_trip {} (MemStore.storeMgr default) (q := ⟨_, .subscribe fh buf rfl⟩) hasks
      (by decide) hcarried hserving hrunning hanswered RangeOrder.ascending
  -- the SUBACK as it comes back
  let p : Inbound :=
    ⟨.suback (.unpack newSuback.header m.body), .other _ rfl (by rw [ControlPacket.kind]; decide)⟩
  obtain ⟨acked, hack, hdone⟩ := hacked [] handled rfl p (by rw [hcell]; exact .suback rfl)
    RangeOrder.ascending
  obtain ⟨hcomplete, hresult⟩ := hdone [] acked rfl
  refine ⟨sub, t, before, called, written, answered, hasks, ⟨_, .subscribe fh buf rfl⟩, p, serving,
    handled, acked, hhandled, ?_, ?_, hack, hcomplete, hresult⟩
  · rw [hfiled, if_pos rfl]
    rfl
  · rw [hfiled, if_pos rfl]
    rfl

end MqttBroker

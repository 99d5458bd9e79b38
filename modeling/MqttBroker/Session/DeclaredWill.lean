import MqttBroker.Session.RetainedState
import MqttBroker.Session.Routing
import MqttBroker.Session.Timing

/-!
# The will that is published

A CONNECT declares a will, `onConnect` copies it into the session, and another goroutine
publishes it when the connection breaks. What is published is what was declared, over any run
of the process. `willRetain` is not among the fields that are copied, so that the message is
never retained.
-/

namespace MqttBroker

open Broker GoM Exec

variable {σ : Type}

/-! ## What leaves the will alone -/

/-- Between `b` and `b'`, the will of `this` was left alone. -/
def SameWill (this : SessionRef) (b b' : Broker σ) : Prop :=
  (b'.sessions this).will = (b.sessions this).will

namespace SameWill

variable {this : SessionRef}

instance : Std.Refl (SameWill (σ := σ) this) := ⟨fun _ => rfl⟩

instance : IsTrans (Broker σ) (SameWill this) := ⟨fun _ _ _ h h' => Eq.trans h' h⟩

theorem setSession {s : SessionRef} {f : Session → Session} {b : Broker σ}
    (hf : s = this → (f (b.sessions this)).will = (b.sessions this).will) :
    SameWill this b (b.setSession s f) := by
  unfold SameWill
  by_cases hs : this = s
  · rw [← hs, setSession_self]
    exact hf hs.symm
  · rw [setSession_of_ne f b hs]

/-- All functions but `onConnect`. -/
theorem framing (this : SessionRef) : Framing (SameWill (σ := σ) this) where
  rest b b' hsessions _ _ _ := by
    unfold SameWill
    rw [hsessions]
  alloc _ _ := rfl
  packet _ _ _ _ := rfl
  allocToken _ _ := rfl
  token _ _ _ _ _ := rfl
  field _ _ _ _ hsettled _ := setSession fun _ => congrArg Prod.fst (hsettled _)
  ending _ _ _ _ hsettled _ := setSession fun _ => congrArg Prod.fst (hsettled _)

theorem queueing (this s : SessionRef) : Queueing s (SameWill (σ := σ) this) :=
  fun _ hf _ => setSession fun _ => (congrArg Session.will (hf _) :)

theorem acknowledging (this s : SessionRef) : Acknowledging s (SameWill (σ := σ) this) where
  inflight _ hf := setSession fun _ => (congrArg Session.will (hf _) :)
  results _ _ _ _ := rfl

end SameWill

/-- Only a CONNECT on its own connection sets the will of a session. -/
theorem Process.step_sameWill {cfg : Config} {S : StoreMgr σ} {this : SessionRef}
    {P P' : Process σ} {a : Action} (ha : ∀ m, ¬ a.connects this m)
    (h : (system cfg S).step a P = some P') : SameWill this P.broker P'.broker := by
  refine step_respects (SameWill.framing this) (SameWill.queueing this) (fun s _ f b hf => ?_)
    (fun s m hs b => ?_) (fun s _ => SameWill.acknowledging this s) (fun _ _ _ => rfl) h
  · exact .setSession fun _ => congrArg Prod.fst (hf _)
  · apply SameWill.setSession
    intro heq
    exact absurd (heq ▸ hs) (ha m)

/-! ## What a CONNECT sets -/

namespace Session

variable {cfg : Config} {S : StoreMgr σ} {this : SessionRef} {b : Broker σ}

theorem setWill_will (m : ConnectPacket) (s : Session) :
    (setWill m s).will = if m.willFlag then
      (true, s.willRetain, m.willTopic, m.willQos, m.willMessage) else s.will := by
  unfold setWill
  split
  · rfl
  · rfl

theorem setWill_congr {s s' : Session} (m : ConnectPacket) (h : s'.will = s.will) :
    (setWill m s').will = (setWill m s).will := by
  have hretain : s'.willRetain = s.willRetain := congrArg (fun w => w.2.1) h
  rw [setWill_will, setWill_will, h, hretain]

/-- The session is connected, with the will that `m` makes of the one that it had in `b`. -/
def Accepted (this : SessionRef) (m : ConnectPacket) (b b' : Broker σ) : Prop :=
  (b'.sessions this).connected = 1 ∧
    (b'.sessions this).will = (setWill m (b.sessions this)).will

/-- The end of `onConnect`. -/
theorem accept_will (cfg : Config) (m : ConnectPacket) (err : Option GoError) (b : Broker σ) :
    Accepted this m b ((do
        modifySession this fun s => { s with connected := 1 }
        modifySession this (setWill m)
        modifySession this fun s => { s with keepalive := keepAlivePeriod m.keepalive }
        resetTimeout cfg this
        pure ({ err } : Handled) : GoM σ Handled) b).2 := by
  let accept : Session → Session := fun s =>
    { setWill m { s with connected := 1 } with keepalive := keepAlivePeriod m.keepalive }
  have haccept : (accept (b.sessions this)).connected = 1 :=
    congrArg (fun i => i.2.1) (setWill_timing m { b.sessions this with connected := 1 }).1
  have hsame : ({ b.sessions this with connected := 1 } : Session).will = (b.sessions this).will :=
    rfl
  have hdeclared : (accept (b.sessions this)).will = (setWill m (b.sessions this)).will :=
    setWill_congr m hsame
  rw [bind_run_ok (modifySession_run _ _ _), bind_run_ok (modifySession_run _ _ _),
    bind_run_ok (modifySession_run _ _ _), setSession_setSession, setSession_setSession,
    bind_pure_snd, resetTimeout_run]
  constructor
  · rw [setSession_self]
    show ((b.setSession this accept).sessions this).connected = 1
    rw [setSession_self, haccept]
  · rw [setSession_self]
    show ((b.setSession this accept).sessions this).will = _
    rw [setSession_self, hdeclared]

/-- A CONNECT is accepted, or it changes nothing. -/
theorem onConnect_will (m : ConnectPacket) (b : Broker σ) :
    (onConnect cfg this m b).2 = b ∨
      ¬ (b.sessions this).isConnected ∧ Accepted this m b (onConnect cfg this m b).2 := by
  by_cases hrefused : (b.sessions this).isConnected ∨ m.reservedBit &&& 0x1 = 0x1
  · exact .inl (onConnect_refused hrefused)
  obtain ⟨hconnected, hbit⟩ := not_or.mp hrefused
  refine .inr ⟨hconnected, ?_⟩
  rw [onConnect, bind_run_ok (session_run this b), if_neg hconnected, if_neg hbit]
  have hR := SameWill.framing (σ := σ) this
  refine Respects.bind_returns (Q := Accepted this m b)
    (modifySession_respects hR fun _ => rfl) ⟨_, rfl⟩ fun _ b₁ h₁ => ?_
  refine Respects.bind_returns (Q := Accepted this m b) (mgrEvent_respects hR _) ⟨_, rfl⟩
    fun _ b₂ h₂ => ?_
  refine Respects.bind_returns (Q := Accepted this m b) (mgrEvent_respects hR _) ⟨_, rfl⟩
    fun _ b₃ h₃ => ?_
  obtain ⟨b₄, hsend, -⟩ := Channel.sendNew_sends this (.connack newConnack) b₃
  refine Respects.bind_returns (Q := Accepted this m b) (Channel.sendNew_respects hR this _)
    ⟨_, congrArg Prod.fst hsend⟩ fun err b₄ h₄ => ?_
  have hsame : SameWill this b b₄ :=
    trans_of (SameWill this) (trans_of (SameWill this) (trans_of (SameWill this) h₁ h₂) h₃) h₄
  have haccept : Accepted this m b₄ _ := accept_will cfg m err b₄
  exact ⟨haccept.1, haccept.2.trans (setWill_congr m hsame)⟩

end Session

/-- A CONNECT that is read is accepted, or the session is as connected as it was, with the
will that it had. -/
theorem recvStart_will (cfg : Config) (S : StoreMgr σ) (this : SessionRef)
    (order : SubscriberOrder) (m : ConnectPacket) (b : Broker σ) :
    let b' := (recvStart cfg S order this (.connect m) b).2
    (b'.sessions this).connected = (b.sessions this).connected ∧ SameWill this b b' ∨
      ¬ (b.sessions this).isConnected ∧ Session.Accepted this m b b' := by
  intro b'
  by_cases hrunning : (b.sessions this).clostep = .running
  · let b₁ := b.reads this (.connect m) ((b.sessions this).deadline cfg b.now)
    have hsession : (b₁.sessions this).will = (b.sessions this).will ∧
        (b₁.sessions this).connected = (b.sessions this).connected := by
      show ((b.reads this _ _).sessions this).will = _ ∧
        ((b.reads this _ _).sessions this).connected = _
      rw [reads_self]
      exact ⟨rfl, rfl⟩
    obtain ⟨hwill, hconnected⟩ := hsession
    -- a CONNECT forwards nothing
    have hend : b' = (Session.onConnect cfg this m b₁).2 := by
      show (recvStart cfg S order this (.connect m) b).2 = _
      rw [recvStart_run cfg S order (.connect m) hrunning]
      have hpublish : PacketType.connect ≠ PacketType.publish := by decide
      have hpubrel : PacketType.connect ≠ PacketType.pubrel := by decide
      have hnone : Yields (fun handled : Handled => handled.forwarded = none)
          (Session.procFrontRemoteMsg cfg S this b.packets.next (.connect m)) :=
        Session.procFrontRemoteMsg_forwards_none cfg S hpublish hpubrel
      cases hrun : Session.procFrontRemoteMsg cfg S this b.packets.next (.connect m) b₁ with
      | mk r b₂ =>
        show _ = (Session.procFrontRemoteMsg cfg S this b.packets.next (.connect m) b₁).2
        cases r with
        | error e => rw [bind_run_error hrun, hrun]
        | ok handled =>
          rw [bind_run_ok hrun, hrun, hnone b₁ handled b₂ hrun]
          rfl
    rw [hend]
    have hconnect : (Session.onConnect cfg this m b₁).2 = b₁ ∨
        ¬ (b₁.sessions this).isConnected ∧
          Session.Accepted this m b₁ (Session.onConnect cfg this m b₁).2 :=
      Session.onConnect_will m b₁
    obtain hsame | ⟨hnew, haccept⟩ := hconnect
    · rw [hsame]
      exact .inl ⟨hconnected, hwill⟩
    · refine .inr ⟨?_, haccept.1, haccept.2.trans (Session.setWill_congr m hwill)⟩
      unfold Session.isConnected
      rw [← hconnected]
      exact hnew
  · have hend : b' = b := congrArg Prod.snd (recvStart_ended order (.connect m) hrunning)
    rw [hend]
    exact .inl ⟨rfl, refl_of (SameWill this) b⟩

/-! ## A process and what was declared -/

/-- A process, and the last CONNECT with a will that was accepted on the connection of one
session. -/
structure Declared (σ : Type) where
  process : Process σ
  declared : Option ConnectPacket

namespace Declared

/-- The CONNECT with a will that the step accepts from the connection of `this`: it makes the
session connected. -/
def accepts (this : SessionRef) (P P' : Process σ) : Action → Option ConnectPacket
  | .recvPacket s ⟨.connect m, _⟩ _ =>
    if s = this ∧ m.willFlag ∧ ¬ (P.broker.sessions this).isConnected ∧
        (P'.broker.sessions this).isConnected then some m else none
  | _ => none

variable (cfg : Config) (S : StoreMgr σ) (this : SessionRef)

/-- What is known after a step. -/
def next (a : Action) (D : Declared σ) (P' : Process σ) : Declared σ where
  process := P'
  declared := (accepts this D.process P' a).or D.declared

/-- The runs of a process with a session `this`. -/
def system : StepSystem (Declared σ) Action where
  init D := Process.Initial cfg D.process ∧ D.declared = none
  step a D := ((Process.system cfg S).step a D.process).map (D.next this a)

/-- The fields of a session for a will that was declared; `willRetain` is never set. -/
def fields : Option ConnectPacket → Bool × Bool × GoString × UInt8 × GoString
  | none => (false, false, [], 0, [])
  | some m => (true, false, m.willTopic, m.willQos, m.willMessage)

theorem fields_willRetain (declared : Option ConnectPacket) : (fields declared).2.1 = false := by
  cases declared with
  | none => rfl
  | some _ => rfl

/-- The session has the will that was declared. -/
def Kept (D : Declared σ) : Prop := (D.process.broker.sessions this).will = fields D.declared

variable {cfg S this} {D D' : Declared σ} {a : Action}

theorem kept_of_init (h : (system cfg S this).init D) : D.Kept this := by
  obtain ⟨now, conn, isServer, clientId, hs⟩ := h.1.sessions this
  unfold Kept
  rw [hs, h.2]
  rfl

theorem Kept.step (h : D.Kept this) (hstep : (system cfg S this).step a D = some D') :
    D'.Kept this := by
  obtain ⟨P', hP', rfl⟩ := Option.map_eq_some_iff.mp hstep
  unfold Kept at h ⊢
  by_cases ha : ∃ m, a.connects this m
  · obtain ⟨m, hm⟩ := ha
    cases a with
    | recvPacket s p order =>
      obtain ⟨p, hdecoded⟩ := p
      obtain ⟨rfl, rfl⟩ : s = this ∧ p = .connect m := hm
      have hbroker := Process.launch_respects (R := fun b b' =>
        b' = (recvStart cfg S order s (.connect m) b).2) (fun _ => rfl)
        (Process.of_not_waiting hP')
      have hread := recvStart_will cfg S s order m D.process.broker
      rw [← hbroker] at hread
      show (P'.broker.sessions s).will = fields ((if _ then some m else none).or D.declared)
      obtain ⟨hsame, hwill⟩ | ⟨hnew, hone, hwill⟩ := hread
      · rw [if_neg, Option.none_or, ← h]
        · exact hwill
        · intro haccepts
          have hconnected := haccepts.2.2.2
          unfold Session.isConnected at hconnected
          rw [hsame] at hconnected
          exact haccepts.2.2.1 hconnected
      · have hconnected : (P'.broker.sessions s).isConnected := by
          unfold Session.isConnected
          rw [hone]
          decide
        rw [hwill, Session.setWill_will]
        by_cases hflag : m.willFlag = true
        · have hretain : (D.process.broker.sessions s).willRetain = (fields D.declared).2.1 :=
            congrArg (fun w => w.2.1) h
          rw [if_pos hflag, if_pos ⟨rfl, hflag, hnew, hconnected⟩, hretain, fields_willRetain]
          rfl
        · rw [if_neg hflag, if_neg fun haccepts => hflag haccepts.2.1]
          exact h
    | _ => exact hm.elim
  · have hsame := Process.step_sameWill (fun m hm => ha ⟨m, hm⟩) hP'
    have hnone : accepts this D.process P' a = none := by
      cases a with
      | recvPacket s p order =>
        obtain ⟨p, hdecoded⟩ := p
        cases p with
        | connect m => exact if_neg fun haccepts => ha ⟨m, haccepts.1, rfl⟩
        | _ => rfl
      | _ => rfl
    show (P'.broker.sessions this).will = fields ((accepts this D.process P' a).or D.declared)
    rw [hnone, Option.none_or, ← h]
    exact hsame

theorem kept_of_reachable (h : (system cfg S this).Reachable D) : D.Kept this :=
  h.invariant (fun _ => kept_of_init) fun _ _ _ h _ hstep => h.step hstep

/-! ## Publishing the will -/

/-- The message of the will that `m` declares. -/
def willMsg (m : ConnectPacket) : PublishPacket :=
  { header := { newPublish.header with qos := m.willQos }
    topicName := m.willTopic
    payload := m.willMessage }

/-- Between `b` and `b'`, the store was left alone. -/
def SameStore (b b' : Broker σ) : Prop := b'.storeMgr = b.storeMgr

instance : Std.Refl (SameStore (σ := σ)) := ⟨fun _ => rfl⟩

instance : IsTrans (Broker σ) SameStore := ⟨fun _ _ _ h h' => Eq.trans h' h⟩

theorem publishing_sameStore (msg : PacketRef) : Publishing msg (SameStore (σ := σ)) where
  queue _ _ _ _ := Respects.modify fun _ => rfl
  newPacket _ := Respects.modifyGet fun _ => rfl
  number _ := Respects.modify fun _ => rfl
  allocToken tType := by
    unfold allocToken
    split
    · exact Respects.pure _
    · exact Respects.modifyGet fun _ => rfl
  publish _ _ _ := Respects.modify fun _ => rfl
  send s := by
    refine Respects.bind (Respects.gets _) fun ss => Respects.ite (Respects.pure _) ?_
    refine Respects.bind (Respects.modify fun _ => rfl) fun _ => ?_
    exact Respects.bind (Respects.gets _) fun p => Respects.bind (Respects.modify fun _ => rfl)
      fun _ => Respects.pure _

/-- The call of `sendToSubcriber` for the will that `m` declares: on its topic, with its payload
and its QoS, to all that have subscribed, without a call of the store. -/
structure Publishes (this : SessionRef) (reason : DisconnectReason) (m : ConnectPacket)
    (order : SubscriberOrder) (P P' : Process σ) : Prop where
  trace : P'.broker.trace = P.broker.trace ++ [.sendToSubcriber this (.publish (willMsg m))]
  goroutines : P'.goroutines = P.goroutines ++ [{
    work := [
      .subscribers this P.broker.packets.next
        (order.toList (P.broker.subscriptionMgr.getSessions m.willTopic)),
      .willEnd this reason (some P.broker.packets.next)] }]
  valid : P.broker.packets.next < P'.broker.packets.next
  packet : P'.broker.packets.cells P.broker.packets.next = .publish (willMsg m)
  storeMgr : P'.broker.storeMgr = P.broker.storeMgr

theorem willStart_run {b : Broker σ} {m : ConnectPacket}
    (hfirst : (b.sessions this).hadDisconnectException = .ok)
    (hwill : (b.sessions this).will = fields (some m)) :
    Session.willStart this b = (.ok (some (some b.packets.next)),
      { b with packets := (b.packets.alloc (.publish (willMsg m))).2 }) := by
  have hflag : (b.sessions this).willFlag = true := congrArg (fun w => w.1) hwill
  have htopic : (b.sessions this).willTopic = m.willTopic := congrArg (fun w => w.2.2.1) hwill
  have hqos : (b.sessions this).willQos = m.willQos := congrArg (fun w => w.2.2.2.1) hwill
  have hmessage : (b.sessions this).willMessage = m.willMessage :=
    congrArg (fun w => w.2.2.2.2) hwill
  rw [Session.willStart, bind_run_ok (session_run this b), if_neg (not_not.mpr hfirst),
    if_pos hflag, bind_run_ok (newPacket_run _ b), htopic, hqos, hmessage]
  rfl

/-- `onDisconnectException` publishes what was declared. -/
theorem start_publishes {P P' : Process σ} {m : ConnectPacket} {reason : DisconnectReason}
    {order : SubscriberOrder} {i : ℕ}
    (hi : P.broker.spawned[i]? = some (.onDisconnectException this reason))
    (hfirst : (P.broker.sessions this).hadDisconnectException = .ok)
    (hwill : (P.broker.sessions this).will = fields (some m))
    (h : (Process.system cfg S).step (.start i order) P = some P') :
    Publishes this reason m order P P' := by
  let b : Broker σ := { P.broker with spawned := P.broker.spawned.eraseIdx i }
  let b₁ : Broker σ := { b with packets := (b.packets.alloc (.publish (willMsg m))).2 }
  have hcell : b₁.packets.cells b.packets.next = .publish (willMsg m) :=
    Heap.alloc_self _ _
  have hstart := Session.sendToSubcriberStart_run order this hcell
  have hrun : (Spawned.onDisconnectException this reason).start S order b =
      (.ok [.subscribers this b.packets.next
          (order.toList (b.subscriptionMgr.getSessions m.willTopic)),
        .willEnd this reason (some b.packets.next)],
        { b₁ with
          packets := b₁.packets.modify b.packets.next ControlPacket.clearRetain
          trace := b.trace ++ [.sendToSubcriber this (.publish (willMsg m))] }) := by
    have hbegin : Session.willStart this b = (.ok (some (some b.packets.next)), b₁) :=
      willStart_run hfirst hwill
    rw [Spawned.start, bind_run_ok hbegin]
    exact bind_run_ok hstart
  have hstep : ({ P with broker := b } : Process σ).launch none
      ((Spawned.onDisconnectException this reason).start S order) = some P' := by
    rw [← h]
    show _ = Process.step cfg S (.start i order) P
    rw [Process.step, hi]
  rw [Process.launch, hrun] at hstep
  rw [← Option.some.inj hstep]
  refine ⟨rfl, rfl, Nat.lt_succ_self _, ?_, rfl⟩
  show (b₁.packets.modify b.packets.next ControlPacket.clearRetain).cells b.packets.next = _
  rw [Heap.modify_self, hcell]
  rfl

/-! ## Retaining the will -/

/-- `SaveRetainMsg` is not called for a session without `willRetain`. -/
theorem willEnd_storeMgr {b : Broker σ} (hretain : (b.sessions this).willRetain = false)
    (reason : DisconnectReason) (msg : PacketRef) :
    (Session.willEnd S this reason (some msg) b).2.storeMgr = b.storeMgr := by
  have hnone : Session.retainWill S this msg b = (.ok none, b) := by
    rw [Session.retainWill, bind_run_ok (session_run this b), bind_run_ok (packet_run msg b),
      hretain]
    rfl
  rw [Session.willEnd, bind_run_ok hnone]
  rfl

/-- The last step of `onDisconnectException` is always taken. -/
theorem advance_willEnd (cfg : Config) (S : StoreMgr σ) {P : Process σ} {reason : DisconnectReason}
    {msg : PacketRef} {k : ℕ} {g : Goroutine} {ws : List Work} (hk : P.goroutines[k]? = some g)
    (hwaiting : g.waiting = none) (hwork : g.work = .willEnd this reason (some msg) :: ws)
    (hretain : (P.broker.sessions this).willRetain = false) :
    ∃ P', (Process.system cfg S).step (.advance k) P = some P' ∧
      P'.broker.storeMgr = P.broker.storeMgr := by
  obtain ⟨owner, waiting, work⟩ := g
  obtain rfl : waiting = none := hwaiting
  obtain rfl : work = _ := hwork
  obtain ⟨_, b', hrun⟩ := (Session.willEnd_returns S this reason (some msg)).ok P.broker
  have hround : Work.round cfg S (.willEnd this reason (some msg)) P.broker = (.ok true, b') :=
    bind_run_ok hrun
  have hadvance : Process.advance cfg S ⟨owner, none, .willEnd this reason (some msg) :: ws⟩
      P.broker = some (some ⟨owner, none, ws⟩, b') := by
    simp only [Process.advance, hround]
    rfl
  refine ⟨P.replace k (some ⟨owner, none, ws⟩, b'), ?_, ?_⟩
  · show Process.step cfg S (.advance k) P = _
    rw [Process.step, hk]
    show (Process.advance cfg S _ P.broker).map (P.replace k) = _
    rw [hadvance]
    rfl
  · show b'.storeMgr = P.broker.storeMgr
    rw [← willEnd_storeMgr (S := S) hretain reason msg, hrun]

/-- The store after a will: its message is retained if `WillRetain` is set and it is not empty,
and nothing else has changed. -/
def RetainsWill (m : ConnectPacket) (s s' : MemStore) : Prop :=
  ∀ topic, s'.retainMsgs.lookup topic =
    if (m.willRetain ∧ m.willMessage ≠ []) ∧ topic = m.willTopic then
      some (MemStore.retainedMsg (willMsg m))
    else s.retainMsgs.lookup topic

theorem retainsWill_self_iff (m : ConnectPacket) (s : MemStore) : RetainsWill m s s ↔
    m.willRetain = false ∨ m.willMessage = [] ∨
      s.retainMsgs.lookup m.willTopic = some (MemStore.retainedMsg (willMsg m)) := by
  unfold RetainsWill
  constructor
  · intro h
    have htopic := h m.willTopic
    by_cases hretain : m.willRetain = true ∧ m.willMessage ≠ []
    · rw [if_pos ⟨hretain, rfl⟩] at htopic
      exact .inr (.inr htopic)
    · by_cases hflag : m.willRetain = true
      · exact .inr (.inl (not_not.mp fun hne => hretain ⟨hflag, hne⟩))
      · exact .inl (eq_false_of_ne_true hflag)
  · intro h topic
    by_cases hc : (m.willRetain = true ∧ m.willMessage ≠ []) ∧ topic = m.willTopic
    · rw [if_pos hc, hc.2]
      obtain hfalse | hnil | hheld := h
      · exact absurd hc.1.1 (by simp [hfalse])
      · exact absurd hnil hc.1.2
      · exact hheld
    · rw [if_neg hc]

/-! ## From the declaration to the end -/

/-- A call of `onDisconnectException` that publishes a will: it is started in the state
`before`, and its last step leads from `ending` to `after`. In between all goroutines run. -/
structure WillRun (cfg : Config) (S : StoreMgr σ) (this : SessionRef) (reason : DisconnectReason)
    (order : SubscriberOrder) (before started ending after : Declared σ) : Prop where
  first : (before.process.broker.sessions this).hadDisconnectException = .ok
  start : ∃ i,
    before.process.broker.spawned[i]? = some (.onDisconnectException this reason) ∧
      (system cfg S this).step (.start i order) before = some started
  run : ∃ as, (system cfg S this).exec as started = some ending
  last : ∃ k g ws, ending.process.goroutines[k]? = some g ∧ g.waiting = none ∧
    g.work = .willEnd this reason (some before.process.broker.packets.next) :: ws ∧
      (system cfg S this).step (.advance k) ending = some after

theorem exec_sameMessages {as : List Action} (h : (system cfg S this).exec as D = some D') :
    SameMessages D.process.broker D'.process.broker := by
  refine StepSystem.invariant_of_exec
    (I := fun D' : Declared σ => SameMessages D.process.broker D'.process.broker)
    (fun D₁ a D₂ hkept _ hstep => ?_) (.refl _) (StepSystem.along_true as D) h
  obtain ⟨P', hP', rfl⟩ := Option.map_eq_some_iff.mp hstep
  exact hkept.trans (Process.step_sameMessages hP')

section

variable {rangeOrder : RangeOrder GoString Msg} {order : SubscriberOrder}
  {reason : DisconnectReason} {before started ending after : Declared MemStore}
  {m : ConnectPacket}

/-- The will that is published is the one that was declared: `sendToSubcriber` is called on
its topic with its payload and its QoS, and its packet carries them as long as the call lasts.
Neither the call nor its rounds touch the store, and after it the store is as it is to be if
and only if `WillRetain` is not set, the message is empty, or the topic had it retained. -/
theorem will_as_declared_iff
    (h : (system cfg (MemStore.storeMgr rangeOrder) this).Reachable before)
    (hm : before.declared = some m)
    (hrun : WillRun cfg (MemStore.storeMgr rangeOrder) this reason order before started ending
      after) :
    Publishes this reason m order before.process started.process ∧
      (ending.process.broker.packets.cells before.process.broker.packets.next).message =
        .publish (willMsg m) ∧
      (∀ v, Respects SameStore (Session.sendToSubcriberRound cfg this
        before.process.broker.packets.next v : GoM MemStore Bool)) ∧
      (RetainsWill m ending.process.broker.storeMgr after.process.broker.storeMgr ↔
        m.willRetain = false ∨ m.willMessage = [] ∨
          ending.process.broker.storeMgr.retainMsgs.lookup m.willTopic =
            some (MemStore.retainedMsg (willMsg m))) := by
  obtain ⟨i, hi, hstart⟩ := hrun.start
  obtain ⟨as, has⟩ := hrun.run
  obtain ⟨k, g, ws, hk, hwaiting, hwork, hlast⟩ := hrun.last
  obtain ⟨P₁, hP₁, rfl⟩ := Option.map_eq_some_iff.mp hstart
  obtain ⟨P₂, hP₂, rfl⟩ := Option.map_eq_some_iff.mp hlast
  have hkept : before.Kept this := kept_of_reachable h
  unfold Kept at hkept
  rw [hm] at hkept
  have hpublishes := start_publishes hi hrun.first hkept hP₁
  have hreach : (system cfg (MemStore.storeMgr rangeOrder) this).Reachable ending :=
    StepSystem.reach_of_exec (.step h trivial hstart) (StepSystem.along_true as _) has
  have hretain : (ending.process.broker.sessions this).willRetain = false := by
    have hending : ending.Kept this := kept_of_reachable hreach
    exact (congrArg (fun w => w.2.1) hending).trans (fields_willRetain _)
  have hsame : SameMessages P₁.broker ending.process.broker := exec_sameMessages has
  refine ⟨hpublishes, ?_, fun v => ?_, ?_⟩
  · rw [hsame.message _ hpublishes.valid, hpublishes.packet]
    rfl
  · exact (publishing_sameStore _).sendToSubcriberRound cfg this v
  · obtain ⟨P', hP', hstore⟩ :=
      advance_willEnd cfg (MemStore.storeMgr rangeOrder) hk hwaiting hwork hretain
    obtain rfl : P₂ = P' := Option.some.inj (hP₂.symm.trans hP')
    show RetainsWill m _ P₂.broker.storeMgr ↔ _
    rw [hstore]
    exact retainsWill_self_iff m _

end

/-- No CONNECT has come. -/
def start : Declared MemStore where
  process := Process.start {} MemStore.newStoreMgr fun _ => true
  declared := none

theorem start_init : (system {} (MemStore.storeMgr default) 0).init start :=
  ⟨Process.start_initial {} _ _, rfl⟩

/-- A CONNECT that declares the will "m" on the topic "w" with QoS 1. -/
def connectWithWill (willRetain : Bool) : ConnectPacket :=
  { header := { messageType := PacketType.connect }
    willFlag := true
    willQos := 1
    willRetain
    clientIdentifier := str "a"
    willTopic := str "w"
    willMessage := str "m" }

/-- The CONNECT, and an error of the connection. -/
def broken (willRetain : Bool) : List Action :=
  [.recvPacket 0 ⟨.connect (connectWithWill willRetain),
      .other _ rfl (by rw [ControlPacket.kind]; decide)⟩ RangeOrder.ascending,
    .advance 0, .recvError 0]

theorem broken_before (willRetain : Bool) :
    ((system {} (MemStore.storeMgr default) 0).exec (broken willRetain) start).any (fun D =>
      decide (D.declared = some (connectWithWill willRetain) ∧
        (D.process.broker.sessions 0).hadDisconnectException = .ok ∧
        D.process.broker.spawned[0]? = some (.onDisconnectException 0 .recv) ∧
        D.process.broker.packets.next = 2)) = true := by
  cases willRetain with
  | _ => decide +kernel

/-- Nobody has subscribed to the topic of the will, so that one step ends the loop. -/
theorem broken_ending (willRetain : Bool) :
    ((system {} (MemStore.storeMgr default) 0).exec
      (broken willRetain ++ [.start 0 RangeOrder.ascending, .advance 0]) start).any (fun D =>
        decide (D.process.goroutines[0]? = some { work := [.willEnd 0 .recv (some 2)] } ∧
          (D.process.broker.sessions 0).willRetain = false ∧
          D.process.broker.storeMgr.retainMsgs.lookup (str "w") = none)) = true := by
  cases willRetain with
  | _ => decide +kernel

theorem broken_willRun (willRetain : Bool) : ∃ before started ending after,
    (system {} (MemStore.storeMgr default) 0).Reachable before ∧
      before.declared = some (connectWithWill willRetain) ∧
      WillRun {} (MemStore.storeMgr default) 0 .recv RangeOrder.ascending before started ending
        after ∧
      after.process.broker.storeMgr.retainMsgs.lookup (str "w") = none := by
  obtain ⟨before, hexec, hbefore⟩ := StepSystem.exists_of_any
    (broken_before willRetain)
  obtain ⟨hdeclared, hfirst, hi, hnext⟩ := of_decide_eq_true hbefore
  have hrest := broken_ending willRetain
  rw [StepSystem.exec_append hexec] at hrest
  obtain ⟨ending, hending, hcheck⟩ := StepSystem.exists_of_any hrest
  obtain ⟨hk, hretain, hstore⟩ := of_decide_eq_true hcheck
  rw [← hnext] at hk
  obtain ⟨started, hstart, hrun⟩ := Option.bind_eq_some_iff.mp hending
  obtain ⟨P', hP', hkept⟩ :=
    advance_willEnd {} (MemStore.storeMgr default) hk rfl rfl hretain
  have hlast : (system {} (MemStore.storeMgr default) 0).step (.advance 0) ending =
      some (next 0 (.advance 0) ending P') := congrArg (Option.map _) hP'
  refine ⟨before, started, ending, next 0 (.advance 0) ending P',
    StepSystem.reachable_of_exec start_init hexec, hdeclared, ?_, ?_⟩
  · exact ⟨hfirst, ⟨0, hi, hstart⟩, ⟨_, hrun⟩, ⟨0, _, [], hk, rfl, rfl, hlast⟩⟩
  · show P'.broker.storeMgr.retainMsgs.lookup (str "w") = none
    rw [hkept]
    exact hstore

/-- Without `WillRetain` nothing is retained, as it is to be. -/
theorem will_as_declared_iff_broken : ∃ before ending after : Declared MemStore,
    before.declared = some (connectWithWill false) ∧
      RetainsWill (connectWithWill false) ending.process.broker.storeMgr
        after.process.broker.storeMgr := by
  obtain ⟨before, started, ending, after, hreach, hdeclared, hrun, -⟩ := broken_willRun false
  exact ⟨before, ending, after, hdeclared,
    (will_as_declared_iff hreach hdeclared hrun).2.2.2.mpr (.inl rfl)⟩

/-- With `WillRetain` nothing is retained either. -/
theorem will_not_retained : ∃ before started ending after,
    (system {} (MemStore.storeMgr default) 0).Reachable before ∧
      before.declared = some (connectWithWill true) ∧
      WillRun {} (MemStore.storeMgr default) 0 .recv RangeOrder.ascending before started ending
        after ∧
      ¬ RetainsWill (connectWithWill true) ending.process.broker.storeMgr
        after.process.broker.storeMgr := by
  obtain ⟨before, started, ending, after, hreach, hdeclared, hrun, hafter⟩ :=
    broken_willRun true
  refine ⟨before, started, ending, after, hreach, hdeclared, hrun, fun hretains => ?_⟩
  have htopic := hretains (str "w")
  rw [hafter, if_pos (by decide)] at htopic
  exact absurd htopic (by decide)

end Declared
end MqttBroker

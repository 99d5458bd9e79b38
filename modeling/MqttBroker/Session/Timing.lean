import MqttBroker.Session.Inbound
import MqttBroker.Session.Framing

/-!
# What moves the deadline of a session

The deadline of a session is written by `resetTimeout` alone, which its two loops and
`onConnect` call, and the fields that `resetTimeout` reads are written by `onConnect` and
`onConnack`. Every other run is `Steady`. From this, what one step of the process does to
the deadline of a session.
-/

namespace MqttBroker

open Broker GoM Exec

variable {σ : Type}

/-- Between `b` and `b'`, no time has passed and the deadline of `this` was left alone. -/
structure Steady (this : SessionRef) (b b' : Broker σ) : Prop where
  timing : (b'.sessions this).timing = (b.sessions this).timing
  running : (b'.sessions this).clostep = .running → (b.sessions this).clostep = .running
  now : b'.now = b.now

namespace Steady

variable {this : SessionRef}

/-- Writing outside the sessions. -/
theorem of_sessions {b b' : Broker σ} (h : b'.sessions = b.sessions) (hnow : b'.now = b.now) :
    Steady this b b' := by
  refine ⟨?_, fun hrunning => ?_, hnow⟩
  · rw [h]
  · rwa [h] at hrunning

theorem refl (b : Broker σ) : Steady this b b := of_sessions rfl rfl

theorem trans {b b' b'' : Broker σ} (h : Steady this b b') (h' : Steady this b' b'') :
    Steady this b b'' :=
  ⟨h'.timing.trans h.timing, fun hrunning => h.running (h'.running hrunning), h'.now.trans h.now⟩

instance : Std.Refl (Steady (σ := σ) this) := ⟨refl⟩

instance : IsTrans (Broker σ) (Steady this) := ⟨fun _ _ _ => trans⟩

theorem setSession {s : SessionRef} {f : Session → Session} {b : Broker σ}
    (htiming : s = this → (f (b.sessions this)).timing = (b.sessions this).timing)
    (hrunning : s = this → (f (b.sessions this)).clostep = .running →
      (b.sessions this).clostep = .running) : Steady this b (b.setSession s f) := by
  by_cases hs : s = this
  · subst hs
    refine ⟨?_, ?_, rfl⟩
    · rw [setSession_self]
      exact htiming rfl
    · rw [setSession_self]
      exact hrunning rfl
  · have hsame : (b.setSession s f).sessions this = b.sessions this :=
      setSession_of_ne f b (Ne.symm hs)
    exact ⟨by rw [hsame], by rw [hsame]; exact id, rfl⟩

theorem queued {s : SessionRef} {f : Session → Session} (hf : ∀ x, (f x).bare = x.bare)
    (b : Broker σ) : Steady this b (b.setSession s f) := by
  have htiming := congrArg Session.timing (hf (b.sessions this))
  have hclostep := congrArg Session.clostep (hf (b.sessions this))
  exact setSession (fun _ => htiming) fun _ h => hclostep.symm.trans h

/-- A session of another. -/
theorem other {s : SessionRef} (hs : s ≠ this) (f : Session → Session) (b : Broker σ) :
    Steady this b (b.setSession s f) :=
  setSession (fun h => absurd h hs) fun h => absurd h hs

theorem framing (this : SessionRef) : Framing (Steady (σ := σ) this) where
  rest _ _ hsessions _ hnow _ := of_sessions hsessions hnow
  alloc _ _ := of_sessions rfl rfl
  packet _ _ _ _ := of_sessions rfl rfl
  allocToken _ _ := of_sessions rfl rfl
  token _ _ _ _ _ := of_sessions rfl rfl
  field _ _ _ htiming _ hclostep :=
    setSession (fun _ => htiming _) fun _ h => (hclostep _).symm.trans h
  ending _ _ _ htiming _ hended := setSession (fun _ => htiming _) fun _ h => absurd h (hended _)

theorem queueing (this s : SessionRef) : Queueing s (Steady (σ := σ) this) :=
  fun b hf _ => queued hf b

theorem acknowledging (this s : SessionRef) : Acknowledging s (Steady (σ := σ) this) where
  inflight b hf := queued hf b
  results _ _ _ _ := of_sessions rfl rfl

end Steady

/-- All other steps are steady. -/
theorem Process.step_steady {cfg : Config} {S : StoreMgr σ} {this : SessionRef}
    {P P' : Process σ} {a : Action} (ha : ¬ a.marks this)
    (h : (system cfg S).step a P = some P') : Steady this P.broker P'.broker := by
  refine step_respects (Steady.framing this) (Steady.queueing this) (fun s hs f b _ => ?_)
    (fun s m hs b => ?_) (fun s _ => Steady.acknowledging this s) (fun d hd => ?_) h
  · exact .other (fun (heq : s = this) => ha (heq ▸ hs)) f b
  · exact .other (fun (heq : s = this) => ha (heq ▸ hs.marks)) _ b
  · rw [hd] at ha
    exact absurd trivial ha

/-! ## Reading and writing -/

/-- Between `b` and `b'`, no time has passed and the deadline of `this` was set. -/
structure Marks (this : SessionRef) (t : Bool × ℤ × ℤ × ℤ) (b b' : Broker σ) : Prop where
  timing : (b'.sessions this).timing = t
  running : (b'.sessions this).clostep = .running → (b.sessions this).clostep = .running
  now : b'.now = b.now

/-- How long after a packet the deadline of a server session is. -/
def Session.period (cfg : Config) (s : Session) : ℤ :=
  if s.isConnected then s.keepalive else cfg.connectTimeout

/-- The timing of a server session after a packet. -/
def Session.marked (cfg : Config) (now : ℤ) (s : Session) : Bool × ℤ × ℤ × ℤ :=
  (true, s.connected, s.keepalive, now + s.period cfg)

/-- The deadline that `resetTimeout` sets. -/
def Session.deadline (cfg : Config) (now : ℤ) (s : Session) : ℤ :=
  now + if s.isServer then s.period cfg else s.keepalive

/-- `resetTimeout` writes the deadline alone. -/
theorem Session.resetTimeout_run (cfg : Config) (this : SessionRef) (b : Broker σ) :
    resetTimeout cfg this b = (.ok (), b.setSession this fun s =>
      { s with timeout := (b.sessions this).deadline cfg b.now }) := by
  rw [resetTimeout, bind_run_ok (now_run b), modifySession_run]
  refine congrArg (Prod.mk _) (setSession_congr ?_)
  unfold deadline period
  split
  · split
    · rfl
    · rfl
  · rfl

/-- The state in which `recvRun` comes to the handler of a packet that it has read. -/
def Broker.reads (this : SessionRef) (p : ControlPacket) (timeout : ℤ) (b : Broker σ) : Broker σ :=
  { b.setSession this (fun x => { x with timeout := timeout }) with
    packets := (b.packets.alloc p).2 }

theorem reads_self {this : SessionRef} {b : Broker σ} (p : ControlPacket) (timeout : ℤ) :
    (b.reads this p timeout).sessions this = { b.sessions this with timeout := timeout } :=
  setSession_self this (fun x => { x with timeout := timeout }) b

/-- A packet that a running session reads is handled once the deadline has moved. -/
theorem recvStart_run (cfg : Config) (S : StoreMgr σ) {this : SessionRef} {b : Broker σ}
    (order : SubscriberOrder) (p : ControlPacket)
    (hrunning : (b.sessions this).clostep = .running) :
    recvStart cfg S order this p b =
      (Session.procFrontRemoteMsg cfg S this b.packets.next p >>= fun handled =>
        forwardStart order this handled.forwarded : GoM σ (List Work))
        (b.reads this p ((b.sessions this).deadline cfg b.now)) := by
  have hread : Session.onChannelReaded cfg this b = Session.resetTimeout cfg this b := by
    rw [Session.onChannelReaded, bind_run_ok (session_run this b), if_pos hrunning]
  rw [Session.resetTimeout_run] at hread
  rw [recvStart, bind_run_ok hread, bind_run_ok (session_run _ _), if_neg, bind_run_ok
    (newPacket_run _ _)]
  · rfl
  · rw [setSession_self, not_not]
    exact hrunning

/-- The keep-alive of a CONNECT in nanoseconds, one and a half times as long. -/
def keepAlivePeriod (k : UInt16) : ℤ := k.toNat * 1500000000

section Marks

variable {cfg : Config} {S : StoreMgr σ} {this : SessionRef} {b b' b'' : Broker σ}
  {t t' : Bool × ℤ × ℤ × ℤ}

theorem Steady.marks (h : Steady this b b') : Marks this (b.sessions this).timing b b' :=
  ⟨h.timing, h.running, h.now⟩

theorem Marks.trans (h : Marks this t b b') (h' : Marks this t' b' b'') : Marks this t' b b'' :=
  ⟨h'.timing, fun hr => h.running (h'.running hr), h'.now.trans h.now⟩

theorem Marks.steady (h : Marks this t b b') (h' : Steady this b' b'') : Marks this t b b'' := by
  have hmarks := h.trans h'.marks
  rwa [h.timing] at hmarks

theorem Marks.setSession {f : Session → Session}
    (htiming : (f (b.sessions this)).timing = t)
    (hclostep : (f (b.sessions this)).clostep = (b.sessions this).clostep) :
    Marks this t b (b.setSession this f) := by
  refine ⟨?_, fun hr => ?_, rfl⟩
  · rw [setSession_self]
    exact htiming
  · rw [setSession_self, hclostep] at hr
    exact hr

/-- Something that returns and leaves the deadline alone comes first. -/
theorem Marks.bind {α β : Type} {m : GoM σ α} {f : α → GoM σ β} (hm : Respects (Steady this) m)
    (hok : ∃ a, (m b).1 = .ok a)
    (hf : ∀ a b', Steady this b b' → Marks this t b' (f a b').2) :
    Marks this t b ((m >>= f) b).2 :=
  hm.bind_returns (Q := Marks this t b) hok fun a b' h => h.marks.trans (hf a b' h)

theorem marked_congr {s s' : Session} (h : s'.timing = s.timing) (now : ℤ) :
    s'.marked cfg now = s.marked cfg now := by
  have hconnected : s'.connected = s.connected := congrArg (fun i => i.2.1) h
  have hkeepalive : s'.keepalive = s.keepalive := congrArg (fun i => i.2.2.1) h
  simp only [Session.marked, Session.period, Session.isConnected, hconnected, hkeepalive]

theorem isServer_congr {s s' : Session} (h : s'.timing = s.timing) : s'.isServer = s.isServer :=
  congrArg Prod.fst h

namespace Session

/-- `resetTimeout` on a server session. -/
theorem resetTimeout_marks (hserver : (b.sessions this).isServer = true) :
    Marks this ((b.sessions this).marked cfg b.now) b (resetTimeout cfg this b).2 := by
  let deadline : ℤ := (b.sessions this).deadline cfg b.now
  have htiming : ({ b.sessions this with timeout := deadline } : Session).timing =
      (b.sessions this).marked cfg b.now := by
    show ((b.sessions this).isServer, _, _, b.now + _) = _
    rw [if_pos hserver, hserver]
    rfl
  rw [resetTimeout_run]
  exact Marks.setSession (f := fun s => { s with timeout := deadline }) htiming rfl

/-- A packet that is written moves the deadline. -/
theorem sendRound_marks {msg : PacketRef} {rest : List PacketRef}
    (hserver : (b.sessions this).isServer = true)
    (hrunning : (b.sessions this).clostep = .running)
    (hqueued : (b.sessions this).channel.iSendList = msg :: rest)
    (h : sendRound cfg this true b = (.ok (), b')) :
    Marks this ((b.sessions this).marked cfg b.now) b b' := by
  let pop : Session → Session := fun s =>
    { s with channel := { s.channel with iSendList := rest } }
  let b₁ := b.setSession this pop
  have hpop : Steady this b b₁ := .queued (f := pop) (fun _ => rfl) b
  have hwrited : onChannelWrited cfg this msg b₁ = (.ok (), b') := by
    rw [sendRound, bind_run_ok (session_run this b), hqueued] at h
    exact h
  have hrunning₁ : (b₁.sessions this).clostep = .running := by
    rw [setSession_self]
    exact hrunning
  rw [onChannelWrited, bind_run_ok (session_run this b₁), if_pos hrunning₁,
    bind_run_ok (packet_run _ _)] at hwrited
  -- the entry of a QoS 0 PUBLISH is taken out first
  have hdone : ∃ b₂, Steady this b₁ b₂ ∧ resetTimeout cfg this b₂ = (.ok (), b') := by
    split at hwrited
    · obtain ⟨_, b₂, hdone, hreset⟩ := bind_eq_ok hwrited
      have hsteady :=
        onInflightDone_respects (Steady.framing this) cfg this
          (finishing_of_acknowledging (Steady.framing this) (Steady.acknowledging this this))
          (b₁.packets.cells msg) b₁
      rw [hdone] at hsteady
      exact ⟨b₂, hsteady, hreset⟩
    · exact ⟨b₁, .refl b₁, hwrited⟩
  obtain ⟨b₂, hsteady, hreset⟩ := hdone
  have hbefore := hpop.trans hsteady
  have hmarks : Marks this ((b₂.sessions this).marked cfg b₂.now) b₂ (resetTimeout cfg this b₂).2 :=
    resetTimeout_marks ((isServer_congr hbefore.timing).trans hserver)
  rw [marked_congr hbefore.timing, hbefore.now, hreset] at hmarks
  exact hbefore.marks.trans hmarks

variable (cfg) in
/-- After the end of a session its writes count no more. -/
theorem sendRound_ended (hended : (b.sessions this).clostep ≠ .running) :
    Steady this b (sendRound cfg this true b).2 := by
  rw [sendRound, bind_run_ok (session_run this b)]
  cases (b.sessions this).channel.iSendList with
  | nil => exact .refl b
  | cons msg rest =>
    let pop : Session → Session := fun s =>
      { s with channel := { s.channel with iSendList := rest } }
    have hended₁ : ¬ ((b.setSession this pop).sessions this).clostep = .running := by
      rw [setSession_self]
      exact hended
    show Steady this b (onChannelWrited cfg this msg (b.setSession this pop)).2
    rw [onChannelWrited, bind_run_ok (session_run this _), if_neg hended₁]
    exact .queued (f := pop) (fun _ => rfl) b

theorem setWill_timing (m : ConnectPacket) (s : Session) :
    (setWill m s).timing = s.timing ∧ (setWill m s).clostep = s.clostep := by
  unfold setWill
  split
  · exact ⟨rfl, rfl⟩
  · exact ⟨rfl, rfl⟩

/-- The end of `onConnect`: the session is connected, and its deadline is set. -/
theorem accept_marks (m : ConnectPacket) (err : Option GoError)
    (hserver : (b.sessions this).isServer = true) :
    Marks this (true, 1, keepAlivePeriod m.keepalive, b.now + keepAlivePeriod m.keepalive) b
      ((do
        modifySession this fun s => { s with connected := 1 }
        modifySession this (setWill m)
        modifySession this fun s => { s with keepalive := keepAlivePeriod m.keepalive }
        resetTimeout cfg this
        pure ({ err } : Handled) : GoM σ Handled) b).2 := by
  let accept : Session → Session := fun s =>
    { setWill m { s with connected := 1 } with keepalive := keepAlivePeriod m.keepalive }
  obtain ⟨hwill, hclostep⟩ := setWill_timing m { b.sessions this with connected := 1 }
  have hserver' : (accept (b.sessions this)).isServer = true :=
    (congrArg Prod.fst hwill).trans hserver
  have hconnected : (accept (b.sessions this)).connected = 1 := congrArg (fun i => i.2.1) hwill
  have haccept : Marks this (accept (b.sessions this)).timing b (b.setSession this accept) :=
    .setSession rfl hclostep
  have hself : (b.setSession this accept).sessions this = accept (b.sessions this) :=
    setSession_self ..
  have hmarks : Marks this (((b.setSession this accept).sessions this).marked cfg b.now)
      (b.setSession this accept) (resetTimeout cfg this (b.setSession this accept)).2 :=
    resetTimeout_marks (by rw [hself]; exact hserver')
  rw [hself, marked, period, if_pos (by rw [isConnected, hconnected]; decide), hconnected] at hmarks
  rw [bind_run_ok (modifySession_run _ _ _), bind_run_ok (modifySession_run _ _ _),
    bind_run_ok (modifySession_run _ _ _), setSession_setSession, setSession_setSession,
    bind_pure_snd]
  exact haccept.trans hmarks

/-- A second CONNECT, and one with the reserved bit. -/
theorem onConnect_refused {m : ConnectPacket}
    (h : (b.sessions this).isConnected ∨ m.reservedBit &&& 0x1 = 0x1) :
    (onConnect cfg this m b).2 = b := by
  rw [onConnect, bind_run_ok (session_run this b)]
  by_cases hconnected : (b.sessions this).isConnected
  · rw [if_pos hconnected]
    rfl
  · rw [if_neg hconnected, if_pos (h.resolve_left hconnected)]
    rfl

/-- A CONNECT is accepted, or nothing comes of it. -/
theorem onConnect_marks (m : ConnectPacket) (hserver : (b.sessions this).isServer = true) :
    ((b.sessions this).isConnected ∨ m.reservedBit &&& 0x1 = 0x1) ∧
        (onConnect cfg this m b).2 = b ∨
      ¬ (b.sessions this).isConnected ∧
        Marks this (true, 1, keepAlivePeriod m.keepalive, b.now + keepAlivePeriod m.keepalive) b
          (onConnect cfg this m b).2 := by
  by_cases hrefused : (b.sessions this).isConnected ∨ m.reservedBit &&& 0x1 = 0x1
  · exact .inl ⟨hrefused, onConnect_refused hrefused⟩
  obtain ⟨hconnected, hbit⟩ := not_or.mp hrefused
  refine .inr ⟨hconnected, ?_⟩
  rw [onConnect, bind_run_ok (session_run this b), if_neg hconnected, if_neg hbit]
  refine Marks.bind (modifySession_respects (Steady.framing this) fun _ => rfl)
    ⟨_, rfl⟩ fun _ b₁ h₁ => ?_
  refine Marks.bind (mgrEvent_respects (Steady.framing this) _) ⟨_, rfl⟩ fun _ b₂ h₂ => ?_
  refine Marks.bind (mgrEvent_respects (Steady.framing this) _) ⟨_, rfl⟩ fun _ b₃ h₃ => ?_
  obtain ⟨b₄, hsend, -⟩ := Channel.sendNew_sends this (.connack newConnack) b₃
  refine Marks.bind (Channel.sendNew_respects (Steady.framing this) this _)
    ⟨_, congrArg Prod.fst hsend⟩ fun err b₄ h₄ => ?_
  have hsteady := ((h₁.trans h₂).trans h₃).trans h₄
  rw [← hsteady.now]
  exact accept_marks m err ((isServer_congr hsteady.timing).trans hserver)

theorem onConnack_marks (m : ConnackPacket) : ∃ c,
    Marks this ((b.sessions this).isServer, c, (b.sessions this).keepalive,
      (b.sessions this).timeout) b (onConnack this m b).2 := by
  rw [onConnack]
  split
  · rw [bind_run_ok (modifySession_run _ _ _)]
    have hmarks : Marks this ((b.sessions this).isServer, -(m.returnCode.toNat : ℤ),
        (b.sessions this).keepalive, (b.sessions this).timeout) b
        (b.setSession this fun s => { s with connected := -(m.returnCode.toNat : ℤ) }) :=
      .setSession rfl rfl
    exact ⟨_, hmarks.steady (finishConnack_respects (Steady.framing this) this m _)⟩
  · rw [bind_run_ok (modifySession_run _ _ _)]
    have hmarks : Marks this ((b.sessions this).isServer, 1, (b.sessions this).keepalive,
        (b.sessions this).timeout) b (b.setSession this fun s => { s with connected := 1 }) :=
      .setSession rfl rfl
    exact ⟨_, hmarks.steady (finishConnack_respects (Steady.framing this) this m _)⟩

end Session

/-- After the end of a session its packets are dropped. -/
theorem recvStart_ended (order : SubscriberOrder) (p : ControlPacket)
    (hended : (b.sessions this).clostep ≠ .running) :
    recvStart cfg S order this p b = (.ok [], b) := by
  have hreaded : Session.onChannelReaded cfg this b = (.ok (), b) := by
    rw [Session.onChannelReaded, bind_run_ok (session_run this b), if_neg hended]
    rfl
  rw [recvStart, bind_run_ok hreaded, bind_run_ok (session_run this b), if_pos hended]
  rfl

/-- A packet that is read moves the deadline, and a CONNECT may set it. -/
theorem recvStart_marks (order : SubscriberOrder) (p : ControlPacket)
    (hserver : (b.sessions this).isServer = true)
    (hrunning : (b.sessions this).clostep = .running) :
    (∃ m, p = .connect m ∧ ¬ (b.sessions this).isConnected ∧
      Marks this (true, 1, keepAlivePeriod m.keepalive, b.now + keepAlivePeriod m.keepalive) b
        (recvStart cfg S order this p b).2) ∨
    ∃ c, (c = (b.sessions this).connected ∨ ∃ m, p = .connack m) ∧
      Marks this (true, c, (b.sessions this).keepalive, b.now + (b.sessions this).period cfg) b
        (recvStart cfg S order this p b).2 := by
  rw [recvStart_run cfg S order p hrunning]
  let b₂ := b.reads this p ((b.sessions this).deadline cfg b.now)
  have hread₂ : Marks this ((b.sessions this).marked cfg b.now) b b₂ := by
    have hread : Marks this _ b (Session.resetTimeout cfg this b).2 :=
      Session.resetTimeout_marks hserver
    rw [Session.resetTimeout_run] at hread
    exact hread.steady (.of_sessions rfl rfl)
  have hserver₂ : (b₂.sessions this).isServer = true := congrArg Prod.fst hread₂.timing
  have hconnected₂ : (b₂.sessions this).connected = (b.sessions this).connected :=
    congrArg (fun i => i.2.1) hread₂.timing
  have hforward : ∀ {t} (m : GoM σ Handled), Marks this t b (m b₂).2 →
      Marks this t b ((m >>= fun handled => forwardStart order this handled.forwarded) b₂).2 := by
    intro t m hm
    rcases hr : m b₂ with ⟨_ | handled, b₃⟩
    · rw [bind_run_error hr]
      rwa [hr] at hm
    · rw [bind_run_ok hr]
      rw [hr] at hm
      exact hm.steady (forwardStart_respects (Steady.framing this) order this handled.forwarded b₃)
  by_cases hconnect : ∃ m, p = .connect m
  · obtain ⟨m, rfl⟩ := hconnect
    rcases Session.onConnect_marks m hserver₂ with ⟨-, hsame⟩ | ⟨hnew, hmarks⟩
    · refine .inr ⟨(b.sessions this).connected, .inl rfl, hforward _ ?_⟩
      show Marks this _ b (Session.onConnect cfg this m b₂).2
      rw [hsame]
      exact hread₂
    · refine .inl ⟨m, rfl, ?_, hforward _ ?_⟩
      · rwa [Session.isConnected, hconnected₂] at hnew
      · rw [hread₂.now] at hmarks
        exact hread₂.trans hmarks
  · by_cases hconnack : ∃ m, p = .connack m
    · obtain ⟨m, rfl⟩ := hconnack
      obtain ⟨c, hmarks⟩ := Session.onConnack_marks (b := b₂) m
      refine .inr ⟨c, .inr ⟨m, rfl⟩, hforward _ ?_⟩
      rw [hserver₂, show (b₂.sessions this).keepalive = (b.sessions this).keepalive from
          congrArg (fun i => i.2.2.1) hread₂.timing,
        show (b₂.sessions this).timeout = b.now + (b.sessions this).period cfg from
          congrArg (fun i => i.2.2.2) hread₂.timing] at hmarks
      exact hread₂.trans hmarks
    · refine .inr ⟨(b.sessions this).connected, .inl rfl, hforward _ ?_⟩
      exact hread₂.steady (Session.procFrontRemoteMsg_respects (Steady.framing this) cfg this S
        b.packets.next (fun m h => hconnect ⟨m, h⟩) (fun m h => hconnack ⟨m, h⟩)
        (fun _ => Steady.acknowledging this this) b₂)

end Marks

end MqttBroker

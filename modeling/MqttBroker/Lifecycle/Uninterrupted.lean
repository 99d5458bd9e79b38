import MqttBroker.Lifecycle.Steps
import MqttBroker.Session.Panics

/-!
# Goroutines that nothing interrupts

The functions of a session say in one piece what a goroutine does when the session begins or
ends, and `World.step` cuts the same code into atomic operations. Here the two meet: when
nothing comes between its operations, a report, an accepted CONNECT and a `Close` change the
flags of the sessions, the subscription tree and the maps of the manager as the functions do.
-/

namespace MqttBroker

open Broker GoM Exec

variable {σ : Type}

/-! ## States that agree -/

/-- Two records of a session that no operation here tells apart. -/
structure Session.Agrees (x y : Session) : Prop where
  isServer : x.isServer = y.isServer
  clientId : x.clientId = y.clientId
  connected : x.connected = y.connected
  clostep : x.clostep = y.clostep
  conn : x.channel.conn = y.channel.conn
  isStoped : x.channel.isStoped = y.channel.isStoped
  closed : x.peddingChan.closed = y.peddingChan.closed

theorem Session.Agrees.isConnected {x y : Session} (h : x.Agrees y) :
    x.isConnected ↔ y.isConnected := by
  unfold Session.isConnected
  rw [h.connected]

/-- The state that goroutines share here is that of the broker. -/
structure Shared.Agrees (m : Shared) (b : Broker σ) : Prop where
  session : ∀ s, (m.sessions s).Agrees (b.sessions s)
  subscriptionMgr : m.subscriptionMgr = b.subscriptionMgr
  mgr : m.mgr = b.mgr

theorem Shared.setSession_eq_self {m : Shared} {s : SessionRef} {f : Session → Session}
    (hf : f (m.sessions s) = m.sessions s) : m.setSession s f = m := by
  unfold setSession
  rw [hf, Function.update_eq_self]

namespace Shared.Agrees

variable {m : Shared} {b b' : Broker σ} {s : SessionRef}

theorem congr (h : m.Agrees b) (hsessions : b'.sessions = b.sessions)
    (htree : b'.subscriptionMgr = b.subscriptionMgr) (hmgr : b'.mgr = b.mgr) : m.Agrees b' where
  session s := by
    rw [hsessions]
    exact h.session s
  subscriptionMgr := h.subscriptionMgr.trans htree.symm
  mgr := h.mgr.trans hmgr.symm

theorem setSession (h : m.Agrees b) {f g : Session → Session}
    (hfg : (f (m.sessions s)).Agrees (g (b.sessions s))) :
    (m.setSession s f).Agrees (b.setSession s g) where
  session s' := by
    by_cases hs : s' = s
    · rw [hs, setSession_apply, if_pos rfl, setSession_self]
      exact hfg
    · rw [setSession_apply, if_neg hs, setSession_of_ne g b hs]
      exact h.session s'
  subscriptionMgr := h.subscriptionMgr
  mgr := h.mgr

/-- The broker writes fields that no operation here reads. -/
theorem setSession_right (h : m.Agrees b) {g : Session → Session}
    (hg : (m.sessions s).Agrees (g (b.sessions s))) : m.Agrees (b.setSession s g) where
  session s' := by
    by_cases hs : s' = s
    · rw [hs, setSession_self]
      exact hg
    · rw [setSession_of_ne g b hs]
      exact h.session s'
  subscriptionMgr := h.subscriptionMgr
  mgr := h.mgr

theorem trace (h : m.Agrees b) (trace : List World.Event) : Agrees { m with trace } b :=
  ⟨h.session, h.subscriptionMgr, h.mgr⟩

theorem removeSession (h : m.Agrees b) (s : SessionRef) :
    Agrees { m with subscriptionMgr := m.subscriptionMgr.removeSession s }
      { b with subscriptionMgr := b.subscriptionMgr.removeSession s } where
  session := h.session
  subscriptionMgr := congrArg _ h.subscriptionMgr
  mgr := h.mgr

/-- The manager serves an event that `mgrEvent` stands for. -/
theorem serve (h : m.Agrees b) {e : MgrEvent}
    (event : SessionMgr → Option SessionRef × SessionMgr) (he : m.case e = event) :
    (m.serve e).Agrees { b with
      mgr := (event b.mgr).2
      closeSessionChan := b.closeSessionChan ++ (event b.mgr).1.toList } where
  session := h.session
  subscriptionMgr := h.subscriptionMgr
  mgr := by
    show (m.case e m.mgr).2 = (event b.mgr).2
    rw [he, h.mgr]

end Shared.Agrees

/-! ## What changes nothing that matters -/

/-- What agreed with `b` agrees with `b'`. -/
def Keeps (b b' : Broker σ) : Prop := ∀ m : Shared, m.Agrees b → m.Agrees b'

instance : Std.Refl (Keeps (σ := σ)) := ⟨fun _ _ h => h⟩

instance : IsTrans (Broker σ) Keeps := ⟨fun _ _ _ h h' m hm => h' m (h m hm)⟩

theorem modifySession_keeps (this : SessionRef) {f : Session → Session}
    (hf : ∀ x y : Session, x.Agrees y → x.Agrees (f y)) :
    Respects Keeps (modifySession this f : GoM σ Unit) :=
  .modify fun _ _ h => h.setSession_right (hf _ _ (h.session this))

theorem flowComplete_keeps (t : TokenRef) : Respects Keeps (flowComplete t : GoM σ Unit) :=
  .bind (.gets _) fun _ => .ite (.fault _) (.modify fun _ _ h => h.congr rfl rfl rfl)

theorem Channel.sendNew_keeps (this : SessionRef) (p : ControlPacket) :
    Respects Keeps (sendNew this p : GoM σ (Option GoError)) := by
  refine .bind (.modifyGet fun _ _ h => h.congr rfl rfl rfl) fun msg => ?_
  refine .bind (.gets _) fun s => .ite (.pure _) ?_
  refine .bind (modifySession_keeps this fun x y h => ?_) fun _ => ?_
  · exact ⟨h.isServer, h.clientId, h.connected, h.clostep, h.conn, h.isStoped, h.closed⟩
  · exact .bind (.gets _) fun _ => .bind (.modify fun _ _ h => h.congr rfl rfl rfl) fun _ => .pure _

theorem Session.resetTimeout_keeps (cfg : Config) (this : SessionRef) :
    Respects Keeps (resetTimeout cfg this : GoM σ Unit) := by
  refine .bind (.gets _) fun now => modifySession_keeps this fun x y h => ?_
  have hsame : ∀ timeout, x.Agrees { y with timeout } := fun _ =>
    ⟨h.isServer, h.clientId, h.connected, h.clostep, h.conn, h.isStoped, h.closed⟩
  by_cases hserver : y.isServer = true
  · rw [if_pos hserver]
    by_cases hconnected : y.isConnected
    · rw [if_pos hconnected]
      exact hsame _
    · rw [if_neg hconnected]
      exact hsame _
  · rw [if_neg hserver]
    exact hsame _

theorem Session.setWill_keeps (this : SessionRef) (msg : ConnectPacket) :
    Respects Keeps (modifySession this (setWill msg) : GoM σ Unit) := by
  refine modifySession_keeps this fun x y h => ?_
  unfold setWill
  split
  · exact ⟨h.isServer, h.clientId, h.connected, h.clostep, h.conn, h.isStoped, h.closed⟩
  · exact h

theorem Session.completeHandshake_keeps (s : Session) :
    Respects Keeps (completeHandshake s : GoM σ Unit) := by
  refine .ite (.pure _) (.ite ?_ (.ite ?_ (.pure _)))
  · cases s.disconnectToken with
    | none => exact .pure _
    | some t => exact flowComplete_keeps t
  · cases s.connectToken with
    | none => exact .pure _
    | some t =>
      exact .bind (.modify fun _ _ h => h.congr rfl rfl rfl) fun _ => flowComplete_keeps t

/-! ## Reports -/

/-- The function of a report. -/
def Report.mgrOn (this : SessionRef) : Report → GoM σ Unit
  | disconnected => Session.mgrOnDisconnected this
  | pingTimeout => Session.mgrOnPingTimeout this
  | connectTimeout => Session.mgrOnConnectTimeout this

namespace Shared

variable {m : Shared} {b b' : Broker σ} {s : SessionRef}

/-- The state after the operations of a report that was let through. -/
def report (s : SessionRef) (k : Report) (m : Shared) : Shared :=
  ({ m with subscriptionMgr := m.subscriptionMgr.removeSession s }.setSession s
    fun x => { x with clostep := .closing }).serve (k.event s)

theorem Agrees.report (h : m.Agrees b) (k : Report)
    (hrunning : (b.sessions s).clostep = .running) :
    ∃ b', k.mgrOn s b = (.ok (), b') ∧ (m.report s k).Agrees b' := by
  have hnot : ¬ (b.sessions s).clostep ≠ .running := not_not_intro hrunning
  have hs := h.session s
  have hclosing := (h.removeSession s).setSession (s := s)
    (f := fun x => { x with clostep := .closing }) (g := fun x => { x with clostep := .closing })
    ⟨hs.isServer, hs.clientId, hs.connected, rfl, hs.conn, hs.isStoped, hs.closed⟩
  have hself := setSession_apply s s (fun x => { x with clostep := .closing })
    { m with subscriptionMgr := m.subscriptionMgr.removeSession s }
  rw [if_pos rfl] at hself
  have hrun : ∀ (event : Session → SessionMgr → Option SessionRef × SessionMgr)
      (after : GoM σ Unit), Session.report s event after b = after
        { b.setSession s fun x => { x with clostep := .closing } with
          subscriptionMgr := b.subscriptionMgr.removeSession s
          mgr := (event (b.sessions s) b.mgr).2
          closeSessionChan := b.closeSessionChan ++ (event (b.sessions s) b.mgr).1.toList } := by
    intro event after
    rw [Session.report, bind_run_ok (session_run s b), if_neg hnot]
    rfl
  cases k with
  | disconnected =>
    refine ⟨_, hrun _ _, hclosing.serve _ ?_⟩
    show SessionMgr.disconnect _ s = _
    rw [hself]
    exact congrArg (SessionMgr.disconnect · s) hs.clientId
  | pingTimeout =>
    refine ⟨_, hrun _ _, (hclosing.serve _ ?_).congr rfl rfl rfl⟩
    show SessionMgr.pingTimeout _ s = _
    rw [hself]
    exact congrArg (SessionMgr.pingTimeout · s) hs.clientId
  | connectTimeout =>
    refine ⟨_, hrun _ _, hclosing.serve _ ?_⟩
    show SessionMgr.connectTimeout _ s = _
    rw [hself]
    exact congrArg (SessionMgr.connectTimeout · s) hs.conn

end Shared

namespace World

variable {cfg : Config} {w : World} {b b' : Broker σ} {s : SessionRef} {op : Op}

/-- A receive loop performs its next operation. -/
theorem step_recvOnce (cfg : Config) {m : Shared} {r : Recv} (hpanicked : w.panicked = false)
    (hnext : (w.recv s).next w.toShared s [] false = some (op, r))
    (hrun : w.run cfg op = some m) :
    World.step cfg (recvOnce s) w = some { toShared := m, toGoroutines := w.setRecv s r } := by
  have hop : next (recvOnce s) w = some (op, w.setRecv s r) := by
    rw [recvOnce, next, hnext]
    rfl
  rw [step, hpanicked, if_neg Bool.false_ne_true, hop]
  show (w.run cfg op).map _ = _
  rw [hrun]
  rfl

theorem exists_step_recvOnce (cfg : Config) (op : Op) {m : Shared} {r : Recv}
    (hpanicked : w.panicked = false) (hnext : (w.recv s).next w.toShared s [] false = some (op, r))
    (hrun : w.run cfg op = some m) : ∃ w', World.step cfg (recvOnce s) w = some w' ∧
      w'.toShared = m ∧ w'.recv s = r ∧ w'.closer = w.closer :=
  ⟨_, step_recvOnce cfg hpanicked hnext hrun, rfl, setRecv_self .., rfl⟩

/-- The ticker performs its next operation. -/
theorem step_tick {m : Shared} {k : Ticker} {timedOut room : Bool} (hpanicked : w.panicked = false)
    (hnext : w.ticker.next w.toShared timedOut room = some (op, k))
    (hrun : w.run cfg op = some m) : World.step cfg (.tick timedOut room) w =
      some { toShared := m, toGoroutines := { w.toGoroutines with ticker := k } } := by
  have hop : next (.tick timedOut room) w = some (op, { w.toGoroutines with ticker := k }) := by
    rw [next, hnext]
    rfl
  rw [step, hpanicked, if_neg Bool.false_ne_true, hop]
  show (w.run cfg op).map _ = _
  rw [hrun]
  rfl

/-- The closer performs its next operation. -/
theorem step_closer {m : Shared} {c : Closer} (hpanicked : w.panicked = false)
    (hnext : w.closer.next w.toShared w.recv = some (op, c)) (hrun : w.run cfg op = some m) :
    World.step cfg .closer w =
      some { toShared := m, toGoroutines := { w.toGoroutines with closer := c } } := by
  have hop : next .closer w = some (op, { w.toGoroutines with closer := c }) := by
    rw [next, hnext]
    rfl
  rw [step, hpanicked, if_neg Bool.false_ne_true, hop]
  show (w.run cfg op).map _ = _
  rw [hrun]
  rfl

/-- The operations of a report are its function, for a goroutine whose turns are `t` and which is
at stage `place` of the report. -/
theorem exec_report_of {t : Turn} (place : Option Stage → World → Prop) (k : Report)
    (hstep : ∀ w stage m, place (some stage) w → w.panicked = false →
      w.run cfg (k.next w.toShared s stage).1 = some m →
        ∃ g, World.step cfg t w = some ⟨m, g⟩ ∧ place (k.next w.toShared s stage).2 ⟨m, g⟩)
    (hw : place (some .load) w) (hpanicked : w.panicked = false) (hclosing : w.closing = none)
    (h : w.toShared.Agrees b) : ∃ n w' b',
      (system cfg).exec (List.replicate n t) w = some w' ∧ k.mgrOn s b = (.ok (), b') ∧
        w'.toShared.Agrees b' ∧ place none w' := by
  have hclostep := (h.session s).clostep
  obtain ⟨g₁, hstep₁, hplace₁⟩ := hstep w .load w.toShared hw hpanicked rfl
  by_cases hrunning : (w.sessions s).clostep = .running
  · obtain ⟨b', hrun, hagrees⟩ := h.report k (hclostep.symm.trans hrunning)
    rw [Report.next, if_pos hrunning] at hplace₁
    obtain ⟨g₂, hstep₂, hplace₂⟩ := hstep _ .removeSession _ hplace₁ hpanicked rfl
    obtain ⟨g₃, hstep₃, hplace₃⟩ := hstep _ .store _ hplace₂ hpanicked rfl
    obtain ⟨g₄, hstep₄, hplace₄⟩ := hstep _ .send (w.toShared.report s k) hplace₃ hpanicked
      (if_pos hclosing)
    refine ⟨4, _, b', ?_, hrun, hagrees, hplace₄⟩
    rw [List.replicate, StepSystem.exec_cons hstep₁, List.replicate,
      StepSystem.exec_cons hstep₂, List.replicate, StepSystem.exec_cons hstep₃, List.replicate,
      StepSystem.exec_cons hstep₄]
    rfl
  · rw [Report.next, if_neg hrunning] at hplace₁
    have hrun : k.mgrOn s b = (.ok (), b) := by
      rw [hclostep] at hrunning
      cases k <;> exact (bind_run_ok (session_run s b)).trans (by rw [if_pos hrunning]; rfl)
    refine ⟨1, ⟨w.toShared, g₁⟩, b, ?_, hrun, h, hplace₁⟩
    rw [List.replicate, StepSystem.exec_cons hstep₁]
    rfl

/-- A report of a receive loop. -/
theorem exec_recv_report (cfg : Config) {k : Report} {last : Bool}
    (hrecv : w.recv s = .report k .load last) (hpanicked : w.panicked = false)
    (hclosing : w.closing = none) (h : w.toShared.Agrees b) :
    ∃ n w' b', (system cfg).exec (List.replicate n (recvOnce s)) w = some w' ∧
      k.mgrOn s b = (.ok (), b') ∧ w'.toShared.Agrees b' ∧
        w'.recv s = Recv.afterReport k last none := by
  refine exec_report_of (fun stage w => w.recv s = Recv.afterReport k last stage) k ?_
    hrecv hpanicked hclosing h
  intro w stage m hplace hpanicked hrun
  refine ⟨_, step_recvOnce cfg hpanicked ?_ hrun, setRecv_self ..⟩
  rw [hplace]
  rfl

/-- A report of the ticker. -/
theorem exec_tick_report {k : Report} {rest : List SessionRef}
    (hticker : w.ticker = .report s k .load rest) (hpanicked : w.panicked = false)
    (hclosing : w.closing = none) (h : w.toShared.Agrees b) :
    ∃ n w' b', (system cfg).exec (List.replicate n (.tick false false)) w = some w' ∧
      k.mgrOn s b = (.ok (), b') ∧ w'.toShared.Agrees b' ∧
        w'.ticker = Ticker.afterReport s k rest none := by
  refine exec_report_of (fun stage w => w.ticker = Ticker.afterReport s k rest stage) k ?_
    hticker hpanicked hclosing h
  intro w stage m hplace hpanicked hrun
  refine ⟨_, step_tick hpanicked ?_ hrun, rfl⟩
  rw [hplace]
  rfl

/-! ## Read errors -/

theorem onChannelError_run (h : w.toShared.Agrees b) : Session.onChannelError s b =
    (if (w.sessions s).isConnected then Report.disconnected else .connectTimeout).mgrOn s b := by
  rw [Session.onChannelError, bind_run_ok (session_run s b)]
  by_cases hconnected : (w.sessions s).isConnected
  · rw [if_pos hconnected, if_pos ((h.session s).isConnected.mp hconnected)]
    rfl
  · rw [if_neg hconnected, if_neg fun hb => hconnected ((h.session s).isConnected.mpr hb)]
    rfl

/-- The receive loop reads an error and ends. -/
theorem exec_recvError (hrecv : w.recv s = .reading) (hpanicked : w.panicked = false)
    (hclosing : w.closing = none) (h : w.toShared.Agrees b) : ∃ n w' b',
      (system cfg).exec (.recvError s :: List.replicate n (recvOnce s)) w = some w' ∧
        Session.recvError s b = (.ok (), b') ∧ w'.toShared.Agrees b' ∧ w'.recv s = .exited := by
  have hread : World.step cfg (.recvError s) w =
      some { toShared := w.toShared, toGoroutines := w.setRecv s .failed } := by
    rw [step, hpanicked, if_neg Bool.false_ne_true, next, hrecv]
    rfl
  have hfailed := step_recvOnce cfg (s := s) (m := w.toShared)
    (w := { toShared := w.toShared, toGoroutines := w.setRecv s .failed })
    (r := .report (if (w.sessions s).isConnected then .disconnected else .connectTimeout)
      .load true)
    hpanicked (by rw [setRecv_self]; rfl) rfl
  -- `onDisconnectException` is started before the report
  obtain ⟨b₁, h₁, hrun₁⟩ : ∃ b₁ : Broker σ, w.toShared.Agrees b₁ ∧
      Session.recvError s b = Session.onChannelError s b₁ := by
    rw [Session.recvError, bind_run_ok (session_run s b)]
    by_cases hrunning : (b.sessions s).clostep = .running
    · have hspawn : w.toShared.Agrees
          { b with spawned := b.spawned ++ [.onDisconnectException s .recv] } := h.congr rfl rfl rfl
      refine ⟨_, hspawn, ?_⟩
      rw [if_pos hrunning]
      exact bind_run_ok (spawn_run _ b)
    · refine ⟨b, h, ?_⟩
      rw [if_neg hrunning]
  obtain ⟨n, w', b', hexec, hrun, hagrees, hrecv'⟩ := exec_recv_report cfg (s := s)
    (w := { toShared := w.toShared
            toGoroutines := setRecv s (.report (if (w.sessions s).isConnected then .disconnected
              else .connectTimeout) .load true)
              { toShared := w.toShared, toGoroutines := w.setRecv s .failed } })
    (setRecv_self ..) hpanicked hclosing h₁
  refine ⟨n + 1, w', b', ?_, ?_, hagrees, hrecv'⟩
  · rw [StepSystem.exec_cons hread, List.replicate, StepSystem.exec_cons hfailed]
    exact hexec
  · rw [hrun₁, onChannelError_run h₁]
    exact hrun

/-! ## CONNECT -/

/-- The closer takes the session that the manager hands over, if there is one. -/
theorem exec_takeSession (cfg : Config) (hcloser : w.closer = .idle)
    (hpanicked : w.panicked = false) :
    ∃ ts c, (∀ t ∈ ts, t = .closer) ∧ (system cfg).exec ts w =
      some { toShared := { w.toShared with closing := none }
             toGoroutines := { w.toGoroutines with closer := c } } := by
  cases hclosing : w.closing with
  | none =>
    refine ⟨[], w.closer, fun t ht => absurd ht List.not_mem_nil, ?_⟩
    rw [← hclosing]
    rfl
  | some v =>
    have hnext : w.closer.next w.toShared w.recv = some (.takeSession, .load v) := by
      rw [hcloser, Closer.next, hclosing]
      rfl
    refine ⟨[.closer], .load v, fun t ht => List.mem_singleton.mp ht, ?_⟩
    rw [StepSystem.exec_cons (step_closer hpanicked hnext rfl)]
    rfl

/-- What `onConnect` does to a session that is not connected, up to the flags of its session. -/
theorem onConnect_run (cfg : Config) {m : Shared} {msg : ConnectPacket} (h : m.Agrees b)
    (hnew : ¬ (m.sessions s).isConnected) (hbit : ¬ msg.reservedBit &&& 0x1 = 0x1) :
    ∃ handled b', Session.onConnect cfg s msg b = (.ok handled, b') ∧
      Shared.Agrees ((((m.setSession s fun x => { x with clientId := msg.clientIdentifier }).serve
        (.disconnectSessionByClientId msg.clientIdentifier)).serve (.connected s)).setSession s
          fun x => { x with connected := 1 }) b' := by
  have hs := h.session s
  have hnew' : ¬ (b.sessions s).isConnected := fun hb => hnew (hs.isConnected.mpr hb)
  -- the client id, and the two events
  have hid := h.setSession (s := s) (f := fun x => { x with clientId := msg.clientIdentifier })
    (g := fun x => { x with clientId := msg.clientIdentifier })
    ⟨hs.isServer, rfl, hs.connected, hs.clostep, hs.conn, hs.isStoped, hs.closed⟩
  have hself := Shared.setSession_apply s s (fun x => { x with clientId := msg.clientIdentifier }) m
  rw [if_pos rfl] at hself
  have htaken := hid.serve (e := .disconnectSessionByClientId msg.clientIdentifier) _ rfl
  have hserved := htaken.serve (e := .connected s)
    (SessionMgr.connected (b.sessions s).channel.conn msg.clientIdentifier s) <| by
      show SessionMgr.connected (Session.channel _).conn (Session.clientId _) s = _
      rw [← hs.conn]
      exact congrArg (fun x : Session => SessionMgr.connected x.channel.conn x.clientId s) hself
  -- the CONNACK
  obtain ⟨err, b₁, hsend⟩ := (Session.sendNew_returns s (.connack newConnack)).ok _
  have hsent := Channel.sendNew_keeps s (.connack newConnack) _ _ hserved
  rw [hsend] at hsent
  -- `connected`, and what nothing here reads
  have hs₁ := hsent.session s
  have hconnected := hsent.setSession (s := s) (f := fun x => { x with connected := 1 })
    (g := fun x => { x with connected := 1 })
    ⟨hs₁.isServer, hs₁.clientId, rfl, hs₁.clostep, hs₁.conn, hs₁.isStoped, hs₁.closed⟩
  have hwill := Session.setWill_keeps s msg _ _ hconnected
  have hkeepalive := modifySession_keeps s
    (f := fun s => { s with keepalive := msg.keepalive.toNat * (1500000000 : ℤ) })
    (fun _ _ h => ⟨h.isServer, h.clientId, h.connected, h.clostep, h.conn, h.isStoped, h.closed⟩)
    _ _ hwill
  refine ⟨{ err }, _, ?_, Session.resetTimeout_keeps cfg s _ _ hkeepalive⟩
  rw [Session.onConnect, bind_run_ok (session_run s b), if_neg hnew', if_neg hbit,
    bind_run_ok (modifySession_run s _ b), bind_run_ok (mgrEvent_run _ _),
    bind_run_ok (mgrEvent_run _ _)]
  refine (bind_run_ok hsend).trans ?_
  rfl

/-- A CONNECT is handled; the closer only takes what the manager hands over. -/
theorem exec_connect {msg : ConnectPacket} (hrecv : w.recv s = .handle (.connect msg))
    (hcloser : w.closer = .idle) (hpanicked : w.panicked = false) (hclosing : w.closing = none)
    (h : w.toShared.Agrees b) : ∃ ts w' handled b', (∀ t ∈ ts, t = recvOnce s ∨ t = .closer) ∧
      (system cfg).exec ts w = some w' ∧ Session.onConnect cfg s msg b = (.ok handled, b') ∧
        w'.toShared.Agrees b' ∧ w'.recv s = .reading := by
  by_cases hrefused : (w.sessions s).isConnected ∨ msg.reservedBit &&& 0x1 = 0x1
  · have hnext : (w.recv s).next w.toShared s [] false = some (.load, .reading) := by
      rw [hrecv]
      show some (Recv.procFrontRemoteMsg w.toShared s [] true (.connect msg)) = _
      rw [Recv.procFrontRemoteMsg, if_pos hrefused]
    have hrun : Session.onConnect cfg s msg b =
        (.ok { err := connErrors errProtocolViolation }, b) := by
      rw [Session.onConnect, bind_run_ok (session_run s b)]
      by_cases hconnected : (b.sessions s).isConnected
      · rw [if_pos hconnected]
        rfl
      · have hbit := hrefused.resolve_left fun hw => hconnected ((h.session s).isConnected.mp hw)
        rw [if_neg hconnected, if_pos hbit]
        rfl
    obtain ⟨w₁, hstep₁, hm₁, hr₁, -⟩ := exists_step_recvOnce cfg _ hpanicked hnext rfl
    refine ⟨[recvOnce s], w₁, _, b, fun t ht => .inl (List.mem_singleton.mp ht), ?_, hrun, hm₁ ▸ h,
      hr₁⟩
    rw [StepSystem.exec_cons hstep₁]
    rfl
  · obtain ⟨hnew, hbit⟩ := not_or.mp hrefused
    obtain ⟨handled, b', hrun, hagrees⟩ := onConnect_run cfg h hnew hbit
    have hnext : (w.recv s).next w.toShared s [] false =
        some (.setClientId s msg.clientIdentifier, .takeOver msg.clientIdentifier) := by
      rw [hrecv]
      show some (Recv.procFrontRemoteMsg w.toShared s [] true (.connect msg)) = _
      rw [Recv.procFrontRemoteMsg, if_neg hrefused]
    obtain ⟨w₁, hstep₁, hm₁, hr₁, hc₁⟩ := exists_step_recvOnce cfg _ hpanicked hnext rfl
    obtain ⟨w₂, hstep₂, hm₂, hr₂, hc₂⟩ := exists_step_recvOnce cfg
      (.send (.disconnectSessionByClientId msg.clientIdentifier)) (w := w₁) (s := s)
      (r := .register)
      (by rw [hm₁]; exact hpanicked) (by rw [hr₁]; rfl) (by rw [hm₁]; exact if_pos hclosing)
    -- the manager hands over the session that had the client id
    obtain ⟨ts, c, hts, hexec⟩ := exec_takeSession cfg (w := w₂)
      (by rw [hc₂, hc₁]; exact hcloser) (by rw [hm₂]; exact hpanicked)
    obtain ⟨w₃, hstep₃, hm₃, hr₃, -⟩ := exists_step_recvOnce cfg (.send (.connected s)) (s := s)
      (w := { toShared := { w₂.toShared with closing := none }
              toGoroutines := { w₂.toGoroutines with closer := c } })
      (r := .acknowledge)
      (by show w₂.panicked = false; rw [hm₂]; exact hpanicked)
      (by show (w₂.recv s).next _ s [] false = _; rw [hr₂]; rfl) rfl
    obtain ⟨w₄, hstep₄, hm₄, hr₄, -⟩ := exists_step_recvOnce cfg (.setConnected s 1) (w := w₃)
      (s := s) (r := .reading)
      (by rw [hm₃]; show w₂.panicked = false; rw [hm₂]; exact hpanicked) (by rw [hr₃]; rfl) rfl
    refine ⟨recvOnce s :: recvOnce s :: (ts ++ [recvOnce s, recvOnce s]), w₄, handled, b', ?_, ?_,
      hrun, ?_, hr₄⟩
    · intro t ht
      simp only [List.mem_cons, List.mem_append, List.not_mem_nil, or_false] at ht
      rcases ht with ht | ht | ht | ht | ht
      · exact .inl ht
      · exact .inl ht
      · exact .inr (hts t ht)
      · exact .inl ht
      · exact .inl ht
    · rw [StepSystem.exec_cons hstep₁, StepSystem.exec_cons hstep₂, StepSystem.exec_append hexec,
        StepSystem.exec_cons hstep₃, StepSystem.exec_cons hstep₄]
      rfl
    · rw [hm₄, hm₃, hm₂]
      exact ⟨hagrees.session, hagrees.subscriptionMgr, hagrees.mgr⟩

/-! ## `Close` -/

/-- The closer comes back to its loop, in a state that agrees with `b`. -/
def CloseReturns (cfg : Config) (b : Broker σ) (w : World) : Prop := ∃ n w',
  (system cfg).exec (List.replicate n .closer) w = some w' ∧ w'.toShared.Agrees b ∧
    w'.closer = .idle

theorem CloseReturns.step (op : Op) {m : Shared} {c : Closer} (hpanicked : w.panicked = false)
    (hnext : w.closer.next w.toShared w.recv = some (op, c)) (hrun : w.run cfg op = some m)
    (h : CloseReturns cfg b
      { toShared := m, toGoroutines := { w.toGoroutines with closer := c } }) :
    CloseReturns cfg b w := by
  obtain ⟨n, w', hexec, hagrees, hidle⟩ := h
  refine ⟨n + 1, w', ?_, hagrees, hidle⟩
  rw [List.replicate_succ, StepSystem.exec_cons (step_closer hpanicked hnext hrun)]
  exact hexec

theorem closeReturns_done (hcloser : w.closer = .done s) (hpanicked : w.panicked = false)
    (h : w.toShared.Agrees b) : CloseReturns cfg b w := by
  refine .step (.closeReturned s) hpanicked (by rw [hcloser]; rfl) rfl ?_
  exact ⟨0, _, rfl, h.trace _, rfl⟩

/-- `Channel.Close`, when the receive loop has ended. -/
theorem closeReturns_loadStoped (hcloser : w.closer = .loadStoped s)
    (hstoped : (w.recv s).stoped = true) (hpanicked : w.panicked = false)
    (h : Shared.Agrees (w.toShared.setSession s
      fun x => { x with channel := { x.channel with isStoped := true } }) b) :
    CloseReturns cfg b w := by
  by_cases hchannel : (w.sessions s).channel.isStoped = true
  -- the channel was stopped already
  · have hsame : (fun x : Session => { x with channel := { x.channel with isStoped := true } })
        (w.sessions s) = w.sessions s := by
      rw [← hchannel]
    rw [Shared.setSession_eq_self hsame] at h
    refine .step .load hpanicked (by rw [hcloser, Closer.next, if_pos hchannel]) rfl ?_
    exact closeReturns_done rfl hpanicked h
  · refine .step .load hpanicked (by rw [hcloser, Closer.next, if_neg hchannel]) rfl ?_
    refine .step (.stop s) hpanicked rfl rfl ?_
    refine .step .load (c := .done s) hpanicked ?_ rfl ?_
    · show Closer.next _ w.recv (.wait s) = _
      rw [Closer.next, if_pos hstoped]
    · exact closeReturns_done rfl hpanicked h

/-- What `Close` does to a session that is not closed, up to the flags of its session. -/
theorem close_run {m : Shared} (h : m.Agrees b) (hrun : Session.close s b = (.ok (), b'))
    (hclosed : (b.sessions s).clostep ≠ .closed) :
    (b.sessions s).peddingChan.closed = false ∧
      Shared.Agrees (((m.setSession s fun x => { x with clostep := .closed }).setSession s
        fun x => { x with peddingChan := { x.peddingChan with closed := true } }).setSession s
          fun x => { x with channel := { x.channel with isStoped := true } }) b' := by
  rw [Session.close, bind_run_ok (session_run s b), if_neg hclosed,
    bind_run_ok (modifySession_run s _ b)] at hrun
  by_cases hpedding : (b.sessions s).peddingChan.closed = true
  · rw [if_pos hpedding] at hrun
    exact absurd (congrArg Prod.fst hrun) (by simp)
  · refine ⟨Bool.eq_false_iff.mpr hpedding, ?_⟩
    have h₁ := h.setSession (s := s) (f := fun x => { x with clostep := .closed })
      (g := fun x => { x with clostep := .closed })
      ⟨(h.session s).isServer, (h.session s).clientId, (h.session s).connected, rfl,
        (h.session s).conn, (h.session s).isStoped, (h.session s).closed⟩
    have hs₁ := h₁.session s
    have h₂ := h₁.setSession (s := s)
      (f := fun x => { x with peddingChan := { x.peddingChan with closed := true } })
      (g := fun x => { x with peddingChan := { x.peddingChan with closed := true } })
      ⟨hs₁.isServer, hs₁.clientId, hs₁.connected, hs₁.clostep, hs₁.conn, hs₁.isStoped, rfl⟩
    have hs₂ := h₂.session s
    have h₃ := h₂.setSession (s := s)
      (f := fun x => { x with channel := { x.channel with isStoped := true } })
      (g := fun x => { x with channel := { x.channel with isStoped := true } })
      ⟨hs₂.isServer, hs₂.clientId, hs₂.connected, hs₂.clostep, hs₂.conn, rfl, hs₂.closed⟩
    rw [setSession_setSession] at h₃
    rw [if_neg hpedding, bind_run_ok (modifySession_run s _ _)] at hrun
    have hkeeps := Session.completeHandshake_keeps (b.sessions s) _ _ h₃
    rw [hrun] at hkeeps
    exact hkeeps

/-- The closer closes a session whose receive loop has ended. -/
theorem exec_close (hcloser : w.closer = .load s) (hstoped : (w.recv s).stoped = true)
    (hpanicked : w.panicked = false) (h : w.toShared.Agrees b)
    (hrun : Session.close s b = (.ok (), b')) : CloseReturns cfg b' w := by
  have hs := h.session s
  by_cases hclosed : (w.sessions s).isClosed
  · have hsame : b = b' := by
      rw [Session.close, bind_run_ok (session_run s b),
        if_pos (hs.clostep.symm.trans hclosed)] at hrun
      exact congrArg Prod.snd hrun
    refine .step .load hpanicked (by rw [hcloser, Closer.next, if_pos hclosed]) rfl ?_
    exact closeReturns_done rfl hpanicked (hsame ▸ h)
  · have hnot : (b.sessions s).clostep ≠ .closed := fun hb => hclosed (hs.clostep.trans hb)
    obtain ⟨hopen, hagrees⟩ := close_run h hrun hnot
    refine .step .load hpanicked (by rw [hcloser, Closer.next, if_neg hclosed]) rfl ?_
    refine .step (.storeClostep s .closed) hpanicked rfl rfl ?_
    refine .step (.closePedding s) hpanicked rfl rfl ?_
    refine closeReturns_loadStoped rfl hstoped ?_ ?_
    -- `peddingChan` was open, so that there is no panic
    · show (Session.peddingChan _).closed = false
      rw [Shared.setSession_apply, if_pos rfl]
      exact hs.closed.trans hopen
    · exact ⟨hagrees.session, hagrees.subscriptionMgr, hagrees.mgr⟩

end World
end MqttBroker

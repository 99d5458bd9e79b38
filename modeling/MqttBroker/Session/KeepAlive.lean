import MqttBroker.Session.Timing
import MqttBroker.Store.MemStore

/-!
# Keep-alive

When `OnTick` reports a ping timeout of a server session, over any run of the process. The
deadline is one keep-alive period after the last packet that was read or written. A period
of 0 is over at the next tick, and what the broker writes itself puts the deadline off.
-/

namespace MqttBroker

open Broker GoM Exec

variable {σ : Type}

/-! ## What a tick reports -/

/-- `OnTick` now reports a ping timeout. -/
def Reports (cfg : Config) (this : SessionRef) (b : Broker σ) : Prop :=
  (Session.onTick cfg this b).2.spawned =
    b.spawned ++ [.onDisconnectException this .pingTimeout]

/-- The end of `OnTick`, after the deadline was looked at. -/
theorem tickEnd_spawned (cfg : Config) (this : SessionRef) (isServer : Bool) (b : Broker σ) :
    ((do
      Session.checkInflightList cfg this
      if isServer then
        Exec.modify fun b => { b with sessionInfoList := GoList.push this b.sessionInfoList }
          : GoM σ Unit) b).2.spawned = b.spawned := by
  have hcheck := (Session.checkInflightList_queues cfg this b).spawned
  rw [bind_run]
  rcases hr : Session.checkInflightList cfg this b with ⟨_ | _, b'⟩
  · rw [hr] at hcheck
    exact hcheck
  · rw [hr] at hcheck
    cases isServer with
    | true => exact hcheck
    | false => exact hcheck

theorem reports_iff {cfg : Config} {this : SessionRef} {b : Broker σ}
    (hserver : (b.sessions this).isServer = true)
    (hrunning : (b.sessions this).clostep = .running)
    (hconnected : (b.sessions this).isConnected) :
    Reports cfg this b ↔ (b.sessions this).timeout ≤ b.now := by
  have hnotStoped : ¬ (b.sessions this).clostep ≠ .running := not_not.mpr hrunning
  rw [Reports, Session.onTick, bind_run_ok (session_run this b), if_neg hnotStoped,
    bind_run_ok (now_run b)]
  have hend := fun b' : Broker σ => tickEnd_spawned cfg this (b.sessions this).isServer b'
  by_cases hover : (b.sessions this).timeout ≤ b.now
  · have htimeout : ∃ b', Session.onTimeout this b = (.ok (), b') ∧
        b'.spawned = b.spawned ++ [.onDisconnectException this .pingTimeout] := by
      rw [Session.onTimeout, bind_run_ok (session_run this b), if_pos hserver, if_pos hconnected,
        Session.mgrOnPingTimeout, Session.report, bind_run_ok (session_run this b),
        if_neg hnotStoped]
      exact ⟨_, rfl, rfl⟩
    obtain ⟨b', hrun, hspawned⟩ := htimeout
    rw [if_pos hover, bind_run_ok hrun]
    exact iff_of_true ((hend b').trans hspawned) hover
  · rw [if_neg hover]
    refine iff_of_false (fun h => ?_) hover
    have hnothing := (hend b).symm.trans h
    exact absurd (congrArg List.length hnothing) (by simp)

/-! ## A process beside a clock -/

/-- A process, and what is known of one session from outside: the keep-alive of its accepted
CONNECT as long as it is connected, and when a packet was last read from its connection and
written to it. -/
structure Timed (σ : Type) where
  process : Process σ
  keepalive : Option UInt16
  received : ℤ
  written : ℤ

namespace Timed

/-- A packet is read from the connection of `this`. -/
def reads (this : SessionRef) : Action → Bool
  | .recvPacket s _ _ => s = this
  | _ => false

/-- A packet is written to the connection of `this`. -/
def writes (this : SessionRef) (P : Process σ) : Action → Bool
  | .sendRound s written =>
    s = this ∧ written = true ∧ (P.broker.sessions this).channel.iSendList ≠ []
  | _ => false

/-- The keep-alive of a CONNECT that the step has accepted. -/
def accepts (this : SessionRef) (P P' : Process σ) : Action → Option UInt16
  | .recvPacket s ⟨.connect m, _⟩ _ =>
    if s = this ∧ ¬ (P.broker.sessions this).isConnected ∧ (P'.broker.sessions this).isConnected
    then some m.keepalive else none
  | _ => none

variable (cfg : Config) (S : StoreMgr σ) (this : SessionRef)

/-- What is known after a step. -/
def next (a : Action) (T : Timed σ) (P' : Process σ) : Timed σ :=
  let accepted := accepts this T.process P' a
  { process := P'
    keepalive :=
      if (P'.broker.sessions this).isConnected then accepted.or T.keepalive else none
    received := if reads this a then T.process.broker.now else T.received
    written :=
      if accepted.isSome ∨ writes this T.process a then T.process.broker.now else T.written }

/-- The runs of a process with a server session `this`. The times are set by its CONNECT. -/
def system : StepSystem (Timed σ) Action where
  init T := Process.Initial cfg T.process ∧ (T.process.broker.sessions this).isServer = true ∧
    T.keepalive = none
  step a T := ((Process.system cfg S).step a T.process).map (T.next this a)

/-- The deadline is one period after the last packet. -/
structure OnTime (T : Timed σ) : Prop where
  isServer : (T.process.broker.sessions this).isServer = true
  deadline : (T.process.broker.sessions this).clostep = .running →
    ∀ k, T.keepalive = some k →
      (T.process.broker.sessions this).isConnected ∧
      (T.process.broker.sessions this).keepalive = keepAlivePeriod k ∧
      (T.process.broker.sessions this).timeout = max T.received T.written + keepAlivePeriod k ∧
      T.received ≤ T.process.broker.now ∧ T.written ≤ T.process.broker.now

variable {cfg S this} {T T' : Timed σ} {P' : Process σ} {a : Action}

theorem OnTime.init (h : (system cfg S this).init T) : OnTime this T :=
  ⟨h.2.1, fun _ k hk => absurd hk (by simp [h.2.2])⟩

theorem not_marks (ha : ¬ a.marks this) : reads this a = false ∧
    writes this T.process a = false ∧ accepts this T.process P' a = none := by
  cases a with
  | recvPacket s p order =>
    refine ⟨decide_eq_false ha, rfl, ?_⟩
    obtain ⟨p, hp⟩ := p
    cases p with
    | connect m => exact if_neg fun h => ha h.1
    | _ => rfl
  | sendRound s written => exact ⟨rfl, decide_eq_false fun h => ha ⟨h.1, h.2.1⟩, rfl⟩
  | _ => exact ⟨rfl, rfl, rfl⟩

/-- A step that is no read and no write of the session. -/
theorem OnTime.of_steady (h : OnTime this T)
    (ha : reads this a = false ∧ writes this T.process a = false ∧
      accepts this T.process P' a = none)
    (hsteady : Steady this T.process.broker P'.broker) : OnTime this (T.next this a P') := by
  obtain ⟨hreads, hwrites, haccepts⟩ := ha
  refine ⟨(isServer_congr hsteady.timing).trans h.isServer, fun hrunning k hk => ?_⟩
  simp only [next, hreads, hwrites, haccepts, Option.none_or] at hk ⊢
  split at hk
  · next hconnected =>
    obtain ⟨-, hkeepalive, htimeout, hreceived, hwritten⟩ :=
      h.deadline (hsteady.running hrunning) k hk
    have hkeepalive' := congrArg (fun i => i.2.2.1) hsteady.timing
    have htimeout' := congrArg (fun i => i.2.2.2) hsteady.timing
    rw [hsteady.now]
    exact ⟨hconnected, hkeepalive'.trans hkeepalive, htimeout'.trans htimeout, hreceived, hwritten⟩
  · exact absurd hk (by simp)

/-- Of a session that has ended, only the role is looked at. -/
theorem OnTime.of_ended (h : OnTime this T)
    (hended : (T.process.broker.sessions this).clostep ≠ .running)
    (hsteady : Steady this T.process.broker P'.broker) : OnTime this (T.next this a P') :=
  ⟨(isServer_congr hsteady.timing).trans h.isServer,
    fun hrunning => absurd (hsteady.running hrunning) hended⟩

/-- A packet that sets the deadline from what the session was before. -/
theorem OnTime.of_marks {c : ℤ} (h : OnTime this T)
    (hrunning : (T.process.broker.sessions this).clostep = .running)
    (hmarks : Marks this (true, c, (T.process.broker.sessions this).keepalive,
      T.process.broker.now + (T.process.broker.sessions this).period cfg)
      T.process.broker P'.broker)
    (haccepts : accepts this T.process P' a = none)
    (ha : reads this a = true ∨ writes this T.process a = true) :
    OnTime this (T.next this a P') := by
  refine ⟨congrArg Prod.fst hmarks.timing, fun _ k hk => ?_⟩
  simp only [next, haccepts, Option.none_or, Option.isSome_none, Bool.false_eq_true,
    false_or] at hk ⊢
  split at hk
  · next hconnected =>
    obtain ⟨hbefore, hkeepalive, -, hreceived, hwritten⟩ := h.deadline hrunning k hk
    have hkeepalive' := congrArg (fun i => i.2.2.1) hmarks.timing
    have htimeout' := congrArg (fun i => i.2.2.2) hmarks.timing
    have hperiod : (T.process.broker.sessions this).period cfg = keepAlivePeriod k := by
      rw [Session.period, if_pos hbefore, hkeepalive]
    rw [hmarks.now]
    -- the packet is the last one
    have hlast : max (if reads this a then T.process.broker.now else T.received)
        (if writes this T.process a then T.process.broker.now else T.written) =
          T.process.broker.now := by
      split
      · split
        · exact max_self _
        · exact max_eq_left hwritten
      · next hreads =>
        rw [if_pos (ha.resolve_left hreads)]
        exact max_eq_right hreceived
    refine ⟨hconnected, hkeepalive'.trans hkeepalive, htimeout'.trans ?_, ?_, ?_⟩
    · rw [hlast, ← hperiod]
    · split
      · exact le_refl _
      · exact hreceived
    · split
      · exact le_refl _
      · exact hwritten
  · exact absurd hk (by simp)

/-- A read. -/
theorem OnTime.read (h : OnTime this T) {p : Inbound} {order : SubscriberOrder}
    (hP' : P'.broker = (recvStart cfg S order this p.1 T.process.broker).2) :
    OnTime this (T.next this (.recvPacket this p order) P') := by
  have hreads : reads this (.recvPacket this p order) = true := decide_eq_true rfl
  by_cases hrunning : (T.process.broker.sessions this).clostep = .running
  · obtain ⟨p, hp⟩ := p
    rcases recvStart_marks (S := S) order p h.isServer hrunning with
      ⟨m, rfl, hnew, hmarks⟩ | ⟨c, hc, hmarks⟩
    · -- an accepted CONNECT sets everything
      rw [← hP'] at hmarks
      have hconnected : (P'.broker.sessions this).isConnected := by
        rw [Session.isConnected, show (P'.broker.sessions this).connected = 1 from
          congrArg (fun i => i.2.1) hmarks.timing]
        decide
      have haccepts : accepts this T.process P' (.recvPacket this ⟨.connect m, hp⟩ order) =
          some m.keepalive := if_pos ⟨rfl, hnew, hconnected⟩
      refine ⟨congrArg Prod.fst hmarks.timing, fun _ k hk => ?_⟩
      simp only [next, haccepts, if_pos hconnected, Option.some_or, Option.isSome_some,
        true_or, if_pos, hreads] at hk ⊢
      obtain rfl := Option.some.inj hk
      rw [hmarks.now, max_self]
      exact ⟨hconnected, congrArg (fun i => i.2.2.1) hmarks.timing,
        congrArg (fun i => i.2.2.2) hmarks.timing, le_refl _, le_refl _⟩
    · rw [← hP'] at hmarks
      refine h.of_marks hrunning hmarks ?_ (.inl hreads)
      cases p with
      | connect m =>
        -- a CONNECT that is refused leaves the session as connected as it was
        refine if_neg fun haccepted => haccepted.2.1 ?_
        have hsame : c = (T.process.broker.sessions this).connected := by
          rcases hc with hc | ⟨m', hm'⟩
          · exact hc
          · exact absurd hm' (by simp)
        have hconnected := haccepted.2.2
        rwa [Session.isConnected, show (P'.broker.sessions this).connected = c from
          congrArg (fun i => i.2.1) hmarks.timing, hsame] at hconnected
      | _ => rfl
  · refine h.of_ended hrunning ?_
    rw [hP', recvStart_ended order p.1 hrunning]
    exact .refl _

/-- A write. -/
theorem OnTime.write (h : OnTime this T)
    (hP' : Session.sendRound cfg this true T.process.broker = (.ok (), P'.broker)) :
    OnTime this (T.next this (.sendRound this true) P') := by
  by_cases hrunning : (T.process.broker.sessions this).clostep = .running
  · cases hqueued : (T.process.broker.sessions this).channel.iSendList with
    | nil =>
      have hnothing : T.process.broker = P'.broker := by
        rw [Session.sendRound, bind_run_ok (session_run this _), hqueued] at hP'
        exact congrArg Prod.snd hP'
      refine h.of_steady ⟨rfl, decide_eq_false fun hw => hw.2.2 hqueued, rfl⟩ ?_
      rw [← hnothing]
      exact .refl _
    | cons msg rest =>
      refine h.of_marks hrunning (Session.sendRound_marks h.isServer hrunning hqueued hP') rfl
        (.inr (decide_eq_true ⟨rfl, rfl, ?_⟩))
      rw [hqueued]
      exact List.cons_ne_nil _ _
  · have hended := Session.sendRound_ended cfg hrunning
    rw [hP'] at hended
    exact h.of_ended hrunning hended

/-- Time passes. -/
theorem OnTime.elapse (h : OnTime this T) (d : ℕ) : OnTime this (T.next this (.elapse d)
    { T.process with broker := { T.process.broker with now := T.process.broker.now + d } }) := by
  refine ⟨h.isServer, fun hrunning k hk => ?_⟩
  have hk' : (if (T.process.broker.sessions this).isConnected then T.keepalive else none) =
    some k := hk
  split at hk'
  · obtain ⟨hconnected, hkeepalive, htimeout, hreceived, hwritten⟩ := h.deadline hrunning k hk'
    refine ⟨hconnected, hkeepalive, htimeout, ?_, ?_⟩
    · show T.received ≤ T.process.broker.now + d
      omega
    · show T.written ≤ T.process.broker.now + d
      omega
  · exact absurd hk' (by simp)

theorem OnTime.step (h : OnTime this T) (hstep : (system cfg S this).step a T = some T') :
    OnTime this T' := by
  obtain ⟨P', hP', rfl⟩ := Option.map_eq_some_iff.mp hstep
  by_cases ha : a.marks this
  · cases a with
    | recvPacket s p order =>
      obtain rfl : s = this := ha
      have hbroker := Process.launch_respects (R := fun b b' =>
        b' = (recvStart cfg S order s p.1 b).2) (fun _ => rfl) (Process.of_not_waiting hP')
      exact h.read hbroker
    | sendRound s written =>
      obtain ⟨rfl, rfl⟩ : s = this ∧ written = true := ha
      obtain ⟨_, hrun⟩ := Process.run_eq hP'
      exact h.write hrun
    | elapse d =>
      obtain rfl := Option.some.inj hP'
      exact h.elapse d
    | _ => exact absurd ha (by simp [Action.marks])
  · exact h.of_steady (not_marks ha) (Process.step_steady ha hP')

theorem onTime_of_reachable (h : (system cfg S this).Reachable T) : OnTime this T :=
  h.invariant (fun _ => OnTime.init) fun _ _ _ h _ hstep => h.step hstep

/-! ## When a timeout is reported -/

/-- A tick reports a timeout when the period after the last packet is over. -/
theorem reports_iff_over (h : (system cfg S this).Reachable T) {k : UInt16}
    (hk : T.keepalive = some k)
    (hrunning : (T.process.broker.sessions this).clostep = .running) :
    Reports cfg this T.process.broker ↔
      max T.received T.written + keepAlivePeriod k ≤ T.process.broker.now := by
  have hontime := onTime_of_reachable h
  obtain ⟨hconnected, -, htimeout, -, -⟩ := hontime.deadline hrunning k hk
  rw [reports_iff hontime.isServer hrunning hconnected, htimeout]

/-- In every run, a tick reports the timeout of a connected session exactly when its keep-alive
is not 0 and has passed one and a half times since the last packet, if and only if the
keep-alive is not 0. -/
theorem pingTimeout_exact_iff (h : (system cfg S this).Reachable T) {k : UInt16}
    (hk : T.keepalive = some k)
    (hrunning : (T.process.broker.sessions this).clostep = .running) :
    (Reports cfg this T.process.broker ↔
      0 < k ∧ max T.received T.written + keepAlivePeriod k ≤ T.process.broker.now) ↔ 0 < k := by
  rw [reports_iff_over h hk hrunning]
  constructor
  · intro hexact
    by_contra hzero
    -- a period of 0 is over at once
    have hk0 : k = 0 := by
      have hle : k ≤ 0 := UInt16.not_lt.mp hzero
      grind
    obtain ⟨-, -, -, hreceived, hwritten⟩ := (onTime_of_reachable h).deadline hrunning k hk
    refine hzero (hexact.mp ?_).1
    rw [hk0, show keepAlivePeriod 0 = 0 from rfl, add_zero]
    exact max_le hreceived hwritten
  · intro hpos
    exact (and_iff_right hpos).symm

/-- No packet has come. -/
def start : Timed MemStore where
  process := Process.start {} MemStore.newStoreMgr fun _ => true
  keepalive := none
  received := 0
  written := 0

theorem start_init : (system {} (MemStore.storeMgr default) 0).init start :=
  ⟨Process.start_initial {} _ _, rfl, rfl⟩

/-- A CONNECT with a keep-alive in seconds. -/
def connectFor (keepalive : UInt16) : Inbound :=
  ⟨.connect { header := { messageType := PacketType.connect }
              clientIdentifier := str "a"
              keepalive },
    .other _ rfl (by rw [ControlPacket.kind]; decide)⟩

/-- A CONNECT with a keep-alive of 10 seconds, and nothing after its CONNACK. -/
def quietRun : List Action :=
  [.recvPacket 0 (connectFor 10) RangeOrder.ascending, .sendRound 0 true, .elapse 15000000000]

theorem quietRun_ends : ∃ T, (system {} (MemStore.storeMgr default) 0).Reachable T ∧
    T.keepalive = some 10 ∧ (T.process.broker.sessions 0).clostep = .running ∧
    T.received = 0 ∧ T.written = 0 ∧ T.process.broker.now = 15000000000 := by
  have hend : ((system {} (MemStore.storeMgr default) 0).exec quietRun start).any (fun T =>
      decide (T.keepalive = some 10 ∧ (T.process.broker.sessions 0).clostep = .running ∧
        T.received = 0 ∧ T.written = 0 ∧ T.process.broker.now = 15000000000)) = true := by
    decide +kernel
  obtain ⟨T, hT, hc⟩ := StepSystem.exists_reachable_of_any start_init hend
  exact ⟨T, hT, of_decide_eq_true hc⟩

/-- After 15 seconds the timeout is reported. -/
theorem pingTimeout_exact_iff_fifteen : ∃ T,
    (system {} (MemStore.storeMgr default) 0).Reachable T ∧ T.keepalive = some 10 ∧
      Reports {} 0 T.process.broker := by
  obtain ⟨T, hT, hk, hrunning, hreceived, hwritten, hnow⟩ := quietRun_ends
  refine ⟨T, hT, hk, ((pingTimeout_exact_iff hT hk hrunning).mpr (by decide)).mpr ⟨by decide, ?_⟩⟩
  rw [hreceived, hwritten, hnow]
  decide

/-- With a keep-alive of 0 the timeout is reported at once. -/
theorem pingTimeout_with_zero : ∃ T,
    (system {} (MemStore.storeMgr default) 0).Reachable T ∧ T.keepalive = some 0 ∧
      (T.process.broker.sessions 0).clostep = .running ∧ Reports {} 0 T.process.broker := by
  have hend : ((system {} (MemStore.storeMgr default) 0).exec
      [.recvPacket 0 (connectFor 0) RangeOrder.ascending] start).any (fun T =>
        decide (T.keepalive = some 0 ∧ (T.process.broker.sessions 0).clostep = .running ∧
        max T.received T.written + keepAlivePeriod 0 ≤ T.process.broker.now)) = true := by
    decide +kernel
  obtain ⟨T, hT, hc⟩ := StepSystem.exists_reachable_of_any start_init hend
  obtain ⟨hk, hrunning, hover⟩ := of_decide_eq_true hc
  exact ⟨T, hT, hk, hrunning, (reports_iff_over hT hk hrunning).mpr hover⟩

/-- In every run, a tick reports a client that has been silent for one and a half times its
keep-alive if and only if nothing was written to it in that time either. -/
theorem silent_reported_iff (h : (system cfg S this).Reachable T) {k : UInt16}
    (hk : T.keepalive = some k)
    (hrunning : (T.process.broker.sessions this).clostep = .running)
    (hsilent : T.received + keepAlivePeriod k ≤ T.process.broker.now) :
    Reports cfg this T.process.broker ↔
      T.written + keepAlivePeriod k ≤ T.process.broker.now := by
  rw [reports_iff_over h hk hrunning]
  omega

/-- Nothing was read or written for 15 seconds. -/
theorem silent_reported_iff_quiet : ∃ T,
    (system {} (MemStore.storeMgr default) 0).Reachable T ∧ T.keepalive = some 10 ∧
      Reports {} 0 T.process.broker := by
  obtain ⟨T, hT, hk, hrunning, hreceived, hwritten, hnow⟩ := quietRun_ends
  refine ⟨T, hT, hk, (silent_reported_iff hT hk hrunning ?_).mpr ?_⟩
  · rw [hreceived, hnow]
    decide
  · rw [hwritten, hnow]
    decide

/-- A client subscribes and falls silent. After 10 seconds the broker publishes to it. -/
def silentRun : List Action :=
  [.recvPacket 0 (connectFor 10) RangeOrder.ascending, .advance 0,
    .recvPacket 0 (inboundSubscribe 120 1) RangeOrder.ascending,
    .advance 0, .sendRound 0 true, .sendRound 0 true, .elapse 10000000000,
    .mgrPublish (str "x") (str "m") 1 RangeOrder.ascending, .advance 0, .sendRound 0 true,
    .elapse 5000000000]

/-- The client has been silent for 15 seconds, and no timeout is reported. -/
theorem silent_unreported : ∃ T,
    (system {} (MemStore.storeMgr default) 0).Reachable T ∧ T.keepalive = some 10 ∧
      (T.process.broker.sessions 0).clostep = .running ∧
      T.received + keepAlivePeriod 10 ≤ T.process.broker.now ∧ ¬ Reports {} 0 T.process.broker := by
  have hend : ((system {} (MemStore.storeMgr default) 0).exec silentRun start).any (fun T =>
      decide (T.keepalive = some 10 ∧ (T.process.broker.sessions 0).clostep = .running ∧
        T.received + keepAlivePeriod 10 ≤ T.process.broker.now ∧
        ¬ max T.received T.written + keepAlivePeriod 10 ≤ T.process.broker.now)) = true := by
    decide +kernel
  obtain ⟨T, hT, hc⟩ := StepSystem.exists_reachable_of_any start_init hend
  obtain ⟨hk, hrunning, hsilent, hnot⟩ := of_decide_eq_true hc
  exact ⟨T, hT, hk, hrunning, hsilent, fun h => hnot ((reports_iff_over hT hk hrunning).mp h)⟩

end Timed
end MqttBroker

import MqttBroker.Lifecycle.World
import MqttBroker.Topic.Subscriptions

/-!
# What one step does

An operation changes one thing, and the lemmas here say of each part of the shared state which
operations touch it. A report goes through the same operations in a receive loop and in the
ticker: `ReportMove` lists them once for both, and `World.next_reports` says that a step moves
at most one report.
-/

namespace MqttBroker

/-! ## Operations on sessions -/

namespace Op

/-- What an operation makes of the record of session `s`. -/
def onSession (s : SessionRef) (x : Session) : Op → Session
  | setClientId this clientId => if s = this then { x with clientId } else x
  | setConnected this connected => if s = this then { x with connected } else x
  | storeClostep this clostep => if s = this then { x with clostep } else x
  | closePedding this =>
    if s = this then { x with peddingChan := { x.peddingChan with closed := true } } else x
  | stop this =>
    if s = this then { x with channel := { x.channel with isStoped := true } } else x
  | pushPedding this =>
    if s = this ∧ x.peddingChan.closed = false then
      { x with peddingChan := { x.peddingChan with len := x.peddingChan.len + 1 } }
    else x
  | popPedding this =>
    if s = this then
      { x with peddingChan := { x.peddingChan with len := x.peddingChan.len - 1 } }
    else x
  | _ => x

end Op

namespace Shared

variable {cfg : Config} {m m' : Shared} {op : Op}

theorem setSession_apply (this s : SessionRef) (f : Session → Session) (m : Shared) :
    (m.setSession this f).sessions s = if s = this then f (m.sessions s) else m.sessions s := by
  unfold setSession
  show Function.update m.sessions this (f (m.sessions this)) s = _
  by_cases hs : s = this
  · rw [if_pos hs, hs, Function.update_self]
  · rw [if_neg hs, Function.update_of_ne hs]

theorem run_sessions (h : m.run cfg op = some m') (s : SessionRef) :
    m'.sessions s = op.onSession s (m.sessions s) := by
  cases op with
  | setClientId | setConnected | storeClostep | stop | popPedding =>
    rw [← Option.some.inj h]
    exact setSession_apply ..
  | closePedding this =>
    rw [← Option.some.inj h]
    exact setSession_apply this s
      (fun x => { x with peddingChan := { x.peddingChan with closed := true } }) m
  | pushPedding this =>
    rw [run] at h
    -- on a closed channel `Publish` recovers, and nothing has changed
    by_cases hclosed : (m.sessions this).peddingChan.closed = true
    · rw [if_pos hclosed] at h
      rw [← Option.some.inj h, Op.onSession, if_neg]
      rintro ⟨rfl, hopen⟩
      exact absurd hclosed (by rw [hopen]; decide)
    · rw [if_neg hclosed] at h
      by_cases hlen : (m.sessions this).peddingChan.len < cfg.maxSizeOfPublishMsg
      · rw [if_pos hlen] at h
        rw [← Option.some.inj h, setSession_apply, Op.onSession]
        by_cases hs : s = this
        · rw [if_pos hs, if_pos ⟨hs, by rw [hs]; simpa using hclosed⟩]
        · rw [if_neg hs, if_neg fun h => hs h.1]
      · rw [if_neg hlen] at h
        exact absurd h (by simp)
  | add s' subs qoss =>
    rw [run] at h
    cases hadd : TreeSubsMgr.addAll s' subs qoss m.subscriptionMgr with
    | ok tree =>
      rw [hadd] at h
      rw [← Option.some.inj h]
      rfl
    | error e =>
      rw [hadd] at h
      rw [← Option.some.inj h]
      rfl
  | send e =>
    rw [run] at h
    by_cases hclosing : m.closing = none
    · rw [if_pos hclosing] at h
      rw [← Option.some.inj h]
      rfl
    · rw [if_neg hclosing] at h
      exact absurd h (by simp)
  | load | remove | removeSession | takeSession | closeReturned =>
    rw [← Option.some.inj h]
    rfl

theorem run_clientId (h : m.run cfg op = some m') {s : SessionRef}
    (hop : ∀ clientId, op ≠ .setClientId s clientId) :
    (m'.sessions s).clientId = (m.sessions s).clientId := by
  rw [run_sessions h]
  cases op with
  | setClientId this clientId =>
    have hs : s ≠ this := fun hs => hop clientId (by rw [hs])
    rw [Op.onSession, if_neg hs]
  | _ => simp only [Op.onSession] <;> (try split) <;> rfl

theorem run_conn (h : m.run cfg op = some m') (s : SessionRef) :
    (m'.sessions s).channel.conn = (m.sessions s).channel.conn := by
  rw [run_sessions h]
  cases op <;> simp only [Op.onSession] <;> (try split) <;> rfl

theorem run_clostep (h : m.run cfg op = some m') {s : SessionRef}
    (hop : ∀ clostep, op ≠ .storeClostep s clostep) :
    (m'.sessions s).clostep = (m.sessions s).clostep := by
  rw [run_sessions h]
  cases op with
  | storeClostep this clostep =>
    have hs : s ≠ this := fun hs => hop clostep (by rw [hs])
    rw [Op.onSession, if_neg hs]
  | _ => simp only [Op.onSession] <;> (try split) <;> rfl

theorem run_storeClostep {this : SessionRef} {clostep : Clostep}
    (h : m.run cfg (.storeClostep this clostep) = some m') :
    (m'.sessions this).clostep = clostep := by
  rw [run_sessions h, Op.onSession, if_pos rfl]

theorem run_setClientId {this : SessionRef} {clientId : GoString}
    (h : m.run cfg (.setClientId this clientId) = some m') :
    (m'.sessions this).clientId = clientId := by
  rw [run_sessions h, Op.onSession, if_pos rfl]

/-! ## Operations on the rest -/

theorem run_send {e : MgrEvent} (h : m.run cfg (.send e) = some m') :
    m.closing = none ∧ m' = m.serve e := by
  rw [run] at h
  by_cases hclosing : m.closing = none
  · rw [if_pos hclosing] at h
    exact ⟨hclosing, (Option.some.inj h).symm⟩
  · rw [if_neg hclosing] at h
    exact absurd h (by simp)

theorem run_send_mgr {e : MgrEvent} (h : m.run cfg (.send e) = some m') :
    m'.mgr = (m.case e m.mgr).2 := by
  rw [(run_send h).2]
  rfl

theorem run_pushPedding {this : SessionRef} (h : m.run cfg (.pushPedding this) = some m') :
    ∃ f, m' = m.setSession this f := by
  rw [run] at h
  by_cases hclosed : (m.sessions this).peddingChan.closed = true
  · rw [if_pos hclosed] at h
    refine ⟨id, ?_⟩
    rw [← Option.some.inj h, setSession]
    simp
  · rw [if_neg hclosed] at h
    by_cases hlen : (m.sessions this).peddingChan.len < cfg.maxSizeOfPublishMsg
    · rw [if_pos hlen] at h
      exact ⟨_, (Option.some.inj h).symm⟩
    · rw [if_neg hlen] at h
      exact absurd h (by simp)

theorem run_add {this : SessionRef} {subs : List GoString} {qoss : List UInt8}
    (h : m.run cfg (.add this subs qoss) = some m') :
    (∃ tree, TreeSubsMgr.addAll this subs qoss m.subscriptionMgr = .ok tree ∧
        m' = { m with subscriptionMgr := tree }) ∨
      m' = { m with panicked := true } := by
  rw [run] at h
  cases hadd : TreeSubsMgr.addAll this subs qoss m.subscriptionMgr with
  | ok tree =>
    rw [hadd] at h
    exact .inl ⟨tree, rfl, (Option.some.inj h).symm⟩
  | error e =>
    rw [hadd] at h
    exact .inr (Option.some.inj h).symm

/-- An operation that is not handed to the manager leaves its tables alone. -/
theorem run_mgr (h : m.run cfg op = some m') (hop : ∀ e, op ≠ .send e) : m'.mgr = m.mgr := by
  cases op with
  | send e => exact absurd rfl (hop e)
  | pushPedding this =>
    obtain ⟨f, hm⟩ := run_pushPedding h
    rw [hm]
    rfl
  | add this subs qoss =>
    rcases run_add h with ⟨tree, -, hm⟩ | hm
    · rw [hm]
    · rw [hm]
  | _ => exact (congrArg Shared.mgr (Option.some.inj h)).symm

end Shared

/-- What an operation adds to the trace. -/
def Op.events (m : Shared) : Op → List World.Event
  | send e => .served e :: ((m.case e m.mgr).1.map World.Event.closeSession).toList
  | closePedding s => [.closePedding s]
  | closeReturned s => [.closeReturned s]
  | _ => []

/-- What the manager hands over after an operation. -/
def Op.closing (m : Shared) : Op → Option SessionRef
  | send e => (m.case e m.mgr).1
  | takeSession => none
  | _ => m.closing

namespace Shared

variable {cfg : Config} {m m' : Shared} {op : Op}

theorem run_trace (h : m.run cfg op = some m') : m'.trace = m.trace ++ op.events m := by
  cases op with
  | send e =>
    rw [(run_send h).2]
    rfl
  | pushPedding this =>
    obtain ⟨f, hm⟩ := run_pushPedding h
    rw [hm]
    exact (List.append_nil _).symm
  | add this subs qoss =>
    rcases run_add h with ⟨tree, -, hm⟩ | hm
    · rw [hm]
      exact (List.append_nil _).symm
    · rw [hm]
      exact (List.append_nil _).symm
  | closePedding | closeReturned => exact (congrArg Shared.trace (Option.some.inj h)).symm
  | _ =>
    show m'.trace = m.trace ++ []
    rw [List.append_nil]
    exact (congrArg Shared.trace (Option.some.inj h)).symm

theorem mem_trace_closeReturned (h : m.run cfg op = some m') (s : SessionRef) :
    .closeReturned s ∈ m'.trace ↔ .closeReturned s ∈ m.trace ∨ op = .closeReturned s := by
  rw [run_trace h, List.mem_append]
  -- what the operation adds is such an event only for that operation
  apply or_congr_right
  cases op with
  | send e =>
    rw [Op.events]
    cases (m.case e m.mgr).1 <;> simp
  | closeReturned s' => simp [Op.events, eq_comm]
  | _ => simp [Op.events]

theorem mem_trace_closeSession (h : m.run cfg op = some m') (s : SessionRef) :
    .closeSession s ∈ m'.trace ↔
      .closeSession s ∈ m.trace ∨ ∃ e, op = .send e ∧ (m.case e m.mgr).1 = some s := by
  rw [run_trace h, List.mem_append]
  apply or_congr_right
  cases op with
  | send e =>
    rw [Op.events]
    cases hcase : (m.case e m.mgr).1 with
    | none => simp [hcase]
    | some s' => simp [hcase, eq_comm]
  | _ => simp [Op.events]

theorem mem_trace_served (h : m.run cfg op = some m') (e : MgrEvent) :
    .served e ∈ m'.trace ↔ .served e ∈ m.trace ∨ op = .send e := by
  rw [run_trace h, List.mem_append]
  apply or_congr_right
  cases op with
  | send e' =>
    rw [Op.events]
    cases (m.case e' m.mgr).1 <;> simp [eq_comm]
  | _ => simp [Op.events]

theorem run_closing (h : m.run cfg op = some m') : m'.closing = op.closing m := by
  cases op with
  | send e =>
    rw [(run_send h).2]
    rfl
  | pushPedding this =>
    obtain ⟨f, hm⟩ := run_pushPedding h
    rw [hm]
    rfl
  | add this subs qoss =>
    rcases run_add h with ⟨tree, -, hm⟩ | hm
    · rw [hm]
      rfl
    · rw [hm]
      rfl
  | _ => exact (congrArg Shared.closing (Option.some.inj h)).symm

/-- A session comes into the tree by its own `Add` only. -/
theorem run_absent (h : m.run cfg op = some m') {s : SessionRef}
    (hop : ∀ subs qoss, op ≠ .add s subs qoss)
    (habsent : TreeSubsMgr.Absent s m.subscriptionMgr) :
    TreeSubsMgr.Absent s m'.subscriptionMgr := by
  cases op with
  | add this subs qoss =>
    have hne : s ≠ this := fun hs => hop subs qoss (by rw [hs])
    rcases run_add h with ⟨tree, htree, hm⟩ | hm
    · rw [hm]
      exact habsent.addAll hne subs htree
    · rw [hm]
      exact habsent
  | remove this subs =>
    rw [← Option.some.inj h]
    exact habsent.foldl_del subs
  | removeSession this =>
    rw [← Option.some.inj h]
    exact habsent.removeSession this
  | pushPedding this =>
    obtain ⟨f, hm⟩ := run_pushPedding h
    rw [hm]
    exact habsent
  | send e =>
    rw [(run_send h).2]
    exact habsent
  | _ => exact (congrArg Shared.subscriptionMgr (Option.some.inj h)) ▸ habsent

theorem run_removeSession {s : SessionRef} (h : m.run cfg (.removeSession s) = some m') :
    TreeSubsMgr.Absent s m'.subscriptionMgr := by
  rw [← Option.some.inj h]
  exact TreeSubsMgr.absent_removeSession s m.subscriptionMgr

end Shared

/-! ## Steps of goroutines -/

namespace World

variable {cfg : Config} {t : Turn} {w w' : World} {op : Op} {g : Goroutines}

theorem step_spec (h : step cfg t w = some w') :
    w.panicked = false ∧
      ∃ op, next t w = some (op, w'.toGoroutines) ∧ w.run cfg op = some w'.toShared := by
  unfold step at h
  by_cases hpanicked : w.panicked = true
  · rw [if_pos hpanicked] at h
    exact absurd h (by simp)
  rw [if_neg hpanicked] at h
  obtain ⟨⟨op, g⟩, hnext, h⟩ := Option.bind_eq_some_iff.mp h
  obtain ⟨m, hrun, hw⟩ := Option.map_eq_some_iff.mp h
  subst hw
  exact ⟨by simpa using hpanicked, op, hnext, hrun⟩

/-- A turn, its operation, and where all goroutines are afterwards. -/
inductive Move (w : World) : Turn → Op → Goroutines → Prop
  | accept (s : SessionRef) : w.recv s = .idle →
      Move w (.handleConnection s) (.send (.insertSession s)) (w.setRecv s .reading)
  | packet (s : SessionRef) (p : { p : ControlPacket // Decoded p }) : w.recv s = .reading →
      Move w (.recvPacket s p) .load (w.setRecv s (.read p.1))
  | error (s : SessionRef) : w.recv s = .reading →
      Move w (.recvError s) .load (w.setRecv s .failed)
  | recv (s : SessionRef) {subs : List SessionRef} {full : Bool} {op : Op} {r : Recv} :
      (w.recv s).next w.toShared s subs full = some (op, r) →
        Move w (.recv s subs full) op (w.setRecv s r)
  | sendRound (s : SessionRef) {written room : Bool} {op : Op} :
      op = .load ∨ op = .popPedding s ∨ op = .stop s →
        Move w (.sendRound s written room) op w.toGoroutines
  | publish (s : SessionRef) : Move w (.publish s) (.pushPedding s) w.toGoroutines
  | getAllSessions (waitingOrder : RangeOrder ConnRef SessionRef)
      (connectedOrder : RangeOrder GoString SessionRef) : w.ticker = .waiting → w.closing = none →
      Move w (.getAllSessions waitingOrder connectedOrder) .load { w.toGoroutines with
        ticker := .visit (w.mgr.getAllSessions waitingOrder connectedOrder) }
  | tick {timedOut room : Bool} {op : Op} {t : Ticker} :
      w.ticker.next w.toShared timedOut room = some (op, t) →
        Move w (.tick timedOut room) op { w.toGoroutines with ticker := t }
  | closer {op : Op} {c : Closer} : w.closer.next w.toShared w.recv = some (op, c) →
      Move w .closer op { w.toGoroutines with closer := c }

theorem next_move (h : next t w = some (op, g)) : Move w t op g := by
  cases t with
  | handleConnection s =>
    rw [next] at h
    cases hr : w.recv s with
    | idle =>
      rw [hr] at h
      cases h
      exact .accept s hr
    | _ =>
      rw [hr] at h
      exact absurd h (by simp)
  | recvPacket s p =>
    rw [next] at h
    cases hr : w.recv s with
    | reading =>
      rw [hr] at h
      cases h
      exact .packet s p hr
    | _ =>
      rw [hr] at h
      exact absurd h (by simp)
  | recvError s =>
    rw [next] at h
    cases hr : w.recv s with
    | reading =>
      rw [hr] at h
      cases h
      exact .error s hr
    | _ =>
      rw [hr] at h
      exact absurd h (by simp)
  | recv s subs full =>
    obtain ⟨⟨op', r⟩, hr, hrg⟩ := Option.map_eq_some_iff.mp h
    cases hrg
    exact .recv s hr
  | sendRound s written room =>
    -- what `sendRun` does after its write
    have hop : ∀ op : Op, op = (if written then
        if (w.sessions s).clostep = .running ∧ room then .popPedding s else .load
        else .stop s) →
        op = .load ∨ op = .popPedding s ∨ op = .stop s := by
      rintro op rfl
      split
      · split
        · exact .inr (.inl rfl)
        · exact .inl rfl
      · exact .inr (.inr rfl)
    rw [next] at h
    cases hr : w.recv s with
    | idle =>
      rw [hr] at h
      exact absurd h (by simp)
    | _ =>
      rw [hr] at h
      cases h
      exact .sendRound s (hop _ rfl)
  | publish s =>
    cases h
    exact .publish s
  | getAllSessions waitingOrder connectedOrder =>
    rw [next] at h
    cases ht : w.ticker with
    | waiting =>
      cases hc : w.closing with
      | none =>
        rw [ht, hc] at h
        cases h
        exact .getAllSessions waitingOrder connectedOrder ht hc
      | some s =>
        rw [ht, hc] at h
        exact absurd h (by simp)
    | _ =>
      rw [ht] at h
      exact absurd h (by simp)
  | tick timedOut room =>
    obtain ⟨⟨op', t⟩, ht, htg⟩ := Option.map_eq_some_iff.mp h
    cases htg
    exact .tick ht
  | closer =>
    obtain ⟨⟨op', c⟩, hc, hcg⟩ := Option.map_eq_some_iff.mp h
    cases hcg
    exact .closer hc

/-- A step is a move of some goroutine whose operation does not have to wait. -/
theorem step_move (h : step cfg t w = some w') :
    w.panicked = false ∧ ∃ op, next t w = some (op, w'.toGoroutines) ∧
      Move w t op w'.toGoroutines ∧ w.run cfg op = some w'.toShared := by
  obtain ⟨hpanicked, op, hnext, hrun⟩ := step_spec h
  exact ⟨hpanicked, op, hnext, next_move hnext, hrun⟩

end World

/-! ## Reports -/

/-- A goroutine that reports: the receive loop of a session, or the ticker. -/
inductive Reporter
  | loop (s : SessionRef)
  | ticker
deriving DecidableEq

def Recv.reporting (s : SessionRef) : Recv → Option (SessionRef × Report × Stage)
  | report k stage _ => some (s, k, stage)
  | _ => none

def Ticker.reporting : Ticker → Option (SessionRef × Report × Stage)
  | report s k stage _ => some (s, k, stage)
  | _ => none

/-- The report that a goroutine is making: the session, which it is, and how far. -/
def Goroutines.reporting (g : Goroutines) : Reporter → Option (SessionRef × Report × Stage)
  | .loop s => (g.recv s).reporting s
  | .ticker => g.ticker.reporting

/-- A receive loop reports its own session. -/
theorem Recv.eq_of_reporting {r : Recv} {s s' : SessionRef} {k : Report} {stage : Stage}
    (h : r.reporting s = some (s', k, stage)) : s' = s ∧ ∃ last, r = .report k stage last := by
  cases r with
  | report k' stage' last =>
    cases h
    exact ⟨rfl, last, rfl⟩
  | _ => cases h

/-- A report of a session is made by its own receive loop or by the ticker. -/
theorem Goroutines.mem_reporters {g : Goroutines} {who : Reporter} {s : SessionRef} {k : Report}
    {stage : Stage} (h : g.reporting who = some (s, k, stage)) :
    who ∈ [Reporter.loop s, .ticker] := by
  cases who with
  | ticker => simp
  | loop s' => simp [(Recv.eq_of_reporting h).1]

/-- The operations that reports consist of, loads apart; nothing stores 0 in `clostep`. -/
def Op.isReport : Op → Bool
  | removeSession _ | storeClostep _ .running | storeClostep _ .closing | send (.disconnect _)
  | send (.pingTimeout _) | send (.connectTimeout _) => true
  | _ => false

/-- The operations that only the closer makes. -/
def Op.isClose : Op → Bool
  | takeSession | storeClostep _ .closed | closePedding _ | closeReturned _ => true
  | _ => false

/-- How a goroutine's report goes on with an operation. -/
inductive ReportMove (m : Shared) :
    Option (SessionRef × Report × Stage) → Op → Option (SessionRef × Report × Stage) → Prop
  /-- The operation has nothing to do with it. -/
  | other {r : Option (SessionRef × Report × Stage)} {op : Op} :
      op.isReport = false → ReportMove m r op r
  | start (s : SessionRef) (k : Report) : ReportMove m none .load (some (s, k, .load))
  /-- The check of `clostep` lets the report go on. -/
  | pass {s : SessionRef} (k : Report) : (m.sessions s).clostep = .running →
      ReportMove m (some (s, k, .load)) .load (some (s, k, .removeSession))
  | drop {s : SessionRef} (k : Report) : (m.sessions s).clostep ≠ .running →
      ReportMove m (some (s, k, .load)) .load none
  | removeSession (s : SessionRef) (k : Report) :
      ReportMove m (some (s, k, .removeSession)) (.removeSession s) (some (s, k, .store))
  | store (s : SessionRef) (k : Report) :
      ReportMove m (some (s, k, .store)) (.storeClostep s .closing) (some (s, k, .send))
  | send (s : SessionRef) (k : Report) :
      ReportMove m (some (s, k, .send)) (.send (k.event s)) none

/-- One operation of a report. -/
theorem Report.next_move (m : Shared) (s : SessionRef) (k : Report) (stage : Stage) :
    ReportMove m (some (s, k, stage)) (k.next m s stage).1
      ((k.next m s stage).2.map fun stage => (s, k, stage)) := by
  cases stage with
  | load =>
    by_cases hrunning : (m.sessions s).clostep = .running
    · rw [Report.next, if_pos hrunning]
      exact .pass k hrunning
    · rw [Report.next, if_neg hrunning]
      exact .drop k hrunning
  | removeSession => exact .removeSession s k
  | store => exact .store s k
  | send => exact .send s k

theorem Recv.reporting_afterReport (s : SessionRef) (k : Report) (last : Bool)
    (stage : Option Stage) :
    (Recv.afterReport k last stage).reporting s = stage.map fun stage => (s, k, stage) := by
  cases stage with
  | none => cases last <;> rfl
  | some stage => rfl

theorem Ticker.reporting_afterReport (s : SessionRef) (k : Report) (rest : List SessionRef)
    (stage : Option Stage) :
    (Ticker.afterReport s k rest stage).reporting = stage.map fun stage => (s, k, stage) := by
  cases stage with
  | none => rfl
  | some stage => rfl

theorem Recv.next_handle {m : Shared} {s : SessionRef} {subs : List SessionRef} {full : Bool}
    {p : ControlPacket} {r' : Recv} {op : Op} (h : (handle p).next m s subs full = some (op, r')) :
    (procFrontRemoteMsg m s subs (!full) p).1 = op ∧
      (procFrontRemoteMsg m s subs (!full) p).2 = r' := by
  have hp : procFrontRemoteMsg m s subs (!full) p = (op, r') := Option.some.inj h
  rw [hp]
  exact ⟨rfl, rfl⟩

/-- `procFrontRemoteMsg` begins a report for a DISCONNECT. -/
theorem Recv.procFrontRemoteMsg_reports (m : Shared) (s : SessionRef) (subs : List SessionRef)
    (room : Bool) (p : ControlPacket) :
    ReportMove m none (procFrontRemoteMsg m s subs room p).1
      ((procFrontRemoteMsg m s subs room p).2.reporting s) := by
  cases p with
  | disconnect => exact .start s .disconnected
  | connect msg =>
    rw [procFrontRemoteMsg]
    split
    · exact .other rfl
    · exact .other rfl
  | puback | pubcomp | suback | unsuback => cases room <;> exact .other rfl
  | _ => exact .other rfl

theorem Recv.next_reports {m : Shared} {s : SessionRef} {subs : List SessionRef} {full : Bool}
    {r r' : Recv} {op : Op} (h : r.next m s subs full = some (op, r')) :
    ReportMove m (r.reporting s) op (r'.reporting s) := by
  cases r with
  | idle | reading | exited => exact absurd h (by simp [Recv.next])
  | read p =>
    cases h
    split <;> exact .other rfl
  -- a report begins here only with a DISCONNECT
  | handle p =>
    obtain ⟨rfl, rfl⟩ := next_handle h
    exact procFrontRemoteMsg_reports m s subs (!full) p
  | forward rest =>
    cases rest with
    | nil =>
      cases h
      exact .other rfl
    | cons v rest =>
      cases h
      split <;> exact .other rfl
  | publish v rest =>
    cases h
    split
    · exact .other rfl
    · split <;> exact .other rfl
  | failed =>
    cases h
    exact .start s _
  | report k stage last =>
    cases h
    rw [reporting_afterReport]
    exact Report.next_move m s k stage
  | takeOver | register | acknowledge | connack | pedding =>
    cases h
    exact .other rfl

theorem Ticker.next_reports {m : Shared} {timedOut room : Bool} {t t' : Ticker} {op : Op}
    (h : t.next m timedOut room = some (op, t')) :
    ReportMove m t.reporting op t'.reporting := by
  cases t with
  | waiting => exact absurd h (by simp [Ticker.next])
  | visit rest =>
    cases rest with
    | nil =>
      cases h
      exact .other rfl
    | cons s rest =>
      cases h
      split
      · exact .other rfl
      · split <;> exact .other rfl
  | expired s rest =>
    cases h
    exact .start s _
  | report s k stage rest =>
    cases h
    rw [reporting_afterReport]
    exact Report.next_move m s k stage
  | refill s rest =>
    cases h
    cases room <;> exact .other rfl

theorem Report.next_isClose (m : Shared) (s : SessionRef) (k : Report) (stage : Stage) :
    (k.next m s stage).1.isClose = false := by
  cases stage <;> rfl

theorem Recv.next_isClose {m : Shared} {s : SessionRef} {subs : List SessionRef} {full : Bool}
    {r r' : Recv} {op : Op} (h : r.next m s subs full = some (op, r')) : op.isClose = false := by
  cases r with
  | idle | reading | exited => exact absurd h (by simp [Recv.next])
  | handle p =>
    obtain ⟨rfl, -⟩ := next_handle h
    cases p with
    | connect msg =>
      rw [procFrontRemoteMsg]
      split <;> rfl
    | puback | pubcomp | suback | unsuback => cases full <;> rfl
    | _ => rfl
  | forward rest => cases rest <;> cases h <;> rfl
  | report k stage last =>
    cases h
    exact Report.next_isClose m s k stage
  | read | publish | failed | takeOver | register | acknowledge | connack | pedding =>
    cases h
    rfl

theorem Ticker.next_isClose {m : Shared} {timedOut room : Bool} {t t' : Ticker} {op : Op}
    (h : t.next m timedOut room = some (op, t')) : op.isClose = false := by
  cases t with
  | waiting => exact absurd h (by simp [Ticker.next])
  | visit rest => cases rest <;> cases h <;> rfl
  | report s k stage rest =>
    cases h
    exact Report.next_isClose m s k stage
  | expired s rest =>
    cases h
    rfl
  | refill s rest =>
    cases h
    cases room <;> rfl

/-! ## The closer -/

/-- How the closer goes on with an operation. -/
inductive CloserMove (m : Shared) (recv : SessionRef → Recv) : Closer → Op → Closer → Prop
  | take {s : SessionRef} : m.closing = some s → CloserMove m recv .idle .takeSession (.load s)
  | pass {s : SessionRef} : (m.sessions s).clostep ≠ .closed →
      CloserMove m recv (.load s) .load (.store s)
  | skip {s : SessionRef} : (m.sessions s).clostep = .closed →
      CloserMove m recv (.load s) .load (.done s)
  | store (s : SessionRef) :
      CloserMove m recv (.store s) (.storeClostep s .closed) (.closePedding s)
  | closePedding (s : SessionRef) :
      CloserMove m recv (.closePedding s) (.closePedding s) (.loadStoped s)
  /-- The send loop has stopped the channel, and nothing waits for the receive loop. -/
  | stoped {s : SessionRef} : (m.sessions s).channel.isStoped = true →
      CloserMove m recv (.loadStoped s) .load (.done s)
  | running {s : SessionRef} : (m.sessions s).channel.isStoped = false →
      CloserMove m recv (.loadStoped s) .load (.stop s)
  | stop (s : SessionRef) : CloserMove m recv (.stop s) (.stop s) (.wait s)
  | waited {s : SessionRef} : (recv s).stoped = true → CloserMove m recv (.wait s) .load (.done s)
  | done (s : SessionRef) : CloserMove m recv (.done s) (.closeReturned s) .idle

theorem Closer.next_move {m : Shared} {recv : SessionRef → Recv} {c c' : Closer} {op : Op}
    (h : c.next m recv = some (op, c')) : CloserMove m recv c op c' := by
  cases c with
  | idle =>
    obtain ⟨s, hclosing, hs⟩ := Option.map_eq_some_iff.mp h
    cases hs
    exact .take hclosing
  | load s =>
    cases h
    by_cases hclosed : (m.sessions s).isClosed
    · rw [if_pos hclosed]
      exact .skip hclosed
    · rw [if_neg hclosed]
      exact .pass hclosed
  | loadStoped s =>
    cases h
    by_cases hstoped : (m.sessions s).channel.isStoped = true
    · rw [if_pos hstoped]
      exact .stoped hstoped
    · rw [if_neg hstoped]
      exact .running (by simpa using hstoped)
  | wait s =>
    rw [Closer.next] at h
    by_cases hstoped : (recv s).stoped = true
    · rw [if_pos hstoped] at h
      cases h
      exact .waited hstoped
    · rw [if_neg hstoped] at h
      exact absurd h (by simp)
  | store s =>
    cases h
    exact .store s
  | closePedding s =>
    cases h
    exact .closePedding s
  | stop s =>
    cases h
    exact .stop s
  | done s =>
    cases h
    exact .done s

theorem CloserMove.isReport {m : Shared} {recv : SessionRef → Recv} {c c' : Closer} {op : Op}
    (h : CloserMove m recv c op c') : op.isReport = false := by
  cases h <;> rfl

namespace World

variable {cfg : Config} {t : Turn} {w w' : World} {op : Op} {g : Goroutines}

theorem reporting_setRecv_self (s : SessionRef) (r : Recv) (w : World) :
    (w.setRecv s r).reporting (.loop s) = r.reporting s := by
  show ((w.setRecv s r).recv s).reporting s = _
  rw [setRecv_self]

theorem reporting_setRecv_of_ne {s : SessionRef} (r : Recv) (w : World) {who : Reporter}
    (hwho : who ≠ .loop s) : (w.setRecv s r).reporting who = w.reporting who := by
  cases who with
  | ticker => rfl
  | loop s' =>
    have hs : s' ≠ s := fun hs => hwho (by rw [hs])
    show ((w.setRecv s r).recv s').reporting s' = _
    rw [setRecv_of_ne r w hs]
    rfl

/-- The goroutine that a turn is of, if it is one that reports. -/
def reporter : Turn → Option Reporter
  | .recv s _ _ => some (.loop s)
  | .tick _ _ => some .ticker
  | _ => none

/-- A step moves the report of the goroutine whose turn it is, or none. -/
theorem Move.reports (h : Move w t op g) :
    (∃ who, reporter t = some who ∧ (∀ who' ≠ who, g.reporting who' = w.reporting who') ∧
        ReportMove w.toShared (w.reporting who) op (g.reporting who)) ∨
      op.isReport = false ∧ ∀ who, g.reporting who = w.reporting who := by
  -- a receive loop that reports nothing before and after leaves all reports alone
  have hrecv : ∀ (s : SessionRef) (r : Recv), (w.recv s).reporting s = r.reporting s →
      ∀ who, (w.setRecv s r).reporting who = w.reporting who := by
    intro s r hr who
    by_cases hwho : who = .loop s
    · rw [hwho, reporting_setRecv_self]
      exact hr.symm
    · exact reporting_setRecv_of_ne r w hwho
  cases h with
  | accept s hr =>
    refine .inr ⟨rfl, hrecv s _ ?_⟩
    rw [hr]
    rfl
  | packet s p hr =>
    refine .inr ⟨rfl, hrecv s _ ?_⟩
    rw [hr]
    rfl
  | error s hr =>
    refine .inr ⟨rfl, hrecv s _ ?_⟩
    rw [hr]
    rfl
  | recv s hr =>
    refine .inl ⟨.loop s, rfl, fun who' hwho => reporting_setRecv_of_ne _ w hwho, ?_⟩
    rw [reporting_setRecv_self]
    exact Recv.next_reports hr
  | sendRound s hop =>
    refine .inr ⟨?_, fun _ => rfl⟩
    rcases hop with rfl | rfl | rfl <;> rfl
  | publish s => exact .inr ⟨rfl, fun _ => rfl⟩
  -- the ticker makes no report while it waits
  | getAllSessions waitingOrder connectedOrder ht hc =>
    refine .inr ⟨rfl, fun who => ?_⟩
    cases who with
    | loop s => rfl
    | ticker =>
      show _ = w.ticker.reporting
      rw [ht]
      rfl
  | tick ht =>
    refine .inl ⟨.ticker, rfl, fun who' hwho => ?_, Ticker.next_reports ht⟩
    cases who' with
    | ticker => exact absurd rfl hwho
    | loop s => rfl
  | closer hc =>
    refine .inr ⟨(Closer.next_move hc).isReport, fun who => ?_⟩
    cases who with
    | ticker => rfl
    | loop s => rfl

/-- What the closer does is its own, and moves nothing else. -/
theorem Move.closer_cases (h : Move w t op g) :
    (t = .closer ∧ CloserMove w.toShared w.recv w.closer op g.closer ∧ g.recv = w.recv ∧
        g.ticker = w.ticker) ∨
      g.closer = w.closer ∧ op.isClose = false := by
  cases h with
  | closer hc => exact .inl ⟨rfl, Closer.next_move hc, rfl, rfl⟩
  | recv s hr => exact .inr ⟨rfl, Recv.next_isClose hr⟩
  | tick ht => exact .inr ⟨rfl, Ticker.next_isClose ht⟩
  | sendRound s hop =>
    refine .inr ⟨rfl, ?_⟩
    rcases hop with rfl | rfl | rfl <;> rfl
  | accept | packet | error | publish | getAllSessions => exact .inr ⟨rfl, rfl⟩

/-! ## Who stores `clostep` -/

/-- `closed` is stored by the closer at its place in `Close`. -/
theorem Move.store_closed {s : SessionRef} (h : Move w t (.storeClostep s .closed) g) :
    t = .closer ∧ w.closer = .store s := by
  rcases h.closer_cases with ⟨ht, hm, -, -⟩ | ⟨-, hop⟩
  · refine ⟨ht, ?_⟩
    -- the places become variables, so that the move can be taken apart by cases
    generalize w.closer = c at hm
    generalize g.closer = c' at hm
    cases hm with
    | store => rfl
  · exact absurd hop (by simp [Op.isClose])

/-- `closing` is stored by a report at its place. -/
theorem Move.store_closing {s : SessionRef} (h : Move w t (.storeClostep s .closing) g) :
    ∃ who k, w.reporting who = some (s, k, .store) := by
  rcases h.reports with ⟨who, -, -, hm⟩ | ⟨hop, -⟩
  · generalize hbefore : w.reporting who = r at hm
    generalize g.reporting who = r' at hm
    cases hm with
    | other hop => exact absurd hop (by simp [Op.isReport])
    | store _ k => exact ⟨who, k, hbefore⟩
  · exact absurd hop (by simp [Op.isReport])

/-- `running` is never stored. -/
theorem Move.store_ne_running {s : SessionRef} : ¬ Move w t (.storeClostep s .running) g := by
  intro h
  rcases h.reports with ⟨who, -, -, hm⟩ | ⟨hop, -⟩
  · generalize w.reporting who = r at hm
    generalize g.reporting who = r' at hm
    cases hm with
    | other hop => exact absurd hop (by simp [Op.isReport])
  · exact absurd hop (by simp [Op.isReport])

/-- A session that is not running any more never is again. -/
theorem Move.clostep_ne_running (h : Move w t op g) {m : Shared} {s : SessionRef}
    (hrun : w.run cfg op = some m) (hne : (w.sessions s).clostep ≠ .running) :
    (m.sessions s).clostep ≠ .running := by
  by_cases hstore : ∃ c, op = .storeClostep s c
  · obtain ⟨c, rfl⟩ := hstore
    rw [Shared.run_storeClostep hrun]
    rintro rfl
    exact h.store_ne_running
  · rw [Shared.run_clostep hrun fun c hc => hstore ⟨c, hc⟩]
    exact hne

end World
end MqttBroker

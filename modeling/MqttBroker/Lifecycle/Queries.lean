import MqttBroker.Lib.HeldBy
import MqttBroker.Lifecycle.World

/-!
# Queries to the manager

`GetSessions`, `getActiveSessions` and `getAllSesssions` send a request on one unbuffered
channel and then receive the reply on another. The manager takes a request at its `select`
and answers it: the two lists of sessions with a send that waits for a receiver, the
`SessionList` with one that does not. A caller that has not come to its receive yet when
the manager tries is not answered, and nothing answers it later.

Between the operations of the queries, the operations of all other goroutines come in any
order; they see the manager only in that it serves no event while it has a reply to send.
-/

namespace MqttBroker

inductive Query
  | getSessions
  | getActiveSessions
  | getAllSesssions
deriving DecidableEq

/-- `SessionList`. -/
structure SessionList where
  active : List GoString := []
  inactive : List GoString := []
deriving DecidableEq

/-- What comes on a result channel. -/
inductive Answer
  | list (l : SessionList)
  | sessions (l : List SessionRef)
deriving DecidableEq

/-- The answer that a case of `sessionMgr.run` puts together, ranging over the two maps. -/
def Shared.answer (m : Shared) (waitingOrder : RangeOrder ConnRef SessionRef)
    (connectedOrder : RangeOrder GoString SessionRef) : Query → Answer
  | .getSessions =>
    .list {
      active := (connectedOrder.toList m.mgr.connectedSessionMap).map fun v =>
        (m.sessions v.2).clientId
      inactive := (waitingOrder.toList m.mgr.waitingConnectSessionMap).map fun v =>
        (m.sessions v.2).clientId }
  | .getActiveSessions =>
    .sessions ((connectedOrder.toList m.mgr.connectedSessionMap).map Sigma.snd)
  | .getAllSesssions => .sessions (m.mgr.getAllSessions waitingOrder connectedOrder)

/-- A send to the manager. -/
def Op.isSend : Op → Bool
  | .send _ => true
  | _ => false

namespace Queries

/-- Where a call is: at its request, past it, at its receive, or over. -/
inductive Caller
  | sending (q : Query)
  | sent (q : Query)
  | receiving (q : Query)
  | returned (a : Answer)
deriving DecidableEq

/-- The request was taken, and the reply has not come. -/
def Caller.asks (q : Query) : Caller → Bool
  | sent q' | receiving q' => q' = q
  | _ => false

/-- What the manager did with requests: for the statements about runs, read by no function. -/
inductive Event
  | taken (q : Query)
  | delivered (q : Query) (i : ℕ)
  | discarded (q : Query)
deriving DecidableEq

def Event.isDelivered (q : Query) : Event → Bool
  | delivered q' _ => q' = q
  | _ => false

end Queries

/-- The manager with the reply that it is about to send, if any, and the calls. The events
come latest first. -/
structure Queries where
  shared : Shared
  replying : Option (Query × Answer) := none
  callers : List Queries.Caller := []
  log : List Queries.Event := []

namespace Queries

/-- Whose turn it is. -/
inductive Turn
  /-- A goroutine calls one of the three methods. -/
  | call (q : Query)
  /-- The manager takes the request of a call. -/
  | take (i : ℕ) (waitingOrder : RangeOrder ConnRef SessionRef)
    (connectedOrder : RangeOrder GoString SessionRef)
  /-- A call comes to its receive. -/
  | receive (i : ℕ)
  /-- The manager's reply goes to a call that receives. -/
  | reply (i : ℕ)
  /-- The `default` of the manager's second `select`: no call receives. -/
  | discard
  /-- Another goroutine does its next operation. -/
  | other (o : Op)

variable (cfg : Config)

def step : Turn → Queries → Option Queries
  | .call q, s => some { s with callers := s.callers ++ [.sending q] }
  | .take i waitingOrder connectedOrder, s =>
    match s.callers[i]? with
    | some (.sending q) =>
      if s.shared.closing = none ∧ s.replying = none then
        some { s with
          replying := some (q, s.shared.answer waitingOrder connectedOrder q)
          callers := s.callers.set i (.sent q)
          log := .taken q :: s.log }
      else none
    | _ => none
  | .receive i, s =>
    match s.callers[i]? with
    | some (.sent q) => some { s with callers := s.callers.set i (.receiving q) }
    | _ => none
  | .reply i, s =>
    match s.replying with
    | some (q, a) =>
      if s.callers[i]? = some (.receiving q) then
        some { s with
          replying := none
          callers := s.callers.set i (.returned a)
          log := .delivered q i :: s.log }
      else none
    | none => none
  | .discard, s =>
    match s.replying with
    | some (.getSessions, _) =>
      if .receiving .getSessions ∈ s.callers then none
      else some { s with replying := none, log := .discarded .getSessions :: s.log }
    | _ => none
  | .other o, s =>
    if o.isSend = true ∧ s.replying ≠ none then none
    else (s.shared.run cfg o).map fun shared => { s with shared }

/-- The manager at its `select`, in any state of the sessions, and no call. -/
def system : StepSystem Queries Turn where
  init s := s.replying = none ∧ s.callers = [] ∧ s.log = []
  step := step cfg

/-! ## Requests and replies -/

/-- One while the manager has a reply to a query of this kind. -/
def owed (q : Query) (s : Queries) : ℕ := if s.replying.map Prod.fst = some q then 1 else 0

/-- Every request that was taken has been answered, the one that the manager is at apart, and
no other call waits for its answer. -/
structure Answered (s : Queries) : Prop where
  delivered : ∀ q, s.log.count (.taken q) = s.log.countP (Event.isDelivered q) + s.owed q
  waits : ∀ q, s.callers.countP (Caller.asks q) = s.owed q

/-- When the manager tries to send a `SessionList`, some call of `GetSessions` receives. -/
def FindsReceiver (s : Queries) : Turn → Prop
  | .discard => s.replying.map Prod.fst = some .getSessions → .receiving .getSessions ∈ s.callers
  | _ => True

theorem owed_eq_zero {s : Queries} (h : s.replying = none) (q : Query) : s.owed q = 0 := by
  rw [owed, h]
  rfl

variable {cfg} {s s' : Queries}

theorem Answered.asks_set {i : ℕ} {c : Caller} (hs : Answered s) (hi : s.callers[i]? = some c)
    (c' : Caller) (q : Query) :
    (s.callers.set i c').countP (Caller.asks q) + (c.asks q).toNat =
      s.owed q + (c'.asks q).toNat := by
  obtain ⟨hlt, rfl⟩ := List.getElem?_eq_some_iff.mp hi
  rw [List.countP_set_add hlt, hs.waits q]

theorem step_take {i : ℕ} {waitingOrder : RangeOrder ConnRef SessionRef}
    {connectedOrder : RangeOrder GoString SessionRef}
    (h : step cfg (.take i waitingOrder connectedOrder) s = some s') :
    ∃ q, s.callers[i]? = some (.sending q) ∧ s.replying = none ∧
      s'.replying = some (q, s.shared.answer waitingOrder connectedOrder q) ∧
      s'.callers = s.callers.set i (.sent q) ∧ s'.log = .taken q :: s.log := by
  rw [step] at h
  split at h
  · next q hi =>
    split at h
    · next hfree =>
      obtain rfl := Option.some.inj h
      exact ⟨q, hi, hfree.2, rfl, rfl, rfl⟩
    · exact absurd h (by simp)
  · exact absurd h (by simp)

theorem step_receive {i : ℕ} (h : step cfg (.receive i) s = some s') :
    ∃ q, s.callers[i]? = some (.sent q) ∧
      s' = { s with callers := s.callers.set i (.receiving q) } := by
  rw [step] at h
  split at h
  · next q hi => exact ⟨q, hi, (Option.some.inj h).symm⟩
  · exact absurd h (by simp)

theorem step_reply {i : ℕ} (h : step cfg (.reply i) s = some s') :
    ∃ q a, s.replying = some (q, a) ∧ s.callers[i]? = some (.receiving q) ∧
      s'.replying = none ∧ s'.callers = s.callers.set i (.returned a) ∧
      s'.log = .delivered q i :: s.log := by
  rw [step] at h
  split at h
  · next q a hreply =>
    split at h
    · next hi =>
      obtain rfl := Option.some.inj h
      exact ⟨q, a, hreply, hi, rfl, rfl, rfl⟩
    · exact absurd h (by simp)
  · exact absurd h (by simp)

theorem step_discard (h : step cfg .discard s = some s') :
    s.replying.map Prod.fst = some .getSessions ∧ .receiving .getSessions ∉ s.callers ∧
      s' = { s with replying := none, log := .discarded .getSessions :: s.log } := by
  rw [step] at h
  split at h
  · next a hreply =>
    split at h
    · exact absurd h (by simp)
    · next hnone => exact ⟨by rw [hreply]; rfl, hnone, (Option.some.inj h).symm⟩
  · exact absurd h (by simp)

theorem owed_of_replying {q : Query} {a : Answer} (h : s.replying = some (q, a)) (q' : Query) :
    s.owed q' = if q = q' then 1 else 0 := by
  rw [owed, h]
  simp

theorem Answered.take {i : ℕ} {waitingOrder : RangeOrder ConnRef SessionRef}
    {connectedOrder : RangeOrder GoString SessionRef} (hs : Answered s)
    (h : step cfg (.take i waitingOrder connectedOrder) s = some s') : Answered s' := by
  obtain ⟨q, hi, hfree, hreply, hcallers, hlog⟩ := step_take h
  have hnew := owed_of_replying hreply
  constructor
  · intro q'
    have hbefore := hs.delivered q'
    rw [owed_eq_zero hfree] at hbefore
    rw [hnew, hlog, List.count_cons, List.countP_cons, hbefore]
    simp [Event.isDelivered]
  · intro q'
    have hbefore := hs.asks_set hi (.sent q) q'
    rw [owed_eq_zero hfree] at hbefore
    rw [hnew, hcallers]
    by_cases hq : q = q'
    · simpa [Caller.asks, hq] using hbefore
    · simpa [Caller.asks, hq] using hbefore

theorem Answered.receive {i : ℕ} (hs : Answered s) (h : step cfg (.receive i) s = some s') :
    Answered s' := by
  obtain ⟨q, hi, rfl⟩ := step_receive h
  refine ⟨hs.delivered, fun q' => ?_⟩
  exact Nat.add_right_cancel (hs.asks_set hi (.receiving q) q')

theorem Answered.reply {i : ℕ} (hs : Answered s) (h : step cfg (.reply i) s = some s') :
    Answered s' := by
  obtain ⟨q, a, hreply, hi, hnone, hcallers, hlog⟩ := step_reply h
  have hold := owed_of_replying hreply
  constructor
  · intro q'
    have hbefore := hs.delivered q'
    rw [hold] at hbefore
    rw [owed_eq_zero hnone, hlog, List.count_cons, List.countP_cons, hbefore]
    simp [Event.isDelivered]
  · intro q'
    have hbefore := hs.asks_set hi (.returned a) q'
    rw [hold] at hbefore
    rw [owed_eq_zero hnone, hcallers]
    by_cases hq : q = q'
    · simpa [Caller.asks, hq] using hbefore
    · simpa [Caller.asks, hq] using hbefore

theorem answered_step {t : Turn} (hs : Answered s) (hok : FindsReceiver s t)
    (h : step cfg t s = some s') : Answered s' := by
  cases t with
  | call q =>
    obtain rfl := Option.some.inj h
    refine ⟨hs.delivered, fun q' => ?_⟩
    rw [List.countP_append, hs.waits q']
    rfl
  | take i waitingOrder connectedOrder => exact hs.take h
  | receive i => exact hs.receive h
  | reply i => exact hs.reply h
  | discard =>
    obtain ⟨hreply, hnone, -⟩ := step_discard h
    exact absurd (hok hreply) hnone
  | other o =>
    rw [step] at h
    split at h
    · exact absurd h (by simp)
    · obtain ⟨shared, -, rfl⟩ := Option.map_eq_some_iff.mp h
      exact ⟨hs.delivered, hs.waits⟩

/-- The step that answers nobody is the one that breaks the accounts. -/
theorem answered_iff_findsReceiver (t : Turn) (hs : Answered s) :
    FindsReceiver s t ↔ ∀ s', step cfg t s = some s' → Answered s' := by
  refine ⟨fun hok s' h => answered_step hs hok h, fun hall => ?_⟩
  cases t with
  | discard =>
    intro hreply
    by_contra hnone
    obtain ⟨⟨q, a⟩, hsome, hq⟩ := Option.map_eq_some_iff.mp hreply
    obtain rfl : q = .getSessions := hq
    have hstep : step cfg .discard s =
        some { s with replying := none, log := .discarded .getSessions :: s.log } := by
      rw [step, hsome]
      exact if_neg hnone
    have hafter := (hall _ hstep).waits .getSessions
    have hbefore := hs.waits .getSessions
    rw [owed_of_replying hsome] at hbefore
    simp only [owed_eq_zero] at hafter
    rw [hafter] at hbefore
    exact absurd hbefore (by simp)
  | _ => trivial

theorem answered_initial (h : (system cfg).init s) : Answered s := by
  obtain ⟨hreplying, hcallers, hlog⟩ := h
  constructor
  · intro q
    rw [hlog, owed_eq_zero hreplying]
    rfl
  · intro q
    rw [hcallers, owed_eq_zero hreplying]
    rfl

/-- Every request that the manager takes is answered with one reply to a waiting call, and no
call waits for a reply that was thrown away, exactly in the runs in which every `SessionList`
finds its receiver. -/
theorem queries_answered_iff (cfg : Config) (s : Queries) (hs : (system cfg).init s)
    (turns : List Turn) :
    (system cfg).Always Answered turns s ↔ (system cfg).Along FindsReceiver turns s :=
  StepSystem.always_iff_along (fun _ t h => answered_iff_findsReceiver t h) turns s
    (answered_initial hs)

/-- The manager before its first event, and no call. -/
def idle (cfg : Config) : Queries where
  shared := (World.start cfg).toShared

theorem idle_initial (cfg : Config) : (system cfg).init (idle cfg) := ⟨rfl, rfl, rfl⟩

/-- Takes the request of call `i`, ranging over the maps in the order of their keys. -/
def takeCall (i : ℕ) : Turn := .take i RangeOrder.ascending World.byClientId

/-- A call of `GetSessions` receives in time, while one of `getAllSesssions` comes late. -/
theorem queries_answered_iff_inTime :
    (system {}).init (idle {}) ∧
      (system {}).Always Answered [.call .getSessions, .call .getAllSesssions, takeCall 0,
        .receive 0, .reply 0, takeCall 1, .receive 1, .reply 1] (idle {}) := by
  refine ⟨idle_initial {}, (queries_answered_iff {} _ (idle_initial {}) _).mpr ?_⟩
  refine StepSystem.along_of_forall (fun t ht s => ?_) _
  cases t with
  | discard => exact absurd ht (by simp [takeCall])
  | _ => trivial

/-- The manager gets to its second `select` between the two channel operations of a call. -/
theorem getSessions_unanswered : ∃ s, (system {}).Reachable s ∧
    (s.callers = [.receiving .getSessions] ∧ s.replying.isNone = true ∧
      s.log = [.discarded .getSessions, .taken .getSessions]) ∧ ¬ Answered s := by
  have hend : ((system {}).exec [.call .getSessions, takeCall 0, .discard, .receive 0]
      (idle {})).any (fun s => s.callers = [.receiving .getSessions] ∧
        s.replying.isNone = true ∧
        s.log = [.discarded .getSessions, .taken .getSessions]) = true := by
    rfl
  obtain ⟨s, hreach, hs⟩ := StepSystem.exists_reachable_of_any (idle_initial {}) hend
  have hwaits := of_decide_eq_true hs
  refine ⟨s, hreach, hwaits, fun hans => ?_⟩
  have howed := hans.waits .getSessions
  rw [hwaits.1, owed_eq_zero (Option.isNone_iff_eq_none.mp hwaits.2.1)] at howed
  exact absurd howed (by decide)

end Queries
end MqttBroker

import MqttBroker.Lifecycle.Tables

/-!
# Closing sessions without a deadlock

There is one closer, the manager waits for it in `CloseSession`, and it waits in `Close` for
the receive loop of the session. A loop that is past its check of `clostep` may still need the
manager, or room in the queue of a subscriber that only the closer can release. The circle is
closed when the manager hands over another session while the closer waits for such a loop.
Where the manager hands nothing over, and the loop passes no check, until that is excluded,
every receive loop that the closer waits for can run to its end.
-/

namespace MqttBroker

/-- The receive loop is past its check of `clostep`, on its way to the manager or to the queue
of a subscriber. -/
def Recv.onItsWay : Recv → Bool
  | handle (.connect _) | handle (.connack _) | handle (.publish _) | handle (.pubrel _) => true
  | takeOver _ | register | connack | forward (_ :: _) | publish _ _ | pedding _ _ => true
  | report _ stage _ => decide (stage ≠ .load)
  | _ => false

/-- Let through its check of `clostep`, the receive loop is on its way. -/
def Recv.checks : Recv → Bool
  | read p => (handle p).onItsWay
  | report _ stage _ => decide (stage = .load)
  | _ => false

/-- The session whose receive loop the closer is to wait for. -/
def Closer.waitsFor (m : Shared) : Closer → Option SessionRef
  | load s | store s | closePedding s | loadStoped s =>
    if (m.sessions s).channel.isStoped then none else some s
  | stop s | wait s => some s
  | idle | done _ => none

theorem Shared.run_eq_none {cfg : Config} {m : Shared} {op : Op} (h : m.run cfg op = none) :
    (∃ e, op = .send e) ∨ ∃ v, op = .pushPedding v := by
  cases op with
  | send e => exact .inl ⟨e, rfl⟩
  | pushPedding v => exact .inr ⟨v, rfl⟩
  | add s subs qoss =>
    rw [run] at h
    cases hadd : TreeSubsMgr.addAll s subs qoss m.subscriptionMgr <;>
      exact absurd h (by simp [hadd])
  | _ => cases h

theorem Shared.run_isStoped {cfg : Config} {m m' : Shared} {op : Op} (h : m.run cfg op = some m')
    {s : SessionRef} (hs : (m.sessions s).channel.isStoped = true) :
    (m'.sessions s).channel.isStoped = true := by
  rw [run_sessions h s]
  cases op with
  | stop =>
    simp only [Op.onSession]
    split
    · rfl
    · exact hs
  | setClientId | setConnected | storeClostep | closePedding | pushPedding | popPedding =>
    simp only [Op.onSession]
    split <;> exact hs
  | _ => exact hs

/-- A receive loop whose next operation may have to wait is on its way. -/
theorem Recv.onItsWay_of_next {m : Shared} {s : SessionRef} {subs : List SessionRef} {full : Bool}
    {r r' : Recv} {op : Op} (h : r.next m s subs full = some (op, r'))
    (hop : (∃ e, op = .send e) ∨ ∃ v, op = .pushPedding v) : r.onItsWay = true := by
  cases r with
  | takeOver | register | connack | publish | pedding => rfl
  | handle p =>
    obtain ⟨rfl, -⟩ := next_handle h
    -- only a CONNECT, a CONNACK, a PUBLISH and a PUBREL come to such an operation
    cases p with
    | connect | connack | publish | pubrel => rfl
    | puback | pubcomp | suback | unsuback => cases full <;> simp [procFrontRemoteMsg] at hop
    | _ => simp [procFrontRemoteMsg] at hop
  | forward rest =>
    cases rest with
    | cons => rfl
    | nil =>
      cases h
      simp at hop
  | report k stage last =>
    cases stage with
    | load =>
      cases h
      simp [Report.next] at hop
    | _ => rfl
  | idle | reading | exited => exact absurd h (by simp [Recv.next])
  | read | acknowledge | failed =>
    cases h
    simp at hop

/-- A receive loop comes to be on its way by passing a check of `clostep`. -/
theorem Recv.next_onItsWay {m : Shared} {s : SessionRef} {subs : List SessionRef} {full : Bool}
    {r r' : Recv} {op : Op} (h : r.next m s subs full = some (op, r'))
    (hr : r.onItsWay = false) (hr' : r'.onItsWay = true) :
    r.checks = true ∧ (m.sessions s).clostep = .running := by
  cases r with
  -- the check of `RecvMsg`
  | read p =>
    cases h
    by_cases hrunning : (m.sessions s).clostep = .running
    · rw [if_pos hrunning] at hr'
      exact ⟨hr', hrunning⟩
    · rw [if_neg hrunning] at hr'
      exact absurd hr' (by simp [onItsWay])
  | handle p =>
    obtain ⟨-, rfl⟩ := next_handle h
    cases p with
    | connect | connack | publish | pubrel => exact absurd hr (by simp [onItsWay])
    | _ => exact absurd hr' (by simp [procFrontRemoteMsg, onItsWay])
  | forward rest =>
    cases rest with
    | cons => exact absurd hr (by simp [onItsWay])
    | nil =>
      cases h
      exact absurd hr' (by simp [onItsWay])
  | report k stage last =>
    cases stage with
    -- the check of a report
    | load =>
      cases h
      by_cases hrunning : (m.sessions s).clostep = .running
      · exact ⟨rfl, hrunning⟩
      · rw [Report.next, if_neg hrunning] at hr'
        cases last <;> exact absurd hr' (by simp [afterReport, onItsWay])
    | _ => exact absurd hr (by simp [onItsWay])
  | takeOver | register | connack | publish | pedding => exact absurd hr (by simp [onItsWay])
  | idle | reading | exited => exact absurd h (by simp [Recv.next])
  | acknowledge | failed =>
    cases h
    exact absurd hr' (by simp [onItsWay])

/-- The closer comes to a session by taking it. -/
theorem CloserMove.waitsFor {m : Shared} {recv : SessionRef → Recv} {c c' : Closer} {op : Op}
    (h : CloserMove m recv c op c') (hop : op ≠ .takeSession) {s : SessionRef}
    (hs : c'.waitsFor m = some s) : c.waitsFor m = some s := by
  cases h with
  | take => exact absurd rfl hop
  | pass | store | closePedding => exact hs
  | skip | stoped | waited | done => cases hs
  | running hrunning =>
    simp only [Closer.waitsFor, hrunning]
    exact hs
  | stop => exact hs

/-- As long as channels that are stopped stay so, there is nothing new to wait for. -/
theorem Closer.waitsFor_mono {m m' : Shared} {c : Closer} {y : SessionRef}
    (h : ∀ s, (m.sessions s).channel.isStoped = true → (m'.sessions s).channel.isStoped = true)
    (hy : c.waitsFor m' = some y) : c.waitsFor m = some y := by
  cases c with
  | load s | store s | closePedding s | loadStoped s =>
    simp only [waitsFor] at hy ⊢
    -- a channel that was not stopped yet may be stopped now, and then there is less to wait for
    by_cases hstoped : (m.sessions s).channel.isStoped = true
    · rw [if_pos (h s hstoped)] at hy
      exact absurd hy (by simp)
    · rw [if_neg hstoped]
      split at hy
      · exact absurd hy (by simp)
      · exact hy
  | _ => exact hy

namespace World

variable {cfg : Config} {t : Turn} {w w' : World} {op : Op} {g : Goroutines}

/-! ## Deadlocks -/

/-- The receive loop of a session cannot go on before the manager is back at its `select`, or
before there is room in the queue of a session that is ending. -/
def Blocked (cfg : Config) (s : SessionRef) (w : World) : Prop :=
  ∃ subs full op r, (w.recv s).next w.toShared s subs full = some (op, r) ∧
    w.run cfg op = none ∧ ∀ v, op = .pushPedding v → (w.sessions v).clostep ≠ .running

/-- The manager hands a session over in `CloseSession`, and the closer waits for a receive loop
that is blocked. -/
def Deadlocked (cfg : Config) (w : World) : Prop :=
  ∃ s y, w.closing = some s ∧ w.closer = .wait y ∧ Blocked cfg y w

/-- The manager hands nothing over while the closer is to wait for a receive loop that is on its
way, and while it hands a session over, that loop passes no check that lets it go on its way. -/
structure KeepsClear (w : World) (t : Turn) : Prop where
  serve : ∀ e g s y, next t w = some (.send e, g) → (w.case e w.mgr).1 = some s →
    w.closer.waitsFor w.toShared = some y → (g.recv y).onItsWay = false
  check : ∀ subs full y, t = .recv y subs full → w.closing ≠ none →
    w.closer.waitsFor w.toShared = some y → (w.recv y).checks = true →
      (w.sessions y).clostep ≠ .running

/-- While the manager hands a session over, the loop that the closer is to wait for is not on
its way. -/
def Clear (w : World) : Prop :=
  ∀ s y, w.closing = some s → w.closer.waitsFor w.toShared = some y →
    (w.recv y).onItsWay = false

theorem Clear.init (h : Initial cfg w) : Clear w := by
  intro s y hs
  rw [h.closing] at hs
  exact absurd hs (by simp)

theorem Clear.not_deadlocked (hw : Clear w) : ¬ Deadlocked cfg w := by
  rintro ⟨s, y, hclosing, hwait, subs, full, op, r, hnext, hrun, -⟩
  have hclear : (w.recv y).onItsWay = false := hw s y hclosing (by rw [hwait]; rfl)
  rw [Recv.onItsWay_of_next hnext (Shared.run_eq_none hrun)] at hclear
  exact absurd hclear (by simp)

/-- What the closer is to wait for after a step it was to wait for before, unless the step takes
a session over. -/
theorem Move.waitsFor (h : Move w t op w'.toGoroutines) (hrun : w.run cfg op = some w'.toShared)
    (hop : op ≠ .takeSession) {y : SessionRef} (hy : w'.closer.waitsFor w'.toShared = some y) :
    w.closer.waitsFor w.toShared = some y := by
  have hback : w'.closer.waitsFor w.toShared = some y :=
    Closer.waitsFor_mono (fun s hs => Shared.run_isStoped hrun hs) hy
  rcases h.closer_cases with ⟨-, hm, -, -⟩ | ⟨hsame, -⟩
  · exact hm.waitsFor hop hback
  · rw [← hsame]
    exact hback

/-- The loop that the closer is to wait for stays off its way while a session is handed over. -/
theorem Move.onItsWay (h : Move w t op g) (hclear : KeepsClear w t) (hclosing : w.closing ≠ none)
    {y : SessionRef} (hy : w.closer.waitsFor w.toShared = some y)
    (hr : (w.recv y).onItsWay = false) : (g.recv y).onItsWay = false := by
  have hset : ∀ (s : SessionRef) (r : Recv), (s = y → r.onItsWay = false) →
      ((w.setRecv s r).recv y).onItsWay = false := by
    intro s r hsr
    by_cases hs : y = s
    · rw [hs, setRecv_self]
      exact hsr hs.symm
    · rw [setRecv_of_ne r w hs]
      exact hr
  cases h with
  | accept | packet | error => exact hset _ _ fun _ => rfl
  | recv s hnext =>
    apply hset
    -- it would have to pass its check, which the condition excludes
    rintro rfl
    rw [Bool.eq_false_iff]
    intro hon
    obtain ⟨hchecks, hrunning⟩ := Recv.next_onItsWay hnext hr hon
    exact hclear.check _ _ s rfl hclosing hy hchecks hrunning
  | sendRound | publish | getAllSessions | tick | closer => exact hr

theorem Clear.step (hw : Clear w) (hclear : KeepsClear w t) (h : World.step cfg t w = some w') :
    Clear w' := by
  obtain ⟨-, op, hnext, hmove, hrun⟩ := step_move h
  intro s y hs hy
  rw [Shared.run_closing hrun] at hs
  -- when the closer takes a session, nothing is handed over any more
  have hop : op ≠ .takeSession := by
    rintro rfl
    exact absurd hs (by simp [Op.closing])
  have hbefore := hmove.waitsFor hrun hop hy
  -- the manager has just handed `s` over, or had done so before
  by_cases hsend : ∃ e, op = .send e
  · obtain ⟨e, rfl⟩ := hsend
    exact hclear.serve e _ s y hnext hs hbefore
  · have hclosing : w.closing = some s := by
      cases op with
      | send e => exact absurd ⟨e, rfl⟩ hsend
      | takeSession => exact absurd rfl hop
      | _ => exact hs
    exact hmove.onItsWay hclear (by simp [hclosing]) hbefore (hw s y hclosing hbefore)

/-- In every run in which the manager and the loop that the closer is to wait for keep clear of
each other, closing sessions does not deadlock. -/
theorem closing_never_deadlocks (cfg : Config) {w : World}
    (h : (system cfg).Reach KeepsClear w) : ¬ Deadlocked cfg w := by
  have hclear : Clear w :=
    h.invariant (fun _ hw => .init hw) fun _ _ _ hw hclear hstep => hw.step hclear hstep
  exact hclear.not_deadlocked

/-- A check of a step that keeps clear. -/
def keepsClear (w : World) (t : Turn) : Bool :=
  match w.closer.waitsFor w.toShared with
  | none => true
  | some y =>
    (match next t w with
      | some (.send e, g) => (w.case e w.mgr).1.isNone || !(g.recv y).onItsWay
      | _ => true) &&
    match t with
    | .recv s _ _ =>
      !decide (s = y) || w.closing.isNone || !(w.recv y).checks ||
        !decide ((w.sessions y).clostep = .running)
    | _ => true

theorem keepsClear_of_check (h : keepsClear w t = true) : KeepsClear w t := by
  unfold keepsClear at h
  constructor
  · intro e g s y hnext hcase hy
    rw [hy] at h
    simp only [hnext, hcase, Bool.and_eq_true] at h
    simpa using h.1
  · rintro subs full y rfl hclosing hy hchecks hrunning
    rw [hy] at h
    simp only [hchecks, hrunning, Bool.and_eq_true] at h
    have hnone : w.closing.isNone = true := by simpa using h.2
    exact hclosing (Option.isNone_iff_eq_none.mp hnone)

/-- Sessions 1 and 2 connect, the connections of both fail, and the manager serves session 2
while the closer waits for session 1. -/
def bothFail : List Turn :=
  connecting 1 (str "a") ++ connected 1 ++ connecting 2 (str "b") ++ connected 2 ++ failing 1 ++
    [recvOnce 1] ++ closerTurns ++ failing 2 ++ [recvOnce 2]

/-- The manager waits for the closer and the closer for a receive loop that has ended. -/
theorem closing_never_deadlocks_both_fail : ∃ w, (system {}).Reach KeepsClear w ∧
    (w.closing = some 2 ∧ w.closer.waitsFor w.toShared = some 1) ∧ ¬ Deadlocked {} w := by
  have hok : (system {}).Along KeepsClear bothFail (start {}) :=
    StepSystem.along_of_check (c := keepsClear) (fun _ _ h => keepsClear_of_check h)
      (by decide +kernel)
  have hend : ((system {}).exec bothFail (start {})).any (fun w =>
      w.closing = some 2 ∧ w.closer.waitsFor w.toShared = some 1) = true := by
    decide +kernel
  obtain ⟨w, hreach, hw⟩ := StepSystem.exists_reach_of_any (start_initial {}) hok hend
  exact ⟨w, hreach, of_decide_eq_true hw, closing_never_deadlocks {} hreach⟩

/-- Session 3 takes the client id of session 1 over. The connection of session 1 fails before
the closer stores `closed`, and that of session 2 before session 1 is served. -/
def failsWhileClosed : List Turn :=
  connecting 1 (str "a") ++ connected 1 ++ connecting 2 (str "b") ++ connected 2 ++
    connecting 3 (str "a") ++ [recvOnce 3, .closer] ++ failing 1 ++ List.replicate 5 .closer ++
      failing 2 ++ [recvOnce 2]

theorem Closer.eq_wait {c : Closer} {s : SessionRef}
    (h : (match c with | .wait y => decide (y = s) | _ => false) = true) : c = .wait s := by
  cases c with
  | wait y => rw [of_decide_eq_true h]
  | _ => exact absurd h (by simp)

/-- The manager hands session 2 over, the closer waits for the receive loop of session 1, and
that one waits for the manager. -/
theorem closing_deadlocks : ∃ w, (system {}).Reachable w ∧ Deadlocked {} w := by
  have hend : ((system {}).exec failsWhileClosed (start {})).any (fun w =>
      decide (w.closing = some 2 ∧ w.run {} (.send (.disconnect 1)) = none) &&
        sendsDisconnect 1 w && match w.closer with | .wait y => decide (y = 1) | _ => false) =
      true := by
    decide +kernel
  obtain ⟨w, hreach, hw⟩ := StepSystem.exists_reachable_of_any (start_initial {}) hend
  rw [Bool.and_eq_true, Bool.and_eq_true] at hw
  obtain ⟨⟨hmgr, hsends⟩, hcloser⟩ := hw
  obtain ⟨hclosing, hwaits⟩ := of_decide_eq_true hmgr
  obtain ⟨r, hnext⟩ := next_of_sendsDisconnect hsends
  have hblocked : Blocked {} 1 w := ⟨[], false, _, r, hnext, hwaits, fun v h => by cases h⟩
  exact ⟨w, hreach, 2, 1, hclosing, Closer.eq_wait hcloser, hblocked⟩

end World
end MqttBroker

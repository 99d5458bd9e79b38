import MqttBroker.Lifecycle.Tables

/-!
# Reports that come too late

`disconnectChan` and `pingTimeoutChan` carry a session, and the manager deletes whatever is
filed under its client id when it serves them. A report that is on its way while another
session takes the id over therefore deletes the entry of that one. Where no report starts for
a session whose id is another's, and no session comes to be filed under the id of one with a
report on its way, an event deletes no entry but its own session's.
-/

namespace MqttBroker
namespace World

/-- A report to `disconnectChan` or `pingTimeoutChan` is on its way for the session. -/
def Pending (s : SessionRef) (g : Goroutines) : Prop :=
  ∃ who k stage, g.reporting who = some (s, k, stage) ∧ stage ≠ .load ∧ k ≠ .connectTimeout

/-- The step makes no report stale: a report is let through only for a session whose client id
has no entry of another, and while one is on its way, its session takes no id that has an entry
of another, and no other session is registered under its id. -/
structure KeepsFresh (w : World) (t : Turn) : Prop where
  check : ∀ who s k, reporter t = some who → w.reporting who = some (s, k, .load) →
    k ≠ .connectTimeout → (w.sessions s).clostep = .running →
      ∀ s', w.mgr.connectedSessionMap.lookup (w.sessions s).clientId = some s' → s' = s
  rename : ∀ s clientId g, next t w = some (.setClientId s clientId, g) →
    Pending s w.toGoroutines → ∀ s', w.mgr.connectedSessionMap.lookup clientId = some s' → s' = s
  register : ∀ s g, next t w = some (.send (.connected s), g) →
    ∀ s', Pending s' w.toGoroutines → (w.sessions s').clientId = (w.sessions s).clientId → s' = s

/-- No report on its way is stale. -/
def Fresh (w : World) : Prop :=
  ∀ s, Pending s w.toGoroutines →
    ∀ s', w.mgr.connectedSessionMap.lookup (w.sessions s).clientId = some s' → s' = s

variable {cfg : Config} {t : Turn} {w w' : World} {op : Op} {g : Goroutines}

/-- A report on its way was so before, or has just been let through. -/
theorem Move.pending (h : Move w t op g) {s : SessionRef} (hs : Pending s g) :
    Pending s w.toGoroutines ∨
      op = .load ∧ ∃ who k, reporter t = some who ∧ w.reporting who = some (s, k, .load) ∧
        k ≠ .connectTimeout ∧ (w.sessions s).clostep = .running := by
  obtain ⟨who, k, stage, hwho, hstage, hk⟩ := hs
  rcases h.reports with ⟨who', hturn, hothers, hm⟩ | ⟨-, hsame⟩
  · by_cases hne : who = who'
    · rw [← hne] at hm hturn
      rw [hwho] at hm
      generalize hbefore : w.reporting who = r at hm
      -- the check lets it through, and every other operation is made on its way
      cases hm with
      | other => exact .inl ⟨who, k, stage, hbefore, hstage, hk⟩
      | start => exact absurd rfl hstage
      | pass _ hrunning => exact .inr ⟨rfl, who, k, hturn, hbefore, hk, hrunning⟩
      | removeSession | store => exact .inl ⟨who, k, _, hbefore, by decide, hk⟩
    · exact .inl ⟨who, k, stage, (hothers who hne).symm.trans hwho, hstage, hk⟩
  · exact .inl ⟨who, k, stage, (hsame who).symm.trans hwho, hstage, hk⟩

/-- The event of an ended connection is one of a report on its way. -/
theorem Move.pending_of_send {e : MgrEvent} (h : Move w t (.send e) g) {s : SessionRef}
    (he : e = .disconnect s ∨ e = .pingTimeout s) : Pending s w.toGoroutines := by
  have hreport : (Op.send e).isReport = true := by
    rcases he with rfl | rfl <;> rfl
  rcases h.reports with ⟨who, -, -, hm⟩ | ⟨hop, -⟩
  · generalize hbefore : w.reporting who = r at hm
    generalize g.reporting who = r' at hm
    cases hm with
    | other hop => exact absurd hreport (by rw [hop]; decide)
    | send s' k =>
      have hk : s' = s ∧ k ≠ .connectTimeout := by
        cases k <;> rcases he with he | he <;> cases he <;> exact ⟨rfl, by decide⟩
      exact ⟨who, k, _, hk.1 ▸ hbefore, by decide, hk.2⟩
  · exact absurd hreport (by rw [hop]; decide)

theorem Fresh.init (h : Initial cfg w) : Fresh w := by
  intro s _ s' hs'
  rw [h.mgr] at hs'
  exact absurd hs' (by simp)

theorem Fresh.step (hw : Fresh w) (hkeeps : KeepsFresh w t) (h : World.step cfg t w = some w') :
    Fresh w' := by
  obtain ⟨-, op, hnext, hmove, hrun⟩ := step_move h
  intro s hs s' hs'
  -- the report was on its way before the step, or the step lets it through
  rcases hmove.pending hs with hpending | ⟨rfl, who, k, hturn, hwho, hk, hrunning⟩
  · rcases mgr_of_run hrun with ⟨e, rfl, hmgr⟩ | ⟨-, hmgr⟩
    · rw [hmgr, Shared.run_clientId hrun fun _ => by simp] at hs'
      rcases Shared.connected_of_case hs' with hs' | ⟨rfl, hid⟩
      · exact hw s hpending s' hs'
      · exact (hkeeps.register s' _ hnext s hpending hid).symm
    · rw [hmgr] at hs'
      -- its session takes another id, or keeps the one it has
      by_cases hrename : ∃ clientId, op = .setClientId s clientId
      · obtain ⟨clientId, rfl⟩ := hrename
        rw [Shared.run_setClientId hrun] at hs'
        exact hkeeps.rename s clientId _ hnext hpending s' hs'
      · rw [Shared.run_clientId hrun fun clientId h => hrename ⟨clientId, h⟩] at hs'
        exact hw s hpending s' hs'
  · rw [Shared.run_mgr hrun fun _ => by simp, Shared.run_clientId hrun fun _ => by simp] at hs'
    exact hkeeps.check who s k hturn hwho hk hrunning s' hs'

/-- In every run whose steps make no report stale, an event of an ended connection deletes
entries of its own session only: the entry of every other session stays, and that session is
still ticked. -/
theorem stale_report_spares_successor (cfg : Config) {w : World}
    (h : (system cfg).Reach KeepsFresh w) {t : Turn} {w' : World} {e : MgrEvent} {s : SessionRef}
    (hnext : next t w = some (.send e, w'.toGoroutines)) (hstep : World.step cfg t w = some w')
    (he : e = .disconnect s ∨ e = .pingTimeout s) :
    ∀ k s', w.mgr.connectedSessionMap.lookup k = some s' → s' ≠ s →
      w'.mgr.connectedSessionMap.lookup k = some s' ∧
        ∀ waitingOrder connectedOrder, s' ∈ w'.mgr.getAllSessions waitingOrder connectedOrder := by
  have hfresh : Fresh w :=
    h.invariant (fun _ hw => .init hw) fun _ _ _ hw hkeeps hstep => hw.step hkeeps hstep
  obtain ⟨-, op, hnext', hmove, hrun⟩ := step_move hstep
  rw [hnext] at hnext'
  cases hnext'
  intro k s' hs' hne
  have hstays : w'.mgr.connectedSessionMap.lookup k = some s' := by
    have hmgr : w'.mgr = (w.case e w.mgr).2 := Shared.run_send_mgr hrun
    -- the entry under the id of `s` would be one of `s`
    have hk : k ≠ (w.sessions s).clientId := by
      rintro rfl
      exact hne (hfresh s (hmove.pending_of_send he) s' hs')
    rw [hmgr, Shared.lookup_connected]
    rcases he with rfl | rfl <;> simp [hk, hs']
  refine ⟨hstays, fun waitingOrder connectedOrder => ?_⟩
  exact (SessionMgr.mem_getAllSessions waitingOrder connectedOrder _ s').mpr (.inr ⟨k, hstays⟩)

/-! ## Runs of a few sessions -/

/-- The ticker has not ticked, and only these sessions have been accepted. -/
def Only (ss : List SessionRef) (w : World) : Prop :=
  w.ticker = .waiting ∧ ∀ s, s ∉ ss → w.recv s = .idle

/-- The receive loop of the session has a report on its way. -/
def loopPending (s : SessionRef) (w : World) : Bool :=
  match w.recv s with
  | .report _ .load _ => false
  | .report _ _ _ => true
  | _ => false

/-- A check of a step of these sessions that makes no report stale. -/
def keepsFresh (ss : List SessionRef) (w : World) (t : Turn) : Bool :=
  (match t with
    | .handleConnection s | .recvPacket s _ | .recvError s | .recv s _ _ => decide (s ∈ ss)
    | .getAllSessions _ _ => false
    | _ => true) &&
  (match (reporter t).bind w.reporting with
    | some (s, _, .load) =>
      match w.mgr.connectedSessionMap.lookup (w.sessions s).clientId with
      | none => true
      | some s' => decide (s' = s)
    | _ => true) &&
  match next t w with
  | some (.setClientId s _, _) => !loopPending s w
  | some (.send (.connected s), _) =>
    ss.all fun s' =>
      !loopPending s' w || decide ((w.sessions s').clientId ≠ (w.sessions s).clientId)
  | _ => true

variable {ss : List SessionRef}

theorem Only.loopPending (hw : Only ss w) {s : SessionRef} (h : Pending s w.toGoroutines) :
    s ∈ ss ∧ loopPending s w = true := by
  obtain ⟨who, k, stage, hwho, hstage, -⟩ := h
  cases who with
  | ticker =>
    have hticker : w.ticker.reporting = some (s, k, stage) := hwho
    rw [hw.1] at hticker
    exact absurd hticker (by simp [Ticker.reporting])
  | loop s' =>
    obtain ⟨rfl, last, hr⟩ := Recv.eq_of_reporting hwho
    constructor
    -- no other session has been accepted
    · by_contra hs
      have hidle : w.recv s = .idle := hw.2 s hs
      rw [hr] at hidle
      exact absurd hidle (by simp)
    · rw [World.loopPending, hr]
      cases stage with
      | load => exact absurd rfl hstage
      | _ => rfl

theorem keepsFresh_of_check (hw : Only ss w) (h : keepsFresh ss w t = true) : KeepsFresh w t := by
  unfold keepsFresh at h
  rw [Bool.and_eq_true, Bool.and_eq_true] at h
  obtain ⟨⟨-, hcheck⟩, hop⟩ := h
  constructor
  · intro who s k hturn hwho _ _ s' hs'
    have hbind : (reporter t).bind w.reporting = some (s, k, .load) := by
      rw [hturn]
      exact hwho
    rw [hbind] at hcheck
    simpa [hs'] using hcheck
  · intro s clientId g hnext hpending
    rw [hnext] at hop
    simp [(hw.loopPending hpending).2] at hop
  · intro s g hnext s' hpending hid
    obtain ⟨hmem, hlate⟩ := hw.loopPending hpending
    rw [hnext] at hop
    have hs' := List.all_eq_true.mp hop s' hmem
    simp [hlate, hid] at hs'

theorem Only.step (hw : Only ss w) (hcheck : keepsFresh ss w t = true)
    (h : World.step cfg t w = some w') : Only ss w' := by
  obtain ⟨-, op, -, hmove, -⟩ := step_move h
  unfold keepsFresh at hcheck
  rw [Bool.and_eq_true, Bool.and_eq_true] at hcheck
  obtain ⟨⟨hturn, -⟩, -⟩ := hcheck
  have hset : ∀ s r, s ∈ ss →
      Only ss { toShared := w'.toShared, toGoroutines := w.setRecv s r } := by
    intro s r hs
    refine ⟨hw.1, fun s' hs' => ?_⟩
    have hne : s' ≠ s := fun h => hs' (h ▸ hs)
    exact (setRecv_of_ne r w hne).trans (hw.2 s' hs')
  obtain ⟨m, g⟩ := w'
  cases hmove with
  | accept s | packet s | error s | recv s => exact hset s _ (of_decide_eq_true hturn)
  | sendRound | publish | closer => exact hw
  | getAllSessions => exact absurd hturn (by simp)
  | tick ht =>
    rw [hw.1] at ht
    exact absurd ht (by simp [Ticker.next])

theorem Only.start : Only ss (start cfg) := ⟨rfl, fun _ _ => rfl⟩

theorem send_of_sendsDisconnect {s : SessionRef} (h : sendsDisconnect s w = true)
    (hstep : World.step cfg (recvOnce s) w = some w') :
    next (recvOnce s) w = some (.send (.disconnect s), w'.toGoroutines) := by
  obtain ⟨-, op, hnext, -, -⟩ := step_move hstep
  obtain ⟨r, hr⟩ := next_of_sendsDisconnect h
  have hop : ((w.recv s).next w.toShared s [] false).map (fun r => (r.1, w.setRecv s r.2)) =
      some (op, w'.toGoroutines) := hnext
  rw [hr] at hop
  rw [hnext, ← (Prod.mk.inj (Option.some.inj hop)).1]

/-- Sessions 1 and 2 connect with ids of their own, and the connection of session 1 fails. -/
def firstFails : List Turn :=
  connecting 1 (str "a") ++ connected 1 ++ connecting 2 (str "b") ++ connected 2 ++ failing 1

/-- The report of session 1 leaves the entry of session 2. -/
theorem stale_report_spares_successor_other_id : ∃ w w', (system {}).Reach KeepsFresh w ∧
    World.step {} (recvOnce 1) w = some w' ∧
      w.mgr.connectedSessionMap.lookup (str "b") = some 2 ∧
        w'.mgr.connectedSessionMap.lookup (str "b") = some 2 := by
  have hok : (system {}).Along KeepsFresh firstFails (start {}) := by
    apply StepSystem.along_of_checkAll (c := keepsFresh [1, 2]) (I := Only [1, 2])
    · exact fun w t w' hw hcheck hstep => hw.step hcheck hstep
    · exact fun w t hw hcheck => keepsFresh_of_check hw hcheck
    · exact .start
    · decide +kernel
  have hend : ((system {}).exec firstFails (start {})).any (fun w =>
      sendsDisconnect 1 w && w.mgr.connectedSessionMap.lookup (str "b") = some 2 &&
        (World.step {} (recvOnce 1) w).isSome) = true := by
    decide +kernel
  obtain ⟨w, hreach, hw⟩ := StepSystem.exists_reach_of_any (start_initial {}) hok hend
  rw [Bool.and_eq_true, Bool.and_eq_true] at hw
  obtain ⟨⟨hsends, hfiled⟩, hsome⟩ := hw
  obtain ⟨w', hstep⟩ := Option.isSome_iff_exists.mp hsome
  have hfiled : w.mgr.connectedSessionMap.lookup (str "b") = some 2 := of_decide_eq_true hfiled
  have hstays := stale_report_spares_successor {} hreach (send_of_sendsDisconnect hsends hstep)
    hstep (.inl rfl) (str "b") 2 hfiled (by decide)
  exact ⟨w, w', hreach, hstep, hfiled, hstays.1⟩

/-- The connection of session 1 fails, and session 2 takes its client id over before the report
is sent. -/
def failsInTakeOver : List Turn :=
  connecting 1 (str "a") ++ connected 1 ++ failing 1 ++ connecting 2 (str "a") ++
    [recvOnce 2, .closer, recvOnce 2]

/-- The stale report of session 1 deletes the entry of session 2, which is ticked no more. -/
theorem stale_report_evicts_successor : ∃ w w', (system {}).Reachable w ∧
    World.step {} (recvOnce 1) w = some w' ∧
      next (recvOnce 1) w = some (.send (.disconnect 1), w'.toGoroutines) ∧
        w.mgr.connectedSessionMap.lookup (str "a") = some 2 ∧
          w'.mgr.connectedSessionMap.lookup (str "a") = none ∧
            ∀ waitingOrder connectedOrder,
              2 ∉ w'.mgr.getAllSessions waitingOrder connectedOrder := by
  have hend : ((system {}).exec failsInTakeOver (start {})).any (fun w =>
      sendsDisconnect 1 w && w.mgr.connectedSessionMap.lookup (str "a") = some 2 &&
        (World.step {} (recvOnce 1) w).any fun w' =>
          w'.mgr.connectedSessionMap = ∅ ∧ w'.mgr.waitingConnectSessionMap = ∅) = true := by
    decide +kernel
  obtain ⟨w, hreach, hw⟩ := StepSystem.exists_reachable_of_any (start_initial {}) hend
  rw [Bool.and_eq_true, Bool.and_eq_true] at hw
  obtain ⟨⟨hsends, hfiled⟩, hany⟩ := hw
  obtain ⟨w', hstep, hempty⟩ := (Option.any_eq_true _ _).mp hany
  obtain ⟨hconnected, hwaiting⟩ := of_decide_eq_true hempty
  refine ⟨w, w', hreach, hstep, send_of_sendsDisconnect hsends hstep, of_decide_eq_true hfiled,
    ?_, ?_⟩
  · rw [hconnected, Finmap.lookup_empty]
  · intro waitingOrder connectedOrder hmem
    rw [SessionMgr.mem_getAllSessions, hconnected, hwaiting] at hmem
    simp at hmem

end World
end MqttBroker

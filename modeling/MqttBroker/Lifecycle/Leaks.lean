import MqttBroker.Lifecycle.Tables

/-!
# Sessions that the manager forgets

When the manager has served a report of a session, or closed it for a take-over, the session
should be in neither map and handed to `CloseSession`. `clostep` lets no second report through,
so a report that is served without effect is the last. That happens to a DISCONNECT that comes
before the CONNECT, and a connect timeout that is served after the registration leaves the
entry behind. `ServesReports` says of each event what it needs, and each part is needed at once.
-/

namespace MqttBroker
namespace World

/-- An end of the session has been reported and served, or the manager has closed it. -/
def Ended (s : SessionRef) (m : Shared) : Prop :=
  (∃ k, .served (Report.event s k) ∈ m.trace) ∨ m.Handed s

/-- The session is in no map, and it was handed to `CloseSession`. -/
structure Released (s : SessionRef) (m : Shared) : Prop where
  waiting : ∀ c, m.mgr.waitingConnectSessionMap.lookup c ≠ some s
  connected : ∀ k, m.mgr.connectedSessionMap.lookup k ≠ some s
  handed : m.Handed s

/-- The step renames no session that is filed under another client id; a connect timeout is
served only for a session that is not registered, a registration only for one that was not
handed over, and an end of a connection only for one that was handed over before, or that waits
no more and whose client id has an entry. -/
structure ServesReports (w : World) (t : Turn) : Prop where
  rename : Renames w t
  connectTimeout : ∀ s g, next t w = some (.send (.connectTimeout s), g) →
    ∀ k, w.mgr.connectedSessionMap.lookup k ≠ some s
  connected : ∀ s g, next t w = some (.send (.connected s), g) → ¬ w.Handed s
  disconnect : ∀ e s g, next t w = some (.send e, g) → e = .disconnect s ∨ e = .pingTimeout s →
    w.Handed s ∨ (w.sessions s).clientId ∈ w.mgr.connectedSessionMap ∧
      ∀ c, w.mgr.waitingConnectSessionMap.lookup c ≠ some s

/-- What carries over from step to step. -/
structure Clean (w : World) : Prop where
  filed : FiledById w.toShared
  handed : ∀ s, w.Handed s → Released s w.toShared
  reported : ∀ k s, .served (Report.event s k) ∈ w.trace → w.Handed s

variable {cfg : Config} {t : Turn} {w w' : World} {op : Op} {g : Goroutines}

theorem Clean.init (h : Initial cfg w) : Clean w where
  filed := .init h
  handed s hs := by
    rw [Shared.Handed, h.trace] at hs
    exact absurd hs (by simp)
  reported k s hs := by
    rw [h.trace] at hs
    exact absurd hs (by simp)

/-- A session that was handed over comes into no map again. -/
theorem Clean.released_of_handed (hw : Clean w) (hseated : Seated w) (hserves : ServesReports w t)
    (hnext : next t w = some (op, w'.toGoroutines)) (hmove : Move w t op w'.toGoroutines)
    (hrun : w.run cfg op = some w'.toShared) {s : SessionRef} (hs : w.Handed s) :
    Released s w'.toShared := by
  have hold := hw.handed s hs
  refine ⟨fun c hc => ?_, fun k hk => ?_, (Shared.mem_trace_closeSession hrun s).mpr (.inl hs)⟩
  · rcases mgr_of_run hrun with ⟨e, rfl, hmgr⟩ | ⟨-, hmgr⟩
    · rw [hmgr] at hc
      rcases Shared.waiting_of_case hc with hc | ⟨rfl, -⟩
      · exact hold.waiting c hc
      · exact hseated.begun.handed s hs (hmove.named hseated.begun).1
    · rw [hmgr] at hc
      exact hold.waiting c hc
  · rcases mgr_of_run hrun with ⟨e, rfl, hmgr⟩ | ⟨-, hmgr⟩
    · rw [hmgr] at hk
      rcases Shared.connected_of_case hk with hk | ⟨rfl, -⟩
      · exact hold.connected k hk
      -- the condition on registrations
      · exact hserves.connected s _ hnext hs
    · rw [hmgr] at hk
      exact hold.connected k hk

/-- A session that an event hands over is in no map after it. -/
theorem Clean.released_of_case (hw : Clean w) (hseated : Seated w) (hserves : ServesReports w t)
    {e : MgrEvent} (hnext : next t w = some (.send e, w'.toGoroutines))
    (hrun : w.run cfg (.send e) = some w'.toShared) {s : SessionRef}
    (hs : (w.case e w.mgr).1 = some s) : Released s w'.toShared := by
  have hmgr : w'.mgr = (w.case e w.mgr).2 := Shared.run_send_mgr hrun
  have hhanded : w'.Handed s := (Shared.mem_trace_closeSession hrun s).mpr (.inr ⟨e, rfl, hs⟩)
  -- the condition on the ends of connections
  have hend : ∀ s, e = .disconnect s ∨ e = .pingTimeout s →
      (∀ c, w.mgr.waitingConnectSessionMap.lookup c ≠ some s) := by
    intro s he
    rcases hserves.disconnect e s _ hnext he with h | h
    · exact (hw.handed s h).waiting
    · exact h.2
  refine ⟨fun c hc => ?_, fun k hk => ?_, hhanded⟩
  · rw [hmgr] at hc
    have hbefore := Shared.waiting_of_case hc
    rcases Shared.handed_of_case hs with rfl | ⟨clientId, rfl, hl⟩ | ⟨he, -⟩
    -- a connect timeout erases the entry under the connection, which is its only one
    · rcases hbefore with hbefore | ⟨he, -⟩
      · rw [Shared.lookup_waiting] at hc
        simp [hseated.conn c s hbefore] at hc
      · exact absurd he (by simp)
    · rcases hbefore with hbefore | ⟨he, -⟩
      · exact hseated.one_map clientId s hl c hbefore
      · exact absurd he (by simp)
    · rcases hbefore with hbefore | ⟨he', -⟩
      · exact hend s he c hbefore
      · rw [he'] at he
        exact absurd he (by simp)
  · rw [hmgr] at hk
    have hbefore := Shared.connected_of_case hk
    rw [Shared.lookup_connected] at hk
    rcases Shared.handed_of_case hs with rfl | ⟨clientId, rfl, hl⟩ | ⟨rfl | rfl, -⟩
    · exact hserves.connectTimeout s _ hnext k hk
    · rcases hbefore with hbefore | ⟨he, -⟩
      -- a take-over erases the entry under the id, which is its only one
      · have hid : k = clientId := (hw.filed k s hbefore).symm.trans (hw.filed clientId s hl)
        simp [hid] at hk
      · exact absurd he (by simp)
    · rcases hbefore with hbefore | ⟨he, -⟩
      · simp [hw.filed k s hbefore] at hk
      · exact absurd he (by simp)
    · rcases hbefore with hbefore | ⟨he, -⟩
      · simp [hw.filed k s hbefore] at hk
      · exact absurd he (by simp)

/-- A report that is served hands its session over, unless that happened before. -/
theorem Clean.handed_of_report (hserves : ServesReports w t) {s : SessionRef} {k : Report}
    (hnext : next t w = some (.send (k.event s), w'.toGoroutines))
    (hrun : w.run cfg (.send (k.event s)) = some w'.toShared) : w'.Handed s := by
  apply (Shared.mem_trace_closeSession hrun s).mpr
  have hcase : ∀ e, (e = .disconnect s ∨ e = .pingTimeout s) → e = k.event s →
      w.Handed s ∨ (w.case e w.mgr).1 = some s := by
    rintro e he rfl
    rcases hserves.disconnect _ s _ hnext he with h | ⟨hmem, -⟩
    · exact .inl h
    · rw [Shared.case_handed]
      rcases he with he | he <;> simp [he, hmem]
  cases k with
  | disconnected => exact (hcase (.disconnect s) (.inl rfl) rfl).imp_right fun h => ⟨_, rfl, h⟩
  | pingTimeout => exact (hcase (.pingTimeout s) (.inr rfl) rfl).imp_right fun h => ⟨_, rfl, h⟩
  -- `connectTimeout` hands its session over in any case
  | connectTimeout => exact .inr ⟨_, rfl, rfl⟩

theorem Clean.step (hw : Clean w) (hseated : Seated w) (hserves : ServesReports w t)
    (h : World.step cfg t w = some w') : Clean w' := by
  obtain ⟨-, op, hnext, hmove, hrun⟩ := step_move h
  refine ⟨hw.filed.step hserves.rename hnext hrun, fun s hs => ?_, fun k s hs => ?_⟩
  · rcases (Shared.mem_trace_closeSession hrun s).mp hs with hold | ⟨e, rfl, he⟩
    · exact hw.released_of_handed hseated hserves hnext hmove hrun hold
    · exact hw.released_of_case hseated hserves hnext hrun he
  · rcases (Shared.mem_trace_served hrun _).mp hs with hold | rfl
    · exact (Shared.mem_trace_closeSession hrun s).mpr (.inl (hw.reported k s hold))
    · exact Clean.handed_of_report hserves hnext hrun

/-- In every run in which events find what they need, a session whose end was reported and
served, in whatever phase it was, is in no map and was handed to `CloseSession`. -/
theorem ended_released (cfg : Config) {w : World} (h : (system cfg).Reach ServesReports w)
    (s : SessionRef) (hs : Ended s w.toShared) : Released s w.toShared := by
  have hinv : Seated w ∧ Clean w :=
    h.invariant (I := fun w => Seated w ∧ Clean w) (fun _ hw => ⟨.init hw, .init hw⟩)
      fun _ _ _ hw hserves hstep => ⟨hw.1.step hstep, hw.2.step hw.1 hserves hstep⟩
  rcases hs with ⟨k, hk⟩ | hhanded
  · exact hinv.2.handed s (hinv.2.reported k s hk)
  · exact hinv.2.handed s hhanded

/-- A check of a step whose event finds what it needs. -/
def servesReports (w : World) (t : Turn) : Bool :=
  renames w t && match next t w with
  | some (.send (.connectTimeout s), _) =>
    decide (∀ k ∈ w.mgr.connectedSessionMap.keys, w.mgr.connectedSessionMap.lookup k ≠ some s)
  | some (.send (.connected s), _) => decide (¬ w.Handed s)
  | some (.send (.disconnect s), _) | some (.send (.pingTimeout s), _) =>
    decide (w.Handed s ∨ (w.sessions s).clientId ∈ w.mgr.connectedSessionMap ∧
      ∀ c ∈ w.mgr.waitingConnectSessionMap.keys,
        w.mgr.waitingConnectSessionMap.lookup c ≠ some s)
  | _ => true

theorem servesReports_of_check (h : servesReports w t = true) : ServesReports w t := by
  rw [servesReports, Bool.and_eq_true] at h
  have hevent := h.2
  refine ⟨renames_of_check h.1, fun s g hnext k hk => ?_, fun s g hnext => ?_,
    fun e s g hnext he => ?_⟩
  · rw [hnext] at hevent
    exact of_decide_eq_true hevent k (Finmap.mem_keys.mpr (Finmap.mem_of_lookup_eq_some hk)) hk
  · rw [hnext] at hevent
    exact of_decide_eq_true hevent
  · rw [hnext] at hevent
    have hwaits : w.Handed s ∨ (w.sessions s).clientId ∈ w.mgr.connectedSessionMap ∧
        ∀ c ∈ w.mgr.waitingConnectSessionMap.keys,
          w.mgr.waitingConnectSessionMap.lookup c ≠ some s := by
      rcases he with rfl | rfl <;> exact of_decide_eq_true hevent
    refine hwaits.imp_right fun h => ⟨h.1, fun c hc => ?_⟩
    exact h.2 c (Finmap.mem_keys.mpr (Finmap.mem_of_lookup_eq_some hc)) hc

/-- A session connects and its connection fails. -/
theorem ended_released_failed : ∃ w, (system {}).Reach ServesReports w ∧
    Ended 1 w.toShared ∧ Released 1 w.toShared := by
  have hend : ((system {}).exec (connecting 1 (str "a") ++ connected 1 ++ failing 1 ++
      [recvOnce 1]) (start {})).any (fun w =>
        Event.served (Report.event 1 .disconnected) ∈ w.trace) = true := by
    decide +kernel
  have halong : (system {}).Along ServesReports (connecting 1 (str "a") ++ connected 1 ++
      failing 1 ++ [recvOnce 1]) (start {}) :=
    StepSystem.along_of_check (c := servesReports) (fun _ _ h => servesReports_of_check h)
      (by decide +kernel)
  obtain ⟨w, hreach, hw⟩ := StepSystem.exists_reach_of_any (start_initial {}) halong hend
  have hended : Ended 1 w.toShared := .inl ⟨.disconnected, of_decide_eq_true hw⟩
  exact ⟨w, hreach, hended, ended_released {} hreach 1 hended⟩

/-- Session 1 is ticked and times out; it connects before the ticker reports it. -/
def timeoutMeetsConnect : List Turn :=
  [.handleConnection 1, .getAllSessions RangeOrder.ascending byClientId] ++
    [.tick true false, .tick true false] ++ (connecting 1 (str "a")).tail ++
    [recvOnce 1, recvOnce 1] ++
    [.tick true false, .tick true false, .tick true false, .tick true false]

/-- A DISCONNECT before the CONNECT is served without effect, and the session waits for ever. A
connect timeout that is served after the registration leaves an entry of a closed session. -/
theorem disconnect_unserved_and_timeout_left :
    (∃ w, (system {}).Reachable w ∧ Ended 1 w.toShared ∧ ¬ w.Handed 1 ∧
        w.mgr.waitingConnectSessionMap.lookup 1 = some 1) ∧
      ∃ w, (system {}).Reachable w ∧ Ended 1 w.toShared ∧
        w.mgr.connectedSessionMap.lookup (str "a") = some 1 := by
  constructor
  · have hend : ((system {}).exec ([.handleConnection 1] ++ disconnecting 1 ++ [recvOnce 1])
        (start {})).any (fun w =>
        Event.served (Report.event 1 .disconnected) ∈ w.trace ∧ ¬ w.Handed 1 ∧
          w.mgr.waitingConnectSessionMap.lookup 1 = some 1) = true := by
      decide +kernel
    obtain ⟨w, hreach, hw⟩ := StepSystem.exists_reachable_of_any (start_initial {}) hend
    obtain ⟨hserved, hrest⟩ := of_decide_eq_true hw
    exact ⟨w, hreach, .inl ⟨.disconnected, hserved⟩, hrest⟩
  · have hend : ((system {}).exec timeoutMeetsConnect (start {})).any (fun w =>
        Event.served (Report.event 1 .connectTimeout) ∈ w.trace ∧
          w.mgr.connectedSessionMap.lookup (str "a") = some 1) = true := by
      decide +kernel
    obtain ⟨w, hreach, hw⟩ := StepSystem.exists_reachable_of_any (start_initial {}) hend
    obtain ⟨hserved, hfiled⟩ := of_decide_eq_true hw
    exact ⟨w, hreach, .inl ⟨.connectTimeout, hserved⟩, hfiled⟩

end World
end MqttBroker

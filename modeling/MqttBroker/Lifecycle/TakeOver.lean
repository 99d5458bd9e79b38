import MqttBroker.Lifecycle.Tables

/-!
# One live session for each client id

A CONNECT takes its client id over with two events: one closes the session that has the id,
the next registers the new one. Two CONNECTs with one id can come between each other's events,
and then the second registration overwrites the first session, which nobody closes. Where an
event overwrites or deletes only entries of its own session or of sessions that were handed to
`CloseSession` before, and a CONNECT renames no session that is filed under another id, the
maps are in order and each client id has one live session at most.
-/

namespace MqttBroker
namespace World

/-- The step renames no session that is filed under another client id, and its event overwrites
or deletes no entry of another session, unless that one was handed to `CloseSession`. -/
structure SparesOthers (w : World) (t : Turn) : Prop where
  rename : Renames w t
  event : ∀ e g s, next t w = some (.send e, g) →
    e = .connected s ∨ e = .disconnect s ∨ e = .pingTimeout s →
      ∀ s', w.mgr.connectedSessionMap.lookup (w.sessions s).clientId = some s' →
        s' = s ∨ w.Handed s'

/-- What is to hold of the maps and of the sessions that were registered. -/
structure OneLive (w : World) : Prop where
  filed : ∀ k s, w.mgr.connectedSessionMap.lookup k = some s → (w.sessions s).clientId = k
  one_key : ∀ k k' s, w.mgr.connectedSessionMap.lookup k = some s →
    w.mgr.connectedSessionMap.lookup k' = some s → k = k'
  one_conn : ∀ c c' s, w.mgr.waitingConnectSessionMap.lookup c = some s →
    w.mgr.waitingConnectSessionMap.lookup c' = some s → c = c'
  one_map : ∀ k s, w.mgr.connectedSessionMap.lookup k = some s →
    ∀ c, w.mgr.waitingConnectSessionMap.lookup c ≠ some s
  one_live : ∀ s s', w.Registered s → w.Registered s' →
    (w.sessions s).clientId = (w.sessions s').clientId → ¬ w.Handed s → ¬ w.Handed s' → s = s'

/-- The entries are filed under the ids of their sessions, and a registered session that was not
handed to `CloseSession` has its entry. -/
structure Filed (w : World) : Prop where
  filed : FiledById w.toShared
  live : ∀ s, w.Registered s → ¬ w.Handed s →
    w.mgr.connectedSessionMap.lookup (w.sessions s).clientId = some s

variable {cfg : Config} {t : Turn} {w w' : World} {op : Op} {g : Goroutines}

theorem Filed.oneLive (hw : Filed w) (hseated : Seated w) : OneLive w where
  filed := hw.filed
  one_key k k' s hk hk' := (hw.filed k s hk).symm.trans (hw.filed k' s hk')
  one_conn c c' s hc hc' := (hseated.conn c s hc).trans (hseated.conn c' s hc').symm
  one_map := hseated.one_map
  one_live s s' hs hs' hid hlive hlive' := by
    have h := hw.live s hs hlive
    rw [hid, hw.live s' hs' hlive'] at h
    exact (Option.some.inj h).symm

theorem Filed.init (h : Initial cfg w) : Filed w where
  filed := .init h
  live s hs := by
    rw [Shared.Registered, h.trace] at hs
    exact absurd hs (by simp)

/-- A live session keeps its entry in a step that is no event. -/
theorem Filed.live_of_not_send (hw : Filed w) (hspares : SparesOthers w t)
    (hnext : next t w = some (op, w'.toGoroutines)) (hrun : w.run cfg op = some w'.toShared)
    (hop : ∀ e, op ≠ .send e) {s : SessionRef} (hs : w'.Registered s) (hlive : ¬ w'.Handed s) :
    w'.mgr.connectedSessionMap.lookup (w'.sessions s).clientId = some s := by
  -- it was live before the step
  have hregistered : w.Registered s := by
    rcases (Shared.mem_trace_served hrun _).mp hs with hs | h
    · exact hs
    · exact absurd h (hop _)
  have hnot : ¬ w.Handed s :=
    fun h => hlive ((Shared.mem_trace_closeSession hrun s).mpr (.inl h))
  have h := hw.live s hregistered hnot
  rw [Shared.run_mgr hrun hop, hw.filed.clientId hspares.rename hnext hrun h]
  exact h

/-- A live session keeps its entry, or gets it, in an event. -/
theorem Filed.live_of_send (hw : Filed w) (hspares : SparesOthers w t) {e : MgrEvent}
    (hnext : next t w = some (.send e, w'.toGoroutines))
    (hrun : w.run cfg (.send e) = some w'.toShared) {s : SessionRef} (hs : w'.Registered s)
    (hlive : ¬ w'.Handed s) :
    w'.mgr.connectedSessionMap.lookup (w'.sessions s).clientId = some s := by
  have hmgr : w'.mgr = (w.case e w.mgr).2 := Shared.run_send_mgr hrun
  have hid : (w'.sessions s).clientId = (w.sessions s).clientId :=
    Shared.run_clientId hrun fun _ => by simp
  have hnew : (w.case e w.mgr).1 ≠ some s :=
    fun h => hlive ((Shared.mem_trace_closeSession hrun s).mpr (.inr ⟨e, rfl, h⟩))
  have hnot : ¬ w.Handed s :=
    fun h => hlive ((Shared.mem_trace_closeSession hrun s).mpr (.inl h))
  rw [hmgr, hid, Shared.lookup_connected]
  rw [Shared.case_handed] at hnew
  rcases (Shared.mem_trace_served hrun _).mp hs with hs | he
  · have h := hw.live s hs hnot
    have hmem : (w.sessions s).clientId ∈ w.mgr.connectedSessionMap :=
      Finmap.mem_of_lookup_eq_some h
    -- an event that names another session with this id would have overwritten a live entry
    have hother : ∀ s', e = .connected s' ∨ e = .disconnect s' ∨ e = .pingTimeout s' →
        (w.sessions s).clientId = (w.sessions s').clientId → s' = s := by
      intro s' he hss
      rw [hss] at h
      exact ((hspares.event e _ s' hnext he s h).resolve_right hnot).symm
    -- who hands the session over, deletes its entry; here it is not handed over
    cases e with
    | connected s' =>
      by_cases hss : (w.sessions s).clientId = (w.sessions s').clientId
      · obtain rfl := hother s' (.inl rfl) hss
        simp
      · simp only [if_neg hss, h]
    | disconnectSessionByClientId clientId =>
      by_cases hss : (w.sessions s).clientId = clientId
      · exact absurd (hss ▸ h) hnew
      · simp only [if_neg hss, h]
    | disconnect s' | pingTimeout s' =>
      by_cases hss : (w.sessions s).clientId = (w.sessions s').clientId
      · have hs' := hother s' (by simp) hss
        subst hs'
        simp [if_pos hmem] at hnew
      · simp only [if_neg hss, h]
    | insertSession | connectTimeout => exact h
  -- the event registers the session itself
  · injection he with he
    subst he
    simp

theorem Filed.step (hw : Filed w) (hspares : SparesOthers w t)
    (h : World.step cfg t w = some w') : Filed w' := by
  obtain ⟨-, op, hnext, -, hrun⟩ := step_move h
  refine ⟨hw.filed.step hspares.rename hnext hrun, fun s hs hlive => ?_⟩
  by_cases hsend : ∃ e, op = .send e
  · obtain ⟨e, rfl⟩ := hsend
    exact hw.live_of_send hspares hnext hrun hs hlive
  · exact hw.live_of_not_send hspares hnext hrun (fun e he => hsend ⟨e, he⟩) hs hlive

/-- In every run whose steps spare the entries of others, the maps are in order and every client
id has one session at most that was registered and not handed to `CloseSession`. -/
theorem one_live_session (cfg : Config) {w : World} (h : (system cfg).Reach SparesOthers w) :
    OneLive w := by
  have hinv : Seated w ∧ Filed w :=
    h.invariant (I := fun w => Seated w ∧ Filed w) (fun _ hw => ⟨.init hw, .init hw⟩)
      fun _ _ _ hw hspares hstep => ⟨hw.1.step hstep, hw.2.step hspares hstep⟩
  exact hinv.2.oneLive hinv.1

/-- A check of a step that spares the entries of others. -/
def sparesOthers (w : World) (t : Turn) : Bool :=
  renames w t && match next t w with
  | some (.send (.connected s), _) | some (.send (.disconnect s), _)
  | some (.send (.pingTimeout s), _) =>
    match w.mgr.connectedSessionMap.lookup (w.sessions s).clientId with
    | none => true
    | some s' => decide (s' = s ∨ w.Handed s')
  | _ => true

theorem sparesOthers_of_check (h : sparesOthers w t = true) : SparesOthers w t := by
  rw [sparesOthers, Bool.and_eq_true] at h
  refine ⟨renames_of_check h.1, fun e g s hnext he s' hs' => ?_⟩
  have hevent := h.2
  rw [hnext] at hevent
  rcases he with rfl | rfl | rfl <;>
    simpa only [hs', decide_eq_true_eq] using hevent

/-- Session 2 takes the client id of session 1 over before it is registered. -/
theorem one_live_session_taken_over : ∃ w, (system {}).Reach SparesOthers w ∧
    (w.Registered 1 ∧ w.Registered 2 ∧ w.Handed 1 ∧
      w.mgr.connectedSessionMap.lookup (str "a") = some 2) ∧ OneLive w := by
  have hend : ((system {}).exec
      (connecting 1 (str "a") ++ connected 1 ++ connecting 2 (str "a") ++
        [recvOnce 2, .closer, recvOnce 2, recvOnce 2]) (start {})).any (fun w =>
        w.Registered 1 ∧ w.Registered 2 ∧ w.Handed 1 ∧
          w.mgr.connectedSessionMap.lookup (str "a") = some 2) = true := by
    decide +kernel
  have halong : (system {}).Along SparesOthers
      (connecting 1 (str "a") ++ connected 1 ++ connecting 2 (str "a") ++
        [recvOnce 2, .closer, recvOnce 2, recvOnce 2]) (start {}) :=
    StepSystem.along_of_check (c := sparesOthers) (fun _ _ h => sparesOthers_of_check h)
      (by decide +kernel)
  obtain ⟨w, hreach, hw⟩ := StepSystem.exists_reach_of_any (start_initial {}) halong hend
  exact ⟨w, hreach, of_decide_eq_true hw, one_live_session {} hreach⟩

/-- A CONNACK that a client sends. -/
def connackTurns (s : SessionRef) (returnCode : UInt8) : List Turn :=
  [.recvPacket s ⟨_, connackOf_decoded returnCode⟩, recvOnce s, recvOnce s, recvOnce s]

/-- Two CONNECTs with one client id whose events come in turns leave two live sessions, and a
CONNECT after a CONNACK leaves an entry under an id that its session does not have. -/
theorem two_live_sessions_and_misfiled :
    (∃ w, (system {}).Reachable w ∧ w.Registered 1 ∧ w.Registered 2 ∧
        (w.sessions 1).clientId = (w.sessions 2).clientId ∧ ¬ w.Handed 1 ∧ ¬ w.Handed 2 ∧
          ¬ OneLive w) ∧
      ∃ w, (system {}).Reachable w ∧ w.mgr.connectedSessionMap.lookup [] = some 1 ∧
        (w.sessions 1).clientId = str "a" ∧ ¬ OneLive w := by
  constructor
  · have hend : ((system {}).exec
        (connecting 1 (str "a") ++ connecting 2 (str "a") ++
          -- both take-overs are served before the first registration
          [recvOnce 1, recvOnce 2, recvOnce 1, recvOnce 2]) (start {})).any (fun w =>
        w.Registered 1 ∧ w.Registered 2 ∧ (w.sessions 1).clientId = (w.sessions 2).clientId ∧
          ¬ w.Handed 1 ∧ ¬ w.Handed 2) = true := by
      decide +kernel
    obtain ⟨w, hreach, hw⟩ := StepSystem.exists_reachable_of_any (start_initial {}) hend
    obtain ⟨h₁, h₂, hid, hlive₁, hlive₂⟩ := of_decide_eq_true hw
    refine ⟨w, hreach, h₁, h₂, hid, hlive₁, hlive₂, fun h => ?_⟩
    exact absurd (h.one_live 1 2 h₁ h₂ hid hlive₁ hlive₂) (by decide)
  · have hend : ((system {}).exec
        ([.handleConnection 1] ++ connackTurns 1 1 ++ (connecting 1 (str "a")).tail)
        (start {})).any (fun w => w.mgr.connectedSessionMap.lookup [] = some 1 ∧
          (w.sessions 1).clientId = str "a") = true := by
      decide +kernel
    obtain ⟨w, hreach, hw⟩ := StepSystem.exists_reachable_of_any (start_initial {}) hend
    obtain ⟨hfiled, hid⟩ := of_decide_eq_true hw
    refine ⟨w, hreach, hfiled, hid, fun h => ?_⟩
    have hempty := h.filed [] 1 hfiled
    rw [hid] at hempty
    exact absurd hempty (by decide)

end World
end MqttBroker

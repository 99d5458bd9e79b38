import MqttBroker.Lifecycle.Steps
import MqttBroker.Topic.Lookup

/-!
# Closed sessions in the subscription tree

A report takes its session out of the tree before it stores `closing`; `Close` does not. So a
session that is closed without a report, because another connection took its client id over,
stays in the tree unless it had left it before, and so does one whose SUBSCRIBE is carried out
after its report took it out. Where neither happens, no node holds a closed session.
-/

namespace MqttBroker

/-- The closer has stored `closed` for the session and has not returned yet. -/
def Closer.hasStored (s : SessionRef) : Closer → Prop
  | closePedding s' | loadStoped s' | stop s' | wait s' | done s' => s' = s
  | _ => False

namespace World

/-- The step adds no subscription of a session that a report has taken out of the tree, and
stores `closed` for no session that is in the tree and that no report has stored `closing`
for. -/
structure LeavesFirst (w : World) (t : Turn) : Prop where
  add : ∀ s subs qoss g, next t w = some (.add s subs qoss, g) →
    (w.sessions s).clostep = .running ∧ ∀ who k, w.reporting who ≠ some (s, k, .store)
  close : ∀ s, t = .closer → w.closer = .store s → (w.sessions s).clostep = .running →
    TreeSubsMgr.Absent s w.subscriptionMgr

/-- A session that was reported or closed is in no node, and `Close` returns for closed sessions
only. -/
structure Left (s : SessionRef) (w : World) : Prop where
  removed : ∀ who k, w.reporting who = some (s, k, .store) →
    TreeSubsMgr.Absent s w.subscriptionMgr
  ended : (w.sessions s).clostep ≠ .running → TreeSubsMgr.Absent s w.subscriptionMgr
  closing : w.closer.hasStored s → (w.sessions s).clostep ≠ .running
  returned : .closeReturned s ∈ w.trace → (w.sessions s).clostep ≠ .running

variable {cfg : Config} {t : Turn} {w w' : World} {op : Op} {g : Goroutines}

/-- A report comes to its store from there or through `RemoveSession`. -/
theorem Move.to_store (h : Move w t op g) {s : SessionRef} {who : Reporter} {k : Report}
    (hwho : g.reporting who = some (s, k, .store)) :
    w.reporting who = some (s, k, .store) ∨ op = .removeSession s := by
  rcases h.reports with ⟨who', -, hothers, hm⟩ | ⟨-, hsame⟩
  · by_cases hne : who = who'
    · rw [← hne, hwho] at hm
      -- by the operation that took the report there
      generalize w.reporting who = r at hm
      cases hm with
      | other => exact .inl rfl
      | removeSession => exact .inr rfl
    · exact .inl ((hothers who hne).symm.trans hwho)
  · exact .inl ((hsame who).symm.trans hwho)

/-- An `Add` moves no report. -/
theorem Move.reporting_of_add {s : SessionRef} {subs : List GoString} {qoss : List UInt8}
    (h : Move w t (.add s subs qoss) g) (who : Reporter) :
    g.reporting who = w.reporting who := by
  rcases h.reports with ⟨who', -, hothers, hm⟩ | ⟨-, hsame⟩
  · by_cases hne : who = who'
    · rw [← hne] at hm
      generalize hbefore : w.reporting who = r at hm
      generalize hafter : g.reporting who = r' at hm
      cases hm
      rfl
    · exact hothers who hne
  · exact hsame who

/-- The closer is behind its store for sessions that are not running any more. -/
theorem Left.closer {s : SessionRef} (hw : Left s w) (hmove : Move w t op w'.toGoroutines)
    (hrun : w.run cfg op = some w'.toShared) :
    (w'.closer.hasStored s → (w'.sessions s).clostep ≠ .running) ∧
      (.closeReturned s ∈ w'.trace → (w'.sessions s).clostep ≠ .running) := by
  have hkeep : (w.sessions s).clostep ≠ .running → (w'.sessions s).clostep ≠ .running :=
    hmove.clostep_ne_running hrun
  have hreturned : op ≠ .closeReturned s →
      .closeReturned s ∈ w'.trace → (w'.sessions s).clostep ≠ .running := by
    intro hop hmem
    rcases (Shared.mem_trace_closeReturned hrun s).mp hmem with hmem | h
    · exact hkeep (hw.returned hmem)
    · exact absurd h hop
  rcases hmove.closer_cases with ⟨-, hm, -, -⟩ | ⟨hcloser, hop⟩
  · generalize hbefore : w.closer = c at hm
    generalize w'.closer = c' at hm
    have hstored : ∀ c, w.closer = c → c.hasStored s → (w'.sessions s).clostep ≠ .running := by
      rintro c rfl hc
      exact hkeep (hw.closing hc)
    cases hm with
    -- one case for each place of `Close`: only the store and what comes after it matter
    | take | pass => exact ⟨fun h => h.elim, hreturned (by simp)⟩
    -- the session was closed before
    | skip hclosed =>
      refine ⟨?_, hreturned (by simp)⟩
      rintro rfl
      apply hkeep
      rw [hclosed]
      decide
    | store =>
      refine ⟨?_, hreturned (by simp)⟩
      rintro rfl
      rw [Shared.run_storeClostep hrun]
      decide
    | closePedding | stoped | running | stop | waited =>
      exact ⟨fun h => hstored _ hbefore h, hreturned (by simp)⟩
    | done s' =>
      refine ⟨fun h => h.elim, fun hmem => ?_⟩
      rcases (Shared.mem_trace_closeReturned hrun s).mp hmem with hmem | h
      · exact hkeep (hw.returned hmem)
      · injection h with h
        exact hstored _ hbefore h
  · refine ⟨fun h => hkeep (hw.closing (hcloser ▸ h)), hreturned ?_⟩
    rintro rfl
    exact absurd hop (by simp [Op.isClose])

theorem Left.step {s : SessionRef} (hw : Left s w) (hleaves : LeavesFirst w t)
    (h : World.step cfg t w = some w') : Left s w' := by
  obtain ⟨-, op, hnext, hmove, hrun⟩ := step_move h
  obtain ⟨hclosing, hreturned⟩ := hw.closer hmove hrun
  by_cases hadd : ∃ subs qoss, op = .add s subs qoss
  · obtain ⟨subs, qoss, rfl⟩ := hadd
    -- the session is running and nobody has taken it out, before and after the step
    obtain ⟨hrunning, hstore⟩ := hleaves.add s subs qoss _ hnext
    have hclostep := Shared.run_clostep (s := s) hrun fun c => by simp
    refine ⟨fun who k hwho => ?_, fun hne => ?_, hclosing, hreturned⟩
    · rw [hmove.reporting_of_add] at hwho
      exact absurd hwho (hstore who k)
    · rw [hclostep] at hne
      exact absurd hrunning hne
  -- no other step brings the session into the tree
  · have hkeep : TreeSubsMgr.Absent s w.subscriptionMgr →
        TreeSubsMgr.Absent s w'.subscriptionMgr :=
      Shared.run_absent hrun fun subs qoss hop => hadd ⟨subs, qoss, hop⟩
    refine ⟨fun who k hwho => ?_, fun hne => ?_, hclosing, hreturned⟩
    · rcases hmove.to_store hwho with hstore | rfl
      · exact hkeep (hw.removed who k hstore)
      · exact Shared.run_removeSession hrun
    · by_cases hrunning : (w.sessions s).clostep = .running
      · -- this step has stored `clostep`
        apply hkeep
        by_cases hstore : ∃ c, op = .storeClostep s c
        · obtain ⟨c, rfl⟩ := hstore
          cases c with
          | running => exact absurd hmove Move.store_ne_running
          | closing =>
            obtain ⟨who, k, hwho⟩ := hmove.store_closing
            exact hw.removed who k hwho
          | closed =>
            obtain ⟨ht, hcloser⟩ := hmove.store_closed
            exact hleaves.close s ht hcloser hrunning
        · rw [Shared.run_clostep hrun fun c hc => hstore ⟨c, hc⟩] at hne
          exact absurd hrunning hne
      · exact hkeep (hw.ended hrunning)

theorem Left.init {s : SessionRef} (h : Initial cfg w) : Left s w := by
  have habsent : TreeSubsMgr.Absent s w.subscriptionMgr := by
    rw [h.subscriptionMgr]
    exact TreeSubsMgr.absent_newNode s
  constructor
  · exact fun _ _ _ => habsent
  · exact fun _ => habsent
  · intro hc
    rw [show w.closer = .idle from congrArg Goroutines.closer h.goroutines] at hc
    exact hc.elim
  · rw [h.trace]
    simp

/-- In a run whose steps take a session out of the tree before they close it, no node holds a
session for which `Close` has returned, nor one that is closed, and no lookup finds one. -/
theorem closed_not_subscribed (cfg : Config) {w : World} (h : (system cfg).Reach LeavesFirst w)
    (s : SessionRef) (hs : .closeReturned s ∈ w.trace ∨ (w.sessions s).isClosed) :
    TreeSubsMgr.Absent s w.subscriptionMgr ∧
      ∀ topic, s ∉ w.subscriptionMgr.getSessions topic := by
  have hleft : Left s w :=
    h.invariant (fun _ hw => .init hw) fun _ _ _ hw hleaves hstep => hw.step hleaves hstep
  have habsent : TreeSubsMgr.Absent s w.subscriptionMgr := by
    apply hleft.ended
    rcases hs with hreturned | hclosed
    · exact hleft.returned hreturned
    · rw [hclosed]
      decide
  exact ⟨habsent, habsent.notMem_getSessions⟩

/-- A check of a step that takes sessions out first; every session closed without a report fails
it. -/
def leavesFirst (w : World) (t : Turn) : Bool :=
  (match next t w with
    | some (.add s _ _, _) =>
      (w.sessions s).clostep == .running && [Reporter.loop s, .ticker].all fun who =>
        match w.reporting who with
        | some (s', _, .store) => s' != s
        | _ => true
    | _ => true) &&
  match t, w.closer with
  | .closer, .store s => (w.sessions s).clostep != .running
  | _, _ => true

theorem leavesFirst_of_check (h : leavesFirst w t = true) : LeavesFirst w t := by
  unfold leavesFirst at h
  rw [Bool.and_eq_true] at h
  constructor
  · intro s subs qoss g hnext
    have hadd := h.1
    rw [hnext] at hadd
    simp only [Bool.and_eq_true, beq_iff_eq] at hadd
    refine ⟨hadd.1, fun who k hwho => ?_⟩
    -- only two goroutines can report the session
    have hfree := List.all_eq_true.mp hadd.2 who (Goroutines.mem_reporters hwho)
    rw [hwho] at hfree
    simp at hfree
  · intro s ht hcloser hrunning
    have hclose := h.2
    simp [ht, hcloser, hrunning] at hclose

/-- A session subscribes, its connection fails, and the closer closes it. -/
theorem closed_not_subscribed_failed : ∃ w, (system {}).Reach LeavesFirst w ∧
    .closeReturned 1 ∈ w.trace ∧ 1 ∉ w.subscriptionMgr.getSessions (str "x") := by
  have hend : ((system {}).exec
      (connecting 1 (str "a") ++ connected 1 ++ subscribing 1 120 ++ failing 1 ++ [recvOnce 1] ++
        closerTurns ++ [.closer, .closer]) (start {})).any (fun w =>
        World.Event.closeReturned 1 ∈ w.trace) = true := by
    decide +kernel
  have halong : (system {}).Along LeavesFirst
      (connecting 1 (str "a") ++ connected 1 ++ subscribing 1 120 ++ failing 1 ++ [recvOnce 1] ++
        closerTurns ++ [.closer, .closer]) (start {}) :=
    StepSystem.along_of_check (c := leavesFirst) (fun _ _ h => leavesFirst_of_check h)
      (by decide +kernel)
  obtain ⟨w, hreach, hw⟩ := StepSystem.exists_reach_of_any (start_initial {}) halong hend
  have hreturned : .closeReturned 1 ∈ w.trace := of_decide_eq_true hw
  exact ⟨w, hreach, hreturned, (closed_not_subscribed {} hreach 1 (.inl hreturned)).2 (str "x")⟩

/-- A session that subscribes and whose client id another session takes over is closed and stays
in the tree. -/
theorem taken_over_stays_subscribed : ∃ w, (system {}).Reachable w ∧
    .closeReturned 1 ∈ w.trace ∧ 1 ∈ w.subscriptionMgr.getSessions (str "x") := by
  have hend : ((system {}).exec
      (connecting 1 (str "a") ++ connected 1 ++ subscribing 1 120 ++ connecting 2 (str "a") ++
        [recvOnce 2] ++ closerTurns ++ [.recvError 1, recvOnce 1, recvOnce 1] ++
        [.closer, .closer]) (start {})).any (fun w =>
        World.Event.closeReturned 1 ∈ w.trace ∧
          1 ∈ w.subscriptionMgr.getSessions (str "x")) = true := by
    decide +kernel
  obtain ⟨w, hreach, hw⟩ := StepSystem.exists_reachable_of_any (start_initial {}) hend
  exact ⟨w, hreach, of_decide_eq_true hw⟩

end World
end MqttBroker

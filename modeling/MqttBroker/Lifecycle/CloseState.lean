import MqttBroker.Lifecycle.Steps

/-!
# The close state of a session

`clostep` is loaded and stored by two goroutines that report the end of a session and by the
closer, with nothing that makes a load and the store after it one step. Where no report is
let through, and `closed` is not stored, while another report of the session stands between
its load and its store, `clostep` only grows, one report reaches the manager at most, and
`peddingChan` is closed once at most. The last theorem is a run with two reports, the second
of which takes `clostep` back from `closed`.
-/

namespace MqttBroker

/-- The values of `clostep` in the source. -/
def Clostep.value : Clostep → ℕ
  | running => 0
  | closing => 1
  | closed => 2

theorem Clostep.eq_closed_of_value_le {c c' : Clostep} (h : c.value ≤ c'.value)
    (hc : c = .closed) : c' = .closed := by
  subst hc
  cases c' with
  | closed => rfl
  | running | closing => exact absurd h (by decide)

/-- The event tells the manager that a session has ended. -/
def MgrEvent.ends (s : SessionRef) : MgrEvent → Bool
  | disconnect s' | pingTimeout s' | connectTimeout s' => s' == s
  | _ => false

namespace World

/-- The manager has served a report of the session. -/
def Event.ends (s : SessionRef) : Event → Bool
  | served e => e.ends s
  | _ => false

/-- How many reports of a session have reached the manager. -/
def reportsServed (s : SessionRef) (w : World) : ℕ := w.trace.countP (Event.ends s)

/-- How often `close(this.peddingChan)` was executed for a session. -/
def peddingCloses (s : SessionRef) (w : World) : ℕ := w.trace.count (.closePedding s)

/-- A goroutine's report of the session is past its load of `clostep`. -/
def Past (s : SessionRef) (g : Goroutines) (who : Reporter) : Prop :=
  ∃ k stage, g.reporting who = some (s, k, stage) ∧ stage ≠ .load

/-- A goroutine's report of the session is between its load of `clostep` and its store. -/
def Between (s : SessionRef) (g : Goroutines) (who : Reporter) : Prop :=
  ∃ k stage, g.reporting who = some (s, k, stage) ∧ (stage = .removeSession ∨ stage = .store)

/-- The step neither lets a report of a session through nor stores `closed` for it while a
report of the session is between its load and its store. -/
structure InTurn (w : World) (t : Turn) : Prop where
  check : ∀ who s k, reporter t = some who → w.reporting who = some (s, k, .load) →
    (w.sessions s).clostep = .running → ∀ who', ¬ Between s w.toGoroutines who'
  store : ∀ s, t = .closer → w.closer = .store s → ∀ who, ¬ Between s w.toGoroutines who

/-! ## Reports -/

/-- One report at most is past the load, and none when the manager has been told. -/
structure OneReport (s : SessionRef) (w : World) : Prop where
  running : ∀ who, Between s w.toGoroutines who → (w.sessions s).clostep = .running
  alone : ∀ who who', Past s w.toGoroutines who → Past s w.toGoroutines who' → who = who'
  stored : ∀ who k, w.reporting who = some (s, k, .send) → (w.sessions s).clostep ≠ .running
  untold : ∀ who, Past s w.toGoroutines who → w.reportsServed s = 0
  quiet : (w.sessions s).clostep = .running → w.reportsServed s = 0
  once : w.reportsServed s ≤ 1

variable {cfg : Config} {t : Turn} {w w' : World} {op : Op} {g : Goroutines}

theorem Between.past {s : SessionRef} {who : Reporter} (h : Between s g who) : Past s g who := by
  obtain ⟨k, stage, hwho, hstage⟩ := h
  refine ⟨k, stage, hwho, ?_⟩
  rintro rfl
  rcases hstage with h | h <;> exact absurd h (by decide)

/-- What is past the load is between it and the store, or sends. -/
theorem Past.cases {s : SessionRef} {who : Reporter} (h : Past s g who) :
    Between s g who ∨ ∃ k, g.reporting who = some (s, k, .send) := by
  obtain ⟨k, stage, hwho, hstage⟩ := h
  cases stage with
  | load => exact absurd rfl hstage
  | removeSession => exact .inl ⟨k, _, hwho, .inl rfl⟩
  | store => exact .inl ⟨k, _, hwho, .inr rfl⟩
  | send => exact .inr ⟨k, hwho⟩

theorem past_congr {s : SessionRef} {who : Reporter} {g' : Goroutines}
    (h : g'.reporting who = g.reporting who) : Past s g' who ↔ Past s g who := by
  unfold Past
  rw [h]

theorem between_congr {s : SessionRef} {who : Reporter} {g' : Goroutines}
    (h : g'.reporting who = g.reporting who) : Between s g' who ↔ Between s g who := by
  unfold Between
  rw [h]

/-- Only a served report counts. -/
theorem reportsServed_of_run (h : w.run cfg op = some w'.toShared) (s : SessionRef) :
    w'.reportsServed s = w.reportsServed s +
      (match op with | .send e => if e.ends s then 1 else 0 | _ => 0) := by
  unfold reportsServed
  rw [Shared.run_trace h, List.countP_append]
  congr 1
  cases op with
  | send e =>
    -- what is handed over is no report
    have hhanded : List.countP (Event.ends s)
        ((w.case e w.mgr).1.map Event.closeSession).toList = 0 := by
      cases (w.case e w.mgr).1 <;> rfl
    rw [Op.events, List.countP_cons, hhanded, Nat.zero_add]
    rfl
  | _ => rfl

/-- A report in which nothing moves that is past its load. -/
theorem OneReport.of_past {s : SessionRef} (hw : OneReport s w)
    (hpast : ∀ who, Past s w'.toGoroutines who → Past s w.toGoroutines who)
    (hbetween : ∀ who, Between s w'.toGoroutines who → Between s w.toGoroutines who)
    (hsend : ∀ who k, w'.reporting who = some (s, k, .send) →
      w.reporting who = some (s, k, .send))
    (hrunning : (∃ who, Between s w.toGoroutines who) →
      (w'.sessions s).clostep = (w.sessions s).clostep)
    (hstop : (w'.sessions s).clostep = .running → (w.sessions s).clostep = .running)
    (hserved : w'.reportsServed s = w.reportsServed s) : OneReport s w' where
  running who h := by
    rw [hrunning ⟨who, hbetween who h⟩]
    exact hw.running who (hbetween who h)
  alone who who' h h' := hw.alone who who' (hpast who h) (hpast who' h')
  stored who k h hrun := hw.stored who k (hsend who k h) (hstop hrun)
  untold who h := by
    rw [hserved]
    exact hw.untold who (hpast who h)
  quiet h := by
    rw [hserved]
    exact hw.quiet (hstop h)
  once := by
    rw [hserved]
    exact hw.once

/-- A step in which no report moves. -/
theorem OneReport.other {s : SessionRef} (hw : OneReport s w) (hturn : InTurn w t)
    (hmove : Move w t op w'.toGoroutines) (hrun : w.run cfg op = some w'.toShared)
    (hop : op.isReport = false) (hsame : ∀ who, w'.reporting who = w.reporting who) :
    OneReport s w' := by
  -- the closer may store `closed`, and nothing else is stored outside a report
  have hclostep : (w'.sessions s).clostep = (w.sessions s).clostep ∨
      op = .storeClostep s .closed := by
    by_cases hstore : ∃ c, op = .storeClostep s c
    · obtain ⟨c, rfl⟩ := hstore
      cases c with
      | closed => exact .inr rfl
      | closing | running => exact absurd hop (by simp [Op.isReport])
    · exact .inl (Shared.run_clostep hrun fun c hc => hstore ⟨c, hc⟩)
  refine hw.of_past (fun who h => (past_congr (hsame who)).mp h)
    (fun who h => (between_congr (hsame who)).mp h) (fun who k h => (hsame who).symm.trans h)
    ?_ ?_ ?_
  · rintro ⟨who, hbetween⟩
    rcases hclostep with h | rfl
    · exact h
    · obtain ⟨ht, hc⟩ := hmove.store_closed
      exact absurd hbetween (hturn.store s ht hc who)
  · intro h
    rcases hclostep with hc | rfl
    · rwa [hc] at h
    · rw [Shared.run_storeClostep hrun] at h
      exact absurd h (by decide)
  · rw [reportsServed_of_run hrun]
    cases op with
    | send e =>
      cases e with
      | disconnect | pingTimeout | connectTimeout => exact absurd hop (by simp [Op.isReport])
      | _ => rfl
    | _ => rfl

/-- What is past the load afterwards, when one report has moved. -/
theorem past_of_move {s : SessionRef} {who who' : Reporter}
    {r : Option (SessionRef × Report × Stage)}
    (hothers : ∀ who' ≠ who, g.reporting who' = w.reporting who') (hr : g.reporting who = r)
    (h : Past s g who') :
    (who' ≠ who ∧ Past s w.toGoroutines who') ∨
      who' = who ∧ ∃ k stage, r = some (s, k, stage) ∧ stage ≠ .load := by
  by_cases hwho : who' = who
  · refine .inr ⟨hwho, ?_⟩
    obtain ⟨k, stage, hg, hstage⟩ := h
    rw [hwho, hr] at hg
    exact ⟨k, stage, hg, hstage⟩
  · exact .inl ⟨hwho, (past_congr (hothers who' hwho)).mp h⟩

/-- A report of another session moves, or one that is not let through. -/
theorem OneReport.move_of_past {s : SessionRef} (hw : OneReport s w) {who : Reporter}
    (hothers : ∀ who' ≠ who, w'.reporting who' = w.reporting who')
    (hpast : Past s w'.toGoroutines who → Past s w.toGoroutines who)
    (hbetween : Between s w'.toGoroutines who → Between s w.toGoroutines who)
    (hsend : ∀ k, w'.reporting who = some (s, k, .send) → w.reporting who = some (s, k, .send))
    (hrun : w.run cfg op = some w'.toShared) (hop : ∀ c, op ≠ .storeClostep s c)
    (hserved : w'.reportsServed s = w.reportsServed s) : OneReport s w' := by
  have hclostep := Shared.run_clostep hrun hop
  refine hw.of_past (fun who' h => ?_) (fun who' h => ?_) (fun who' k h => ?_)
    (fun _ => hclostep) (fun h => hclostep ▸ h) hserved
  · by_cases hwho : who' = who
    · rw [hwho] at h ⊢
      exact hpast h
    · exact (past_congr (hothers who' hwho)).mp h
  · by_cases hwho : who' = who
    · rw [hwho] at h ⊢
      exact hbetween h
    · exact (between_congr (hothers who' hwho)).mp h
  · by_cases hwho : who' = who
    · rw [hwho] at h ⊢
      exact hsend k h
    · exact (hothers who' hwho).symm.trans h

/-- A report moves that is not past its load afterwards, or is of another session. -/
theorem OneReport.move_of_not_past {s : SessionRef} (hw : OneReport s w) {who : Reporter}
    (hothers : ∀ who' ≠ who, w'.reporting who' = w.reporting who')
    (hnot : ¬ Past s w'.toGoroutines who) (hrun : w.run cfg op = some w'.toShared)
    (hop : ∀ c, op ≠ .storeClostep s c) (hserved : w'.reportsServed s = w.reportsServed s) :
    OneReport s w' :=
  hw.move_of_past hothers (fun h => absurd h hnot) (fun h => absurd h.past hnot)
    (fun k h => absurd ⟨k, _, h, by decide⟩ hnot) hrun hop hserved

/-- The check of `clostep` lets a report through. -/
theorem OneReport.pass {s : SessionRef} (hw : OneReport s w) (hturn : InTurn w t) {who : Reporter}
    {k : Report} (hwho : reporter t = some who)
    (hothers : ∀ who' ≠ who, w'.reporting who' = w.reporting who')
    (hbefore : w.reporting who = some (s, k, .load))
    (hafter : w'.reporting who = some (s, k, .removeSession))
    (hrunning : (w.sessions s).clostep = .running)
    (hrun : w.run cfg .load = some w'.toShared) : OneReport s w' := by
  have hclostep := Shared.run_clostep (s := s) hrun fun c => by simp
  have hserved : w'.reportsServed s = w.reportsServed s := reportsServed_of_run hrun s
  -- nothing else is past its load: not before the store by the condition, not after it either
  -- because `clostep` is still 0
  have hnone : ∀ who', ¬ Past s w.toGoroutines who' := by
    intro who' h
    rcases h.cases with hbetween | ⟨k', hsend⟩
    · exact hturn.check who s k hwho hbefore hrunning who' hbetween
    · exact hw.stored who' k' hsend hrunning
  have honly : ∀ who', Past s w'.toGoroutines who' → who' = who := by
    intro who' h
    rcases past_of_move hothers hafter h with ⟨-, h⟩ | ⟨h, -⟩
    · exact absurd h (hnone who')
    · exact h
  constructor
  · intro who' _
    rw [hclostep]
    exact hrunning
  · intro who₁ who₂ h₁ h₂
    rw [honly who₁ h₁, honly who₂ h₂]
  · intro who' k' h
    have hpast : Past s w'.toGoroutines who' := ⟨k', _, h, by decide⟩
    rw [honly who' hpast, hafter] at h
    exact absurd h (by simp)
  · intro who' _
    rw [hserved]
    exact hw.quiet hrunning
  · intro _
    rw [hserved]
    exact hw.quiet hrunning
  · rw [hserved]
    exact hw.once

/-- A report stores `closing`. -/
theorem OneReport.store {s : SessionRef} (hw : OneReport s w) {who : Reporter} {k : Report}
    (hothers : ∀ who' ≠ who, w'.reporting who' = w.reporting who')
    (hbefore : w.reporting who = some (s, k, .store))
    (hafter : w'.reporting who = some (s, k, .send))
    (hrun : w.run cfg (.storeClostep s .closing) = some w'.toShared) : OneReport s w' := by
  have hclostep := Shared.run_storeClostep hrun
  have hserved : w'.reportsServed s = w.reportsServed s := reportsServed_of_run hrun s
  have hpast : Past s w.toGoroutines who := ⟨k, _, hbefore, by decide⟩
  -- what was past its load was this report
  have honly : ∀ who', Past s w'.toGoroutines who' → who' = who := by
    intro who' h
    rcases past_of_move hothers hafter h with ⟨-, h⟩ | ⟨h, -⟩
    · exact hw.alone who' who h hpast
    · exact h
  have hne : (w'.sessions s).clostep ≠ .running := by
    rw [hclostep]
    decide
  constructor
  · intro who' h
    rw [honly who' h.past] at h
    obtain ⟨k', stage, hg, hstage⟩ := h
    rw [hafter] at hg
    rcases hstage with rfl | rfl <;> exact absurd hg (by simp)
  · intro who₁ who₂ h₁ h₂
    rw [honly who₁ h₁, honly who₂ h₂]
  · exact fun _ _ _ => hne
  · intro who' h
    rw [hserved]
    exact hw.untold who hpast
  · exact fun h => absurd h hne
  · rw [hserved]
    exact hw.once

/-- A report reaches the manager. -/
theorem OneReport.send {s : SessionRef} (hw : OneReport s w) {who : Reporter} {k : Report}
    (hothers : ∀ who' ≠ who, w'.reporting who' = w.reporting who')
    (hbefore : w.reporting who = some (s, k, .send)) (hafter : w'.reporting who = none)
    (hrun : w.run cfg (.send (k.event s)) = some w'.toShared) : OneReport s w' := by
  have hclostep := Shared.run_clostep (s := s) hrun fun c => by simp
  have hpast : Past s w.toGoroutines who := ⟨k, _, hbefore, by decide⟩
  -- it is the first one, as it was past its load
  have hserved : w'.reportsServed s = 1 := by
    rw [reportsServed_of_run hrun, hw.untold who hpast]
    cases k <;> simp [Report.event, MgrEvent.ends]
  have hnone : ∀ who', ¬ Past s w'.toGoroutines who' := by
    intro who' h
    rcases past_of_move hothers hafter h with ⟨hne, h⟩ | ⟨-, k', stage, hg, -⟩
    · exact hne (hw.alone who' who h hpast)
    · exact absurd hg (by simp)
  have hne : (w'.sessions s).clostep ≠ .running := by
    rw [hclostep]
    exact hw.stored who k hbefore
  constructor
  · exact fun who' h => absurd h.past (hnone who')
  · exact fun who' _ h => absurd h (hnone who')
  · exact fun _ _ _ => hne
  · exact fun who' h => absurd h (hnone who')
  · exact fun h => absurd h hne
  · omega

theorem OneReport.step {s : SessionRef} (hw : OneReport s w) (hturn : InTurn w t)
    (h : World.step cfg t w = some w') : OneReport s w' := by
  obtain ⟨-, op, -, hmove, hrun⟩ := step_move h
  rcases hmove.reports with ⟨who, hwho, hothers, hm⟩ | ⟨hop, hsame⟩
  · generalize hbefore : w.reporting who = r at hm
    generalize hafter : w'.reporting who = r' at hm
    -- a goroutine whose report is of another session, or not let through yet
    have hnot : ∀ {s' : SessionRef} {k : Report} {stage : Stage},
        w'.reporting who = some (s', k, stage) → s' ≠ s ∨ stage = .load →
          ¬ Past s w'.toGoroutines who := by
      rintro s' k stage hg hs ⟨k', stage', hg', hstage⟩
      rw [hg] at hg'
      injection hg' with hg'
      injection hg' with hss hg'
      injection hg' with _ hg'
      rcases hs with hs | hs
      · exact hs hss
      · exact hstage (hg'.symm.trans hs)
    have hnone : w'.reporting who = none → ¬ Past s w'.toGoroutines who := by
      rintro hg ⟨k, stage, hg', -⟩
      rw [hg] at hg'
      exact absurd hg' (by simp)
    cases hm with
    -- one case for each operation of a report, for the session itself and for others
    | other hop =>
      refine hw.other hturn hmove hrun hop fun who' => ?_
      by_cases hwho' : who' = who
      · rw [hwho', hbefore]
        exact hafter
      · exact hothers who' hwho'
    | start s' k =>
      exact hw.move_of_not_past hothers (hnot hafter (.inr rfl)) hrun (fun c => by simp)
        (reportsServed_of_run hrun s)
    | drop k hrunning =>
      exact hw.move_of_not_past hothers (hnone hafter) hrun (fun c => by simp)
        (reportsServed_of_run hrun s)
    | @pass s' k hrunning =>
      by_cases hs : s' = s
      · subst hs
        exact hw.pass hturn hwho hothers hbefore hafter hrunning hrun
      · exact hw.move_of_not_past hothers (hnot hafter (.inl hs)) hrun (fun c => by simp)
          (reportsServed_of_run hrun s)
    | removeSession s' k =>
      by_cases hs : s' = s
      · subst hs
        have hbetween : Between s' w.toGoroutines who := ⟨k, _, hbefore, .inl rfl⟩
        refine hw.move_of_past hothers (fun _ => hbetween.past) (fun _ => hbetween)
          (fun k' h => ?_) hrun (fun c => by simp) (reportsServed_of_run hrun s')
        rw [hafter] at h
        exact absurd h (by simp)
      · exact hw.move_of_not_past hothers (hnot hafter (.inl hs)) hrun (fun c => by simp)
          (reportsServed_of_run hrun s)
    | store s' k =>
      by_cases hs : s' = s
      · subst hs
        exact hw.store hothers hbefore hafter hrun
      · refine hw.move_of_not_past hothers (hnot hafter (.inl hs)) hrun (fun c hc => ?_)
          (reportsServed_of_run hrun s)
        injection hc with hc
        exact hs hc
    | send s' k =>
      by_cases hs : s' = s
      · subst hs
        exact hw.send hothers hbefore hafter hrun
      · refine hw.move_of_not_past hothers (hnone hafter) hrun (fun c => by simp) ?_
        rw [reportsServed_of_run hrun]
        cases k <;> simp [Report.event, MgrEvent.ends, hs]
  · exact hw.other hturn hmove hrun hop hsame

theorem OneReport.init {s : SessionRef} (h : Initial cfg w) : OneReport s w := by
  have hnone : ∀ who, ¬ Past s w.toGoroutines who := by
    rintro who ⟨k, stage, hg, -⟩
    rw [h.goroutines] at hg
    cases who <;> exact absurd hg (by simp [Goroutines.reporting, Recv.reporting,
      Ticker.reporting])
  have hserved : w.reportsServed s = 0 := by
    unfold reportsServed
    rw [h.trace]
    rfl
  constructor
  · exact fun who h => absurd h.past (hnone who)
  · exact fun who _ h => absurd h (hnone who)
  · exact fun who k h => absurd ⟨k, _, h, by decide⟩ (hnone who)
  · exact fun who h => absurd h (hnone who)
  · exact fun _ => hserved
  · omega

/-! ## `clostep` and `peddingChan` -/

/-- `clostep` does not decrease. -/
theorem OneReport.value_le {s : SessionRef} (hw : OneReport s w)
    (h : World.step cfg t w = some w') :
    (w.sessions s).clostep.value ≤ (w'.sessions s).clostep.value := by
  obtain ⟨-, op, -, hmove, hrun⟩ := step_move h
  by_cases hstore : ∃ c, op = .storeClostep s c
  · obtain ⟨c, rfl⟩ := hstore
    rw [Shared.run_storeClostep hrun]
    cases c with
    -- the store of `closing` comes from a report, which stands there with `clostep` 0
    | running => exact absurd hmove Move.store_ne_running
    | closing =>
      obtain ⟨who, k, hwho⟩ := hmove.store_closing
      rw [hw.running who ⟨k, _, hwho, .inr rfl⟩]
      decide
    | closed => cases (w.sessions s).clostep <;> decide
  · rw [Shared.run_clostep hrun fun c hc => hstore ⟨c, hc⟩]

/-- `peddingChan` is closed by the first `Close` that gets past its check. -/
structure ClosedOnce (s : SessionRef) (w : World) : Prop where
  store : w.closer = .store s → (w.sessions s).clostep ≠ .closed
  close : w.closer = .closePedding s →
    (w.sessions s).clostep = .closed ∧ w.peddingCloses s = 0
  before : (w.sessions s).clostep ≠ .closed → w.peddingCloses s = 0
  once : w.peddingCloses s ≤ 1

theorem peddingCloses_of_run (h : w.run cfg op = some w'.toShared) (s : SessionRef) :
    w'.peddingCloses s = w.peddingCloses s +
      (match op with | .closePedding s' => if s' = s then 1 else 0 | _ => 0) := by
  unfold peddingCloses
  rw [Shared.run_trace h, List.count_append]
  congr 1
  cases op with
  | send e =>
    rw [Op.events]
    cases (w.case e w.mgr).1 with
    | none => simp
    | some s' => simp
  | closePedding s' =>
    rw [Op.events, List.count_singleton]
    by_cases hs : s' = s
    · simp [hs]
    · simp [hs]
  | closeReturned s' => simp [Op.events]
  | _ => rfl

/-- A step of another goroutine. -/
theorem ClosedOnce.other {s : SessionRef} (hw : ClosedOnce s w) (hone : OneReport s w)
    (h : World.step cfg t w = some w') (hrun : w.run cfg op = some w'.toShared)
    (hcloser : w'.closer = w.closer) (hop : op.isClose = false) : ClosedOnce s w' := by
  have hle := hone.value_le h
  have hcloses : w'.peddingCloses s = w.peddingCloses s := by
    rw [peddingCloses_of_run hrun]
    cases op with
    | closePedding => exact absurd hop (by simp [Op.isClose])
    | _ => rfl
  -- only the closer stores `closed`
  have hopen : (w'.sessions s).clostep = .closed → (w.sessions s).clostep = .closed := by
    intro hclosed
    by_cases hstore : ∃ c, op = .storeClostep s c
    · obtain ⟨c, rfl⟩ := hstore
      rw [Shared.run_storeClostep hrun] at hclosed
      rw [hclosed] at hop
      exact absurd hop (by simp [Op.isClose])
    · rwa [Shared.run_clostep hrun fun c hc => hstore ⟨c, hc⟩] at hclosed
  constructor
  · intro hc hclosed
    exact hw.store (hcloser ▸ hc) (hopen hclosed)
  · intro hc
    rw [hcloses]
    obtain ⟨hclosed, hzero⟩ := hw.close (hcloser ▸ hc)
    exact ⟨Clostep.eq_closed_of_value_le hle hclosed, hzero⟩
  · intro hne
    rw [hcloses]
    exact hw.before fun hclosed => hne (Clostep.eq_closed_of_value_le hle hclosed)
  · rw [hcloses]
    exact hw.once

/-- A step of the closer that neither stores `closed` nor closes the channel. -/
theorem ClosedOnce.of_same {s : SessionRef} (hw : ClosedOnce s w)
    (hrun : w.run cfg op = some w'.toShared) (hop : ∀ c, op ≠ .storeClostep s c)
    (hpedding : op ≠ .closePedding s)
    (hstore : w'.closer = .store s → (w.sessions s).clostep ≠ .closed)
    (hclose : w'.closer ≠ .closePedding s) : ClosedOnce s w' := by
  have hclostep := Shared.run_clostep hrun hop
  have hcloses : w'.peddingCloses s = w.peddingCloses s := by
    rw [peddingCloses_of_run hrun]
    cases op with
    | closePedding s' =>
      have hs : s' ≠ s := fun hs => hpedding (by rw [hs])
      simp [hs]
    | _ => rfl
  constructor
  · rw [hclostep]
    exact hstore
  · exact fun h => absurd h hclose
  · rw [hclostep, hcloses]
    exact hw.before
  · rw [hcloses]
    exact hw.once

/-- A step of the closer. -/
theorem ClosedOnce.closer {s : SessionRef} (hw : ClosedOnce s w)
    (hm : CloserMove w.toShared w.recv w.closer op w'.closer)
    (hrun : w.run cfg op = some w'.toShared) : ClosedOnce s w' := by
  generalize hbefore : w.closer = c at hm
  generalize hafter : w'.closer = c' at hm
  cases hm with
  -- the check of `Close`, after which `closed` is not stored yet
  | @pass s' hne =>
    refine hw.of_same hrun (fun c => by simp) (by simp) ?_ (by rw [hafter]; simp)
    rw [hafter]
    intro hs
    injection hs with hs
    rwa [← hs]
  | store s' =>
    by_cases hs : s' = s
    -- the first `Close`: the channel has not been closed before
    · subst hs
      have hzero : w'.peddingCloses s' = 0 := by
        rw [peddingCloses_of_run hrun]
        exact hw.before (hw.store hbefore)
      have hclosed := Shared.run_storeClostep hrun
      constructor
      · intro h
        rw [hafter] at h
        exact absurd h (by simp)
      · exact fun _ => ⟨hclosed, hzero⟩
      · exact fun h => absurd hclosed h
      · omega
    · refine hw.of_same hrun (fun c hc => ?_) (by simp) (by rw [hafter]; simp) ?_
      · injection hc with hc
        exact hs hc
      · rw [hafter]
        intro h
        injection h with h
        exact hs h
  | closePedding s' =>
    by_cases hs : s' = s
    · subst hs
      obtain ⟨hclosed, hzero⟩ := hw.close hbefore
      have hclostep := Shared.run_clostep (s := s') hrun fun c => by simp
      have hone : w'.peddingCloses s' = 1 := by
        rw [peddingCloses_of_run hrun, hzero]
        simp
      constructor
      · intro h
        rw [hafter] at h
        exact absurd h (by simp)
      · intro h
        rw [hafter] at h
        exact absurd h (by simp)
      · rw [hclostep]
        exact fun h => absurd hclosed h
      · omega
    · refine hw.of_same hrun (fun c => by simp) (fun hc => ?_) (by rw [hafter]; simp)
        (by rw [hafter]; simp)
      injection hc with hc
      exact hs hc
  | take | skip | stoped | running | stop | waited | done =>
    exact hw.of_same hrun (fun c => by simp) (by simp) (by rw [hafter]; simp)
      (by rw [hafter]; simp)

theorem ClosedOnce.step {s : SessionRef} (hw : ClosedOnce s w) (hone : OneReport s w)
    (h : World.step cfg t w = some w') : ClosedOnce s w' := by
  obtain ⟨-, op, -, hmove, hrun⟩ := step_move h
  rcases hmove.closer_cases with ⟨-, hm, -, -⟩ | ⟨hcloser, hop⟩
  · exact hw.closer hm hrun
  · exact hw.other hone h hrun hcloser hop

theorem ClosedOnce.init {s : SessionRef} (h : Initial cfg w) : ClosedOnce s w := by
  have hcloser : w.closer = .idle := congrArg Goroutines.closer h.goroutines
  have hzero : w.peddingCloses s = 0 := by
    unfold peddingCloses
    rw [h.trace]
    rfl
  constructor
  · intro hc
    rw [hcloser] at hc
    exact absurd hc (by simp)
  · intro hc
    rw [hcloser] at hc
    exact absurd hc (by simp)
  · exact fun _ => hzero
  · omega

/-! ## Runs -/

/-- In a run whose steps are in turn, `clostep` never decreases, one report of a session
reaches the manager at most, and its `peddingChan` is closed once at most. -/
theorem close_state_ordered (cfg : Config) {w : World} (h : (system cfg).Reach InTurn w) :
    (∀ s, w.reportsServed s ≤ 1 ∧ w.peddingCloses s ≤ 1) ∧
      ∀ t w', World.step cfg t w = some w' → ∀ s,
        (w.sessions s).clostep.value ≤ (w'.sessions s).clostep.value := by
  have hinv : ∀ s, OneReport s w ∧ ClosedOnce s w := by
    refine h.invariant (I := fun w => ∀ s, OneReport s w ∧ ClosedOnce s w)
      (fun w hw s => ⟨.init hw, .init hw⟩) fun w t w' ih hturn hstep s => ?_
    obtain ⟨hone, hclosed⟩ := ih s
    exact ⟨hone.step hturn hstep, hclosed.step hone hstep⟩
  constructor
  · intro s
    exact ⟨(hinv s).1.once, (hinv s).2.once⟩
  · intro t w' hstep s
    exact (hinv s).1.value_le hstep

/-- A check of a step that is in turn. -/
def inTurn (w : World) (t : Turn) : Bool :=
  let quiet (s : SessionRef) : Bool := [Reporter.loop s, .ticker].all fun who =>
    match w.reporting who with
    | some (s', _, .removeSession) | some (s', _, .store) => s' != s
    | _ => true
  match t with
  | .closer =>
    match w.closer with
    | .store s => quiet s
    | _ => true
  | t =>
    match (reporter t).bind w.reporting with
    | some (s, _, .load) => quiet s
    | _ => true

theorem not_between {s : SessionRef}
    (hquiet : [Reporter.loop s, .ticker].all (fun who =>
      match g.reporting who with
      | some (s', _, .removeSession) | some (s', _, .store) => s' != s
      | _ => true) = true) (who : Reporter) : ¬ Between s g who := by
  rintro ⟨k, stage, hwho, hstage⟩
  have hfree := List.all_eq_true.mp hquiet who (Goroutines.mem_reporters hwho)
  rw [hwho] at hfree
  rcases hstage with rfl | rfl <;> simp at hfree

theorem inTurn_of_check (h : inTurn w t = true) : InTurn w t where
  check who s k hwho hload hrunning := by
    have ht : t ≠ .closer := by
      rintro rfl
      exact absurd hwho (by simp [reporter])
    have hbind : (reporter t).bind w.reporting = some (s, k, .load) := by
      rw [hwho]
      exact hload
    refine not_between ?_
    -- the turn is that of a goroutine that reports, so that the check has looked at it
    unfold inTurn at h
    cases t with
    | closer => exact absurd rfl ht
    | recv | tick =>
      simp only [hbind] at h
      exact h
    | _ => exact absurd hwho (by simp [reporter])
  store s ht hc := by
    refine not_between ?_
    rw [ht, inTurn, hc] at h
    exact h

/-- A session connects, its connection fails, and the closer closes it. -/
theorem close_state_ordered_closed : ∃ w, (system {}).Reach InTurn w ∧
    ((w.sessions 1).clostep = .closed ∧ w.reportsServed 1 = 1 ∧ w.peddingCloses 1 = 1) ∧
      w.reportsServed 1 ≤ 1 ∧ w.peddingCloses 1 ≤ 1 := by
  have hend : ((system {}).exec
      (connecting 1 (str "a") ++ connected 1 ++ failing 1 ++ [recvOnce 1] ++ closerTurns)
      (start {})).any (fun w => (w.sessions 1).clostep = .closed ∧ w.reportsServed 1 = 1 ∧
        w.peddingCloses 1 = 1) = true := by
    decide +kernel
  have halong : (system {}).Along InTurn
      (connecting 1 (str "a") ++ connected 1 ++ failing 1 ++ [recvOnce 1] ++ closerTurns)
      (start {}) :=
    StepSystem.along_of_check (c := inTurn) (fun _ _ h => inTurn_of_check h)
      (by decide +kernel)
  obtain ⟨w, hreach, hw⟩ := StepSystem.exists_reach_of_any (start_initial {}) halong hend
  exact ⟨w, hreach, by simpa using hw, (close_state_ordered {} hreach).1 1⟩

/-! ## Two reports -/

/-- Session 1 is connected and times out while its connection fails; both reports have loaded
`clostep`. Session 2 takes the client id over, and the closer stores `closed`. -/
def twoReports : List Turn :=
  [.handleConnection 1, .getAllSessions RangeOrder.ascending byClientId] ++
    (connecting 1 (str "a")).tail ++ connected 1 ++
    [.tick true false, .tick true false, .tick true false] ++
    [.recvError 1, recvOnce 1, recvOnce 1] ++
    connecting 2 (str "a") ++ [recvOnce 2] ++ closerTurns ++ [recvOnce 2]

/-- The connection's report takes the entry of session 2 from the map, and session 1 is closed a
second time; the other report comes in between. -/
def secondClose : List Turn :=
  [recvOnce 1, recvOnce 1, recvOnce 1] ++ [.closer, .closer, .closer] ++
    [.tick true false, .tick true false, .tick true false] ++ [.closer, .closer, .closer]

/-- The report that stores `closing` last takes `clostep` back, two reports reach the manager,
and the second `Close` closes `peddingChan` again. -/
theorem clostep_back_and_second_close :
    (∃ w t w', (system {}).Reachable w ∧ World.step {} t w = some w' ∧
        (w'.sessions 1).clostep.value < (w.sessions 1).clostep.value) ∧
      ∃ w, (system {}).Reachable w ∧ 2 ≤ w.reportsServed 1 ∧ 2 ≤ w.peddingCloses 1 := by
  constructor
  · have hend : ((system {}).exec (twoReports ++ [recvOnce 1]) (start {})).any (fun w =>
        (World.step {} (recvOnce 1) w).any fun w' =>
          (w'.sessions 1).clostep.value < (w.sessions 1).clostep.value) = true := by
      decide +kernel
    obtain ⟨w, hreach, hw⟩ := StepSystem.exists_reachable_of_any (start_initial {}) hend
    obtain ⟨w', hstep, hback⟩ := (Option.any_eq_true _ _).mp hw
    exact ⟨w, recvOnce 1, w', hreach, hstep, by simpa using hback⟩
  · have hend : ((system {}).exec (twoReports ++ secondClose) (start {})).any (fun w =>
        2 ≤ w.reportsServed 1 ∧ 2 ≤ w.peddingCloses 1) = true := by
      decide +kernel
    obtain ⟨w, hreach, hw⟩ := StepSystem.exists_reachable_of_any (start_initial {}) hend
    exact ⟨w, hreach, by simpa using hw⟩

end World
end MqttBroker

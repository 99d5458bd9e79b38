import MqttBroker.Lifecycle.TakeOver

/-!
# The client gauges

`ActiveClients` and `InactiveClients` of the dashboard are to show how many entries the two
maps of the manager have. `HandleConnection` counts a session before it hands it over, and the
cases of the manager count by steps of one, or by the length of the map: the gauges keep to
the maps as long as a session that gets connected or times out has an entry to be taken out of
the waiting map, and nobody has one under its client id.
-/

namespace MqttBroker

namespace SessionMgr

/-- The gauges show the lengths of the maps, with `entering` sessions counted and not yet
inserted. -/
structure Counts (mgr : SessionMgr) (entering : ℕ) : Prop where
  active : mgr.activeClients = mgr.connectedSessionMap.entries.card
  inactive : mgr.inactiveClients = mgr.waitingConnectSessionMap.entries.card + entering

end SessionMgr

/-! ## One event -/

/-- A session of whom the manager is told that it is connected waits, and its client id is free;
one that has timed out waits. -/
def MgrEvent.Filed (m : Shared) : MgrEvent → Prop
  | .connected s => (m.sessions s).channel.conn ∈ m.mgr.waitingConnectSessionMap ∧
      (m.sessions s).clientId ∉ m.mgr.connectedSessionMap
  | .connectTimeout s => (m.sessions s).channel.conn ∈ m.mgr.waitingConnectSessionMap
  | _ => True

instance (m : Shared) : ∀ e : MgrEvent, Decidable (e.Filed m)
  | .connected _ => inferInstanceAs (Decidable (_ ∈ m.mgr.waitingConnectSessionMap ∧ _))
  | .connectTimeout _ => inferInstanceAs (Decidable (_ ∈ m.mgr.waitingConnectSessionMap))
  | .insertSession _ | .disconnectSessionByClientId _ | .disconnect _ | .pingTimeout _ =>
    isTrue trivial

/-- The case of an event keeps the gauges with the maps exactly when the event finds its
session filed. -/
theorem counts_case_iff {m : Shared} {n : ℕ} (h : m.mgr.Counts n) {e : MgrEvent}
    (he : ∀ s, e ≠ .insertSession s) : (m.case e m.mgr).2.Counts n ↔ e.Filed m := by
  obtain ⟨hactive, hinactive⟩ := h
  cases e with
  | insertSession s => exact absurd rfl (he s)
  | connectTimeout s =>
    have herase := GoMap.card_erase_iff (m.sessions s).channel.conn m.mgr.waitingConnectSessionMap
    show SessionMgr.Counts { m.mgr with
        waitingConnectSessionMap := m.mgr.waitingConnectSessionMap.erase _
        inactiveClients := m.mgr.inactiveClients - 1 } n ↔ _ ∈ m.mgr.waitingConnectSessionMap
    rw [← herase]
    constructor
    · intro hc
      have := hc.inactive
      simp only at this
      omega
    · exact fun hc => ⟨hactive, by simp only; omega⟩
  | connected s =>
    have herase := GoMap.card_erase_iff (m.sessions s).channel.conn m.mgr.waitingConnectSessionMap
    have hinsert := GoMap.card_insert_iff (m.sessions s).clientId s m.mgr.connectedSessionMap
    show SessionMgr.Counts { m.mgr with
        waitingConnectSessionMap := m.mgr.waitingConnectSessionMap.erase _
        connectedSessionMap := m.mgr.connectedSessionMap.insert _ s
        activeClients := m.mgr.activeClients + 1
        inactiveClients := m.mgr.inactiveClients - 1
        maxActiveClinets := _ } n ↔
      _ ∈ m.mgr.waitingConnectSessionMap ∧ _ ∉ m.mgr.connectedSessionMap
    rw [← herase, ← hinsert]
    constructor
    · intro hc
      have hactive' := hc.active
      have hinactive' := hc.inactive
      simp only at hactive' hinactive'
      omega
    · exact fun hc => ⟨by simp only; omega, by simp only; omega⟩
  | disconnectSessionByClientId clientId =>
    refine iff_of_true ?_ trivial
    show (SessionMgr.disconnectSessionByClientId clientId m.mgr).2.Counts n
    unfold SessionMgr.disconnectSessionByClientId
    split
    · next s hlookup =>
      have herase := (GoMap.card_erase_iff clientId m.mgr.connectedSessionMap).mpr
        (Finmap.mem_of_lookup_eq_some hlookup)
      exact ⟨by simp only; omega, hinactive⟩
    · exact ⟨hactive, hinactive⟩
  | disconnect s | pingTimeout s =>
    refine iff_of_true ?_ trivial
    show (SessionMgr.disconnect _ s m.mgr).2.Counts n
    unfold SessionMgr.disconnect
    split
    · exact ⟨rfl, hinactive⟩
    · exact ⟨hactive, hinactive⟩

/-- The session that is inserted was counted before. -/
theorem counts_insert {m : Shared} {n : ℕ} {s : SessionRef} (h : m.mgr.Counts (n + 1))
    (hs : (m.sessions s).channel.conn ∉ m.mgr.waitingConnectSessionMap) :
    (m.case (.insertSession s) m.mgr).2.Counts n := by
  have hinsert := (GoMap.card_insert_iff _ s m.mgr.waitingConnectSessionMap).mpr hs
  refine ⟨h.active, ?_⟩
  have hinactive := h.inactive
  show m.mgr.inactiveClients =
    ((m.mgr.waitingConnectSessionMap.insert _ s).entries.card : ℤ) + n
  rw [hinsert]
  push_cast at hinactive
  omega

/-! ## Sessions that are counted and not yet inserted -/

/-- The process, with the sessions that `HandleConnection` has counted and not yet handed to
the manager. -/
structure Counted extends World where
  entering : List SessionRef := []

namespace Counted

inductive Turn
  /-- `HandleConnection` up to `insertSessionChan <- session`. -/
  | enter (s : SessionRef)
  | world (t : MqttBroker.Turn)

/-- The session that a turn hands to the manager. -/
def inserted : MqttBroker.Turn → Option SessionRef
  | .handleConnection s => some s
  | _ => none

def step (cfg : Config) : Turn → Counted → Option Counted
  | .enter s, w =>
    match w.recv s with
    | .idle =>
      if w.panicked ∨ s ∈ w.entering then none
      else
        some { w with
          mgr := { w.mgr with inactiveClients := w.mgr.inactiveClients + 1 }
          entering := s :: w.entering }
    | _ => none
  | .world t, w =>
    match inserted t with
    | none => (World.step cfg t w.toWorld).map fun w' => { w' with entering := w.entering }
    | some s =>
      if s ∈ w.entering then
        (World.step cfg t w.toWorld).map fun w' => { w' with entering := w.entering.erase s }
      else none

/-- The start of a process. -/
structure Initial (cfg : Config) (w : Counted) : Prop where
  world : World.Initial cfg w.toWorld
  entering : w.entering = []

def system (cfg : Config) : StepSystem Counted Turn where
  init := Initial cfg
  step := step cfg

/-- A process at its start, with the sessions of accepted connections. -/
def start (cfg : Config) : Counted := { World.start cfg with entering := [] }

theorem start_initial (cfg : Config) : Initial cfg (start cfg) := ⟨World.start_initial cfg, rfl⟩

variable {cfg : Config} {w w' : Counted}

/-- An event about a session that gets connected or has timed out finds it filed. -/
def FindsFiled (cfg : Config) (w : Counted) : Turn → Prop
  | .world t => ∀ e g, World.next t w.toWorld = some (.send e, g) →
      (step cfg (.world t) w).isSome → e.Filed w.toShared
  | .enter _ => True

/-- The gauges show the lengths of the maps, and the sessions that are entering. -/
def Matched (w : Counted) : Prop := w.mgr.Counts w.entering.length

/-! ## One turn -/

theorem step_enter {s : SessionRef} (h : step cfg (.enter s) w = some w') :
    w' = { w with
      mgr := { w.mgr with inactiveClients := w.mgr.inactiveClients + 1 }
      entering := s :: w.entering } := by
  rw [step] at h
  split at h
  · by_cases hstop : w.panicked ∨ s ∈ w.entering
    · rw [if_pos hstop] at h
      exact absurd h (by simp)
    · rw [if_neg hstop] at h
      exact (Option.some.inj h).symm
  · exact absurd h (by simp)

/-- A turn of the process, which lets an entering session be inserted. -/
theorem step_world {t : MqttBroker.Turn} (h : step cfg (.world t) w = some w') :
    World.step cfg t w.toWorld = some w'.toWorld ∧
      (inserted t = none ∧ w'.entering = w.entering ∨
        ∃ s, inserted t = some s ∧ s ∈ w.entering ∧ w'.entering = w.entering.erase s) := by
  rw [step] at h
  split at h
  · next hins =>
    obtain ⟨w₁, hw₁, rfl⟩ := Option.map_eq_some_iff.mp h
    exact ⟨hw₁, .inl ⟨hins, rfl⟩⟩
  · next s hins =>
    by_cases hmem : s ∈ w.entering
    · rw [if_pos hmem] at h
      obtain ⟨w₁, hw₁, rfl⟩ := Option.map_eq_some_iff.mp h
      exact ⟨hw₁, .inr ⟨s, hins, hmem, rfl⟩⟩
    · rw [if_neg hmem] at h
      exact absurd h (by simp)

/-- The maps are those of the process. -/
theorem seated_step {t : Turn} (hw : w.Seated) (h : step cfg t w = some w') : w'.Seated := by
  cases t with
  | enter s =>
    rw [step_enter h]
    exact ⟨⟨hw.begun.waiting, hw.begun.connected, hw.begun.handed, hw.begun.ticker⟩,
      hw.conn_injective, hw.conn, hw.one_map⟩
  | world t => exact hw.step (step_world h).1

/-- A session that is inserted has no entry in the waiting map. -/
theorem not_waiting_of_idle {s : SessionRef} (hw : w.Seated) (hs : w.recv s = .idle) :
    (w.sessions s).channel.conn ∉ w.mgr.waitingConnectSessionMap := by
  intro hmem
  obtain ⟨s', hs'⟩ := Finmap.mem_iff.mp hmem
  have heq : s = s' := hw.conn_injective (hw.conn _ s' hs')
  exact hw.begun.waiting _ s' hs' (heq ▸ hs)

/-- A report is no insertion. -/
theorem report_ne_insert (s s' : SessionRef) (k : Report) :
    Report.event s k ≠ .insertSession s' := by
  cases k with
  | _ => exact MgrEvent.noConfusion

/-- Only `HandleConnection` inserts sessions. -/
theorem inserted_of_move {t : MqttBroker.Turn} {g : Goroutines} {s : SessionRef} {w : World}
    (h : World.Move w t (.send (.insertSession s)) g) : inserted t = some s := by
  cases h with
  | accept s _ => rfl
  | recv s' hr =>
    obtain ⟨-, he | ⟨clientId, he⟩ | ⟨k, he⟩⟩ := Recv.next_send hr
    · exact absurd he (by simp)
    · exact absurd he (by simp)
    · exact absurd he.symm (report_ne_insert s' s k)
  | sendRound s' hop => exact absurd hop (by simp)
  | tick ht =>
    obtain ⟨s', -, k, he⟩ := Ticker.next_send ht
    exact absurd he.symm (report_ne_insert s' s k)
  | closer hc =>
    have hm := Closer.next_move hc
    generalize w.closer = c at hm
    cases hm

theorem next_of_inserted {t : MqttBroker.Turn} {s : SessionRef} {w : World} {op : Op}
    {g : Goroutines} (ht : inserted t = some s) (h : World.next t w = some (op, g)) :
    w.recv s = .idle ∧ op = .send (.insertSession s) := by
  cases t with
  | handleConnection s' =>
    obtain rfl := Option.some.inj ht
    rw [World.next] at h
    split at h
    · next hidle => exact ⟨hidle, (Prod.mk.inj (Option.some.inj h)).1.symm⟩
    · exact absurd h (by simp)
  | _ => exact absurd ht (by simp [inserted])

/-- A turn keeps the gauges with the maps exactly when it finds its session filed. -/
theorem matched_iff_findsFiled {t : Turn} (hw : w.Seated) (hm : Matched w)
    (h : step cfg t w = some w') : Matched w' ↔ FindsFiled cfg w t := by
  cases t with
  | enter s =>
    refine iff_of_true ?_ trivial
    rw [step_enter h]
    refine ⟨hm.active, ?_⟩
    have hinactive := hm.inactive
    show w.mgr.inactiveClients + 1 =
      (w.mgr.waitingConnectSessionMap.entries.card : ℤ) + (s :: w.entering).length
    rw [List.length_cons]
    push_cast
    omega
  | world t =>
    obtain ⟨hstep, hentering⟩ := step_world h
    obtain ⟨-, op, hnext, hmove, hrun⟩ := World.step_move hstep
    have hfinds : FindsFiled cfg w (.world t) ↔ ∀ e, op = .send e → e.Filed w.toShared := by
      constructor
      · intro hf e he
        exact hf e _ (he ▸ hnext) (by rw [h]; rfl)
      · intro hf e g he _
        exact hf e (Prod.mk.inj (Option.some.inj (hnext.symm.trans he))).1
    rw [hfinds]
    obtain ⟨hins, hsame⟩ | ⟨s, hins, hmem, herase⟩ := hentering
    · unfold Matched
      rw [hsame]
      obtain ⟨e, rfl, hmgr⟩ | ⟨hop, hmgr⟩ := World.mgr_of_run hrun
      · have he : ∀ s, e ≠ .insertSession s := by
          intro s hs
          rw [hs] at hmove
          rw [inserted_of_move hmove] at hins
          exact absurd hins (by simp)
        rw [hmgr, counts_case_iff hm he]
        exact ⟨fun hf e' he' => Op.send.inj he' ▸ hf, fun hf => hf e rfl⟩
      · rw [hmgr]
        exact iff_of_true hm fun e he => absurd he (hop e)
    · -- the session is counted as waiting before and after
      obtain ⟨hidle, rfl⟩ := next_of_inserted hins hnext
      have hlen : w.entering.length = w'.entering.length + 1 := by
        rw [herase, List.length_erase_of_mem hmem]
        have := List.length_pos_of_mem hmem
        omega
      refine iff_of_true ?_ fun e he => Op.send.inj he ▸ trivial
      unfold Matched at hm ⊢
      rw [hlen] at hm
      rw [Shared.run_send_mgr hrun]
      exact counts_insert hm (not_waiting_of_idle hw hidle)

/-! ## Whole runs -/

theorem matched_of_initial (h : Initial cfg w) : Matched w := by
  refine ⟨?_, ?_⟩
  · rw [h.world.mgr]
    rfl
  · rw [h.world.mgr, h.entering]
    rfl

/-- The gauges show the lengths of the maps after every turn of a run, sessions that are
entering apart, if and only if every event about a session that gets connected or has timed out
finds its session in the waiting map, and for one that gets connected nobody in the other map
under its client id. So in a run of such turns, whenever no session is entering, `ActiveClients`
is the length of `connectedSessionMap` and `InactiveClients` that of
`waitingConnectSessionMap`. -/
theorem gauges_match_iff (h : (system cfg).init w) :
    (∀ turns, (system cfg).Always Matched turns w ↔
      (system cfg).Along (FindsFiled cfg) turns w) ∧
    ∀ w', (system cfg).Reach (FindsFiled cfg) w' → w'.entering = [] →
      w'.mgr.activeClients = w'.mgr.connectedSessionMap.entries.card ∧
      w'.mgr.inactiveClients = w'.mgr.waitingConnectSessionMap.entries.card := by
  refine ⟨fun turns => ?_, fun w' hw' hentering => ?_⟩
  · have hseated : w.Seated := .init h.world
    have hiff : (system cfg).Always (fun w => Matched w ∧ w.Seated) turns w ↔
        (system cfg).Along (FindsFiled cfg) turns w := by
      refine StepSystem.always_iff_along ?_ turns w ⟨matched_of_initial h, hseated⟩
      intro w t hw
      show FindsFiled cfg w t ↔ ∀ w', step cfg t w = some w' → Matched w' ∧ w'.Seated
      constructor
      · exact fun hf w' hs =>
          ⟨(matched_iff_findsFiled hw.2 hw.1 hs).mpr hf, seated_step hw.2 hs⟩
      · intro hall
        cases hs : step cfg t w with
        | some w' => exact (matched_iff_findsFiled hw.2 hw.1 hs).mp (hall w' hs).1
        | none =>
          cases t with
          | enter s => trivial
          | world t =>
            intro e g _ hsome
            rw [hs] at hsome
            exact absurd hsome (by simp)
    rw [← hiff]
    refine StepSystem.always_congr (J := fun w => w.Seated) ?_ ?_ turns w hseated
    · exact fun w t w' hw hs => seated_step hw hs
    · exact fun w hw => (and_iff_left hw).symm
  · have hinv : Matched w' ∧ w'.Seated := by
      refine StepSystem.Reach.invariant (I := fun w => Matched w ∧ w.Seated) ?_ ?_ hw'
      · exact fun w hw => ⟨matched_of_initial hw, .init hw.world⟩
      · exact fun w t w' hw hf hs =>
          ⟨(matched_iff_findsFiled hw.2 hw.1 hs).mpr hf, seated_step hw.2 hs⟩
    obtain ⟨hactive, hinactive⟩ := hinv.1
    rw [hentering] at hinactive
    exact ⟨hactive, by simpa using hinactive⟩

/-- A check of a turn that finds its session filed. -/
def findsFiled (w : Counted) : Turn → Bool
  | .world t =>
    match World.next t w.toWorld with
    | some (.send e, _) => decide (e.Filed w.toShared)
    | _ => true
  | .enter _ => true

theorem findsFiled_of_check {t : Turn} (h : findsFiled w t = true) : FindsFiled cfg w t := by
  cases t with
  | enter s => trivial
  | world t =>
    intro e g hnext _
    rw [findsFiled, hnext] at h
    exact of_decide_eq_true h

/-- Session 0 is counted, accepted and connected. -/
def connecting : List Turn :=
  .enter 0 :: (World.connecting 0 (str "a") ++ World.connected 0).map .world

theorem gauges_match_iff_connected : ∃ w, (system {}).Reach (FindsFiled {}) w ∧
    w.mgr.connectedSessionMap.entries.card = 1 ∧ w.mgr.activeClients = 1 := by
  have hend : ((system {}).exec connecting (start {})).any (fun w =>
      w.mgr.connectedSessionMap.entries.card = 1 ∧ w.entering = []) = true := by
    decide +kernel
  have halong : (system {}).Along (FindsFiled {}) connecting (start {}) :=
    StepSystem.along_of_check (c := findsFiled) (fun _ _ h => findsFiled_of_check h)
      (by decide +kernel)
  obtain ⟨w, hreach, hw⟩ := StepSystem.exists_reach_of_any (start_initial {}) halong hend
  obtain ⟨hcard, hentering⟩ := of_decide_eq_true hw
  refine ⟨w, hreach, hcard, ?_⟩
  rw [((gauges_match_iff (start_initial {})).2 w hreach hentering).1, hcard]
  rfl

/-- A client that is connected sends a CONNACK: the manager is told of the session a second
time. -/
theorem gauges_drift : ∃ w, (system {}).Reachable w ∧ w.closing = none ∧ w.entering = [] ∧
    w.mgr.connectedSessionMap.entries.card = 1 ∧ w.mgr.activeClients = 2 ∧
    w.mgr.waitingConnectSessionMap.entries.card = 0 ∧ w.mgr.inactiveClients = -1 := by
  have hend : ((system {}).exec (connecting ++ (World.connackTurns 0 0).map .world)
      (start {})).any (fun w => w.closing = none ∧ w.entering = [] ∧
        w.mgr.connectedSessionMap.entries.card = 1 ∧ w.mgr.activeClients = 2 ∧
        w.mgr.waitingConnectSessionMap.entries.card = 0 ∧ w.mgr.inactiveClients = -1) = true := by
    decide +kernel
  obtain ⟨w, hreach, hw⟩ := StepSystem.exists_reachable_of_any (start_initial {}) hend
  exact ⟨w, hreach, of_decide_eq_true hw⟩

end Counted
end MqttBroker

import MqttBroker.Lifecycle.Steps

/-!
# The tables of the manager

What every event makes of the two maps and of the session that is handed to `CloseSession`,
and what holds of them in every run: a session that is in a map, or was ever handed over, is
one that has been accepted, it waits under its own connection only, and it is in one of the
two maps at most.
-/

namespace MqttBroker

namespace Shared

/-- The manager has called `CloseSession` for the session. -/
def Handed (s : SessionRef) (m : Shared) : Prop := .closeSession s ∈ m.trace

/-- The manager has registered the session in `connectedSessionMap`. -/
def Registered (s : SessionRef) (m : Shared) : Prop := .served (.connected s) ∈ m.trace

instance (s : SessionRef) (m : Shared) : Decidable (m.Handed s) :=
  inferInstanceAs (Decidable (_ ∈ _))

instance (s : SessionRef) (m : Shared) : Decidable (m.Registered s) :=
  inferInstanceAs (Decidable (_ ∈ _))

/-! ## One event -/

theorem lookup_waiting (m : Shared) (e : MgrEvent) (c : ConnRef) :
    (m.case e m.mgr).2.waitingConnectSessionMap.lookup c =
      match e with
      | .insertSession s =>
        if c = (m.sessions s).channel.conn then some s
        else m.mgr.waitingConnectSessionMap.lookup c
      | .connectTimeout s | .connected s =>
        if c = (m.sessions s).channel.conn then none
        else m.mgr.waitingConnectSessionMap.lookup c
      | _ => m.mgr.waitingConnectSessionMap.lookup c := by
  cases e with
  | insertSession s =>
    show (m.mgr.waitingConnectSessionMap.insert _ _).lookup c = _
    rw [GoMap.lookup_insert_eq]
  | connectTimeout s | connected s =>
    show (m.mgr.waitingConnectSessionMap.erase _).lookup c = _
    rw [GoMap.lookup_erase_eq]
  | disconnectSessionByClientId clientId =>
    rw [case, SessionMgr.disconnectSessionByClientId]
    split <;> rfl
  | disconnect s | pingTimeout s =>
    show (SessionMgr.disconnect _ _ _).2.waitingConnectSessionMap.lookup c = _
    rw [SessionMgr.disconnect]
    split <;> rfl

theorem lookup_connected (m : Shared) (e : MgrEvent) (k : GoString) :
    (m.case e m.mgr).2.connectedSessionMap.lookup k =
      match e with
      | .connected s =>
        if k = (m.sessions s).clientId then some s else m.mgr.connectedSessionMap.lookup k
      | .disconnectSessionByClientId clientId =>
        if k = clientId then none else m.mgr.connectedSessionMap.lookup k
      | .disconnect s | .pingTimeout s =>
        if k = (m.sessions s).clientId then none else m.mgr.connectedSessionMap.lookup k
      | _ => m.mgr.connectedSessionMap.lookup k := by
  cases e with
  | connected s =>
    show (m.mgr.connectedSessionMap.insert _ _).lookup k = _
    rw [GoMap.lookup_insert_eq]
  | disconnectSessionByClientId clientId =>
    rw [case, SessionMgr.disconnectSessionByClientId]
    -- without an entry the tables stay, and there is nothing to erase
    cases hl : m.mgr.connectedSessionMap.lookup clientId with
    | none =>
      show m.mgr.connectedSessionMap.lookup k = if k = clientId then none else _
      by_cases hk : k = clientId
      · rw [if_pos hk, hk, hl]
      · rw [if_neg hk]
    | some s =>
      show (m.mgr.connectedSessionMap.erase clientId).lookup k = _
      rw [GoMap.lookup_erase_eq]
  | disconnect s | pingTimeout s =>
    show (SessionMgr.disconnect _ _ _).2.connectedSessionMap.lookup k = _
    rw [SessionMgr.disconnect]
    by_cases hmem : (m.sessions s).clientId ∈ m.mgr.connectedSessionMap
    · rw [if_pos hmem]
      show (m.mgr.connectedSessionMap.erase _).lookup k = _
      rw [GoMap.lookup_erase_eq]
    · rw [if_neg hmem]
      show m.mgr.connectedSessionMap.lookup k = if k = (m.sessions s).clientId then none else _
      by_cases hk : k = (m.sessions s).clientId
      · rw [if_pos hk, hk, Finmap.lookup_eq_none.mpr hmem]
      · rw [if_neg hk]
  | insertSession | connectTimeout => rfl

theorem case_handed (m : Shared) (e : MgrEvent) :
    (m.case e m.mgr).1 =
      match e with
      | .connectTimeout s => some s
      | .disconnectSessionByClientId clientId => m.mgr.connectedSessionMap.lookup clientId
      | .disconnect s | .pingTimeout s =>
        if (m.sessions s).clientId ∈ m.mgr.connectedSessionMap then some s else none
      | _ => none := by
  cases e with
  | disconnectSessionByClientId clientId =>
    show _ = m.mgr.connectedSessionMap.lookup clientId
    rw [case, SessionMgr.disconnectSessionByClientId]
    cases m.mgr.connectedSessionMap.lookup clientId <;> rfl
  | disconnect s | pingTimeout s =>
    show (SessionMgr.disconnect _ _ _).1 =
      if (m.sessions s).clientId ∈ m.mgr.connectedSessionMap then some s else none
    rw [SessionMgr.disconnect]
    by_cases hmem : (m.sessions s).clientId ∈ m.mgr.connectedSessionMap
    · rw [if_pos hmem, if_pos hmem]
    · rw [if_neg hmem, if_neg hmem]
  | insertSession | connectTimeout | connected => rfl

/-- An entry of the waiting map was there before, unless the event has made it. -/
theorem waiting_of_case {m : Shared} {e : MgrEvent} {c : ConnRef} {s : SessionRef}
    (h : (m.case e m.mgr).2.waitingConnectSessionMap.lookup c = some s) :
    m.mgr.waitingConnectSessionMap.lookup c = some s ∨
      e = .insertSession s ∧ c = (m.sessions s).channel.conn := by
  rw [lookup_waiting] at h
  cases e with
  | insertSession s' =>
    by_cases hc : c = (m.sessions s').channel.conn
    · simp only [if_pos hc, Option.some.injEq] at h
      subst h
      exact .inr ⟨rfl, hc⟩
    · simp only [if_neg hc] at h
      exact .inl h
  | connectTimeout s' | connected s' =>
    by_cases hc : c = (m.sessions s').channel.conn
    · simp [if_pos hc] at h
    · simp only [if_neg hc] at h
      exact .inl h
  | disconnectSessionByClientId | disconnect | pingTimeout => exact .inl h

theorem connected_of_case {m : Shared} {e : MgrEvent} {k : GoString} {s : SessionRef}
    (h : (m.case e m.mgr).2.connectedSessionMap.lookup k = some s) :
    m.mgr.connectedSessionMap.lookup k = some s ∨
      e = .connected s ∧ k = (m.sessions s).clientId := by
  rw [lookup_connected] at h
  cases e with
  | connected s' =>
    by_cases hk : k = (m.sessions s').clientId
    · simp only [if_pos hk, Option.some.injEq] at h
      subst h
      exact .inr ⟨rfl, hk⟩
    · simp only [if_neg hk] at h
      exact .inl h
  | disconnectSessionByClientId clientId =>
    by_cases hk : k = clientId
    · simp [if_pos hk] at h
    · simp only [if_neg hk] at h
      exact .inl h
  | disconnect s' | pingTimeout s' =>
    by_cases hk : k = (m.sessions s').clientId
    · simp [if_pos hk] at h
    · simp only [if_neg hk] at h
      exact .inl h
  | insertSession | connectTimeout => exact .inl h

theorem handed_of_case {m : Shared} {e : MgrEvent} {s : SessionRef}
    (h : (m.case e m.mgr).1 = some s) :
    e = .connectTimeout s ∨
      (∃ clientId, e = .disconnectSessionByClientId clientId ∧
        m.mgr.connectedSessionMap.lookup clientId = some s) ∨
      (e = .disconnect s ∨ e = .pingTimeout s) ∧
        (m.sessions s).clientId ∈ m.mgr.connectedSessionMap := by
  rw [case_handed] at h
  cases e with
  | connectTimeout s' => exact .inl (by rw [Option.some.inj h])
  | disconnectSessionByClientId clientId => exact .inr (.inl ⟨clientId, rfl, h⟩)
  | disconnect s' | pingTimeout s' =>
    by_cases hmem : (m.sessions s').clientId ∈ m.mgr.connectedSessionMap
    · simp only [if_pos hmem, Option.some.injEq] at h
      subst h
      exact .inr (.inr ⟨by simp, hmem⟩)
    · simp [if_neg hmem] at h
  | insertSession | connected => exact absurd h (by simp)

end Shared
/-- The sessions that are ticked are those in the two maps. -/
theorem SessionMgr.mem_getAllSessions (waitingOrder : RangeOrder ConnRef SessionRef)
    (connectedOrder : RangeOrder GoString SessionRef) (mgr : SessionMgr) (s : SessionRef) :
    s ∈ mgr.getAllSessions waitingOrder connectedOrder ↔
      (∃ c, mgr.waitingConnectSessionMap.lookup c = some s) ∨
        ∃ k, mgr.connectedSessionMap.lookup k = some s := by
  unfold getAllSessions
  rw [List.mem_append, List.mem_map, List.mem_map]
  constructor
  · rintro (⟨⟨c, _⟩, hmem, rfl⟩ | ⟨⟨k, _⟩, hmem, rfl⟩)
    · exact .inl ⟨c, (waitingOrder.mem_toList _ _ _).mp hmem⟩
    · exact .inr ⟨k, (connectedOrder.mem_toList _ _ _).mp hmem⟩
  · rintro (⟨c, hc⟩ | ⟨k, hk⟩)
    · exact .inl ⟨⟨c, s⟩, (waitingOrder.mem_toList _ _ _).mpr hc, rfl⟩
    · exact .inr ⟨⟨k, s⟩, (connectedOrder.mem_toList _ _ _).mpr hk, rfl⟩

/-! ## Who sends -/

/-- The sessions that the ticker still refers to. -/
def Ticker.sessions : Ticker → List SessionRef
  | waiting => []
  | visit rest => rest
  | expired s rest | report s _ _ rest | refill s rest => s :: rest

theorem Recv.next_ne_idle {m : Shared} {s : SessionRef} {subs : List SessionRef} {full : Bool}
    {r r' : Recv} {op : Op} (h : r.next m s subs full = some (op, r')) : r' ≠ .idle := by
  cases r with
  | idle | reading | exited => exact absurd h (by simp [Recv.next])
  | read p =>
    cases h
    split <;> simp
  | handle p =>
    obtain ⟨-, rfl⟩ := next_handle h
    cases p with
    | connect msg =>
      rw [procFrontRemoteMsg]
      split <;> simp
    | _ => simp [procFrontRemoteMsg]
  | forward rest =>
    cases rest with
    | nil =>
      cases h
      simp
    | cons v rest =>
      cases h
      split <;> simp
  | publish v rest =>
    cases h
    split
    · simp
    · split <;> simp
  | report k stage last =>
    cases h
    cases (k.next m s stage).2 with
    | none => cases last <;> simp [afterReport]
    | some stage => simp [afterReport]
  | failed | takeOver | register | acknowledge | connack | pedding =>
    cases h
    simp

theorem Recv.next_send {m : Shared} {s : SessionRef} {subs : List SessionRef} {full : Bool}
    {r r' : Recv} {e : MgrEvent} (h : r.next m s subs full = some (.send e, r')) :
    r ≠ .idle ∧ (e = .connected s ∨ (∃ clientId, e = .disconnectSessionByClientId clientId) ∨
      ∃ k, e = Report.event s k) := by
  cases r with
  | idle | reading | exited => exact absurd h (by simp [Recv.next])
  | handle p =>
    obtain ⟨hop, -⟩ := next_handle h
    -- what `procFrontRemoteMsg` does first is no send
    exfalso
    cases p with
    | connect msg =>
      rw [procFrontRemoteMsg] at hop
      split at hop <;> cases hop
    | puback | pubcomp | suback | unsuback => cases full <;> cases hop
    | _ => cases hop
  -- the two events of `onConnect`, the one of `onConnack`, and that of a report
  | takeOver clientId =>
    cases h
    exact ⟨by simp, .inr (.inl ⟨clientId, rfl⟩)⟩
  | register | connack =>
    cases h
    exact ⟨by simp, .inl rfl⟩
  | report k stage last =>
    cases stage <;> cases h
    exact ⟨by simp, .inr (.inr ⟨k, rfl⟩)⟩
  | forward rest => cases rest <;> cases h
  | read | failed | publish | acknowledge | pedding => cases h

theorem Ticker.next_send {m : Shared} {timedOut room : Bool} {t t' : Ticker} {e : MgrEvent}
    (h : t.next m timedOut room = some (.send e, t')) :
    ∃ s ∈ t.sessions, ∃ k, e = Report.event s k := by
  cases t with
  | waiting => exact absurd h (by simp [Ticker.next])
  | visit rest => cases rest <;> cases h
  | report s k stage rest =>
    cases stage <;> cases h
    exact ⟨s, List.mem_cons_self, k, rfl⟩
  | refill s rest => cases room <;> cases h
  | expired s rest => cases h

theorem Ticker.next_sessions {m : Shared} {timedOut room : Bool} {t t' : Ticker} {op : Op}
    (h : t.next m timedOut room = some (op, t')) : ∀ s ∈ t'.sessions, s ∈ t.sessions := by
  intro s' hs'
  cases t with
  | waiting => exact absurd h (by simp [Ticker.next])
  | visit rest =>
    cases rest with
    | nil =>
      cases h
      exact hs'
    | cons s rest =>
      cases h
      split at hs'
      · exact List.mem_cons_of_mem _ hs'
      · split at hs' <;> exact hs'
  | report s k stage rest =>
    cases h
    cases hst : (k.next m s stage).2 with
    | none =>
      rw [hst] at hs'
      exact hs'
    | some stage =>
      rw [hst] at hs'
      exact hs'
  | expired s rest =>
    cases h
    exact hs'
  | refill s rest =>
    cases h
    exact List.mem_cons_of_mem _ hs'

namespace World

variable {cfg : Config} {t : Turn} {w w' : World} {op : Op} {g : Goroutines}

/-- A receive loop that has started never is as it was before. -/
theorem Move.recv_ne_idle (h : Move w t op g) {s : SessionRef} (hs : w.recv s ≠ .idle) :
    g.recv s ≠ .idle := by
  have hset : ∀ (s' : SessionRef) (r : Recv), r ≠ .idle → (w.setRecv s' r).recv s ≠ .idle := by
    intro s' r hr
    by_cases hss : s = s'
    · rw [hss, setRecv_self]
      exact hr
    · rw [setRecv_of_ne r w hss]
      exact hs
  cases h with
  | accept | packet | error => exact hset _ _ (by simp)
  | recv s' hr => exact hset s' _ (Recv.next_ne_idle hr)
  | sendRound | publish | getAllSessions | tick | closer => exact hs

/-! ## Sessions that have been accepted -/

/-- Every session that the manager, the ticker or a past event refers to has been accepted. -/
structure Begun (w : World) : Prop where
  waiting : ∀ c s, w.mgr.waitingConnectSessionMap.lookup c = some s → w.recv s ≠ .idle
  connected : ∀ k s, w.mgr.connectedSessionMap.lookup k = some s → w.recv s ≠ .idle
  handed : ∀ s, w.Handed s → w.recv s ≠ .idle
  ticker : ∀ s ∈ w.ticker.sessions, w.recv s ≠ .idle

/-- The event is about a session that has been accepted, except the one that accepts it. -/
def Named (w : World) (g : Goroutines) : MgrEvent → Prop
  | .insertSession s => w.recv s = .idle ∧ g.recv s ≠ .idle
  | .connectTimeout s | .connected s | .disconnect s | .pingTimeout s => w.recv s ≠ .idle
  | .disconnectSessionByClientId _ => True

theorem Move.named {e : MgrEvent} (h : Move w t (.send e) g) (hb : Begun w) : Named w g e := by
  have hreport : ∀ s k, w.recv s ≠ .idle → Named w g (Report.event s k) := by
    intro s k hs
    cases k <;> exact hs
  cases h with
  | accept s hr =>
    refine ⟨hr, ?_⟩
    rw [setRecv_self]
    simp
  | recv s hr =>
    obtain ⟨hidle, rfl | ⟨clientId, rfl⟩ | ⟨k, rfl⟩⟩ := Recv.next_send hr
    · exact hidle
    · trivial
    · exact hreport s k hidle
  | tick ht =>
    -- the ticker took its sessions from the tables
    obtain ⟨s, hs, k, rfl⟩ := Ticker.next_send ht
    exact hreport s k (hb.ticker s hs)
  | sendRound s hop => rcases hop with hop | hop | hop <;> cases hop
  | closer hc =>
    have hm := Closer.next_move hc
    generalize w.closer = c at hm
    cases hm

theorem Begun.init (h : Initial cfg w) : Begun w := by
  have hticker : w.ticker = .waiting := congrArg Goroutines.ticker h.goroutines
  constructor
  · intro c s hs
    rw [h.mgr] at hs
    exact absurd hs (by simp)
  · intro k s hs
    rw [h.mgr] at hs
    exact absurd hs (by simp)
  · intro s hs
    rw [Shared.Handed, h.trace] at hs
    exact absurd hs (by simp)
  · intro s hs
    rw [hticker] at hs
    exact absurd hs (by simp [Ticker.sessions])

/-- The tables after a step are those that its event leaves, if it is one. -/
theorem mgr_of_run (hrun : w.run cfg op = some w'.toShared) :
    (∃ e, op = .send e ∧ w'.mgr = (w.case e w.mgr).2) ∨
      (∀ e, op ≠ .send e) ∧ w'.mgr = w.mgr := by
  by_cases hsend : ∃ e, op = .send e
  · obtain ⟨e, rfl⟩ := hsend
    exact .inl ⟨e, rfl, Shared.run_send_mgr hrun⟩
  · have hop : ∀ e, op ≠ .send e := fun e he => hsend ⟨e, he⟩
    exact .inr ⟨hop, Shared.run_mgr hrun hop⟩

/-- The ticker takes its sessions from the tables. -/
theorem Move.ticker_begun (h : Move w t op g) (hb : Begun w) :
    ∀ s ∈ g.ticker.sessions, w.recv s ≠ .idle := by
  intro s hs
  cases h with
  | getAllSessions waitingOrder connectedOrder =>
    rcases (SessionMgr.mem_getAllSessions waitingOrder connectedOrder _ s).mp hs with
      ⟨c, hc⟩ | ⟨k, hk⟩
    · exact hb.waiting c s hc
    · exact hb.connected k s hk
  | tick ht => exact hb.ticker s (Ticker.next_sessions ht s hs)
  | accept | packet | error | recv | sendRound | publish | closer => exact hb.ticker s hs

theorem Begun.step (hb : Begun w) (h : World.step cfg t w = some w') : Begun w' := by
  obtain ⟨-, op, -, hmove, hrun⟩ := step_move h
  have hkeep : ∀ {s}, w.recv s ≠ .idle → w'.recv s ≠ .idle := hmove.recv_ne_idle
  constructor
  · intro c s hs
    rcases mgr_of_run hrun with ⟨e, rfl, hmgr⟩ | ⟨-, hmgr⟩
    · rw [hmgr] at hs
      rcases Shared.waiting_of_case hs with hs | ⟨rfl, -⟩
      · exact hkeep (hb.waiting c s hs)
      · exact (hmove.named hb).2
    · rw [hmgr] at hs
      exact hkeep (hb.waiting c s hs)
  · intro k s hs
    rcases mgr_of_run hrun with ⟨e, rfl, hmgr⟩ | ⟨-, hmgr⟩
    · rw [hmgr] at hs
      rcases Shared.connected_of_case hs with hs | ⟨rfl, -⟩
      · exact hkeep (hb.connected k s hs)
      · exact hkeep (hmove.named hb)
    · rw [hmgr] at hs
      exact hkeep (hb.connected k s hs)
  · intro s hs
    rcases (Shared.mem_trace_closeSession hrun s).mp hs with hs | ⟨e, rfl, he⟩
    · exact hkeep (hb.handed s hs)
    -- it is the session of the event, or one that had an entry
    · rcases Shared.handed_of_case he with rfl | ⟨clientId, rfl, hl⟩ | ⟨rfl | rfl, -⟩
      · exact hkeep (hmove.named hb)
      · exact hkeep (hb.connected clientId s hl)
      · exact hkeep (hmove.named hb)
      · exact hkeep (hmove.named hb)
  · intro s hs
    exact hkeep (hmove.ticker_begun hb s hs)

/-- A waiting session is filed under its connection, and it is in no other map. -/
structure Seated (w : World) : Prop where
  begun : Begun w
  conn_injective : Function.Injective fun s => (w.sessions s).channel.conn
  conn : ∀ c s, w.mgr.waitingConnectSessionMap.lookup c = some s →
    c = (w.sessions s).channel.conn
  one_map : ∀ k s, w.mgr.connectedSessionMap.lookup k = some s →
    ∀ c, w.mgr.waitingConnectSessionMap.lookup c ≠ some s

theorem Seated.init (h : Initial cfg w) : Seated w where
  begun := .init h
  conn_injective := h.conn_injective
  conn c s hs := by
    rw [h.mgr] at hs
    exact absurd hs (by simp)
  one_map k s hs := by
    rw [h.mgr] at hs
    exact absurd hs (by simp)

/-- The event that registers a session takes it out of the waiting map. -/
theorem Seated.not_waiting_of_connected (hw : Seated w) (s : SessionRef) (c : ConnRef) :
    (w.case (.connected s) w.mgr).2.waitingConnectSessionMap.lookup c ≠ some s := by
  intro hs
  rcases Shared.waiting_of_case hs with hold | ⟨he, -⟩
  · rw [Shared.lookup_waiting] at hs
    simp [hw.conn c s hold] at hs
  · exact absurd he (by simp)

theorem Seated.step (hw : Seated w) (h : World.step cfg t w = some w') : Seated w' := by
  obtain ⟨-, op, -, hmove, hrun⟩ := step_move h
  have hsame := Shared.run_conn hrun
  refine ⟨hw.begun.step h, ?_, ?_, ?_⟩
  · intro s s' hs
    apply hw.conn_injective
    show (w.sessions s).channel.conn = (w.sessions s').channel.conn
    rw [← hsame s, ← hsame s']
    exact hs
  · intro c s hs
    rw [hsame s]
    rcases mgr_of_run hrun with ⟨e, rfl, hmgr⟩ | ⟨-, hmgr⟩
    · rw [hmgr] at hs
      rcases Shared.waiting_of_case hs with hs | ⟨-, hc⟩
      · exact hw.conn c s hs
      · exact hc
    · rw [hmgr] at hs
      exact hw.conn c s hs
  · intro k s hk c hc
    rcases mgr_of_run hrun with ⟨e, rfl, hmgr⟩ | ⟨-, hmgr⟩
    · rw [hmgr] at hk hc
      -- both entries were there before, or the event has just made one of them
      rcases Shared.connected_of_case hk with hk | ⟨rfl, -⟩
      · rcases Shared.waiting_of_case hc with hc | ⟨rfl, -⟩
        · exact hw.one_map k s hk c hc
        · exact hw.begun.connected k s hk (hmove.named hw.begun).1
      · exact hw.not_waiting_of_connected s c hc
    · rw [hmgr] at hk hc
      exact hw.one_map k s hk c hc

/-- Every entry of the connected map is filed under the client id of its session. -/
def FiledById (m : Shared) : Prop :=
  ∀ k s, m.mgr.connectedSessionMap.lookup k = some s → (m.sessions s).clientId = k

/-- A session that takes a client id is filed under no other. -/
def Renames (w : World) (t : Turn) : Prop :=
  ∀ s clientId g, next t w = some (.setClientId s clientId, g) →
    ∀ k, w.mgr.connectedSessionMap.lookup k = some s → k = clientId

theorem FiledById.init (h : Initial cfg w) : FiledById w.toShared := by
  intro k s hs
  rw [h.mgr] at hs
  exact absurd hs (by simp)

/-- The id of a session that was filed before the step is what it is filed under. -/
theorem FiledById.clientId (hw : FiledById w.toShared) (hrenames : Renames w t)
    (hnext : next t w = some (op, w'.toGoroutines)) (hrun : w.run cfg op = some w'.toShared)
    {k : GoString} {s : SessionRef} (hs : w.mgr.connectedSessionMap.lookup k = some s) :
    (w'.sessions s).clientId = k := by
  by_cases hrename : ∃ clientId, op = .setClientId s clientId
  · obtain ⟨clientId, rfl⟩ := hrename
    rw [Shared.run_setClientId hrun]
    exact (hrenames s clientId _ hnext k hs).symm
  · rw [Shared.run_clientId hrun fun clientId h => hrename ⟨clientId, h⟩]
    exact hw k s hs

theorem FiledById.step (hw : FiledById w.toShared) (hrenames : Renames w t)
    (hnext : next t w = some (op, w'.toGoroutines)) (hrun : w.run cfg op = some w'.toShared) :
    FiledById w'.toShared := by
  intro k s hs
  rcases mgr_of_run hrun with ⟨e, rfl, hmgr⟩ | ⟨-, hmgr⟩
  · rw [hmgr] at hs
    rcases Shared.connected_of_case hs with hs | ⟨-, hk⟩
    · exact hw.clientId hrenames hnext hrun hs
    · rw [Shared.run_clientId hrun fun _ => by simp]
      exact hk.symm
  · rw [hmgr] at hs
    exact hw.clientId hrenames hnext hrun hs

/-- A check of a step that renames as it should. -/
def renames (w : World) (t : Turn) : Bool :=
  match next t w with
  | some (.setClientId s clientId, _) =>
    decide (∀ k ∈ w.mgr.connectedSessionMap.keys,
      w.mgr.connectedSessionMap.lookup k = some s → k = clientId)
  | _ => true

theorem renames_of_check (h : renames w t = true) : Renames w t := by
  intro s clientId g hnext k hk
  rw [renames, hnext] at h
  exact of_decide_eq_true h k (Finmap.mem_keys.mpr (Finmap.mem_of_lookup_eq_some hk)) hk

end World
end MqttBroker

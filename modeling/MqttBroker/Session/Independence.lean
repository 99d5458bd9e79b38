import MqttBroker.Session.Routing

/-!
# Subscribers and the failures of others

`sendToSubcriber` looks whether a subscriber is open before it calls `Publish`, and `Publish`
looks again. Other goroutines run in between, so that a subscriber may be closed by then:
`Publish` returns an error, and the loop breaks. The subscribers that come after it in the
order of the map are handed nothing, whatever they are.
-/

namespace MqttBroker

open Broker GoM Exec

variable {σ : Type}

/-! ## Loops that break -/

section Visited

variable {α : Type} (stops : α → Prop) [DecidablePred stops]

/-- The elements that a loop comes to when it ends after the first that stops it. -/
def visited : List α → List α
  | [] => []
  | a :: l => a :: if stops a then [] else visited l

theorem visited_sublist (l : List α) : List.Sublist (visited stops l) l := by
  induction l with
  | nil => exact List.Sublist.refl _
  | cons a l ih =>
    rw [visited]
    split
    · exact (List.nil_sublist l).cons_cons a
    · exact ih.cons_cons a

/-- A loop comes to all elements that matter if and only if none of them is after one that
stops it. -/
theorem forall_mem_visited_iff (p : α → Prop) {l : List α} (hnodup : l.Nodup) :
    (∀ a ∈ l, p a → a ∈ visited stops l) ↔ l.Pairwise fun a b => stops a → ¬ p b := by
  induction l with
  | nil => simp
  | cons a l ih =>
    obtain ⟨ha, hl⟩ := List.nodup_cons.mp hnodup
    have hne : ∀ b ∈ l, b ≠ a := fun b hb heq => ha (heq ▸ hb)
    rw [List.pairwise_cons, visited]
    by_cases hstops : stops a
    · rw [if_pos hstops]
      constructor
      · intro h
        have hnone : ∀ b ∈ l, ¬ p b := fun b hb hp =>
          hne b hb (List.mem_singleton.mp (h b (List.mem_cons_of_mem a hb) hp))
        exact ⟨fun b hb _ => hnone b hb,
          List.Pairwise.imp_of_mem (fun _ hb _ _ => hnone _ hb)
            (List.pairwise_of_forall fun _ _ => trivial)⟩
      · rintro ⟨h, -⟩ b hb hp
        rcases List.mem_cons.mp hb with rfl | hb
        · exact List.mem_singleton_self _
        · exact absurd hp (h b hb hstops)
    · rw [if_neg hstops, ← ih hl]
      constructor
      · intro h
        refine ⟨fun _ _ hs => absurd hs hstops, fun b hb hp => ?_⟩
        exact (List.mem_cons.mp (h b (List.mem_cons_of_mem a hb) hp)).resolve_left (hne b hb)
      · rintro ⟨-, h⟩ b hb hp
        rcases List.mem_cons.mp hb with rfl | hb
        · exact List.mem_cons_self
        · exact List.mem_cons_of_mem _ (h b hb hp)

end Visited

/-! ## One call of `Publish` -/

namespace Session

variable (cfg : Config)

/-- `Publish` blocks on an open session with a full window and a full `peddingChan`. -/
def fills (s : Session) : Bool :=
  decide (¬ (s.inflightingList.length < cfg.maxSizeOfInflight ∧
    s.channel.iSendList.length < cfg.maxSizeOfPublishMsg) ∧ s.peddingChan.closed = false ∧
    cfg.maxSizeOfPublishMsg ≤ s.peddingChan.len)

theorem pushPedding_result (this : SessionRef) (pt : PacketAndToken) (b : Broker σ) :
    (pushPedding cfg this pt b).1 =
      if (b.sessions this).peddingChan.closed = false ∧
        cfg.maxSizeOfPublishMsg ≤ (b.sessions this).peddingChan.len
      then .error (.blocked this pt) else .ok (pt.t, none) := by
  rw [pushPedding, bind_run_ok (session_run this b)]
  cases hclosed : (b.sessions this).peddingChan.closed with
  | true => rfl
  | false =>
    rw [if_neg Bool.false_ne_true]
    by_cases hroom : (b.sessions this).peddingChan.len < cfg.maxSizeOfPublishMsg
    · rw [if_pos hroom, if_neg (by omega)]
      rfl
    · rw [if_neg hroom, if_pos ⟨rfl, by omega⟩]
      rfl

/-- How `Publish` ends: with an error on a session that is not open, else it blocks or returns
without one. -/
theorem publish_result (this : SessionRef) (msg : PacketRef) (b : Broker σ) : ∃ t err,
    (publish cfg this msg b).1 =
      if ¬ ((b.sessions this).isConnected ∧ ¬ (b.sessions this).isClosed) then .ok (t, some err)
      else if (b.sessions this).fills cfg then .error (.blocked this ⟨msg, t⟩)
      else .ok (t, none) := by
  obtain ⟨t, b₁, hpub, hrun⟩ := publish_run cfg this msg b
  have hsame : b₁.sessions this = advanceMsgId (b.sessions this) := by
    rw [hpub.sessions, setSession_self]
  refine ⟨t, .new "Publish session is stoped", ?_⟩
  rw [hrun, enqueue, bind_run_ok (session_run this b₁)]
  by_cases hopen : (b.sessions this).isConnected ∧ ¬ (b.sessions this).isClosed
  · have hopen₁ : ¬ (¬ (b₁.sessions this).isConnected ∨ (b₁.sessions this).isClosed) := by
      rw [hsame]
      exact not_or.mpr ⟨not_not.mpr hopen.1, hopen.2⟩
    rw [if_neg hopen₁, if_neg (not_not.mpr hopen)]
    by_cases hroom : (b.sessions this).inflightingList.length < cfg.maxSizeOfInflight ∧
        (b.sessions this).channel.iSendList.length < cfg.maxSizeOfPublishMsg
    · have hfills : ¬ (b.sessions this).fills cfg = true := fun h => (of_decide_eq_true h).1 hroom
      obtain ⟨_, b₂, hinsert⟩ := (insert2Inflight_returns cfg this ⟨msg, t⟩).ok b₁
      rw [if_pos (by rw [hsame]; exact hroom), if_neg hfills, bind_run_ok hinsert]
      rfl
    · have hfills : (b.sessions this).fills cfg = true ↔
          (b.sessions this).peddingChan.closed = false ∧
            cfg.maxSizeOfPublishMsg ≤ (b.sessions this).peddingChan.len :=
        (decide_eq_true_iff).trans (and_iff_right hroom)
      rw [if_neg (by rw [hsame]; exact hroom), pushPedding_result, hsame]
      exact if_congr hfills.symm rfl rfl
  · have hnot : ¬ (b₁.sessions this).isConnected ∨ (b₁.sessions this).isClosed := by
      rw [hsame]
      exact (not_and_or.mp hopen).imp_right not_not.mp
    rw [if_pos hnot, if_pos hopen]
    rfl

end Session

/-! ## The loop among other goroutines -/

theorem ControlPacket.publish_of_message {m : ControlPacket} {p : PublishPacket}
    (h : m.message = (ControlPacket.publish p).message) : ∃ q, m = .publish q := by
  cases m with
  | publish q => exact ⟨q, rfl⟩
  | _ => exact absurd h (by simp [message, setMessageID, clearRetain])

/-- Whether a call of `Publish` that has blocked returns without an error from a later state, if
there is one. -/
def Session.resumes (cfg : Config) (wake : Option (Broker σ)) : Fault → Bool
  | .blocked s pt =>
    match wake with
    | none => false
    | some b =>
      match (pushPedding cfg s pt b).1 with
      | .ok (_, err) => err.isNone
      | .error _ => false
  | .panic _ => false

theorem Session.resumes_iff (cfg : Config) (wake : Option (Broker σ)) (s : SessionRef)
    (pt : PacketAndToken) :
    resumes cfg wake (.blocked s pt) = true ↔
      ¬ ∀ b, wake = some b → (b.sessions s).peddingChan.closed = false ∧
        cfg.maxSizeOfPublishMsg ≤ (b.sessions s).peddingChan.len := by
  cases wake with
  | none => simp [resumes]
  | some b =>
    simp only [resumes, pushPedding_result, Option.some.injEq, forall_eq']
    by_cases hfull : (b.sessions s).peddingChan.closed = false ∧
        cfg.maxSizeOfPublishMsg ≤ (b.sessions s).peddingChan.len
    · rw [if_pos hfull]
      exact iff_of_false Bool.false_ne_true (not_not.mpr hfull)
    · rw [if_neg hfull]
      exact iff_of_true rfl hfull

/-- What the round of each subscriber finds while other goroutines run: the state in which it
looks at the subscriber, the one in which it calls `Publish`, and the one in which a call that
blocks goes on, if it ever does. They all keep the messages of the packets. -/
structure Encounters (b : Broker σ) where
  check : SessionRef → Broker σ
  call : SessionRef → Broker σ
  wake : SessionRef → Option (Broker σ)
  same : ∀ s, SameMessages b (call s)

namespace Encounters

variable (cfg : Config) {b : Broker σ} (e : Encounters b) (this : SessionRef) (msg : PacketRef)

/-- Whether the call of `Publish` for a subscriber returns without an error. -/
def goesOn (s : SessionRef) : Bool :=
  match (Session.publish cfg s msg (e.call s)).1 with
  | .ok (_, err) => err.isNone
  | .error fault => Session.resumes cfg (e.wake s) fault

/-- What the loop of `sendToSubcriber` hands to `Publish`. -/
def sendToSubcriberHanded : Subscribers → List (SessionRef × ControlPacket)
  | [] => []
  | v :: rest =>
    if Session.serves cfg this (e.check v.1) v.1 then
      Session.handedBy (Session.publish cfg v.1 msg) (e.call v.1) ++
        if e.goesOn cfg msg v.1 then sendToSubcriberHanded rest else []
    else
      sendToSubcriberHanded rest

/-- The session is connected and open in all states that the loop finds. -/
def StaysOpen (subs : Subscribers) (s : SessionRef) : Prop :=
  ∀ v ∈ subs, ∀ b', (b' = e.check v.1 ∨ b' = e.call v.1 ∨ e.wake v.1 = some b') →
    (b'.sessions s).isConnected ∧ ¬ (b'.sessions s).isClosed

/-- The round of the session is the last one: it is found open, and then closed by the call of
`Publish`, or this call blocks for good. -/
def Stops (s : SessionRef) : Prop :=
  Session.serves cfg this (e.check s) s ∧
    (¬ (((e.call s).sessions s).isConnected ∧ ¬ ((e.call s).sessions s).isClosed) ∨
      ((e.call s).sessions s).fills cfg ∧
        ∀ b', e.wake s = some b' → (b'.sessions s).peddingChan.closed = false ∧
          cfg.maxSizeOfPublishMsg ≤ (b'.sessions s).peddingChan.len)

variable {cfg this}

theorem goesOn_iff {s : SessionRef} (hserves : Session.serves cfg this (e.check s) s = true) :
    e.goesOn cfg msg s = true ↔ ¬ e.Stops cfg this s := by
  obtain ⟨t, err, hresult⟩ := Session.publish_result cfg s msg (e.call s)
  rw [Stops, and_iff_right hserves, not_or, not_not, not_and]
  by_cases hopen : ((e.call s).sessions s).isConnected ∧ ¬ ((e.call s).sessions s).isClosed
  · rw [if_neg (not_not.mpr hopen)] at hresult
    rw [and_iff_right hopen]
    by_cases hfills : ((e.call s).sessions s).fills cfg
    · rw [if_pos hfills] at hresult
      rw [goesOn, hresult, imp_iff_right hfills]
      exact Session.resumes_iff cfg (e.wake s) s ⟨msg, t⟩
    · rw [if_neg hfills] at hresult
      rw [goesOn, hresult]
      exact iff_of_true rfl fun h => absurd h hfills
  · rw [if_pos hopen] at hresult
    rw [goesOn, hresult]
    exact iff_of_false (by simp) fun h => hopen h.1

variable (cfg this)

/-- A call of `Publish` hands the message out, as it was when the loop started. -/
theorem publish_handedBy {p : PublishPacket} (hp : b.packets.cells msg = .publish p)
    (hmsg : msg < b.packets.next) (s : SessionRef) :
    ∃ m, Session.handedBy (Session.publish cfg s msg) (e.call s) = [(s, m)] ∧
      m.message = (ControlPacket.publish p).message := by
  have hsame := (e.same s).message msg hmsg
  rw [hp] at hsame
  obtain ⟨q, hq⟩ := ControlPacket.publish_of_message hsame
  have hhanded := (Session.publish_handed cfg s hq
    (lt_of_lt_of_le hmsg (e.same s).next)).1
  refine ⟨.publish { q with messageID := ((e.call s).sessions s).nextId }, ?_, ?_⟩
  · rw [Session.handedBy, hhanded, List.drop_left]
  · rw [← hsame, hq]
    exact ControlPacket.setMessageID_message _ (.publish q)

/-- The loop hands its message to the subscribers that it comes to and finds open. -/
theorem sendToSubcriberHanded_eq [DecidablePred fun v : Σ _ : SessionRef, UInt8 =>
    e.Stops cfg this v.1] {p : PublishPacket} (hp : b.packets.cells msg = .publish p)
    (hmsg : msg < b.packets.next) (l : Subscribers) :
    (e.sendToSubcriberHanded cfg this msg l).map Prod.fst =
        ((visited (fun v => e.Stops cfg this v.1) l).filter fun v =>
          Session.serves cfg this (e.check v.1) v.1).map Sigma.fst ∧
      ∀ c ∈ e.sendToSubcriberHanded cfg this msg l,
        c.2.message = (ControlPacket.publish p).message := by
  induction l with
  | nil => exact ⟨rfl, fun c hc => absurd hc List.not_mem_nil⟩
  | cons v l ih =>
    rw [sendToSubcriberHanded, visited]
    cases hserves : Session.serves cfg this (e.check v.1) v.1 with
    | false =>
      have hstops : ¬ e.Stops cfg this v.1 := fun h => Bool.noConfusion (hserves.symm.trans h.1)
      rw [if_neg Bool.false_ne_true, if_neg hstops,
        List.filter_cons_of_neg (by rw [hserves]; exact Bool.false_ne_true)]
      exact ih
    | true =>
      obtain ⟨m, hm, hmessage⟩ := e.publish_handedBy cfg msg hp hmsg v.1
      rw [if_pos rfl, hm, List.filter_cons_of_pos (by exact hserves)]
      by_cases hstops : e.Stops cfg this v.1
      · rw [if_pos hstops, if_neg (fun h => (e.goesOn_iff msg hserves).mp h hstops)]
        exact ⟨rfl, fun c hc => List.mem_singleton.mp hc ▸ hmessage⟩
      · rw [if_neg hstops, if_pos ((e.goesOn_iff msg hserves).mpr hstops)]
        refine ⟨congrArg (v.1 :: ·) ih.1, fun c hc => ?_⟩
        rcases List.mem_cons.mp hc with rfl | hc
        · exact hmessage
        · exact ih.2 c hc

/-- Only what the rounds of the subscribers find counts. -/
theorem sendToSubcriberHanded_congr {b' : Broker σ} {e' : Encounters b'} {l : Subscribers}
    (h : ∀ v ∈ l, e.check v.1 = e'.check v.1 ∧ e.call v.1 = e'.call v.1 ∧
      e.wake v.1 = e'.wake v.1) :
    e.sendToSubcriberHanded cfg this msg l = e'.sendToSubcriberHanded cfg this msg l := by
  induction l with
  | nil => rfl
  | cons v l ih =>
    obtain ⟨hcheck, hcall, hwake⟩ := h v List.mem_cons_self
    have hrest := ih fun u hu => h u (List.mem_cons_of_mem v hu)
    rw [sendToSubcriberHanded, sendToSubcriberHanded, goesOn, goesOn, hcheck, hcall, hwake, hrest]

/-- Nothing runs while the loop does. -/
def still (b : Broker σ) : Encounters b := ⟨fun _ => b, fun _ => b, fun _ => none, fun _ => .refl b⟩

/-- Before all else, the round of `s` finds the states `check` and `call`. -/
def meet {b' : Broker σ} (e' : Encounters b') (s : SessionRef) (check : Broker σ)
    {call : Broker σ} (hcall : SameMessages b call) (hsame : SameMessages b b') :
    Encounters b where
  check := Function.update e'.check s check
  call := Function.update e'.call s call
  wake := Function.update e'.wake s none
  same s' := by
    by_cases hs : s' = s
    · rw [hs, Function.update_self]
      exact hcall
    · rw [Function.update_of_ne hs]
      exact hsame.trans (e'.same s')

theorem meet_handed {b' : Broker σ} (e' : Encounters b') {v : Σ _ : SessionRef, UInt8}
    (check : Broker σ) {call : Broker σ} (hcall : SameMessages b call) (hsame : SameMessages b b')
    {l : Subscribers} (hv : v.1 ∉ l.map Sigma.fst) :
    (e'.meet v.1 check hcall hsame).sendToSubcriberHanded cfg this msg (v :: l) =
      if Session.serves cfg this check v.1 then
        Session.handedBy (Session.publish cfg v.1 msg) call ++
          match (Session.publish cfg v.1 msg call).1 with
          | .ok (_, none) => e'.sendToSubcriberHanded cfg this msg l
          | _ => []
      else e'.sendToSubcriberHanded cfg this msg l := by
  have hrest : (e'.meet v.1 check hcall hsame).sendToSubcriberHanded cfg this msg l =
      e'.sendToSubcriberHanded cfg this msg l := by
    refine sendToSubcriberHanded_congr cfg _ this msg fun u hu => ?_
    have hne : u.1 ≠ v.1 := fun heq => hv (heq ▸ List.mem_map_of_mem hu)
    exact ⟨Function.update_of_ne hne .., Function.update_of_ne hne ..,
      Function.update_of_ne hne ..⟩
  rw [sendToSubcriberHanded, hrest, goesOn]
  show (if Session.serves cfg this (Function.update e'.check v.1 check v.1) v.1 then
    Session.handedBy _ (Function.update e'.call v.1 call v.1) ++ ite ((match
      (Session.publish cfg v.1 msg (Function.update e'.call v.1 call v.1)).1 with
      | .ok (_, err) => err.isNone
      | .error fault => Session.resumes cfg (Function.update e'.wake v.1 none v.1) fault) = true)
      _ _ else _) = _
  rw [Function.update_self, Function.update_self, Function.update_self]
  rcases (Session.publish cfg v.1 msg call).1 with (_ | _) | ⟨t, _ | err⟩
  · rfl
  · rfl
  · rfl
  · rfl

/-- When nothing runs in between, this is the loop of `sendToSubcriber`. -/
theorem exists_rounds_handed (l : Subscribers) :
    ∀ {b : Broker σ}, (∃ p, b.packets.cells msg = .publish p) → msg < b.packets.next →
      (l.map Sigma.fst).Nodup → ∃ e : Encounters b,
        (rounds (Session.sendToSubcriberRound cfg this msg) l b).2.handed =
          b.handed ++ e.sendToSubcriberHanded cfg this msg l := by
  induction l with
  | nil =>
    intro b _ _ _
    exact ⟨still b, (List.append_nil _).symm⟩
  | cons v l ih =>
    intro b hpub hmsg hnodup
    obtain ⟨p, hp⟩ := hpub
    obtain ⟨hv, hl⟩ := List.nodup_cons.mp hnodup
    rw [rounds, bind_run]
    cases hserves : Session.serves cfg this b v.1 with
    | false =>
      rw [Session.sendToSubcriberRound_of_not_serves cfg hserves]
      obtain ⟨e, he⟩ := ih ⟨p, hp⟩ hmsg hl
      refine ⟨e.meet v.1 b (.refl b) (.refl b), ?_⟩
      rw [meet_handed cfg this msg e b _ _ hv, if_neg (by simp [hserves])]
      exact he
    | true =>
      obtain ⟨nmsg, hrun⟩ := Session.sendToSubcriberRound_run cfg hp hserves
      let b₁ : Broker σ := { b with packets := (b.packets.alloc nmsg).2 }
      have hcall : SameMessages b b₁ := SameMessages.framing.alloc nmsg b
      obtain ⟨hhanded, hcell₂, hlt₂, -⟩ := Session.publish_handed cfg v.1 (b := b₁)
        ((Heap.alloc_of_lt nmsg hmsg).trans hp) (Nat.lt_succ_of_lt hmsg)
      have hsame₂ : SameMessages b₁ (Session.publish cfg v.1 msg b₁).2 :=
        Session.publish_respects SameMessages.framing cfg v.1 SameMessages.queueing msg b₁
      have hby : (Session.publish cfg v.1 msg b₁).2.handed =
          b.handed ++ Session.handedBy (Session.publish cfg v.1 msg) b₁ := by
        rw [Session.handedBy, hhanded, List.drop_left]
        rfl
      rw [hrun, bind_run]
      rcases hr : Session.publish cfg v.1 msg b₁ with ⟨fault | ⟨t, _ | err⟩, b₂⟩
      · refine ⟨(still b).meet v.1 b hcall (.refl b), ?_⟩
        rw [meet_handed cfg this msg _ b _ _ hv, if_pos hserves, hr, List.append_nil]
        rw [hr] at hby
        exact hby
      · rw [hr] at hcell₂ hlt₂ hsame₂
        obtain ⟨e, he⟩ := ih ⟨_, hcell₂⟩ hlt₂ hl
        refine ⟨e.meet v.1 b hcall (hcall.trans hsame₂), ?_⟩
        rw [meet_handed cfg this msg e b _ _ hv, if_pos hserves, hr, ← List.append_assoc]
        rw [hr] at hby
        rw [← hby]
        exact he
      · refine ⟨(still b).meet v.1 b hcall (.refl b), ?_⟩
        rw [meet_handed cfg this msg _ b _ _ hv, if_pos hserves, hr, List.append_nil]
        rw [hr] at hby
        exact hby

end Encounters

/-- Exactly one call of `Publish` on the session hands the message out. -/
def HandedOnce (p : PublishPacket) (s : SessionRef) (calls : List (SessionRef × ControlPacket)) :
    Prop :=
  ∃ m, calls.filter (fun c => c.1 = s) = [(s, m)] ∧
    m.message = (ControlPacket.publish p).message

theorem HandedOnce.mem {p : PublishPacket} {s : SessionRef}
    {calls : List (SessionRef × ControlPacket)} (h : HandedOnce p s calls) :
    s ∈ calls.map Prod.fst := by
  obtain ⟨m, hm, -⟩ := h
  have hmem : (s, m) ∈ calls.filter fun c => c.1 = s := by
    rw [hm]
    exact List.mem_singleton_self _
  exact List.mem_map_of_mem (List.mem_of_mem_filter hmem)

theorem handedOnce_iff {p : PublishPacket} {calls : List (SessionRef × ControlPacket)}
    (hnodup : (calls.map Prod.fst).Nodup)
    (hmessage : ∀ c ∈ calls, c.2.message = (ControlPacket.publish p).message) (s : SessionRef) :
    HandedOnce p s calls ↔ s ∈ calls.map Prod.fst := by
  refine ⟨HandedOnce.mem, fun hs => ?_⟩
  obtain ⟨⟨s', m⟩, hc, rfl⟩ := List.mem_map.mp hs
  refine ⟨m, List.perm_singleton.mp ?_, hmessage _ hc⟩
  refine (List.perm_ext_iff_of_nodup ((hnodup.of_map _).filter _) (List.nodup_singleton _)).mpr
    fun c => ?_
  rw [List.mem_filter, List.mem_singleton, decide_eq_true_iff]
  constructor
  · rintro ⟨hc', hkey⟩
    exact List.inj_on_of_nodup_map hnodup hc' hc hkey
  · rintro rfl
    exact ⟨hc, rfl⟩

/-- While any sessions close and other goroutines run, every subscriber that stays open is
handed the message once, if and only if none of them is the publisher itself when `SendToSelf`
is off, and none comes after a subscriber whose round is the last one. -/
theorem sendToSubcriber_handedOnce_iff (cfg : Config) (order : SubscriberOrder)
    (this : SessionRef) {msg : PacketRef} {p : PublishPacket} {b b₁ : Broker σ}
    {subs : Subscribers} (hp : b.packets.cells msg = .publish p) (hmsg : msg < b.packets.next)
    (hstart : Session.sendToSubcriberStart order this msg b = (.ok subs, b₁))
    (e : Encounters b₁) :
    (∀ s ∈ b.subscriptionMgr.getSessions p.topicName, e.StaysOpen subs s →
        HandedOnce p s (e.sendToSubcriberHanded cfg this msg subs)) ↔
      (∀ s ∈ b.subscriptionMgr.getSessions p.topicName, e.StaysOpen subs s →
        ¬ (cfg.sendToSelf = false ∧ s = this)) ∧
      subs.Pairwise fun u v => e.Stops cfg this u.1 → ¬ e.StaysOpen subs v.1 := by
  classical
  rw [Session.sendToSubcriberStart_run order this hp] at hstart
  obtain ⟨hsubs, rfl⟩ := Prod.mk.inj hstart
  have hsubs := Except.ok.inj hsubs
  have hnodup : (subs.map Sigma.fst).Nodup := hsubs ▸ order.nodup_keys _
  have hmem : ∀ s, s ∈ b.subscriptionMgr.getSessions p.topicName ↔ ∃ v ∈ subs, v.1 = s := by
    intro s
    rw [Finmap.mem_iff, ← hsubs]
    constructor
    · rintro ⟨qos, hqos⟩
      exact ⟨⟨s, qos⟩, (order.mem_toList _ _ _).mpr hqos, rfl⟩
    · rintro ⟨v, hv, rfl⟩
      exact ⟨v.2, (order.mem_toList _ _ _).mp hv⟩
  let p₁ : PublishPacket := { p with header := { p.header with retain := false } }
  have hp₁ : (b.packets.modify msg ControlPacket.clearRetain).cells msg = .publish p₁ := by
    rw [Heap.modify_self, hp]
    rfl
  obtain ⟨hfst, hmessage⟩ :=
    e.sendToSubcriberHanded_eq cfg this msg hp₁ hmsg subs
  have hmessage' : ∀ c ∈ e.sendToSubcriberHanded cfg this msg subs,
      c.2.message = (ControlPacket.publish p).message := fun c hc =>
    (hmessage c hc).trans (ControlPacket.clearRetain_message (.publish p))
  have hcalls : ((e.sendToSubcriberHanded cfg this msg subs).map Prod.fst).Nodup := by
    rw [hfst]
    exact hnodup.sublist ((List.filter_sublist.trans (visited_sublist _ _)).map _)
  -- a subscriber that stays open is handed the message when the loop comes to it
  have hone : ∀ v ∈ subs, e.StaysOpen subs v.1 →
      (HandedOnce p v.1 (e.sendToSubcriberHanded cfg this msg subs) ↔
        v ∈ visited (fun v => e.Stops cfg this v.1) subs ∧
          ¬ (cfg.sendToSelf = false ∧ v.1 = this)) := by
    intro v hv hopen
    rw [handedOnce_iff hcalls hmessage', hfst, List.mem_map]
    constructor
    · rintro ⟨u, hu, heq⟩
      obtain ⟨hvisited, hserves⟩ := List.mem_filter.mp hu
      have hsub : u ∈ subs := (visited_sublist _ _).subset hvisited
      obtain rfl := List.inj_on_of_nodup_map hnodup hsub hv heq
      exact ⟨hvisited, (of_decide_eq_true hserves).1⟩
    · rintro ⟨hvisited, hself⟩
      refine ⟨v, List.mem_filter.mpr ⟨hvisited, decide_eq_true ⟨hself, ?_⟩⟩, rfl⟩
      exact hopen v hv _ (.inl rfl)
  rw [← forall_mem_visited_iff (fun v => e.Stops cfg this v.1) (fun v => e.StaysOpen subs v.1)
    (List.Nodup.of_map _ hnodup)]
  constructor
  · intro h
    refine ⟨fun s hs hopen => ?_, fun v hv hopen => ?_⟩
    · obtain ⟨v, hv, rfl⟩ := (hmem s).mp hs
      exact ((hone v hv hopen).mp (h v.1 hs hopen)).2
    · exact ((hone v hv hopen).mp (h v.1 ((hmem v.1).mpr ⟨v, hv, rfl⟩) hopen)).1
  · rintro ⟨hself, hvisited⟩ s hs hopen
    obtain ⟨v, hv, rfl⟩ := (hmem s).mp hs
    exact (hone v hv hopen).mpr ⟨hvisited v hv hopen, hself v.1 hs hopen⟩

/-- The broker with two subscribers of `x` when the loop for its message starts. -/
def twoStarted : Broker Unit :=
  (Session.sendToSubcriberStart RangeOrder.ascending 2 0 twoSubscribers).2

theorem twoStarted_run : Session.sendToSubcriberStart RangeOrder.ascending 2 0 twoSubscribers =
    (.ok [⟨0, 0⟩, ⟨1, 2⟩], twoStarted) := by
  have hsubs : RangeOrder.ascending.toList
      (twoSubscribers.subscriptionMgr.getSessions (str "x")) = [⟨0, 0⟩, ⟨1, 2⟩] := by
    decide +kernel
  have hcell : twoSubscribers.packets.cells 0 = .publish publishedX := rfl
  have hrun := Session.sendToSubcriberStart_run RangeOrder.ascending 2 hcell
  exact hrun.trans (congrArg (fun l => (Except.ok l, twoStarted)) hsubs)

/-- The session of subscriber 0 has been reported and closed. -/
def closedFirst : Broker Unit :=
  ((Session.mgrOnDisconnected 0 >>= fun _ => Session.close 0 : GoM Unit Unit) twoStarted).2

theorem closedFirst_same : SameMessages twoStarted closedFirst :=
  Respects.bind (Session.mgrOnDisconnected_respects SameMessages.framing 0)
    (fun _ => Session.close_respects SameMessages.framing 0) twoStarted

theorem twoSubscribers_lookup :
    0 ∈ twoSubscribers.subscriptionMgr.getSessions publishedX.topicName ∧
      1 ∈ twoSubscribers.subscriptionMgr.getSessions publishedX.topicName := by
  decide +kernel

theorem sendToSubcriber_handedOnce_iff_still : ∃ e : Encounters twoStarted,
    HandedOnce publishedX 0 (e.sendToSubcriberHanded {} 2 0 [⟨0, 0⟩, ⟨1, 2⟩]) ∧
      HandedOnce publishedX 1 (e.sendToSubcriberHanded {} 2 0 [⟨0, 0⟩, ⟨1, 2⟩]) := by
  let e := Encounters.still twoStarted
  have hopen : ∀ s, (twoStarted.sessions s).isConnected ∧ ¬ (twoStarted.sessions s).isClosed :=
    fun s => ⟨Int.one_pos, fun h => Clostep.noConfusion h⟩
  have hstill : ∀ s, e.StaysOpen [⟨0, 0⟩, ⟨1, 2⟩] s := by
    rintro s v - b' (rfl | rfl | hwake)
    · exact hopen s
    · exact hopen s
    · exact absurd hwake (by simp [e, Encounters.still])
  have hnot : ∀ s, ¬ e.Stops {} 2 s := by
    rintro s ⟨-, hclosed | ⟨hfills, -⟩⟩
    · exact hclosed (hopen s)
    · exact (of_decide_eq_true hfills).1 ⟨Nat.succ_pos _, Nat.succ_pos _⟩
  have hall := (sendToSubcriber_handedOnce_iff {} RangeOrder.ascending 2 (p := publishedX) rfl
    Nat.zero_lt_one twoStarted_run e).mpr
      ⟨fun s _ _ h => absurd h.1 (by decide),
        List.pairwise_of_forall fun u _ h => absurd h (hnot u.1)⟩
  exact ⟨e, hall 0 twoSubscribers_lookup.1 (hstill 0), hall 1 twoSubscribers_lookup.2 (hstill 1)⟩

/-- Subscriber 0 is closed after it was found open; subscriber 1 stays open and is handed
nothing. -/
theorem lost_behind_closed : ∃ e : Encounters twoStarted,
    Session.sendToSubcriberStart RangeOrder.ascending 2 0 twoSubscribers =
        (.ok [⟨0, 0⟩, ⟨1, 2⟩], twoStarted) ∧
      e.check 0 = twoStarted ∧ e.call 0 = closedFirst ∧
      1 ∈ twoSubscribers.subscriptionMgr.getSessions publishedX.topicName ∧
      e.StaysOpen [⟨0, 0⟩, ⟨1, 2⟩] 1 ∧
      ¬ HandedOnce publishedX 1 (e.sendToSubcriberHanded {} 2 0 [⟨0, 0⟩, ⟨1, 2⟩]) := by
  let e : Encounters twoStarted := ⟨fun _ => twoStarted, fun _ => closedFirst, fun _ => none,
    fun _ => closedFirst_same⟩
  refine ⟨e, twoStarted_run, rfl, rfl, twoSubscribers_lookup.2, ?_, ?_⟩
  · rintro v - b' (rfl | rfl | hwake)
    · exact ⟨Int.one_pos, fun h => Clostep.noConfusion h⟩
    · show (closedFirst.sessions 1).isConnected ∧ ¬ (closedFirst.sessions 1).isClosed
      decide +kernel
    · exact absurd hwake (by simp [e])
  · intro honce
    have hfirst : (e.sendToSubcriberHanded {} 2 0 [⟨0, 0⟩, ⟨1, 2⟩]).map Prod.fst = [0] := by
      decide +kernel
    have hsecond := honce.mem
    rw [hfirst] at hsecond
    exact absurd hsecond (by decide)

end MqttBroker

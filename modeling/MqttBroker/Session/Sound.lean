import MqttBroker.Session.LedgerTheorems

/-!
# Tokens of entries

Every entry that waits anywhere, in a list of its session or in the hands of a goroutine
that is blocked in `Publish`, has a token of its own, and that token is not complete and
not one of the handshake. `Sound w b` says so, with `w` the entries in hand. It holds in
every reachable state: the ledger keeps it, and `Publish` and `Send` allocate their tokens.
-/

namespace MqttBroker

open Broker GoM Exec

variable {σ : Type}

/-- The entries in the lists of `b` and in the hands of `w`. -/
structure Sound (w : SessionRef → List PacketAndToken) (b : Broker σ) : Prop where
  inRange : b.InRange
  waiting : ∀ s, ∀ pt ∈ w s, pt.p < b.packets.next
  handshake : ∀ t, b.Handshake t → t < b.tokens.next
  live : ∀ s, ∀ pt ∈ w s ++ b.entries s, ∀ t, pt.t = some t →
    t < b.tokens.next ∧ (b.tokens.cells t).complete = false ∧ ¬ b.Handshake t
  distinct : TokensDistinct fun s => w s ++ b.entries s

/-- `t` is a token that has just been allocated and is not complete, or there is none. -/
def Broker.Allocated (t : Option TokenRef) (b b' : Broker σ) : Prop :=
  t = none ∧ b'.tokens = b.tokens ∨ ∃ tok : Token, tok.complete = false ∧
    t = some b.tokens.next ∧ b'.tokens = (b.tokens.alloc tok).2

theorem Broker.Allocated.next_le {t : Option TokenRef} {b b' : Broker σ} (h : Allocated t b b') :
    b.tokens.next ≤ b'.tokens.next := by
  rcases h with ⟨-, ht⟩ | ⟨tok, -, -, ht⟩
  · rw [ht]
  · rw [ht]
    exact Nat.le_succ _

theorem Broker.Allocated.eq_next {t : Option TokenRef} {b b' : Broker σ} (h : Allocated t b b')
    {i : TokenRef} (hi : t = some i) : i = b.tokens.next := by
  rcases h with ⟨hn, -⟩ | ⟨tok, -, hsome, -⟩
  · exact absurd (hn.symm.trans hi) (by simp)
  · exact Option.some.inj (hi.symm.trans hsome)

theorem Broker.Allocated.next_lt {t : Option TokenRef} {b b' : Broker σ} (h : Allocated t b b')
    (ht : t.isSome) : b.tokens.next < b'.tokens.next := by
  rcases h with ⟨hn, -⟩ | ⟨tok, -, -, htok⟩
  · rw [hn] at ht
    exact absurd ht (by decide)
  · rw [htok]
    exact Nat.lt_succ_self _

namespace Sound

variable {w new : SessionRef → List PacketAndToken} {b b' : Broker σ}

/-- Only the entries matter, not their order. -/
theorem perm {w' : SessionRef → List PacketAndToken} (h : Sound w b)
    (hw : ∀ s, (w' s).Perm (w s)) : Sound w' b where
  inRange := h.inRange
  waiting s pt hpt := h.waiting s pt ((hw s).subset hpt)
  handshake := h.handshake
  live s pt hpt := h.live s pt (((hw s).append_right _).subset hpt)
  distinct := h.distinct.of_subperm fun s => (((hw s).append_right _).filterMap _).subperm

/-- An entry in hand may be forgotten. -/
theorem drop (h : Sound (fun s => w s ++ new s) b) : Sound w b where
  inRange := h.inRange
  waiting s pt hpt := h.waiting s pt (List.mem_append_left _ hpt)
  handshake := h.handshake
  live s pt hpt := by
    refine h.live s pt ?_
    rcases List.mem_append.mp hpt with hp | hp
    · exact List.mem_append_left _ (List.mem_append_left _ hp)
    · exact List.mem_append_right _ hp
  distinct := h.distinct.of_subperm fun s =>
    (((List.sublist_append_left _ _).append_right _).filterMap _).subperm

/-- Runs that keep to the ledger keep the tokens in order. -/
theorem ledger (h : Sound (fun s => w s ++ new s) b) (hl : Ledger new b b') : Sound w b' where
  inRange := hl.inRange
  waiting s pt hpt :=
    lt_of_lt_of_le (h.waiting s pt (List.mem_append_left _ hpt)) hl.packets_next
  handshake t ht :=
    lt_of_lt_of_le (h.handshake t ((hl.handshake_iff t).mp ht)) hl.tokens_next
  distinct := by
    refine hl.tokensDistinct (h.distinct.of_subperm fun s => ?_)
    rw [List.append_assoc]
  live s pt hpt t ht := by
    have hbefore : ∃ pt₀ ∈ (w s ++ new s) ++ b.entries s, pt₀.t = some t := by
      rcases List.mem_append.mp hpt with hp | hp
      · exact ⟨pt, List.mem_append_left _ (List.mem_append_left _ hp), ht⟩
      · obtain ⟨pt₀, hpt₀, ht₀, -⟩ := hl.token_mem hp
        refine ⟨pt₀, ?_, ht₀.trans ht⟩
        rw [List.append_assoc]
        exact List.mem_append_right _ hpt₀
    obtain ⟨pt₀, hpt₀, ht₀⟩ := hbefore
    obtain ⟨hlt, hopen, hnot⟩ := h.live s pt₀ hpt₀ t ht₀
    refine ⟨lt_of_lt_of_le hlt hl.tokens_next, ?_, fun hc => hnot ((hl.handshake_iff t).mp hc)⟩
    by_contra hcomplete
    rcases hl.completed t (by simpa using hcomplete) with hc | hc | ⟨⟨s₁, pt₁, hpt₁, ht₁⟩, hgone⟩
    · rw [hopen] at hc
      exact absurd hc (by decide)
    · exact hnot hc
    · -- the token was on an entry that the lists held, so it is not one of `w`
      have hlists : TokensDistinct fun s => new s ++ b.entries s :=
        h.distinct.of_subperm fun s => by
          rw [List.append_assoc]
          exact ((List.sublist_append_right _ _).filterMap _).subperm
      rcases List.mem_append.mp hpt with hp | hp
      · by_cases hs : s = s₁
        · have hnodup := h.distinct.nodup s
          rw [List.append_assoc, List.filterMap_append] at hnodup
          exact List.disjoint_of_nodup_append hnodup (List.mem_filterMap.mpr ⟨pt, hp, ht⟩)
            (List.mem_filterMap.mpr ⟨pt₁, hs ▸ hpt₁, ht₁⟩)
        · refine h.distinct.disjoint s s₁ hs pt ?_ pt₁ ?_ t ht ht₁
          · exact List.mem_append_left _ (List.mem_append_left _ hp)
          · rw [List.append_assoc]
            exact List.mem_append_right _ hpt₁
      · exact hgone hlists s pt hp ht

theorem quiet (h : Sound w b) (hq : Quiet b b') : Sound w b' := by
  have hw : Sound (fun s => w s ++ noEntries s) b := h.perm fun s => by rw [List.append_nil]
  exact hw.ledger (hq h.inRange)

/-- Only part of the state matters. -/
theorem congr (h : Sound w b) (hp : b'.packets.next = b.packets.next) (ht : b'.tokens = b.tokens)
    (hfoot : ∀ s, footprint (b'.sessions s) = footprint (b.sessions s)) : Sound w b' := by
  have hfields := fun s => of_footprint_eq (hfoot s)
  have hentries : b'.entries = b.entries := funext fun s => (hfields s).1
  have hhandshake : ∀ t, b'.Handshake t ↔ b.Handshake t := by
    intro t
    unfold Handshake
    refine exists_congr fun s => ?_
    rw [(hfields s).2.2.1, (hfields s).2.2.2]
  refine ⟨⟨?_, fun s => ?_⟩, ?_, fun t hh => ?_, fun s => ?_, ?_⟩
  · rw [hentries, hp]
    exact h.inRange.entries
  · rw [(hfields s).2.1, hp]
    exact h.inRange.sends s
  · rw [hp]
    exact h.waiting
  · rw [ht]
    exact h.handshake t ((hhandshake t).mp hh)
  · rw [hentries, ht]
    simp only [hhandshake]
    exact h.live s
  · rw [hentries]
    exact h.distinct

/-- A new entry with a new token, or without one. -/
theorem enter {this : SessionRef} {msg : PacketRef} {t : Option TokenRef} (h : Sound w b)
    (hmsg : msg < b.packets.next) (hs : b'.sessions = b.sessions) (hp : b'.packets = b.packets)
    (htokens : Allocated t b b') : Sound (fun s => w s ++ entryFor this ⟨msg, t⟩ s) b' := by
  have hentries : b'.entries = b.entries := by
    funext s
    rw [entries, hs, entries]
  have hhandshake : ∀ i, b'.Handshake i ↔ b.Handshake i := by
    intro i
    unfold Handshake
    rw [hs]
  have hle := htokens.next_le
  have hcells : ∀ i, i < b.tokens.next → b'.tokens.cells i = b.tokens.cells i := by
    intro i hi
    rcases htokens with ⟨-, ht⟩ | ⟨tok, -, -, ht⟩
    · rw [ht]
    · rw [ht]
      exact Heap.alloc_of_lt tok hi
  refine ⟨⟨?_, ?_⟩, fun s pt hpt => ?_, fun i hi => ?_, fun s pt hpt i hi => ?_, ?_⟩
  · rw [hentries, hp]
    exact h.inRange.entries
  · rw [hs, hp]
    exact h.inRange.sends
  · rw [hp]
    rcases List.mem_append.mp hpt with hp' | hp'
    · exact h.waiting s pt hp'
    · exact mem_entryFor_lt hmsg s pt hp'
  · exact lt_of_lt_of_le (h.handshake i ((hhandshake i).mp hi)) hle
  · by_cases hpt' : pt ∈ w s ++ b.entries s
    · obtain ⟨hlt, hopen, hnot⟩ := h.live s pt hpt' i hi
      exact ⟨lt_of_lt_of_le hlt hle, by rw [hcells i hlt]; exact hopen,
        fun hc => hnot ((hhandshake i).mp hc)⟩
    · -- the entry is the new one, and its token is the one just allocated
      have hpt'' : pt ∈ entryFor this ⟨msg, t⟩ s := by
        rw [hentries] at hpt
        simp only [List.mem_append] at hpt hpt'
        tauto
      rw [(mem_entryFor.mp hpt'').2] at hi
      rcases htokens with ⟨hn, -⟩ | ⟨tok, hopen, hsome, ht⟩
      · exact absurd (hn.symm.trans hi) (by simp)
      · obtain rfl : b.tokens.next = i := Option.some.inj (hsome.symm.trans hi)
        rw [ht]
        refine ⟨Nat.lt_succ_self _, ?_, fun hc => ?_⟩
        · rw [Heap.alloc_self]
          exact hopen
        · exact absurd (h.handshake _ ((hhandshake _).mp hc)) (lt_irrefl _)
  · have hfresh : ∀ i, t = some i → ∀ s, ∀ pt ∈ w s ++ b.entries s, pt.t ≠ some i := by
      intro i hi s pt hpt hpti
      obtain rfl := htokens.eq_next hi
      exact absurd (h.live s pt hpt _ hpti).1 (lt_irrefl _)
    have hcons : TokensDistinct fun s => entryFor this ⟨msg, t⟩ s ++ (w s ++ b.entries s) :=
      h.distinct.cons hfresh
    refine hcons.of_subperm fun s => ?_
    rw [hentries]
    refine (List.Perm.filterMap _ ?_).subperm
    rw [← List.append_assoc]
    exact List.perm_append_comm.append_right _

/-- The token of an entry in hand is on no other entry. -/
theorem held_fresh {this : SessionRef} (pt : PacketAndToken)
    (h : Sound (fun s => w s ++ entryFor this pt s) b) {i : TokenRef} (hi : pt.t = some i) :
    i < b.tokens.next ∧ ∀ s, ∀ pt' ∈ w s ++ b.entries s, pt'.t ≠ some i := by
  have hcons : TokensDistinct fun s => entryFor this pt s ++ (w s ++ b.entries s) := by
    refine h.distinct.of_subperm fun s => (List.Perm.filterMap _ ?_).subperm
    rw [← List.append_assoc]
    exact List.perm_append_comm.append_right _
  refine ⟨?_, hcons.not_mem hi⟩
  refine (h.live this pt ?_ i hi).1
  rw [entryFor, if_pos rfl]
  simp

/-- The token in hand becomes one of the handshake instead of that of an entry. -/
theorem handshake_of_held {this : SessionRef} {msg : PacketRef} {t : Option TokenRef}
    {f : Session → Session} (h : Sound (fun s => w s ++ entryFor this ⟨msg, t⟩ s) b)
    (hentries : (f (b.sessions this)).entries = (b.sessions this).entries)
    (hsends : (f (b.sessions this)).channel.iSendList = (b.sessions this).channel.iSendList)
    (hconnect : (f (b.sessions this)).connectToken = (b.sessions this).connectToken ∨
      (f (b.sessions this)).connectToken = t)
    (hdisconnect : (f (b.sessions this)).disconnectToken = (b.sessions this).disconnectToken ∨
      (f (b.sessions this)).disconnectToken = t) : Sound w (b.setSession this f) := by
  have hfresh := fun i (hi : t = some i) => h.held_fresh ⟨msg, t⟩ hi
  have hall : (b.setSession this f).entries = b.entries := by
    funext s
    by_cases hs : s = this
    · rw [hs, entries, setSession_self, hentries, entries]
    · rw [entries, setSession_of_ne _ _ hs, entries]
  have hhandshake : ∀ i, (b.setSession this f).Handshake i → b.Handshake i ∨ t = some i := by
    rintro i ⟨s, hi⟩
    by_cases hs : s = this
    · rw [hs, setSession_self] at hi
      rcases hi with hi | hi
      · rcases hconnect with hc | hc
        · exact .inl ⟨this, .inl (hc ▸ hi)⟩
        · exact .inr (hc ▸ hi)
      · rcases hdisconnect with hd | hd
        · exact .inl ⟨this, .inr (hd ▸ hi)⟩
        · exact .inr (hd ▸ hi)
    · rw [setSession_of_ne _ _ hs] at hi
      exact .inl ⟨s, hi⟩
  have hdrop : Sound w b := h.drop
  refine ⟨⟨?_, fun s r hr => ?_⟩, hdrop.waiting, fun i hi => ?_, fun s pt hpt i hi => ?_, ?_⟩
  · rw [hall]
    exact hdrop.inRange.entries
  · refine hdrop.inRange.sends s r ?_
    by_cases hs : s = this
    · rw [hs, setSession_self, hsends] at hr
      exact hs ▸ hr
    · rwa [setSession_of_ne _ _ hs] at hr
  · rcases hhandshake i hi with hi | hi
    · exact hdrop.handshake i hi
    · exact (hfresh i hi).1
  · rw [hall] at hpt
    obtain ⟨hlt, hopen, hnot⟩ := hdrop.live s pt hpt i hi
    refine ⟨hlt, hopen, fun hc => ?_⟩
    rcases hhandshake i hc with hc | hc
    · exact hnot hc
    · exact (hfresh i hc).2 s pt hpt hi
  · rw [hall]
    exact hdrop.distinct

end Sound

/-! ## `Publish` -/

namespace Session

variable (cfg : Config)

/-- What `Publish` has done to the state when it comes to its checks. -/
structure Published (this : SessionRef) (msg : PacketRef) (t : Option TokenRef)
    (b b' : Broker σ) : Prop where
  sessions : b'.sessions =
    (b.setSession this advanceMsgId).sessions
  packets : b'.packets =
    b.packets.modify msg (ControlPacket.setMessageID (b.sessions this).nextId)
  tokens : Allocated t b b'
  typed : (b.packets.cells msg).type = PacketType.publish → t.isSome
  trace : b'.trace = b.trace ++ [.publish this t (b'.packets.cells msg)]

theorem number_run (this : SessionRef) (msg : PacketRef) (b : Broker σ) :
    number this msg b = (.ok (),
      { b.setSession this advanceMsgId with
        packets := b.packets.modify msg
          (ControlPacket.setMessageID (b.sessions this).nextId) }) := rfl

/-- The tokens of `newToken` are not complete. -/
theorem newToken_complete {tType : UInt8} {tok : Token} (h : newToken tType = some tok) :
    tok.complete = false := by
  unfold newToken at h
  split at h
  case h_6 => exact absurd h (by simp)
  all_goals
    rw [← Option.some.inj h]

theorem allocToken_run (tType : UInt8) (b : Broker σ) : ∃ t b',
    allocToken tType b = (.ok t, b') ∧ b'.sessions = b.sessions ∧ b'.packets = b.packets ∧
      b'.trace = b.trace ∧ Allocated t b b' ∧ t.isSome = (newToken tType).isSome := by
  unfold allocToken
  cases h : newToken tType with
  | none => exact ⟨none, b, rfl, rfl, rfl, rfl, .inl ⟨rfl, rfl⟩, rfl⟩
  | some tok => exact ⟨_, _, rfl, rfl, rfl, rfl, .inr ⟨tok, newToken_complete h, rfl, rfl⟩, rfl⟩

theorem setMessageID_type (id : UInt16) (p : ControlPacket) :
    (p.setMessageID id).type = p.type := by
  cases p with
  | _ => rfl

/-- `Publish` is its preparation followed by `enqueue`. -/
theorem publish_run (this : SessionRef) (msg : PacketRef) (b : Broker σ) : ∃ t b',
    Published this msg t b b' ∧ publish cfg this msg b = enqueue cfg this ⟨msg, t⟩ b' := by
  obtain ⟨t, b₁, hrun, hs, hp, htrace, htokens, hsome⟩ := allocToken_run
    ((b.packets.modify msg (ControlPacket.setMessageID (b.sessions this).nextId)).cells msg).type
    { b.setSession this advanceMsgId with
      packets := b.packets.modify msg (ControlPacket.setMessageID (b.sessions this).nextId) }
  refine ⟨t, { b₁ with trace := b₁.trace ++ [.publish this t ((b.packets.modify msg
    (ControlPacket.setMessageID (b.sessions this).nextId)).cells msg)] },
    ⟨hs, hp, htokens, fun htype => ?_, ?_⟩, ?_⟩
  · rw [hsome, Heap.modify_self, setMessageID_type, htype]
    rfl
  · show b₁.trace ++ _ = b.trace ++ [.publish this t (b₁.packets.cells msg)]
    rw [htrace, hp]
    rfl
  · rw [publish, bind_run_ok (number_run this msg b), bind_run_ok (packet_run msg _),
      bind_run_ok hrun, bind_run_ok (emit_run _ _)]

theorem sendToSubcriberStart_run (order : SubscriberOrder) (this : SessionRef) {msg : PacketRef}
    {b : Broker σ} {p : PublishPacket} (hp : b.packets.cells msg = .publish p) :
    sendToSubcriberStart order this msg b =
      (.ok (order.toList (b.subscriptionMgr.getSessions p.topicName)),
        { b with
          packets := b.packets.modify msg ControlPacket.clearRetain
          trace := b.trace ++ [.sendToSubcriber this (.publish p)] }) := by
  rw [sendToSubcriberStart, bind_run_ok (packet_run _ _), hp, bind_run_ok (emit_run _ _),
    bind_run_ok (getSessions_run _ _), bind_run_ok (modifyPacket_run _ _ _)]
  rfl

theorem channel_send_returns (this : SessionRef) (msg : PacketRef) :
    Returns (Channel.send this msg : GoM σ (Option GoError)) := by
  refine FaultsIn.bind (.gets _) fun s => .ite (.pure _) ?_
  refine FaultsIn.bind (.modify _) fun _ => FaultsIn.bind (.gets _) fun p => ?_
  exact FaultsIn.bind (.modify _) fun _ => .pure _

theorem insert2Inflight_returns (this : SessionRef) (pt : PacketAndToken) :
    Returns (insert2Inflight cfg this pt : GoM σ (Option GoError)) := by
  have hsend : Returns (Channel.send this pt.p >>= fun _ => pure none :
      GoM σ (Option GoError)) :=
    FaultsIn.bind (channel_send_returns this pt.p) fun _ => .pure _
  refine FaultsIn.bind (.gets _) fun s => .ite (.pure _) ?_
  refine FaultsIn.bind (.gets _) fun p => .ite ?_ hsend
  exact FaultsIn.bind (FaultsIn.bind (.gets _) fun _ => .modify _) fun _ => hsend

/-- `enqueue` only fails to return by blocking, and has not done anything then. -/
theorem enqueue_error {this : SessionRef} {pt : PacketAndToken} {b b' : Broker σ} {e : Fault}
    (h : enqueue cfg this pt b = (.error e, b')) : e = .blocked this pt ∧ b' = b := by
  rw [enqueue, bind_run_ok (session_run this b)] at h
  split at h
  · exact absurd (congrArg Prod.fst h) (by simp)
  · split at h
    · refine ((?_ : Returns _) b e b' h).elim
      exact FaultsIn.bind (insert2Inflight_returns cfg this pt) fun _ => .pure _
    · rw [pushPedding, bind_run_ok (session_run this b)] at h
      split at h
      · exact absurd (congrArg Prod.fst h) (by simp)
      · split at h
        · exact absurd (congrArg Prod.fst h) (by simp [bind_run])
        · simp only [fault_run, Prod.mk.injEq, Except.error.injEq] at h
          exact ⟨h.1.symm, h.2.symm⟩

end Session

theorem Session.Published.footprint_eq {this : SessionRef} {msg : PacketRef} {t : Option TokenRef}
    {b b' : Broker σ} (h : Session.Published this msg t b b') (s : SessionRef) :
    footprint (b'.sessions s) = footprint (b.sessions s) := by
  rw [h.sessions]
  by_cases hs : s = this
  · rw [hs, setSession_self]
    rfl
  · rw [setSession_of_ne _ _ hs]

theorem Session.Published.inRange {this : SessionRef} {msg : PacketRef} {t : Option TokenRef}
    {b b' : Broker σ} (h : Session.Published this msg t b b') (hb : b.InRange) : b'.InRange := by
  have hfields := fun s => of_footprint_eq (h.footprint_eq s)
  have hnext : b'.packets.next = b.packets.next := by
    rw [h.packets]
    rfl
  constructor
  · intro s pt hpt
    rw [hnext]
    rw [Broker.entries, (hfields s).1] at hpt
    exact hb.entries s pt hpt
  · intro s r hr
    rw [hnext]
    rw [(hfields s).2.1] at hr
    exact hb.sends s r hr

/-- The entry that `Publish` makes is sound. -/
theorem Sound.published {w : SessionRef → List PacketAndToken} {this : SessionRef}
    {msg : PacketRef} {t : Option TokenRef} {b b' : Broker σ} (h : Sound w b)
    (hpub : Session.Published this msg t b b') (hmsg : msg < b.packets.next) :
    Sound (fun s => w s ++ entryFor this ⟨msg, t⟩ s) b' := by
  have hbump : Sound w { b with sessions := b'.sessions, packets := b'.packets } := by
    refine h.congr ?_ rfl fun s => ?_
    · rw [hpub.packets]
      rfl
    · exact hpub.footprint_eq s
  refine hbump.enter ?_ rfl rfl hpub.tokens
  show msg < b'.packets.next
  rw [hpub.packets]
  exact hmsg

end MqttBroker

import MqttBroker.Session.Ledger

/-!
# The handlers keep to the ledger

One lemma for each function of the sessions that makes no entries: it is `Quiet`, whatever
it returns and also when it panics or blocks. What remains are `Publish` and `Send`, which
number a packet and make an entry of it.
-/

namespace MqttBroker

open Broker GoM Exec

variable {σ : Type}

/-! ## The operations of `GoM` -/

namespace GoM

theorem modify_quiet {f : Broker σ → Broker σ} (hp : ∀ b, (f b).packets = b.packets)
    (ht : ∀ b, (f b).tokens = b.tokens) (htrace : ∀ b, (f b).trace = b.trace)
    (hs : ∀ b, (f b).sessions = b.sessions) : Respects Quiet (Exec.modify f : GoM σ Unit) :=
  Respects.modify fun b => Quiet.of_footprint (hp b) (ht b) (by rw [publishes, publishes, htrace])
    fun s => by rw [hs b]

theorem modifySession_quiet {this : SessionRef} {f : Session → Session}
    (hf : ∀ s, footprint (f s) = footprint s) :
    Respects Quiet (modifySession this f : GoM σ Unit) := by
  refine Respects.modify fun b => Quiet.of_footprint rfl rfl rfl fun s => ?_
  by_cases hs : s = this
  · rw [hs, setSession_self, hf]
  · rw [setSession_of_ne _ _ hs]

theorem session_quiet (this : SessionRef) : Respects Quiet (session this : GoM σ Session) :=
  Respects.gets _

theorem packet_quiet (msg : PacketRef) : Respects Quiet (packet msg : GoM σ ControlPacket) :=
  Respects.gets _

theorem get_quiet : Respects Quiet (Exec.get : GoM σ (Broker σ)) := Respects.gets id

theorem newPacket_quiet (p : ControlPacket) : Respects Quiet (newPacket p : GoM σ PacketRef) := by
  refine Respects.modifyGet fun b => Quiet.of_packets (Nat.le_succ _) (fun r hr => ?_)
    (fun r hr => ?_) rfl rfl rfl
  · exact congrArg ControlPacket.messageID (Heap.alloc_of_lt p hr)
  · exact congrArg (fun p => (p.kind, p.type)) (Heap.alloc_of_lt p hr)

/-- The packet allocated is there afterwards. -/
theorem newPacket_lt {p : ControlPacket} {b b' : Broker σ} {msg : PacketRef}
    (h : newPacket p b = (.ok msg, b')) : msg < b'.packets.next := by
  obtain ⟨rfl, rfl⟩ : b.packets.next = msg ∧ _ = b' := by
    simpa [newPacket] using h
  exact Nat.lt_succ_self _

theorem modifyPacket_quiet {msg : PacketRef} {f : ControlPacket → ControlPacket}
    (hf : ∀ p, (f p).messageID = p.messageID ∧ (f p).kind = p.kind ∧ (f p).type = p.type) :
    Respects Quiet (modifyPacket msg f : GoM σ Unit) := by
  have hcells : ∀ (b : Broker σ) (r : PacketRef),
      ((b.packets.modify msg f).cells r).messageID = (b.packets.cells r).messageID ∧
        ((b.packets.modify msg f).cells r).kind = (b.packets.cells r).kind ∧
        ((b.packets.modify msg f).cells r).type = (b.packets.cells r).type := by
    intro b r
    by_cases hr : r = msg
    · rw [hr, Heap.modify_self]
      exact hf _
    · rw [Heap.modify_of_ne f b.packets hr]
      exact ⟨rfl, rfl, rfl⟩
  exact Respects.modify fun b => Quiet.of_packets (le_refl _) (fun r _ => (hcells b r).1)
    (fun r _ => Prod.ext (hcells b r).2.1 (hcells b r).2.2) rfl rfl rfl

theorem callStore_quiet {α : Type} (f : σ → α × σ) : Respects Quiet (callStore f : GoM σ α) :=
  Respects.modifyGet fun _ => Quiet.of_footprint rfl rfl rfl fun _ => rfl

theorem modifySubscriptionMgr_quiet (f : TreeSubsMgr SessionRef → TreeSubsMgr SessionRef) :
    Respects Quiet (modifySubscriptionMgr f : GoM σ Unit) :=
  modify_quiet (fun _ => rfl) (fun _ => rfl) (fun _ => rfl) fun _ => rfl

theorem getSessions_quiet (topic : GoString) :
    Respects Quiet (getSessions topic : GoM σ (GoMap SessionRef UInt8)) :=
  Respects.gets _

theorem mgrEvent_quiet (event : SessionMgr → Option SessionRef × SessionMgr) :
    Respects Quiet (mgrEvent event : GoM σ Unit) :=
  modify_quiet (fun _ => rfl) (fun _ => rfl) (fun _ => rfl) fun _ => rfl

theorem spawn_quiet (g : Spawned) : Respects Quiet (spawn g : GoM σ Unit) :=
  modify_quiet (fun _ => rfl) (fun _ => rfl) (fun _ => rfl) fun _ => rfl

theorem emit_quiet {e : Event} (he : ∀ s t msg, e ≠ .publish s t msg) :
    Respects Quiet (emit e : GoM σ Unit) := by
  refine Respects.modify fun b => Quiet.of_footprint rfl rfl ?_ fun _ => rfl
  rw [publishes, publishes, List.filterMap_append]
  cases e with
  | publish s t msg => exact absurd rfl (he s t msg)
  | _ => exact List.append_nil _

theorem panic_quiet {α : Type} (p : Panic) : Respects Quiet (panic p : GoM σ α) :=
  Respects.fault _

/-- Writing a token keeps to the ledger when it completes none, or one that is on no
entry. -/
theorem modifyToken_ledger {t : TokenRef} {f : Token → Token} {b : Broker σ} (hb : b.InRange)
    (hf : (f (b.tokens.cells t)).complete = true → (b.tokens.cells t).complete = true ∨
      b.Handshake t) : Ledger noEntries b (modifyToken t f b).2 where
  inRange := ⟨hb.entries, hb.sends⟩
  packets_next := le_refl _
  ids _ _ := rfl
  kinds _ _ := rfl
  tokens_next := le_refl _
  keys _ := List.Subperm.refl _
  handshake _ := ⟨rfl, rfl⟩
  completed t' h := by
    by_cases ht : t' = t
    · subst ht
      rcases hf (by rw [← Heap.modify_self t' f b.tokens]; exact h) with h' | h'
      · exact .inl h'
      · exact .inr (.inl h')
    · refine .inl ?_
      rw [← Heap.modify_of_ne f b.tokens ht]
      exact h
  publishes := rfl

theorem modifyToken_quiet {t : TokenRef} {f : Token → Token}
    (hf : ∀ tok, (f tok).complete = tok.complete) :
    Respects Quiet (modifyToken t f : GoM σ Unit) :=
  fun b hb => modifyToken_ledger hb fun h => .inl (by rwa [hf] at h)

end GoM

/-! ## The channel -/

namespace Channel

/-- Queueing a packet that exists. -/
theorem send_quiet (this : SessionRef) {msg : PacketRef} {b : Broker σ}
    (hmsg : msg < b.packets.next) : Quiet b (send this msg b).2 := by
  have hpush : Quiet b (b.setSession this (Session.queueSend msg)) := by
    intro hb
    refine .setSession hb (fun _ _ h => absurd h List.not_mem_nil) ?_ (fun r hr => ?_) ?_
    · exact List.Subperm.refl _
    · rcases List.mem_append.mp hr with h | h
      · exact hb.sends this r h
      · rw [List.mem_singleton.mp h]
        exact hmsg
    · exact ⟨rfl, rfl⟩
  rw [send, bind_run_ok (session_run _ _)]
  split
  · exact refl_of Quiet b
  · rw [bind_run_ok (modifySession_run _ _ _)]
    refine trans_of Quiet hpush ?_
    exact Respects.bind (packet_quiet msg) (fun p => Respects.bind
      (emit_quiet fun _ _ _ => by simp) fun _ => Respects.pure _) _

theorem sendNew_quiet (this : SessionRef) (p : ControlPacket) :
    Respects Quiet (sendNew this p : GoM σ (Option GoError)) :=
  Respects.bind_of (newPacket_quiet p) fun _ _ _ h => send_quiet this (newPacket_lt h)

end Channel

/-! ## Sessions -/

namespace Session

variable (cfg : Config)

theorem resetTimeout_quiet (this : SessionRef) :
    Respects Quiet (resetTimeout cfg this : GoM σ Unit) := by
  refine Respects.bind (Respects.gets _) fun now => modifySession_quiet fun s => ?_
  split
  · split
    · rfl
    · rfl
  · rfl

/-- The new entry comes from outside. -/
theorem pushInflight_ledger {this : SessionRef} {pt : PacketAndToken} {b : Broker σ}
    (hb : b.InRange) (hpt : pt.p < b.packets.next) :
    Ledger (entryFor this pt) b (pushInflight cfg this pt b).2 := by
  rw [pushInflight, bind_run_ok (now_run _), modifySession_run]
  dsimp only
  refine .setSession hb (mem_entryFor_lt hpt) ?_ (hb.sends this) ?_
  · rw [entryFor, if_pos rfl, Session.entries, queueInflight, GoList.push, List.map_append,
      List.append_assoc]
    exact List.perm_middle.subperm
  · exact ⟨rfl, rfl⟩

/-- An entry that is in hand is entered, or dropped when the channel is stopped. -/
theorem insert2Inflight_ledger {this : SessionRef} {pt : PacketAndToken} {b : Broker σ}
    (hb : b.InRange) (hpt : pt.p < b.packets.next) :
    Ledger (entryFor this pt) b (insert2Inflight cfg this pt b).2 := by
  have hnone : Ledger (entryFor this pt) b b := .refl_with hb
  have hsend : ∀ b' : Broker σ, Ledger (entryFor this pt) b b' →
      Ledger (entryFor this pt) b
        ((Channel.send this pt.p >>= fun _ => pure none : GoM σ (Option GoError)) b').2 := by
    intro b' h
    rw [bind_pure_snd]
    exact h.trans (Channel.send_quiet this (lt_of_lt_of_le hpt h.packets_next) h.inRange)
  rw [insert2Inflight, bind_run_ok (session_run _ _)]
  split
  · exact hnone
  · rw [bind_run_ok (packet_run _ _)]
    split
    · rw [bind_run_ok (by rfl : pushInflight cfg this pt b = (.ok (), _))]
      exact hsend _ (pushInflight_ledger cfg hb hpt)
    · exact hsend b hnone

theorem popPedding_run (this : SessionRef) (b : Broker σ) :
    popPedding this b =
      (.ok (GoList.pop (b.sessions this).peddingMsgList).1, b.setSession this dropPedding) := rfl

/-- The entry in front is what `dropPedding` takes out of the lists. -/
theorem dropPedding_entries {s : Session} {pt : PacketAndToken} {rest : List PacketAndToken}
    (h : s.peddingMsgList = pt :: rest) : (pt :: s.dropPedding.entries).Perm s.entries := by
  rw [Session.entries, Session.entries, h, dropPedding, h]
  exact List.perm_middle.symm

theorem dropPedding_subperm (s : Session) : s.dropPedding.entries.Subperm s.entries := by
  cases h : s.peddingMsgList with
  | nil =>
    rw [Session.entries, Session.entries, dropPedding, h]
    exact List.Subperm.refl _
  | cons pt rest => exact (List.sublist_cons_self _ _).subperm.trans (dropPedding_entries h).subperm

theorem dropPedding_quiet (this : SessionRef) {b : Broker σ} :
    Quiet b (b.setSession this dropPedding) :=
  fun hb => .setSession hb (fun _ _ h => absurd h List.not_mem_nil) (dropPedding_subperm _)
    (hb.sends this) ⟨rfl, rfl⟩

theorem takePedding_quiet (this : SessionRef) :
    Respects Quiet (takePedding cfg this : GoM σ Unit) := by
  intro b hb
  have hb₁ := (dropPedding_quiet this hb).inRange
  rw [takePedding, bind_run_ok (popPedding_run this b)]
  cases hl : (b.sessions this).peddingMsgList with
  | nil => exact dropPedding_quiet this hb
  | cons pt rest =>
    have hpt : pt.p < b.packets.next := by
      refine hb.entries this pt ((dropPedding_entries hl).subset ?_)
      exact List.mem_cons_self
    show Ledger noEntries b ((insert2Inflight cfg this pt >>= fun _ => pure () : GoM σ Unit)
      (b.setSession this dropPedding)).2
    rw [bind_pure_snd]
    refine (insert2Inflight_ledger cfg hb₁ hpt).of_take rfl rfl rfl (fun s => ?_) fun s => ?_
    · by_cases hs : s = this
      · rw [hs, setSession_self]
        exact ⟨rfl, rfl⟩
      · rw [setSession_of_ne _ _ hs]
        exact ⟨rfl, rfl⟩
    · by_cases hs : s = this
      · rw [hs, entryFor, if_pos rfl, Broker.entries, setSession_self]
        exact dropPedding_entries hl
      · rw [entryFor, if_neg hs, Broker.entries, setSession_of_ne _ _ hs]
        exact List.Perm.refl _

theorem resend_quiet (this : SessionRef) (tmMsg : List InflightingMsg) {b : Broker σ}
    (h : ∀ imsg ∈ tmMsg, imsg.pt.p < b.packets.next) : Quiet b (resend this tmMsg b).2 := by
  induction tmMsg generalizing b with
  | nil => exact refl_of Quiet b
  | cons imsg tmMsg ih =>
    have hsend := Channel.send_quiet this (h imsg List.mem_cons_self)
    rw [resend, bind_run]
    intro hb
    rcases hr : Channel.send this imsg.pt.p b with ⟨e | a, b'⟩
    · rw [hr] at hsend
      exact hsend hb
    · rw [hr] at hsend
      refine (hsend hb).trans (ih (fun imsg' h' => ?_) (hsend hb).inRange)
      exact lt_of_lt_of_le (h imsg' (List.mem_cons_of_mem _ h')) (hsend hb).packets_next

/-- New deadlines do not change the entries. -/
theorem renew_quiet (this : SessionRef) (now : ℤ) (b : Broker σ) :
    Quiet b (b.setSession this
      (setInflight ((b.sessions this).inflightingList.map (renew cfg now)))) := by
  intro hb
  refine .setSession hb (fun _ _ h => absurd h List.not_mem_nil) ?_ (hb.sends this) ⟨rfl, rfl⟩
  have hmap : ((b.sessions this).inflightingList.map (renew cfg now)).map InflightingMsg.pt =
      (b.sessions this).inflightingList.map InflightingMsg.pt := by
    rw [List.map_map]
    refine List.map_congr_left fun imsg _ => ?_
    show (renew cfg now imsg).pt = imsg.pt
    unfold renew
    split
    · rfl
    · rfl
  show (((b.sessions this).inflightingList.map (renew cfg now)).map InflightingMsg.pt ++
    _).Subperm _
  rw [hmap]
  exact List.Subperm.refl _

theorem checkInflightList_quiet (this : SessionRef) :
    Respects Quiet (checkInflightList cfg this : GoM σ Unit) := by
  have hlast : Respects Quiet (do
      let s ← session this
      if s.inflightingList.length < cfg.maxSizeOfInflight ∧
          s.channel.iSendList.length < cfg.maxSizeOfPublishMsg then
        takePedding cfg this : GoM σ Unit) :=
    Respects.bind (session_quiet this) fun _ =>
      Respects.ite (takePedding_quiet cfg this) (Respects.pure ())
  intro b hb
  rw [checkInflightList, bind_run_ok (now_run b), bind_run_ok (session_run this b),
    bind_run_ok (modifySession_run _ _ _)]
  refine trans_of Quiet (renew_quiet cfg this b.now b) ?_ hb
  refine Respects.bind_at (resend_quiet this _ fun imsg h => ?_) fun _ => hlast
  exact hb.entries this imsg.pt (List.mem_append_left _
    (List.mem_map_of_mem (List.mem_of_mem_filter h)))

/-- The entry that `Publish` makes is entered somewhere, or dropped. -/
theorem pushPedding_ledger (this : SessionRef) {pt : PacketAndToken} {b : Broker σ}
    (hb : b.InRange) (hpt : pt.p < b.packets.next) :
    Ledger (entryFor this pt) b (pushPedding cfg this pt b).2 := by
  rw [pushPedding, bind_run_ok (session_run this b)]
  split
  · exact .refl_with hb
  · split
    · rw [bind_run_ok (modifySession_run _ _ _)]
      refine .setSession hb (mem_entryFor_lt hpt) ?_ (hb.sends this) ⟨rfl, rfl⟩
      rw [entryFor, if_pos rfl, Session.entries, queuePedding, GoList.push, ← List.append_assoc]
      exact List.perm_append_comm.subperm
    · exact .refl_with hb

theorem enqueue_ledger (this : SessionRef) {pt : PacketAndToken} {b : Broker σ}
    (hb : b.InRange) (hpt : pt.p < b.packets.next) :
    Ledger (entryFor this pt) b (enqueue cfg this pt b).2 := by
  rw [enqueue, bind_run_ok (session_run this b)]
  split
  · exact .refl_with hb
  · split
    · rw [bind_pure_snd]
      exact insert2Inflight_ledger cfg hb hpt
    · exact pushPedding_ledger cfg this hb hpt

/-! ## Ends of life -/

theorem report_quiet {this : SessionRef}
    {event : Session → SessionMgr → Option SessionRef × SessionMgr} {after : GoM σ Unit}
    (hafter : Respects Quiet after) : Respects Quiet (report this event after) := by
  refine Respects.bind (session_quiet this) fun s => Respects.ite (Respects.pure ()) ?_
  refine Respects.bind (modifySubscriptionMgr_quiet _) fun _ => ?_
  refine Respects.bind (modifySession_quiet fun _ => rfl) fun _ => ?_
  exact Respects.bind (mgrEvent_quiet _) fun _ => hafter

theorem mgrOnDisconnected_quiet (this : SessionRef) :
    Respects Quiet (mgrOnDisconnected this : GoM σ Unit) :=
  report_quiet (Respects.pure ())

theorem mgrOnPingTimeout_quiet (this : SessionRef) :
    Respects Quiet (mgrOnPingTimeout this : GoM σ Unit) :=
  report_quiet (spawn_quiet _)

theorem mgrOnConnectTimeout_quiet (this : SessionRef) :
    Respects Quiet (mgrOnConnectTimeout this : GoM σ Unit) :=
  report_quiet (Respects.pure ())

theorem onChannelError_quiet (this : SessionRef) :
    Respects Quiet (onChannelError this : GoM σ Unit) :=
  Respects.bind (session_quiet this) fun _ =>
    Respects.ite (mgrOnDisconnected_quiet this) (mgrOnConnectTimeout_quiet this)

theorem ping_quiet (this : SessionRef) : Respects Quiet (ping this : GoM σ Unit) :=
  Respects.bind (session_quiet this) fun _ =>
    Respects.ite (Respects.bind (Channel.sendNew_quiet this _) fun _ => Respects.pure ())
      (Respects.pure ())

theorem onTimeout_quiet (this : SessionRef) : Respects Quiet (onTimeout this : GoM σ Unit) :=
  Respects.bind (session_quiet this) fun _ =>
    Respects.ite
      (Respects.ite (mgrOnPingTimeout_quiet this) (mgrOnConnectTimeout_quiet this))
      (ping_quiet this)

theorem onTick_quiet (this : SessionRef) : Respects Quiet (onTick cfg this : GoM σ Unit) := by
  have hlast : ∀ s : Session, Respects Quiet (do
      checkInflightList cfg this
      if s.isServer then
        Exec.modify fun b => { b with sessionInfoList := GoList.push this b.sessionInfoList }
          : GoM σ Unit) := by
    intro s
    refine Respects.bind (checkInflightList_quiet cfg this) fun _ => ?_
    refine Respects.ite ?_ (Respects.pure ())
    exact modify_quiet (fun _ => rfl) (fun _ => rfl) (fun _ => rfl) fun _ => rfl
  refine Respects.bind (session_quiet this) fun s => Respects.ite (Respects.pure ()) ?_
  refine Respects.bind (Respects.gets _) fun now => ?_
  exact Respects.ite (Respects.bind (onTimeout_quiet this) fun _ => hlast s) (hlast s)

/-- A handshake token may be completed at any time: it is on no entry. -/
theorem flowComplete_ledger {t : TokenRef} {b : Broker σ} (hb : b.InRange) (ht : b.Handshake t) :
    Ledger noEntries b (flowComplete t b).2 := by
  rw [flowComplete, bind_run_ok (token_run t b)]
  split
  · exact .refl hb
  · exact modifyToken_ledger hb fun _ => .inr ht

/-- The tokens that `Close` completes belong to the handshake of the session. -/
theorem completeHandshake_quiet {s : Session} {b : Broker σ}
    (hc : ∀ t, s.connectToken = some t → b.Handshake t)
    (hd : ∀ t, s.disconnectToken = some t → b.Handshake t) :
    Quiet b (completeHandshake s b).2 := by
  intro hb
  unfold completeHandshake
  split
  · exact .refl hb
  · split
    · cases ht : s.disconnectToken with
      | none => exact .refl hb
      | some t => exact flowComplete_ledger hb (hd t ht)
    · split
      · cases ht : s.connectToken with
        | none => exact .refl hb
        | some t =>
          have herr : Ledger noEntries b (modifyToken t
              (fun tok => { tok with err := some (.new "timeout") }) b).2 :=
            modifyToken_ledger hb fun h => .inl h
          exact herr.trans
            (flowComplete_ledger herr.inRange ((herr.handshake_iff t).mpr (hc t ht)))
      · exact .refl hb

theorem close_quiet (this : SessionRef) : Respects Quiet (close this : GoM σ Unit) := by
  have hclosed : Respects Quiet (modifySession this fun s => { s with clostep := .closed } :
      GoM σ Unit) := modifySession_quiet fun _ => rfl
  have hstoped : Respects Quiet (modifySession this fun s =>
      { s with
        peddingChan := { s.peddingChan with closed := true }
        channel := { s.channel with isStoped := true } } : GoM σ Unit) :=
    modifySession_quiet fun _ => rfl
  intro b hb
  rw [close, bind_run_ok (session_run this b)]
  by_cases hc : (b.sessions this).clostep = .closed
  · rw [if_pos hc]
    exact .refl hb
  rw [if_neg hc, bind_run_ok (modifySession_run _ _ _)]
  have h₁ := hclosed b hb
  refine h₁.trans ?_
  split
  · exact panic_quiet _ _ h₁.inRange
  · rw [bind_run_ok (modifySession_run _ _ _)]
    have h₂ := hstoped _ h₁.inRange
    have hkept : ∀ t, b.Handshake t → _ := fun t ht =>
      (h₂.handshake_iff t).mpr ((h₁.handshake_iff t).mpr ht)
    exact h₂.trans (completeHandshake_quiet (fun t ht => hkept t ⟨this, .inl ht⟩)
      (fun t ht => hkept t ⟨this, .inr ht⟩) h₂.inRange)

/-! ## Acknowledgements -/

/-- The entries whose packet has the given id. -/
def hasId (b : Broker σ) (msgId : UInt16) (imsg : InflightingMsg) : Bool := b.idOf imsg.pt.p = msgId

/-- The broker without the first in-flight entry of a session that has the given id. -/
def withoutInflight (this : SessionRef) (msgId : UInt16) (b : Broker σ) : Broker σ :=
  b.setSession this (setInflight ((b.sessions this).inflightingList.eraseP (hasId b msgId)))

/-- `removeInflightMsg` takes the first entry with the id out of the list and returns it. -/
theorem removeInflightMsg_run (this : SessionRef) (msgId : UInt16) (b : Broker σ) :
    removeInflightMsg this msgId b =
      (.ok ((b.sessions this).inflightingList.find? (hasId b msgId)),
        withoutInflight this msgId b) := by
  have hremove : GoList.remove
      (fun imsg (_ : Option InflightingMsg) =>
        if (b.packets.cells imsg.pt.p).messageID = msgId then ((true, false), some imsg)
        else ((false, true), none))
      (b.sessions this).inflightingList none =
      ((b.sessions this).inflightingList.eraseP (hasId b msgId),
        (b.sessions this).inflightingList.find? (hasId b msgId)) := by
    refine GoList.remove_eq_eraseP (fun imsg c h => ?_) (fun imsg c h => ?_) _
    · exact if_pos (of_decide_eq_true h)
    · exact if_neg (of_decide_eq_false h)
  unfold removeInflightMsg
  rw [modifyGet_run, hremove, withoutInflight]

theorem withoutInflight_quiet (this : SessionRef) (msgId : UInt16) (b : Broker σ) :
    Quiet b (withoutInflight this msgId b) := by
  intro hb
  refine .setSession hb (fun _ _ h => absurd h List.not_mem_nil) ?_ (hb.sends this) ⟨rfl, rfl⟩
  exact (((List.eraseP_sublist ..).map _).append_right _).subperm

/-- The entry that is removed and the entries that are left are those before. -/
theorem withoutInflight_entries {this : SessionRef} {msgId : UInt16} {b : Broker σ}
    {imsg : InflightingMsg}
    (h : (b.sessions this).inflightingList.find? (hasId b msgId) = some imsg) (s : SessionRef) :
    (entryFor this imsg.pt s ++ (withoutInflight this msgId b).entries s).Perm (b.entries s) := by
  by_cases hs : s = this
  · rw [hs, entryFor, if_pos rfl, withoutInflight, Broker.entries, setSession_self]
    exact ((GoList.perm_of_find? h).map InflightingMsg.pt).append_right _
  · rw [entryFor, if_neg hs, withoutInflight, Broker.entries, setSession_of_ne _ _ hs]
    exact List.Perm.refl _

theorem subackResults_quiet (msg : ControlPacket) (t : TokenRef) :
    Respects Quiet (subackResults msg t : GoM σ Unit) := by
  refine Respects.bind (Respects.gets _) fun tok => ?_
  split
  · split
    · exact panic_quiet _
    · exact modifyToken_quiet fun _ => rfl
  · exact panic_quiet _

/-- Completing the token of an entry that a quiet run has taken out of the lists. -/
theorem flowComplete_gone {b b' : Broker σ} {t : TokenRef} (h : Ledger noEntries b b')
    (hheld : ∃ s, ∃ pt ∈ b.entries s, pt.t = some t)
    (hgone : TokensDistinct b.entries → ∀ s, ∀ pt ∈ b'.entries s, pt.t ≠ some t) :
    Ledger noEntries b (flowComplete t b').2 := by
  rw [flowComplete, bind_run_ok (token_run t b')]
  split
  · exact h
  · exact h.complete hheld hgone _

theorem finishFlow_quiet (this : SessionRef) (msg : ControlPacket) :
    Respects Quiet (finishFlow this msg : GoM σ Unit) := by
  intro b hb
  have h₁ := withoutInflight_quiet this msg.messageID b hb
  rw [finishFlow, bind_run_ok (removeInflightMsg_run this msg.messageID b)]
  cases hfind : (b.sessions this).inflightingList.find? (hasId b msg.messageID) with
  | none => exact h₁
  | some imsg =>
    have htake := withoutInflight_entries hfind
    cases ht : imsg.pt.t with
    | none =>
      simp only [ht]
      exact h₁
    | some t =>
      simp only [ht]
      have hheld : ∃ s, ∃ pt ∈ b.entries s, pt.t = some t := by
        refine ⟨this, imsg.pt, (htake this).subset ?_, ht⟩
        rw [entryFor, if_pos rfl]
        exact List.mem_cons_self
      -- the token was on the removed entry, so it is on none of those that are left
      have hgone : ∀ b₂, Ledger noEntries (withoutInflight this msg.messageID b) b₂ →
          TokensDistinct b.entries → ∀ s, ∀ pt ∈ b₂.entries s, pt.t ≠ some t := by
        intro b₂ h₂ hd s pt hpt hptt
        have hd' := hd.of_subperm fun s => ((htake s).filterMap PacketAndToken.t).subperm
        obtain ⟨pt₀, hpt₀, ht₀, -⟩ := h₂.token_mem hpt
        exact hd'.not_mem ht s pt₀ hpt₀ (ht₀.trans hptt)
      split
      · have hsub := subackResults_quiet msg t _ h₁.inRange
        rw [bind_run]
        rcases hr : subackResults msg t (withoutInflight this msg.messageID b) with ⟨e | u, b₂⟩
        · rw [hr] at hsub
          exact h₁.trans hsub
        · rw [hr] at hsub
          exact flowComplete_gone (h₁.trans hsub) hheld (hgone b₂ hsub)
      · exact flowComplete_gone h₁ hheld (hgone _ (.refl h₁.inRange))

theorem onInflightDone_quiet (this : SessionRef) (msg : ControlPacket) :
    Respects Quiet (onInflightDone cfg this msg : GoM σ Unit) := by
  have hlast : Respects Quiet (do
      let s ← session this
      if s.inflightingList.length < cfg.maxSizeOfInflight then
        takePedding cfg this : GoM σ Unit) :=
    Respects.bind (session_quiet this) fun _ =>
      Respects.ite (takePedding_quiet cfg this) (Respects.pure ())
  exact Respects.ite (Respects.bind (finishFlow_quiet this msg) fun _ => hlast) hlast

theorem onAck_quiet (this : SessionRef) (msg : ControlPacket) :
    Respects Quiet (onAck cfg this msg : GoM σ Handled) :=
  Respects.bind (onInflightDone_quiet cfg this msg) fun _ => Respects.pure _

/-- What `updateInflightMsg` does to an entry. -/
def relabel (b : Broker σ) (msg : PacketRef) (imsg : InflightingMsg) : InflightingMsg :=
  if b.idOf imsg.pt.p = b.idOf msg then { imsg with pt := { imsg.pt with p := msg } } else imsg

/-- `updateInflightMsg` relabels the entries where they are and returns the last one. -/
theorem updateInflightMsg_run (this : SessionRef) (msg : PacketRef) (b : Broker σ) :
    updateInflightMsg this msg b =
      (.ok ((b.sessions this).inflightingList.map (relabel b msg)).getLast?,
        b.setSession this
          (setInflight ((b.sessions this).inflightingList.map (relabel b msg)))) := by
  have heach : GoList.each
      (fun imsg (_ : Option InflightingMsg) =>
        if (b.packets.cells imsg.pt.p).messageID = (b.packets.cells msg).messageID then
          (false, { imsg with pt := { imsg.pt with p := msg } },
            some { imsg with pt := { imsg.pt with p := msg } })
        else (false, imsg, some imsg))
      (b.sessions this).inflightingList none =
      ((b.sessions this).inflightingList.map (relabel b msg),
        ((b.sessions this).inflightingList.map (relabel b msg)).getLast?) := by
    rw [GoList.each_eq_map (f := relabel b msg), Option.or_none]
    intro imsg c
    unfold relabel idOf
    split
    · rfl
    · rfl
  unfold updateInflightMsg
  rw [modifyGet_run, heach]

theorem relabel_key (b : Broker σ) (msg : PacketRef) (imsg : InflightingMsg) :
    b.key (relabel b msg imsg).pt = b.key imsg.pt := by
  unfold relabel
  split
  · rename_i h
    exact Prod.ext rfl h.symm
  · rfl

/-- An entry keeps its token and its id when its packet is replaced. -/
theorem updateInflightMsg_quiet (this : SessionRef) {msg : PacketRef} {b : Broker σ}
    (hmsg : msg < b.packets.next) : Quiet b (updateInflightMsg this msg b).2 := by
  intro hb
  rw [updateInflightMsg_run]
  have hkeys : (((b.sessions this).inflightingList.map (relabel b msg)).map
      InflightingMsg.pt).map b.key =
        ((b.sessions this).inflightingList.map InflightingMsg.pt).map b.key := by
    rw [List.map_map, List.map_map, List.map_map]
    exact List.map_congr_left fun imsg _ => relabel_key b msg imsg
  refine .setSession_keys hb (fun pt hpt => ?_) ?_ (hb.sends this) ⟨rfl, rfl⟩
  · rcases List.mem_append.mp hpt with h | h
    · obtain ⟨imsg', himsg', rfl⟩ := List.mem_map.mp h
      obtain ⟨imsg, himsg, rfl⟩ := List.mem_map.mp himsg'
      unfold relabel
      split
      · exact hmsg
      · exact hb.entries this imsg.pt (List.mem_append_left _ (List.mem_map_of_mem himsg))
    · exact hb.entries this pt (List.mem_append_right _ h)
  · rw [Session.entries, List.map_append]
    show (List.map b.key (List.map InflightingMsg.pt (List.map (relabel b msg) _)) ++ _).Subperm _
    rw [hkeys, ← List.map_append]
    exact List.Subperm.refl _

theorem onPubrec_quiet (this : SessionRef) (msg : IdPacket) :
    Respects Quiet (onPubrec this msg : GoM σ Handled) := by
  refine Respects.bind_of (newPacket_quiet _) fun relmsg b b' hnew => ?_
  have hlt := newPacket_lt hnew
  have hsend := Channel.send_quiet this hlt
  rw [bind_run]
  intro hb
  rcases hr : Channel.send this relmsg b' with ⟨e | a, b₂⟩
  · rw [hr] at hsend
    exact hsend hb
  · rw [hr] at hsend
    have hupdate := updateInflightMsg_quiet this
      (lt_of_lt_of_le hlt (hsend hb).packets_next)
    refine (hsend hb).trans ?_
    rw [bind_pure_snd]
    exact hupdate (hsend hb).inRange

/-! ## The other handlers -/

theorem onConnect_quiet (this : SessionRef) (msg : ConnectPacket) :
    Respects Quiet (onConnect cfg this msg : GoM σ Handled) := by
  refine Respects.bind (session_quiet this) fun s => Respects.ite (Respects.pure _) ?_
  refine Respects.ite (Respects.pure _) ?_
  refine Respects.bind (modifySession_quiet fun _ => rfl) fun _ => ?_
  refine Respects.bind (mgrEvent_quiet _) fun _ => Respects.bind (mgrEvent_quiet _) fun _ => ?_
  refine Respects.bind (Channel.sendNew_quiet this _) fun err => ?_
  refine Respects.bind (modifySession_quiet fun _ => rfl) fun _ => ?_
  refine Respects.bind (modifySession_quiet fun s => ?_) fun _ => ?_
  · unfold setWill
    split
    · rfl
    · rfl
  · refine Respects.bind (modifySession_quiet fun _ => rfl) fun _ => ?_
    exact Respects.bind (resetTimeout_quiet cfg this) fun _ => Respects.pure _

theorem onConnack_quiet (this : SessionRef) (msg : ConnackPacket) :
    Respects Quiet (onConnack this msg : GoM σ Handled) := by
  have hrest : Respects Quiet (finishConnack this msg : GoM σ Handled) := by
    intro b hb
    have hmgr := mgrEvent_quiet (SessionMgr.connected (b.sessions this).channel.conn
      (b.sessions this).clientId this) b hb
    rw [finishConnack, bind_run_ok (session_run this b), bind_run_ok (mgrEvent_run _ _)]
    cases ht : (b.sessions this).connectToken with
    | none => exact hmgr
    | some t =>
      have hhandshake : ∀ b' : Broker σ, Ledger noEntries b b' → b'.Handshake t :=
        fun b' h => (h.handshake_iff t).mpr ⟨this, .inl ht⟩
      have hflow : ∀ b' : Broker σ, Ledger noEntries b b' → Ledger noEntries b
          ((flowComplete t >>= fun _ => pure {} : GoM σ Handled) b').2 := by
        intro b' h
        rw [bind_pure_snd]
        exact h.trans (flowComplete_ledger h.inRange (hhandshake b' h))
      dsimp only
      split
      · rw [bind_run_ok (modifyToken_run _ _ _)]
        exact hflow _ (hmgr.trans (modifyToken_ledger hmgr.inRange fun h => .inl h))
      · exact hflow _ hmgr
  rw [onConnack_eq]
  exact Respects.ite (Respects.bind (modifySession_quiet fun _ => rfl) fun _ => hrest)
    (Respects.bind (modifySession_quiet fun _ => rfl) fun _ => hrest)

/-- `onPublish` calls the store and queues an acknowledgement. -/
theorem onPublish_respects {R : Broker σ → Broker σ → Prop} [Std.Refl R]
    [IsTrans (Broker σ) R] {S : StoreMgr σ} {this : SessionRef}
    (hstore : ∀ {α : Type} (f : σ → α × σ), Respects R (callStore f : GoM σ α))
    (hsend : ∀ p, Respects R (Channel.sendNew this p : GoM σ (Option GoError)))
    (msg : PacketRef) (p : PublishPacket) : Respects R (onPublish S this msg p) := by
  have hretain : ∀ smsg, Respects R (saveRetained S smsg p) := fun smsg => by
    refine Respects.ite (Respects.bind (hstore _) fun err => ?_) (Respects.pure _)
    cases err with
    | none => exact Respects.pure _
    | some _ => exact Respects.pure _
  have hclear : Respects R (clearRetained S p) :=
    Respects.ite (Respects.bind (hstore _) fun err =>
      Respects.ite (Respects.pure _) (Respects.pure _)) (Respects.pure _)
  have hqos0 : Respects R (onPublishQos0 S msg p) := by
    refine Respects.ite (Respects.bind (hstore _) fun _ => ?_) (Respects.pure _)
    exact Respects.bind (hstore _) fun _ => Respects.pure _
  have hqos1 : Respects R (onPublishQos1 S this msg p) := by
    refine Respects.bind (hsend _) fun _ => Respects.bind (Respects.gets _) fun s => ?_
    refine Respects.bind (hretain _) fun err => ?_
    cases err with
    | none => exact Respects.pure _
    | some _ => exact Respects.pure _
  have hqos2 : Respects R (onPublishQos2 S this p) := by
    refine Respects.bind (hsend _) fun _ => Respects.bind (Respects.gets _) fun s => ?_
    refine Respects.bind (hstore _) fun r => ?_
    cases r with
    | ok _ => exact Respects.pure _
    | error err =>
      refine Respects.ite (Respects.bind (hstore _) fun err => ?_) (Respects.pure _)
      cases err with
      | some _ => exact Respects.pure _
      | none => exact Respects.bind (hretain _) fun _ => Respects.pure _
  refine Respects.bind hclear fun err => ?_
  split
  · exact Respects.pure _
  · split
    · exact hqos0
    · exact hqos1
    · exact hqos2
    · exact Respects.pure _

variable (S : StoreMgr σ)

theorem onPublish_quiet (this : SessionRef) (msg : PacketRef) (p : PublishPacket) :
    Respects Quiet (onPublish S this msg p) :=
  onPublish_respects callStore_quiet (Channel.sendNew_quiet this) msg p

theorem onPubrel_quiet (this : SessionRef) (msg : IdPacket) :
    Respects Quiet (onPubrel S this msg) := by
  refine Respects.bind (Channel.sendNew_quiet this _) fun _ => ?_
  refine Respects.bind (session_quiet this) fun s => ?_
  refine Respects.bind (callStore_quiet _) fun r => ?_
  split
  · exact Respects.pure _
  · refine Respects.bind (callStore_quiet _) fun _ => ?_
    exact Respects.bind (newPacket_quiet _) fun _ => Respects.pure _

theorem onSubscribe_quiet (this : SessionRef) (msg : SubscribePacket) :
    Respects Quiet (onSubscribe this msg : GoM σ Handled) := by
  refine Respects.bind get_quiet fun b => ?_
  split
  · exact panic_quiet _
  · refine Respects.bind (modifySubscriptionMgr_quiet _) fun _ => ?_
    refine Respects.bind (spawn_quiet _) fun _ => ?_
    exact Respects.bind (Channel.sendNew_quiet this _) fun _ => Respects.pure _

theorem onUnsubscribe_quiet (this : SessionRef) (msg : UnsubscribePacket) :
    Respects Quiet (onUnsubscribe this msg : GoM σ Handled) :=
  Respects.bind (modifySubscriptionMgr_quiet _) fun _ =>
    Respects.bind (Channel.sendNew_quiet this _) fun _ => Respects.pure _

theorem onPingreq_quiet (this : SessionRef) : Respects Quiet (onPingreq this : GoM σ Handled) :=
  Respects.bind (Channel.sendNew_quiet this _) fun _ => Respects.pure _

theorem onDisconnect_quiet (this : SessionRef) :
    Respects Quiet (onDisconnect this : GoM σ Handled) :=
  Respects.bind (mgrOnDisconnected_quiet this) fun _ => Respects.pure _

/-- Every handler keeps to the ledger. -/
theorem procFrontRemoteMsg_quiet (this : SessionRef) (msg : PacketRef) (p : ControlPacket) :
    Respects Quiet (procFrontRemoteMsg cfg S this msg p) := by
  cases p with
  | connect m => exact onConnect_quiet cfg this m
  | connack m => exact onConnack_quiet this m
  | publish m => exact onPublish_quiet S this msg m
  | puback m => exact onAck_quiet cfg this _
  | pubrec m => exact onPubrec_quiet this m
  | pubrel m => exact onPubrel_quiet S this m
  | pubcomp m => exact onAck_quiet cfg this _
  | subscribe m => exact onSubscribe_quiet this m
  | suback m => exact onAck_quiet cfg this _
  | unsubscribe m => exact onUnsubscribe_quiet this m
  | unsuback m => exact onAck_quiet cfg this _
  | pingreq h => exact onPingreq_quiet this
  | pingresp h => exact Respects.pure _
  | disconnect h => exact onDisconnect_quiet this

/-! ## The loops of a channel -/

theorem onChannelReaded_quiet (this : SessionRef) :
    Respects Quiet (onChannelReaded cfg this : GoM σ Unit) :=
  Respects.bind (session_quiet this) fun _ =>
    Respects.ite (resetTimeout_quiet cfg this) (Respects.pure ())

theorem recvError_quiet (this : SessionRef) : Respects Quiet (recvError this : GoM σ Unit) :=
  Respects.bind (session_quiet this) fun _ =>
    Respects.ite (Respects.bind (spawn_quiet _) fun _ => onChannelError_quiet this)
      (onChannelError_quiet this)

theorem onChannelWrited_quiet (this : SessionRef) (msg : PacketRef) :
    Respects Quiet (onChannelWrited cfg this msg : GoM σ Unit) := by
  refine Respects.bind (session_quiet this) fun s => Respects.ite ?_ (Respects.pure ())
  refine Respects.bind (packet_quiet msg) fun p => ?_
  exact Respects.ite
    (Respects.bind (onInflightDone_quiet cfg this p) fun _ => resetTimeout_quiet cfg this)
    (resetTimeout_quiet cfg this)

/-- Taking a packet from the send list. -/
theorem popSend_quiet {this : SessionRef} {msg : PacketRef} {rest : List PacketRef}
    {b : Broker σ} (h : (b.sessions this).channel.iSendList = msg :: rest) :
    Quiet b (b.setSession this fun s =>
      { s with channel := { s.channel with iSendList := rest } }) := by
  intro hb
  refine .setSession hb (fun _ _ h => absurd h List.not_mem_nil) ?_ (fun r hr => ?_) ⟨rfl, rfl⟩
  · exact List.Subperm.refl _
  · refine hb.sends this r ?_
    rw [h]
    exact List.mem_cons_of_mem _ hr

theorem sendRound_quiet (this : SessionRef) (written : Bool) :
    Respects Quiet (sendRound cfg this written : GoM σ Unit) := by
  have hstop : Respects Quiet (modifySession this fun s =>
      { s with channel := { s.channel with isStoped := true } } : GoM σ Unit) :=
    modifySession_quiet fun _ => rfl
  intro b
  rw [sendRound, bind_run_ok (session_run this b)]
  cases hl : (b.sessions this).channel.iSendList with
  | nil => exact refl_of Quiet b
  | cons msg rest =>
    show Quiet b ((modifySession this (fun s =>
      { s with channel := { s.channel with iSendList := rest } }) >>= _ : GoM σ Unit) b).2
    rw [bind_run_ok (modifySession_run _ _ _)]
    refine trans_of Quiet (popSend_quiet hl) ?_
    split
    · exact onChannelWrited_quiet cfg this msg _
    · split
      · exact Respects.bind (spawn_quiet _) (fun _ => hstop) _
      · exact hstop _

end Session

end MqttBroker

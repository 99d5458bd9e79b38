import MqttBroker.Session.Sound

/-!
# The rounds of the publishing loops

A round of a loop either makes no entry or ends in one call of `Publish`. `Work.call` says
which from the state before it, and the two lemmas about it are the only place where the
rounds are taken apart.
-/

namespace MqttBroker

open Broker GoM Exec

variable {σ : Type} (cfg : Config) (S : StoreMgr σ)

/-! ## References that goroutines hold -/

/-- A PUBLISH that exists. -/
def Broker.ValidMsg (b : Broker σ) (r : PacketRef) : Prop :=
  r < b.packets.next ∧ b.kindOf r = (PacketType.publish, PacketType.publish)

theorem Broker.ValidMsg.publish {b : Broker σ} {r : PacketRef} (h : b.ValidMsg r) :
    ∃ p, b.packets.cells r = .publish p := by
  have hkind : (b.packets.cells r).kind = PacketType.publish := congrArg Prod.fst h.2
  cases hp : b.packets.cells r with
  | publish p => exact ⟨p, rfl⟩
  | _ =>
    rw [hp] at hkind
    rw [ControlPacket.kind] at hkind
    exact absurd hkind (by decide)

/-- Packets stay, and stay packets of their type. -/
structure Kept (b b' : Broker σ) : Prop where
  next : b.packets.next ≤ b'.packets.next
  kinds : ∀ r < b.packets.next, b'.kindOf r = b.kindOf r

theorem Kept.validMsg {b b' : Broker σ} (h : Kept b b') {r : PacketRef} (hr : b.ValidMsg r) :
    b'.ValidMsg r :=
  ⟨lt_of_lt_of_le hr.1 h.next, (h.kinds r hr.1).trans hr.2⟩

theorem Kept.trans {b b' b'' : Broker σ} (h : Kept b b') (h' : Kept b' b'') : Kept b b'' :=
  ⟨le_trans h.next h'.next, fun r hr =>
    (h'.kinds r (lt_of_lt_of_le hr h.next)).trans (h.kinds r hr)⟩

theorem Ledger.kept {new : SessionRef → List PacketAndToken} {b b' : Broker σ}
    (h : Ledger new b b') : Kept b b' :=
  ⟨h.packets_next, h.kinds⟩

/-! ## The ends and the starts of the loops -/

namespace Session

theorem retainWill_quiet (this : SessionRef) (msg : PacketRef) :
    Respects Quiet (retainWill S this msg) := by
  refine Respects.bind (session_quiet this) fun s => Respects.bind (packet_quiet msg) fun p => ?_
  split
  · exact callStore_quiet _
  · exact Respects.pure _

theorem retainWill_returns (this : SessionRef) (msg : PacketRef) :
    Returns (retainWill S this msg) := by
  refine FaultsIn.bind (.gets _) fun s => FaultsIn.bind (.gets _) fun p => ?_
  split
  · exact .modifyGet _
  · exact .pure _

theorem willEnd_quiet (this : SessionRef) (reason : DisconnectReason) (msg : Option PacketRef) :
    Respects Quiet (willEnd S this reason msg) := by
  have hlast : ∀ err : Option GoError, Respects Quiet (do
      if err.isNone then
        modifySession this fun s => { s with hadDisconnectException := reason } : GoM σ Unit) :=
    fun err => Respects.ite (modifySession_quiet fun _ => rfl) (Respects.pure ())
  cases msg with
  | none => exact Respects.bind (Respects.pure none) hlast
  | some msg => exact Respects.bind (retainWill_quiet S this msg) hlast

theorem willEnd_returns (this : SessionRef) (reason : DisconnectReason) (msg : Option PacketRef) :
    Returns (willEnd S this reason msg) := by
  have hlast : ∀ err : Option GoError, Returns (do
      if err.isNone then
        modifySession this fun s => { s with hadDisconnectException := reason } : GoM σ Unit) :=
    fun err => FaultsIn.ite (.modify _) (.pure ())
  cases msg with
  | none => exact FaultsIn.bind (.pure none) hlast
  | some msg => exact FaultsIn.bind (retainWill_returns S this msg) hlast

end Session

namespace Work

/-- The packet that the code publishes, when it has one already. -/
def msg : Work → Option PacketRef
  | subscribers _ msg _ => some msg
  | sessionInfo nmsg _ => some nmsg
  | overview pubmsg _ => some pubmsg
  | publish _ msg => some msg
  | _ => none

/-- The packet is a PUBLISH that exists. -/
def Valid (b : Broker σ) (w : Work) : Prop := ∀ r, w.msg = some r → b.ValidMsg r

/-- The call of `Publish` in the next round, if it makes one: the session and the packet. -/
def call (b : Broker σ) : Work → Option (SessionRef × PacketRef)
  | subscribers this msg (v :: _) =>
    if cfg.sendToSelf = false ∧ v.1 = this then none
    else if (b.sessions v.1).isConnected ∧ ¬ (b.sessions v.1).isClosed then some (v.1, msg)
    else none
  | sessionInfo nmsg (v :: _) =>
    if (b.sessions v.1).isConnected ∧ ¬ (b.sessions v.1).isClosed then some (v.1, nmsg) else none
  | overview pubmsg (v :: _) => some (v.1, pubmsg)
  | mgrPublish _ _ _ (v :: _) => some (v.1, b.packets.next)
  | retained this (_ :: _) => some (this, b.packets.next)
  | publish this msg => some (this, msg)
  | _ => none

/-- A round that ends in a call of `Publish` on `s` with `msg`: what comes before has only
allocated packets. -/
structure Calls (w : Work) (s : SessionRef) (msg : PacketRef) (b b₁ : Broker σ) : Prop where
  quiet : Quiet b b₁
  kept : Kept b b₁
  sessions : b₁.sessions = b.sessions
  tokens : b₁.tokens = b.tokens
  trace : b₁.trace = b.trace
  old : msg < b.packets.next ∨ msg = b.packets.next
  valid : b₁.ValidMsg msg
  run : ∃ k : Option TokenRef × Option GoError → Bool,
    w.round cfg S b = (Session.publish cfg s msg >>= fun r => pure (k r) : GoM σ Bool) b₁

variable {cfg S}

theorem valid_of_kept {b b' : Broker σ} (h : Kept b b') {w : Work} (hw : w.Valid b) : w.Valid b' :=
  fun r hr => h.validMsg (hw r hr)

theorem valid_next {b : Broker σ} {w : Work} (h : w.Valid b) : ∀ w' ∈ w.next, w'.Valid b := by
  intro w' hw'
  cases w with
  | subscribers this msg rest =>
    cases rest with
    | nil => exact absurd hw' List.not_mem_nil
    | cons v rest =>
      rw [List.mem_singleton.mp hw']
      exact h
  | sessionInfo nmsg rest =>
    cases rest with
    | nil => exact absurd hw' List.not_mem_nil
    | cons v rest =>
      rw [List.mem_singleton.mp hw']
      exact h
  | overview pubmsg rest =>
    cases rest with
    | nil => exact absurd hw' List.not_mem_nil
    | cons v rest =>
      rw [List.mem_singleton.mp hw']
      exact h
  | mgrPublish topic msg qos rest =>
    cases rest with
    | nil => exact absurd hw' List.not_mem_nil
    | cons v rest =>
      rw [List.mem_singleton.mp hw']
      exact fun r hr => absurd hr (by simp [Work.msg])
  | retained this msgs =>
    cases msgs with
    | nil => exact absurd hw' List.not_mem_nil
    | cons m msgs =>
      rw [List.mem_singleton.mp hw']
      exact fun r hr => absurd hr (by simp [Work.msg])
  | publish this msg => exact absurd hw' List.not_mem_nil
  | willEnd this reason msg => exact absurd hw' List.not_mem_nil

/-- A packet allocated right before the call of `Publish`. -/
theorem calls_newPacket {w : Work} {s : SessionRef} {p : PublishPacket} {msg : PacketRef}
    {b : Broker σ} (hb : b.InRange) (hp : p.header.messageType = PacketType.publish)
    (hmsg : msg = b.packets.next ∨ b.ValidMsg msg)
    {k : Option TokenRef × Option GoError → Bool}
    (hrun : w.round cfg S b = (Session.publish cfg s msg >>= fun r => pure (k r) : GoM σ Bool)
      { b with packets := (b.packets.alloc (.publish p)).2 }) :
    w.Calls cfg S s msg b { b with packets := (b.packets.alloc (.publish p)).2 } := by
  have hquiet : Quiet b { b with packets := (b.packets.alloc (.publish p)).2 } :=
    newPacket_quiet (.publish p) b
  refine ⟨hquiet, (hquiet hb).kept, rfl, rfl, rfl, ?_, ?_, k, hrun⟩
  · rcases hmsg with h | h
    · exact .inr h
    · exact .inl h.1
  · rcases hmsg with h | h
    · rw [h]
      refine ⟨Nat.lt_succ_self _, ?_⟩
      show (((b.packets.alloc (.publish p)).2.cells b.packets.next).kind,
        ((b.packets.alloc (.publish p)).2.cells b.packets.next).type) = _
      rw [Heap.alloc_self]
      exact Prod.ext rfl hp
    · exact (hquiet hb).kept.validMsg h

theorem calls_self {w : Work} {s : SessionRef} {msg : PacketRef} {b : Broker σ} (hb : b.InRange)
    (hmsg : b.ValidMsg msg) {k : Option TokenRef × Option GoError → Bool}
    (hrun : w.round cfg S b =
      (Session.publish cfg s msg >>= fun r => pure (k r) : GoM σ Bool) b) :
    w.Calls cfg S s msg b b :=
  ⟨refl_of Quiet b, (Ledger.refl hb).kept, rfl, rfl, rfl, .inl hmsg.1, hmsg, k, hrun⟩

/-- A round that calls `Publish`. -/
theorem round_of_call {w : Work} {s : SessionRef} {msg : PacketRef} {b : Broker σ}
    (hb : b.InRange) (hw : w.Valid b) (h : w.call cfg b = some (s, msg)) :
    ∃ b₁, w.Calls cfg S s msg b b₁ := by
  cases w with
  | subscribers this m rest =>
    cases rest with
    | nil => exact absurd h (by simp [call])
    | cons v rest =>
      have hvalid : b.ValidMsg m := hw m rfl
      rw [call] at h
      by_cases hself : cfg.sendToSelf = false ∧ v.1 = this
      · rw [if_pos hself] at h
        exact absurd h (by simp)
      rw [if_neg hself] at h
      by_cases hopen : (b.sessions v.1).isConnected ∧ ¬ (b.sessions v.1).isClosed
      · rw [if_pos hopen] at h
        simp only [Option.some.injEq, Prod.mk.injEq] at h
        obtain ⟨rfl, rfl⟩ := h
        obtain ⟨p, hp⟩ := hvalid.publish
        have htyped : (if v.2 < p.header.qos then
            { p.copy with header := { p.copy.header with qos := v.2 } } else p.copy
              ).header.messageType = PacketType.publish := by
          split
          · rfl
          · rfl
        refine ⟨_, calls_newPacket hb htyped (.inr hvalid) (k := fun r => r.2.isNone) ?_⟩
        rw [round, Session.sendToSubcriberRound, bind_run_ok (session_run _ _), if_neg hself,
          if_pos hopen, bind_run_ok (packet_run _ _), hp]
        exact bind_run_ok (newPacket_run _ _)
      · rw [if_neg hopen] at h
        exact absurd h (by simp)
  | sessionInfo nmsg rest =>
    cases rest with
    | nil => exact absurd h (by simp [call])
    | cons v rest =>
      rw [call] at h
      by_cases hopen : (b.sessions v.1).isConnected ∧ ¬ (b.sessions v.1).isClosed
      · rw [if_pos hopen] at h
        simp only [Option.some.injEq, Prod.mk.injEq] at h
        obtain ⟨rfl, rfl⟩ := h
        refine ⟨b, calls_self hb (hw _ rfl) (k := fun r => r.2.isNone) ?_⟩
        rw [round, Session.broadcastSessionInfoRound, bind_run_ok (session_run _ _),
          if_pos hopen]
      · rw [if_neg hopen] at h
        exact absurd h (by simp)
  | overview pubmsg rest =>
    cases rest with
    | nil => exact absurd h (by simp [call])
    | cons v rest =>
      obtain ⟨rfl, rfl⟩ : v.1 = s ∧ pubmsg = msg := by simpa [call] using h
      exact ⟨b, calls_self hb (hw _ rfl) (k := fun _ => true) rfl⟩
  | mgrPublish topic m qos rest =>
    cases rest with
    | nil => exact absurd h (by simp [call])
    | cons v rest =>
      obtain ⟨rfl, rfl⟩ : v.1 = s ∧ b.packets.next = msg := by simpa [call] using h
      exact ⟨_, calls_newPacket hb (p :=
        { header := { newPublish.header with qos := qos }, topicName := topic, payload := m })
          rfl (.inl rfl) (k := fun _ => true) rfl⟩
  | retained this msgs =>
    cases msgs with
    | nil => exact absurd h (by simp [call])
    | cons m msgs =>
      obtain ⟨rfl, rfl⟩ : this = s ∧ b.packets.next = msg := by simpa [call] using h
      refine ⟨_, calls_newPacket hb (p :=
        { header := { newPublish.header with qos := m.qos, retain := true }
          topicName := m.topic
          payload := m.body }) rfl (.inl rfl) (k := fun _ => true) ?_⟩
      rw [round, Session.procRetainRound, bind_run_ok (newPacket_run _ _),
        TreeSubsMgr.isTopicMatch_self]
  | publish this m =>
    obtain ⟨rfl, rfl⟩ : this = s ∧ m = msg := by simpa [call] using h
    exact ⟨b, calls_self hb (hw _ rfl) (k := fun _ => true) rfl⟩
  | willEnd this reason m => exact absurd h (by simp [call])

/-- A round that calls nothing does nothing, unless it is the end of a will. -/
theorem round_skips {w : Work} {b : Broker σ} (h : w.call cfg b = none) :
    (∃ this reason msg, w = .willEnd this reason msg) ∨ ∃ go, w.round cfg S b = (.ok go, b) := by
  have hskip : ∀ (go : Bool), w.round cfg S b = (.ok go, b) →
      (∃ this reason msg, w = .willEnd this reason msg) ∨ ∃ go, w.round cfg S b = (.ok go, b) :=
    fun go hm => .inr ⟨go, hm⟩
  cases w with
  | subscribers this msg rest =>
    cases rest with
    | nil => exact hskip _ rfl
    | cons v rest =>
      rw [call] at h
      refine hskip true ?_
      rw [round, Session.sendToSubcriberRound, bind_run_ok (session_run _ _)]
      by_cases hself : cfg.sendToSelf = false ∧ v.1 = this
      · rw [if_pos hself]
        rfl
      rw [if_neg hself] at h ⊢
      by_cases hopen : (b.sessions v.1).isConnected ∧ ¬ (b.sessions v.1).isClosed
      · rw [if_pos hopen] at h
        exact absurd h (by simp)
      · rw [if_neg hopen]
        rfl
  | sessionInfo nmsg rest =>
    cases rest with
    | nil => exact hskip _ rfl
    | cons v rest =>
      rw [call] at h
      refine hskip true ?_
      rw [round, Session.broadcastSessionInfoRound, bind_run_ok (session_run _ _)]
      by_cases hopen : (b.sessions v.1).isConnected ∧ ¬ (b.sessions v.1).isClosed
      · rw [if_pos hopen] at h
        exact absurd h (by simp)
      · rw [if_neg hopen]
        rfl
  | overview pubmsg rest =>
    cases rest with
    | nil => exact hskip _ rfl
    | cons v rest => exact absurd h (by simp [call])
  | mgrPublish topic msg qos rest =>
    cases rest with
    | nil => exact hskip _ rfl
    | cons v rest => exact absurd h (by simp [call])
  | retained this msgs =>
    cases msgs with
    | nil => exact hskip _ rfl
    | cons m msgs => exact absurd h (by simp [call])
  | publish this msg => exact absurd h (by simp [call])
  | willEnd this reason msg => exact .inl ⟨this, reason, msg, rfl⟩

/-- A round that calls nothing makes no entry, and returns. -/
theorem round_of_call_none {w : Work} {b : Broker σ} (h : w.call cfg b = none) :
    ∃ go b', w.round cfg S b = (.ok go, b') ∧ Quiet b b' := by
  rcases round_skips (S := S) h with ⟨this, reason, msg, rfl⟩ | ⟨go, hskip⟩
  · have hquiet : Respects Quiet (round cfg S (.willEnd this reason msg)) :=
      Respects.bind (Session.willEnd_quiet S this reason msg) fun _ => Respects.pure true
    have hreturns : Returns (round cfg S (.willEnd this reason msg)) :=
      FaultsIn.bind (Session.willEnd_returns S this reason msg) fun _ => .pure true
    obtain ⟨go, b', hr⟩ := hreturns.ok b
    have hq := hquiet b
    rw [hr] at hq
    exact ⟨go, b', hr, hq⟩
  · exact ⟨go, b, hskip, refl_of Quiet b⟩

end Work

/-! ## What a start leaves behind -/

/-- A newly allocated PUBLISH is valid. -/
theorem newPacket_validMsg {p : ControlPacket} (hkind : p.kind = PacketType.publish)
    (htype : p.type = PacketType.publish) {b b' : Broker σ} {msg : PacketRef}
    (h : newPacket p b = (.ok msg, b')) : b'.ValidMsg msg := by
  obtain ⟨rfl, rfl⟩ : b.packets.next = msg ∧ _ = b' := by
    simpa [newPacket] using h
  refine ⟨Nat.lt_succ_self _, ?_⟩
  show (((b.packets.alloc p).2.cells b.packets.next).kind,
    ((b.packets.alloc p).2.cells b.packets.next).type) = _
  rw [Heap.alloc_self]
  exact Prod.ext hkind htype

theorem Quiet.validMsg {b b' : Broker σ} (h : Quiet b b') (hb : b.InRange) {r : PacketRef}
    (hr : b.ValidMsg r) : b'.ValidMsg r :=
  (h hb).kept.validMsg hr

theorem Respects.inRange {α : Type} {m : GoM σ α} (hm : Respects Quiet m) {b b' : Broker σ}
    {a : Except Fault α} (h : m b = (a, b')) (hb : b.InRange) : b'.InRange := by
  have hq := hm b hb
  rw [h] at hq
  exact hq.inRange

theorem Respects.validMsg {α : Type} {m : GoM σ α} (hm : Respects Quiet m) {b b' : Broker σ}
    {a : Except Fault α} (h : m b = (a, b')) (hb : b.InRange) {r : PacketRef}
    (hr : b.ValidMsg r) : b'.ValidMsg r := by
  have hq := hm b
  rw [h] at hq
  exact hq.validMsg hb hr

namespace Session

/-- The only packet that `onPublish` forwards is its own. -/
theorem onPublish_forwards (this : SessionRef) (msg : PacketRef) (p : PublishPacket) :
    Yields (fun h => ∀ r, h.forwarded = some r → r = msg) (onPublish S this msg p) := by
  have hnone : ∀ err : Option GoError, ∀ r,
      (Handled.mk err none).forwarded = some r → r = msg :=
    fun _ _ h => absurd h (by simp)
  have hself : ∀ err : Option GoError, ∀ r,
      (Handled.mk err (some msg)).forwarded = some r → r = msg :=
    fun _ _ h => (Option.some.inj h).symm
  refine Yields.bind fun err => ?_
  cases err with
  | some err => exact .pure (hnone _)
  | none =>
    dsimp only
    split
    · exact .ite (.bind fun _ => .bind fun _ => .pure (hself _)) (.pure (hself _))
    · refine .bind fun _ => .bind fun s => .bind fun err => ?_
      cases err with
      | none => exact .pure (hself _)
      | some err => exact .pure (hnone _)
    · refine .bind fun _ => .bind fun s => .bind fun r => ?_
      cases r with
      | ok _ => exact .pure (hnone _)
      | error err =>
        refine .ite (.bind fun err => ?_) (.pure (hnone _))
        cases err with
        | some _ => exact .pure (hnone _)
        | none => exact .bind fun _ => .pure (hnone _)
    · exact .pure (hnone _)

/-- `onPubrel` forwards a packet of its own making. -/
theorem onPubrel_forwards {this : SessionRef} {msg : IdPacket} {b b' : Broker σ}
    {handled : Handled} (h : onPubrel S this msg b = (.ok handled, b')) :
    ∀ r, handled.forwarded = some r → b'.ValidMsg r := by
  obtain ⟨_, b₁, -, h₁⟩ := bind_eq_ok h
  obtain ⟨s, b₂, -, h₂⟩ := bind_eq_ok h₁
  obtain ⟨r, b₃, -, h₃⟩ := bind_eq_ok h₂
  cases r with
  | error err =>
    rw [← (pure_eq_ok h₃).1]
    exact fun _ hr => absurd hr (by simp)
  | ok smsg =>
    obtain ⟨_, b₄, -, h₄⟩ := bind_eq_ok h₃
    obtain ⟨pubMsg, b₅, hnew, h₅⟩ := bind_eq_ok h₄
    obtain ⟨rfl, rfl⟩ := pure_eq_ok h₅
    intro r hr
    rw [← Option.some.inj hr]
    exact newPacket_validMsg rfl rfl hnew

/-- The handlers of the other packets forward nothing. -/
theorem procFrontRemoteMsg_forwards_none {this : SessionRef} {msg : PacketRef} {p : ControlPacket}
    (hpub : p.kind ≠ PacketType.publish) (hrel : p.kind ≠ PacketType.pubrel) :
    Yields (fun h => h.forwarded = none) (procFrontRemoteMsg cfg S this msg p) := by
  cases p with
  | publish m => exact absurd rfl hpub
  | pubrel m => exact absurd rfl hrel
  | connect m =>
    refine .bind fun s => .ite (.pure rfl) (.ite (.pure rfl) ?_)
    refine .bind fun _ => .bind fun _ => .bind fun _ => .bind fun _ => .bind fun _ => ?_
    exact .bind fun _ => .bind fun _ => .bind fun _ => .pure rfl
  | connack m =>
    have hrest : Yields (fun h : Handled => h.forwarded = none)
        (finishConnack this m : GoM σ Handled) := by
      refine .bind fun s => .bind fun _ => ?_
      cases s.connectToken with
      | none => exact .pure rfl
      | some t => exact .ite (.bind fun _ => .bind fun _ => .pure rfl) (.bind fun _ => .pure rfl)
    exact .ite (.bind fun _ => hrest) (.bind fun _ => hrest)
  | puback m => exact .bind fun _ => .pure rfl
  | pubrec m => exact .bind fun _ => .bind fun _ => .bind fun _ => .pure rfl
  | pubcomp m => exact .bind fun _ => .pure rfl
  | subscribe m =>
    refine .bind fun b => ?_
    split
    · exact .fault _
    · exact .bind fun _ => .bind fun _ => .bind fun _ => .pure rfl
  | suback m => exact .bind fun _ => .pure rfl
  | unsubscribe m => exact .bind fun _ => .bind fun _ => .pure rfl
  | unsuback m => exact .bind fun _ => .pure rfl
  | pingreq h => exact .bind fun _ => .pure rfl
  | pingresp h => exact .pure rfl
  | disconnect h => exact .bind fun _ => .pure rfl

/-- What a handler forwards is a PUBLISH that exists. -/
theorem procFrontRemoteMsg_forwards {this : SessionRef} {msg : PacketRef} {p : ControlPacket}
    {b b' : Broker σ} {handled : Handled} (hb : b.InRange)
    (hmsg : p.kind = PacketType.publish → b.ValidMsg msg)
    (h : procFrontRemoteMsg cfg S this msg p b = (.ok handled, b')) :
    ∀ r, handled.forwarded = some r → b'.ValidMsg r := by
  intro r hr
  by_cases hpub : p.kind = PacketType.publish
  · cases p with
    | publish m =>
      rw [onPublish_forwards S this msg m b handled b' h r hr]
      exact Respects.validMsg (onPublish_quiet S this msg m) h hb (hmsg rfl)
    | _ =>
      rw [ControlPacket.kind] at hpub
      exact absurd hpub (by decide)
  by_cases hrel : p.kind = PacketType.pubrel
  · cases p with
    | pubrel m => exact onPubrel_forwards S h r hr
    | _ =>
      rw [ControlPacket.kind] at hrel
      exact absurd hrel (by decide)
  · have hnone := procFrontRemoteMsg_forwards_none cfg S hpub hrel b handled b' h
    exact absurd (hnone.symm.trans hr) (by simp)

theorem sendToSubcriberStart_quiet (order : SubscriberOrder) (this : SessionRef)
    (msg : PacketRef) :
    Respects Quiet (sendToSubcriberStart order this msg : GoM σ Subscribers) := by
  refine Respects.bind (packet_quiet msg) fun p => ?_
  refine Respects.bind (emit_quiet fun _ _ _ => by simp) fun _ => ?_
  refine Respects.bind (getSessions_quiet _) fun _ => ?_
  refine Respects.bind (modifyPacket_quiet fun p => ?_) fun _ => Respects.pure _
  cases p with
  | _ => exact ⟨rfl, rfl, rfl⟩

end Session

/-- A start that makes no entry and leaves code whose packets exist. -/
structure Starts (m : GoM σ (List Work)) (b : Broker σ) : Prop where
  quiet : Quiet b (m b).2
  valid : ∀ ws b', m b = (.ok ws, b') → ∀ w ∈ ws, w.Valid b'

theorem Work.valid_of_msg_none {w : Work} (h : w.msg = none) (b : Broker σ) : w.Valid b :=
  fun _ hr => absurd (h.symm.trans hr) (by simp)

theorem Work.valid_of_msg {w : Work} {msg : PacketRef} {b : Broker σ} (h : w.msg = some msg)
    (hmsg : b.ValidMsg msg) : w.Valid b := by
  intro r hr
  obtain rfl : msg = r := Option.some.inj (h.symm.trans hr)
  exact hmsg

namespace Starts

theorem pure {ws : List Work} {b : Broker σ} (h : ∀ w ∈ ws, w.Valid b) :
    Starts (Pure.pure ws) b := by
  refine ⟨refl_of Quiet b, fun ws' b' hr => ?_⟩
  obtain ⟨rfl, rfl⟩ := pure_eq_ok hr
  exact h

/-- A quiet part may come first. -/
theorem bind {α : Type} {m : GoM σ α} {f : α → GoM σ (List Work)} {b : Broker σ}
    (hb : b.InRange) (hm : Respects Quiet m)
    (hf : ∀ a b', m b = (.ok a, b') → b'.InRange → Starts (f a) b') : Starts (m >>= f) b := by
  have hq := hm b
  rcases hr : m b with ⟨e | a, b'⟩
  · rw [hr] at hq
    refine ⟨?_, fun ws b'' h => ?_⟩
    · rw [bind_run_error hr]
      exact hq
    · rw [bind_run_error hr] at h
      exact absurd (congrArg Prod.fst h) (by simp)
  · rw [hr] at hq
    have hstarts := hf a b' hr (hq hb).inRange
    refine ⟨?_, fun ws b'' h => ?_⟩
    · rw [bind_run_ok hr]
      exact trans_of Quiet hq hstarts.quiet
    · rw [bind_run_ok hr] at h
      exact hstarts.valid ws b'' h

end Starts

theorem forwardStart_starts {order : SubscriberOrder} {this : SessionRef}
    {forwarded : Option PacketRef} {b : Broker σ} (hb : b.InRange)
    (hvalid : ∀ r, forwarded = some r → b.ValidMsg r) :
    Starts (forwardStart order this forwarded) b := by
  cases forwarded with
  | none => exact .pure fun w hw => absurd hw List.not_mem_nil
  | some msg =>
    have hstart := Session.sendToSubcriberStart_quiet (σ := σ) order this msg
    refine .bind hb (session_quiet this) fun s b₁ h₁ hb₁ => ?_
    have hmsg := Respects.validMsg (session_quiet this) h₁ hb (hvalid msg rfl)
    split
    · refine .bind hb₁ hstart fun subs b₂ h₂ _ => .pure fun w hw => ?_
      rw [List.mem_singleton.mp hw]
      exact Work.valid_of_msg rfl (Respects.validMsg hstart h₂ hb₁ hmsg)
    · refine .bind hb₁ (packet_quiet msg) fun p b₂ _ hb₂ => ?_
      refine .bind hb₂ (emit_quiet fun _ _ _ => by simp) fun _ b₃ _ _ => .pure fun w hw => ?_
      exact absurd hw List.not_mem_nil

theorem recvStart_starts {order : SubscriberOrder} {this : SessionRef} {p : ControlPacket}
    {b : Broker σ} (hb : b.InRange) (hp : p.type = p.kind) :
    Starts (recvStart cfg S order this p) b := by
  refine .bind hb (Session.onChannelReaded_quiet cfg this) fun _ b₁ _ hb₁ => ?_
  refine .bind hb₁ (session_quiet this) fun s b₂ _ hb₂ => ?_
  split
  · exact .pure fun w hw => absurd hw List.not_mem_nil
  refine .bind hb₂ (newPacket_quiet p) fun msg b₃ h₃ hb₃ => ?_
  have hproc := Session.procFrontRemoteMsg_quiet cfg S this msg p
  refine .bind hb₃ hproc fun handled b₄ h₄ hb₄ => forwardStart_starts hb₄ ?_
  refine Session.procFrontRemoteMsg_forwards cfg S hb₃ (fun hkind => ?_) h₄
  exact newPacket_validMsg hkind (hp.trans hkind) h₃

/-- A will that is published is a PUBLISH that exists. -/
theorem Session.willStart_spec {this : SessionRef} {b b' : Broker σ} {r : Option (Option PacketRef)}
    (h : willStart this b = (.ok r, b')) : ∀ msg, r = some (some msg) → b'.ValidMsg msg := by
  rw [willStart, bind_run_ok (session_run this b)] at h
  intro msg hr
  split at h
  · rw [← (pure_eq_ok h).1] at hr
    exact absurd hr (by simp)
  · split at h
    · obtain ⟨msg', b₁, hnew, h₁⟩ := bind_eq_ok h
      obtain ⟨rfl, rfl⟩ := pure_eq_ok h₁
      obtain rfl : msg' = msg := by simpa using hr
      exact newPacket_validMsg rfl rfl hnew
    · rw [← (pure_eq_ok h).1] at hr
      exact absurd hr (by simp)

theorem Session.willStart_quiet (this : SessionRef) :
    Respects Quiet (willStart this : GoM σ (Option (Option PacketRef))) := by
  refine Respects.bind (session_quiet this) fun s => Respects.ite (Respects.pure _) ?_
  exact Respects.ite (Respects.bind (newPacket_quiet _) fun _ => Respects.pure _) (Respects.pure _)

theorem Session.procRetainStart_quiet : Respects Quiet (procRetainStart S) := by
  refine Respects.bind (callStore_quiet _) fun r => ?_
  split
  · exact Respects.pure _
  · exact Respects.pure _

theorem Spawned.start_starts {order : SubscriberOrder} {g : Spawned} {b : Broker σ}
    (hb : b.InRange) : Starts (g.start S order) b := by
  cases g with
  | procRetainMessages this =>
    refine .bind hb (Session.procRetainStart_quiet S) fun msgs b₁ _ _ => .pure fun w hw => ?_
    rw [List.mem_singleton.mp hw]
    exact Work.valid_of_msg_none rfl b₁
  | onDisconnectException this reason =>
    refine .bind hb (Session.willStart_quiet this) fun r b₁ h₁ hb₁ => ?_
    have hwill := Session.willStart_spec h₁
    rcases r with _ | _ | msg
    · exact .pure fun w hw => absurd hw List.not_mem_nil
    · refine .pure fun w hw => ?_
      rw [List.mem_singleton.mp hw]
      exact Work.valid_of_msg_none rfl b₁
    · have hstart := Session.sendToSubcriberStart_quiet (σ := σ) order this msg
      refine .bind hb₁ hstart fun subs b₂ h₂ _ => .pure fun w hw => ?_
      rcases List.mem_cons.mp hw with rfl | hw
      · exact Work.valid_of_msg rfl (Respects.validMsg hstart h₂ hb₁ (hwill msg rfl))
      · rw [List.mem_singleton.mp hw]
        exact Work.valid_of_msg_none rfl b₂

theorem Session.broadcastSessionInfoStart_quiet (order : SubscriberOrder)
    (marshalIndent : SessionInfo → Option GoString) (this : SessionRef) :
    Respects Quiet (broadcastSessionInfoStart order marshalIndent this :
      GoM σ (Option (PacketRef × Subscribers))) := by
  refine Respects.bind (session_quiet this) fun s => Respects.bind (getSessions_quiet _) fun m => ?_
  refine Respects.ite (Respects.pure _) ?_
  split
  · exact Respects.pure _
  · exact Respects.bind (newPacket_quiet _) fun _ => Respects.pure _

theorem Session.broadcastSessionInfoStart_spec {order : SubscriberOrder}
    {marshalIndent : SessionInfo → Option GoString} {this : SessionRef} {b b' : Broker σ}
    {r : Option (PacketRef × Subscribers)}
    (h : broadcastSessionInfoStart order marshalIndent this b = (.ok r, b')) :
    ∀ nmsg subs, r = some (nmsg, subs) → b'.ValidMsg nmsg := by
  obtain ⟨s, b₁, -, h₁⟩ := bind_eq_ok h
  obtain ⟨m, b₂, -, h₂⟩ := bind_eq_ok h₁
  intro nmsg subs hr
  split at h₂
  · rw [← (pure_eq_ok h₂).1] at hr
    exact absurd hr (by simp)
  · cases hbs : marshalIndent ⟨s.clientId, s.peddingMsgList.length, s.inflightingList.length,
        s.channel.iSendList.length⟩ with
    | none =>
      rw [hbs] at h₂
      rw [← (pure_eq_ok h₂).1] at hr
      exact absurd hr (by simp)
    | some bs =>
      rw [hbs] at h₂
      obtain ⟨nmsg', b₃, hnew, h₃⟩ := bind_eq_ok h₂
      obtain ⟨rfl, rfl⟩ := pure_eq_ok h₃
      obtain ⟨rfl, -⟩ : nmsg' = nmsg ∧ _ = subs := by simpa using hr
      exact newPacket_validMsg rfl rfl hnew

theorem sessionInfoStart_starts {order : SubscriberOrder}
    {marshalIndent : SessionInfo → Option GoString} {b : Broker σ} (hb : b.InRange) :
    Starts (sessionInfoStart order marshalIndent) b := by
  have hnil : ∀ b' : Broker σ, ∀ w ∈ ([] : List Work), w.Valid b' :=
    fun _ w hw => absurd hw List.not_mem_nil
  refine .bind hb get_quiet fun b₁ b₂ h₁ hb₂ => ?_
  split
  · exact .pure (hnil _)
  rename_i s rest _
  refine .bind hb₂ (modify_quiet (fun _ => rfl) (fun _ => rfl) (fun _ => rfl) fun _ => rfl)
    fun _ b₃ _ hb₃ => ?_
  refine .bind hb₃ (Session.broadcastSessionInfoStart_quiet order marshalIndent s)
    fun r b₄ h₄ _ => ?_
  have hvalid := Session.broadcastSessionInfoStart_spec h₄
  rcases r with _ | ⟨nmsg, subs⟩
  · exact .pure (hnil _)
  · refine .pure fun w hw => ?_
    rw [List.mem_singleton.mp hw]
    exact Work.valid_of_msg rfl (hvalid nmsg subs rfl)

theorem overviewStart_starts {order : SubscriberOrder} {bsjson : GoString} {b : Broker σ}
    (hb : b.InRange) : Starts (overviewStart order bsjson) b := by
  have hquiet : Respects Quiet (SessionMgr.overviewStart order bsjson :
      GoM σ (PacketRef × Subscribers)) :=
    Respects.bind (newPacket_quiet _) fun _ =>
      Respects.bind (getSessions_quiet _) fun _ => Respects.pure _
  refine .bind hb hquiet fun r b₁ h₁ hb₁ => .pure fun w hw => ?_
  obtain ⟨pubmsg, b₂, hnew, h₂⟩ := bind_eq_ok h₁
  obtain ⟨subs, b₃, hsubs, h₃⟩ := bind_eq_ok h₂
  obtain ⟨rfl, rfl⟩ := pure_eq_ok h₃
  rw [List.mem_singleton.mp hw]
  have hb₂ : b₂.InRange := Respects.inRange (newPacket_quiet _) hnew hb
  exact Work.valid_of_msg rfl
    (Respects.validMsg (getSessions_quiet _) hsubs hb₂ (newPacket_validMsg rfl rfl hnew))

theorem mgrPublishStart_starts {order : SubscriberOrder} {topic msg : GoString} {qos : UInt8}
    {b : Broker σ} (hb : b.InRange) : Starts (mgrPublishStart order topic msg qos) b := by
  refine .bind hb (getSessions_quiet topic) fun subs b₁ _ _ => .pure fun w hw => ?_
  rw [List.mem_singleton.mp hw]
  exact Work.valid_of_msg_none rfl b₁

theorem clientPublishStart_starts {this : SessionRef} {topic body : GoString} {qos : UInt8}
    {retain : Bool} {b : Broker σ} (hb : b.InRange) :
    Starts (clientPublishStart this topic body qos retain) b := by
  refine .bind hb (newPacket_quiet _) fun msg b₁ h₁ _ => .pure fun w hw => ?_
  rw [List.mem_singleton.mp hw]
  exact Work.valid_of_msg rfl (newPacket_validMsg rfl rfl h₁)

end MqttBroker

import MqttBroker.Session.Rounds

/-!
# Moves of entries

What one step of the process does to the entries, wherever they wait: `Move` relates the
entries in hand and the broker before and after. There are four kinds: entries are only
moved or dropped, an entry that was in hand is queued, `Publish` makes an entry, and `Send`
makes one. The label tells the last two apart, with the packet that they number.
-/

namespace MqttBroker

open Broker GoM Exec

variable {σ : Type} (cfg : Config)

/-! ## `Send` -/

namespace Session

/-- Whether `Send` waits for an acknowledgement of the packet. -/
def awaits : ControlPacket → Bool
  | .publish _ | .pubrec _ | .pubrel _ | .subscribe _ | .unsubscribe _ => true
  | _ => false

/-- The id under which `Send` files a packet: the next one, except for PUBREC and PUBREL. -/
def sentId (s : Session) : ControlPacket → UInt16
  | .pubrec m | .pubrel m => m.messageID
  | _ => s.nextId

/-- What the switch of `Send` has done to the state when it is left. -/
structure Prepared (this : SessionRef) (msg : PacketRef) (t : Option TokenRef)
    (p : ControlPacket) (b b' : Broker σ) : Prop where
  entries : b'.entries = b.entries
  channel : ∀ s, (b'.sessions s).channel = (b.sessions s).channel
  packets_next : b'.packets.next = b.packets.next
  kinds : ∀ r, b'.kindOf r = b.kindOf r
  ids : ∀ r, r ≠ msg → b'.idOf r = b.idOf r
  id : awaits p = true → b'.idOf msg = (b.sessions this).sentId p
  tokens_next : b'.tokens.next = b.tokens.next
  publishes : b'.publishes = b.publishes
  sound : ∀ w : SessionRef → List PacketAndToken,
    Sound (fun s => w s ++ entryFor this ⟨msg, t⟩ s) b →
      Sound (fun s => w s ++ if awaits p then entryFor this ⟨msg, t⟩ s else []) b'

/-- A packet numbered in place. -/
theorem number_prepared {this : SessionRef} {msg : PacketRef} {t : Option TokenRef}
    {p : ControlPacket} {b b' : Broker σ} (hb : b.packets.cells msg = p)
    (hp : ∀ id, (p.setMessageID id).messageID = id) (hawaits : awaits p = true)
    (hid : (b.sessions this).sentId p = (b.sessions this).nextId)
    (h : number this msg b = (.ok (), b')) : Prepared this msg t p b b' := by
  rw [number_run] at h
  obtain rfl := congrArg Prod.snd h
  have hfoot : ∀ s, footprint ((b.setSession this advanceMsgId).sessions s) =
      footprint (b.sessions s) := by
    intro s
    by_cases hs : s = this
    · rw [hs, setSession_self]
      rfl
    · rw [setSession_of_ne _ _ hs]
  refine ⟨funext fun s => (of_footprint_eq (hfoot s)).1, fun s => ?_, rfl, fun r => ?_,
    fun r hr => ?_, fun _ => ?_, rfl, rfl, fun w hw => ?_⟩
  · show ((b.setSession this advanceMsgId).sessions s).channel = _
    by_cases hs : s = this
    · rw [hs, setSession_self]
      rfl
    · rw [setSession_of_ne _ _ hs]
  · show ((((b.packets.modify msg _).cells r).kind, ((b.packets.modify msg _).cells r).type)) = _
    by_cases hr : r = msg
    · rw [hr, Heap.modify_self, setMessageID_type]
      refine Prod.ext ?_ rfl
      show ((b.packets.cells msg).setMessageID _).kind = (b.packets.cells msg).kind
      cases b.packets.cells msg with
      | _ => rfl
    · rw [Heap.modify_of_ne _ _ hr]
      rfl
  · show ((b.packets.modify msg _).cells r).messageID = _
    rw [Heap.modify_of_ne _ _ hr]
    rfl
  · show ((b.packets.modify msg _).cells msg).messageID = _
    rw [Heap.modify_self, hb, hp, hid]
  · rw [hawaits]
    exact hw.congr rfl rfl hfoot

/-- The token goes to the handshake. -/
theorem handshake_prepared {this : SessionRef} {msg : PacketRef} {t : Option TokenRef}
    {p : ControlPacket} {f : Session → Session} {b : Broker σ} (hawaits : awaits p = false)
    (hlists : ∀ s, (f s).inflightingList = s.inflightingList ∧
      (f s).peddingMsgList = s.peddingMsgList ∧ (f s).channel = s.channel)
    (hconnect : ∀ s, (f s).connectToken = s.connectToken ∨ (f s).connectToken = t)
    (hdisconnect : ∀ s, (f s).disconnectToken = s.disconnectToken ∨ (f s).disconnectToken = t) :
    Prepared this msg t p b (b.setSession this f) := by
  have hentries : ∀ s, (f s).entries = s.entries := by
    intro s
    rw [Session.entries, Session.entries, (hlists s).1, (hlists s).2.1]
  refine ⟨funext fun s => ?_, fun s => ?_, rfl, fun _ => rfl, fun _ _ => rfl, fun h => ?_, rfl,
    rfl, fun w hw => ?_⟩
  · by_cases hs : s = this
    · rw [hs, Broker.entries, setSession_self, hentries, Broker.entries]
    · rw [Broker.entries, setSession_of_ne _ _ hs, Broker.entries]
  · by_cases hs : s = this
    · rw [hs, setSession_self, (hlists _).2.2]
    · rw [setSession_of_ne _ _ hs]
  · rw [hawaits] at h
    exact absurd h (by decide)
  · rw [hawaits]
    simp only [Bool.false_eq_true, if_false, List.append_nil]
    refine hw.handshake_of_held (hentries _) ?_ (hconnect _) (hdisconnect _)
    rw [(hlists _).2.2]

/-- The token is not kept at all. -/
theorem forget_prepared {this : SessionRef} {msg : PacketRef} {t : Option TokenRef}
    {p : ControlPacket} {b : Broker σ} (hawaits : awaits p = false) :
    Prepared this msg t p b b := by
  refine ⟨rfl, fun _ => rfl, rfl, fun _ => rfl, fun _ _ => rfl, fun h => ?_, rfl, rfl,
    fun w hw => ?_⟩
  · rw [hawaits] at h
    exact absurd h (by decide)
  · rw [hawaits]
    simp only [Bool.false_eq_true, if_false, List.append_nil]
    exact hw.drop

/-- A packet that waits for its acknowledgement under its own id. -/
theorem keep_prepared {this : SessionRef} {msg : PacketRef} {t : Option TokenRef}
    {p : ControlPacket} {b : Broker σ} (hb : b.packets.cells msg = p) (hawaits : awaits p = true)
    (hid : (b.sessions this).sentId p = p.messageID) : Prepared this msg t p b b := by
  refine ⟨rfl, fun _ => rfl, rfl, fun _ => rfl, fun _ _ => rfl, fun _ => ?_, rfl, rfl,
    fun w hw => ?_⟩
  · rw [hid, idOf, hb]
  · rw [hawaits]
    exact hw

theorem sendCase_spec {this : SessionRef} {msg : PacketRef} {t : Option TokenRef}
    {p : ControlPacket} {kind : Option TokenKind} {b b' : Broker σ} {waits : Bool}
    (hb : b.packets.cells msg = p) (h : sendCase this msg p t kind b = (.ok waits, b')) :
    waits = awaits p ∧ Prepared this msg t p b b' := by
  have hnumber : ∀ {b₁ b₂ : Broker σ} {w : Bool}, (number this msg >>= fun _ => pure true :
      GoM σ Bool) b₁ = (.ok w, b₂) → true = w ∧ number this msg b₁ = (.ok (), b₂) := by
    intro b₁ b₂ w hr
    obtain ⟨u, b₃, hn, hrest⟩ := bind_eq_ok hr
    obtain ⟨rfl, rfl⟩ := pure_eq_ok hrest
    exact ⟨rfl, hn⟩
  have hpanic : ∀ {pn : Panic}, (panic pn : GoM σ Bool) b ≠ (.ok waits, b') := by
    intro pn hr
    exact absurd (congrArg Prod.fst hr) (by simp)
  cases p with
  | connect m =>
    rcases kind with _ | kind
    · exact absurd h hpanic
    cases kind with
    | connect =>
      obtain ⟨u, b₁, hset, hrest⟩ := bind_eq_ok h
      obtain ⟨rfl, rfl⟩ := pure_eq_ok hrest
      obtain rfl := congrArg Prod.snd hset
      exact ⟨rfl, handshake_prepared (f := fun s => { s with connectToken := t }) rfl
        (fun _ => ⟨rfl, rfl, rfl⟩) (fun _ => .inr rfl) fun _ => .inl rfl⟩
    | _ => exact absurd h hpanic
  | disconnect m =>
    rcases kind with _ | kind
    · exact absurd h hpanic
    cases kind with
    | disconnect =>
      obtain ⟨u, b₁, hset, hrest⟩ := bind_eq_ok h
      obtain ⟨rfl, rfl⟩ := pure_eq_ok hrest
      obtain rfl := congrArg Prod.snd hset
      exact ⟨rfl, handshake_prepared (f := fun s => { s with disconnectToken := t }) rfl
        (fun _ => ⟨rfl, rfl, rfl⟩) (fun _ => .inl rfl) fun _ => .inr rfl⟩
    | _ => exact absurd h hpanic
  | publish m =>
    obtain ⟨rfl, hn⟩ := hnumber h
    exact ⟨rfl, number_prepared hb (fun _ => rfl) rfl rfl hn⟩
  | unsubscribe m =>
    obtain ⟨rfl, hn⟩ := hnumber h
    exact ⟨rfl, number_prepared hb (fun _ => rfl) rfl rfl hn⟩
  | subscribe m =>
    rcases t with _ | t
    · exact absurd h hpanic
    rcases kind with _ | kind
    · exact absurd h hpanic
    cases kind with
    | subscribe subs subResult =>
      obtain ⟨u, b₁, hset, hrest⟩ := bind_eq_ok h
      obtain ⟨rfl, hn⟩ := hnumber hrest
      have hquiet : Quiet b b₁ := by
        have hq := modifyToken_quiet (t := t) (f := fun tok =>
          { tok with kind := .subscribe m.topics subResult }) (fun _ => rfl) b
        rwa [hset] at hq
      have hset' : _ = b₁ := congrArg Prod.snd hset
      have hb₁ : b₁.packets.cells msg = .subscribe m := by
        rw [← hset']
        exact hb
      have hprep := number_prepared (t := some t) hb₁ (fun _ => rfl) rfl rfl hn
      obtain rfl := hset'
      refine ⟨rfl, hprep.entries, hprep.channel, hprep.packets_next, hprep.kinds, hprep.ids,
        hprep.id, hprep.tokens_next, hprep.publishes, fun w hw => hprep.sound w (hw.quiet hquiet)⟩
    | _ => exact absurd h hpanic
  | pubrec m =>
    obtain ⟨rfl, rfl⟩ := pure_eq_ok h
    exact ⟨rfl, keep_prepared hb rfl rfl⟩
  | pubrel m =>
    obtain ⟨rfl, rfl⟩ := pure_eq_ok h
    exact ⟨rfl, keep_prepared hb rfl rfl⟩
  | _ =>
    obtain ⟨rfl, rfl⟩ := pure_eq_ok h
    exact ⟨rfl, forget_prepared rfl⟩

/-- `Send` on a running channel: a token, the switch, and then the lists. -/
theorem send_run {this : SessionRef} {msg : PacketRef} {b b' : Broker σ}
    {r : Option TokenRef × Option GoError} (hb : b.InRange) (hmsg : msg < b.packets.next)
    (hchan : (b.sessions this).channel.isStoped = false)
    (h : send cfg this msg b = (.ok r, b')) : ∃ t b₁ b₂,
      b₁.sessions = b.sessions ∧ b₁.packets = b.packets ∧ b₁.trace = b.trace ∧
      Allocated t b b₁ ∧ Prepared this msg t (b.packets.cells msg) b₁ b₂ ∧
      Ledger (fun s => if awaits (b.packets.cells msg) then entryFor this ⟨msg, t⟩ s else [])
        b₂ b' := by
  obtain ⟨t, b₁, halloc, hs, hp, htrace, htokens, -⟩ :=
    allocToken_run (b.packets.cells msg).type b
  rw [send, bind_run_ok (session_run this b), if_neg (by rw [hchan]; decide),
    bind_run_ok (packet_run msg b), bind_run_ok halloc] at h
  obtain ⟨waits, b₂, hcase, hrest⟩ := bind_eq_ok h
  obtain ⟨rfl, hprep⟩ := sendCase_spec (by rw [hp]) hcase
  refine ⟨t, b₁, b₂, hs, hp, htrace, htokens, hprep, ?_⟩
  have hmsg₂ : msg < b₂.packets.next := by
    rw [hprep.packets_next, hp]
    exact hmsg
  have hb₂ : b₂.InRange := by
    constructor
    · rw [hprep.entries, hprep.packets_next, hp]
      intro s pt hpt
      rw [Broker.entries, hs] at hpt
      exact hb.entries s pt hpt
    · intro s r hr
      rw [hprep.channel, hs] at hr
      rw [hprep.packets_next, hp]
      exact hb.sends s r hr
  have hsend : ∀ {new : SessionRef → List PacketAndToken} {b₃ : Broker σ}, Ledger new b₂ b₃ →
      (Channel.send this msg >>= fun err => pure (t, err) : GoM σ _) b₃ = (.ok r, b') →
        Ledger new b₂ b' := by
    intro new b₃ hl hr
    have hq := Channel.send_quiet this (lt_of_lt_of_le hmsg₂ hl.packets_next) hl.inRange
    rw [← bind_pure_snd (Channel.send this msg) (fun err => (t, err)), hr] at hq
    exact hl.trans hq
  cases hw : awaits (b.packets.cells msg) with
  | true =>
    rw [hw, if_pos rfl, bind_run_ok (by rfl : pushInflight cfg this ⟨msg, t⟩ b₂ = (.ok (), _))]
      at hrest
    exact hsend (pushInflight_ledger cfg hb₂ hmsg₂) hrest
  | false =>
    rw [hw] at hrest
    exact hsend (.refl hb₂) hrest

end Session
/-! ## The four kinds of moves -/

/-- What a step numbers: nothing, the packet of a call of `Publish`, or that of `Send`. -/
inductive Numbering
  | nothing
  | publish (this : SessionRef) (msg : PacketRef)
  | send (this : SessionRef) (p : ControlPacket)

/-- How `w` and `b`, the entries in hand and the broker, may change in one step. -/
inductive Move : Numbering → (SessionRef → List PacketAndToken) → Broker σ →
    (SessionRef → List PacketAndToken) → Broker σ → Prop
  /-- Entries are moved or dropped. -/
  | quiet {w w' b b'} : Ledger noEntries b b' → (∀ s, (w' s).Perm (w s)) →
      Move .nothing w b w' b'
  /-- An entry that was in hand is queued. -/
  | queue {w w' b b' this pt} : Ledger (entryFor this pt) b b' →
      (∀ s, (w' s ++ entryFor this pt s).Perm (w s)) → Move .nothing w b w' b'
  /-- `Publish` makes an entry, after packets have been allocated: it is entered or dropped,
  or stays in hand, or was not wanted. -/
  | publish {w w' b b' this msg t b₁ b₂} : Quiet b b₁ → Kept b b₁ → b₁.sessions = b.sessions →
      b₁.tokens = b.tokens → b₁.trace = b.trace → (msg < b.packets.next ∨ msg = b.packets.next) →
      b₁.ValidMsg msg → Session.Published this msg t b₁ b₂ →
      (Ledger (entryFor this ⟨msg, t⟩) b₂ b' ∧ (∀ s, (w' s).Perm (w s)) ∧
          (b.sessions this).isConnected ∧ ¬ (b.sessions this).isClosed ∨
        b' = b₂ ∧ (∀ s, (w' s).Perm (w s ++ entryFor this ⟨msg, t⟩ s)) ∧
          (b.sessions this).isConnected ∧ ¬ (b.sessions this).isClosed ∨
        b' = b₂ ∧ ∀ s, (w' s).Perm (w s)) →
      Move (.publish this msg) w b w' b'
  /-- `Send` on a running channel makes an entry of a new packet, or none. -/
  | send {w w' b b' this t p b₀ b₁ b₂} : Quiet b b₀ → b₀.sessions = b.sessions →
      b₀.tokens = b.tokens → b₀.publishes = b.publishes →
      b₀.packets = (b.packets.alloc p).2 → b₁.sessions = b₀.sessions →
      b₁.packets = b₀.packets → b₁.trace = b₀.trace → Allocated t b₀ b₁ →
      Session.Prepared this b.packets.next t p b₁ b₂ →
      Ledger (fun s => if Session.awaits p then entryFor this ⟨b.packets.next, t⟩ s else [])
        b₂ b' → (∀ s, (w' s).Perm (w s)) →
      Move (.send this p) w b w' b'

namespace Move

variable {n : Numbering} {w w' : SessionRef → List PacketAndToken} {b b' : Broker σ}

/-- `Publish` writes an id into a packet and changes no type. -/
theorem published_kindOf {this : SessionRef} {msg : PacketRef} {t : Option TokenRef}
    (h : Session.Published this msg t b b') (r : PacketRef) : b'.kindOf r = b.kindOf r := by
  rw [kindOf, kindOf, h.packets]
  by_cases hr : r = msg
  · rw [hr, Heap.modify_self]
    cases b.packets.cells msg with
    | _ => rfl
  · rw [Heap.modify_of_ne _ _ hr]

theorem published_kept {this : SessionRef} {msg : PacketRef} {t : Option TokenRef}
    (h : Session.Published this msg t b b') : Kept b b' := by
  refine ⟨?_, fun r _ => published_kindOf h r⟩
  rw [h.packets]
  exact le_refl _

/-- Packets stay, and stay packets of their type. -/
theorem kept (h : Move n w b w' b') (hb : b.InRange) : Kept b b' := by
  cases h with
  | quiet hl _ => exact hl.kept
  | queue hl _ => exact hl.kept
  | publish hq hkept hs ht htrace hold hvalid hpub hend =>
    refine hkept.trans ((published_kept hpub).trans ?_)
    rcases hend with ⟨hl, -, -⟩ | ⟨rfl, -, -⟩ | ⟨rfl, -⟩
    · exact hl.kept
    · exact ⟨le_refl _, fun _ _ => rfl⟩
    · exact ⟨le_refl _, fun _ _ => rfl⟩
  | @send _ _ _ _ this t p b₀ b₁ b₂ hq hs₀ ht₀ hpub₀ hp₀ hs₁ hp₁ htrace₁ halloc hprep hl hw =>
    refine (hq hb).kept.trans (Kept.trans ?_ hl.kept)
    refine ⟨?_, fun r _ => ?_⟩
    · rw [hprep.packets_next, hp₁]
    · rw [hprep.kinds, kindOf, kindOf, hp₁]

/-- The order of the entries in hand does not matter. -/
theorem perm {w₁ w₁' : SessionRef → List PacketAndToken} (h : Move n w b w' b')
    (hw : ∀ s, (w s).Perm (w₁ s)) (hw' : ∀ s, (w₁' s).Perm (w' s)) : Move n w₁ b w₁' b' := by
  have hend : ∀ {new : SessionRef → List PacketAndToken},
      (∀ s, (w' s).Perm (w s ++ new s)) → ∀ s, (w₁' s).Perm (w₁ s ++ new s) :=
    fun h s => (hw' s).trans ((h s).trans ((hw s).append_right _))
  cases h with
  | quiet hl hperm => exact .quiet hl fun s => (hw' s).trans ((hperm s).trans (hw s))
  | queue hl hperm =>
    exact .queue hl fun s => ((hw' s).append_right _).trans ((hperm s).trans (hw s))
  | publish hq hkept hs ht htrace hold hvalid hpub hcases =>
    refine .publish hq hkept hs ht htrace hold hvalid hpub ?_
    rcases hcases with ⟨hl, hperm, hopen⟩ | ⟨hb, hperm, hopen⟩ | ⟨hb, hperm⟩
    · exact .inl ⟨hl, fun s => (hw' s).trans ((hperm s).trans (hw s)), hopen⟩
    · exact .inr (.inl ⟨hb, hend hperm, hopen⟩)
    · exact .inr (.inr ⟨hb, fun s => (hw' s).trans ((hperm s).trans (hw s))⟩)
  | send hq hs₀ ht₀ hpub₀ hp₀ hs₁ hp₁ htrace₁ halloc hprep hl hperm =>
    exact .send hq hs₀ ht₀ hpub₀ hp₀ hs₁ hp₁ htrace₁ halloc hprep hl
      fun s => (hw' s).trans ((hperm s).trans (hw s))

/-- Every move keeps the tokens in order. -/
theorem sound (h : Move n w b w' b') (hw : Sound w b) : Sound w' b' := by
  cases h with
  | quiet hl hperm => exact (hw.quiet fun _ => hl).perm hperm
  | queue hl hperm => exact (hw.perm hperm).ledger hl
  | @publish _ _ _ _ this msg t b₁ b₂ hq hkept hs ht htrace hold hvalid hpub hend =>
    have hheld := (hw.quiet hq).published hpub hvalid.1
    rcases hend with ⟨hl, hperm, -⟩ | ⟨rfl, hperm, -⟩ | ⟨rfl, hperm⟩
    · exact (hheld.ledger hl).perm hperm
    · exact hheld.perm hperm
    · exact hheld.drop.perm hperm
  | @send _ _ _ _ this t p b₀ b₁ b₂ hq hs₀ ht₀ hpub₀ hp₀ hs₁ hp₁ htrace₁ halloc hprep hl hperm =>
    have hmsg : b.packets.next < b₀.packets.next := by
      rw [hp₀]
      exact Nat.lt_succ_self _
    exact ((hprep.sound w ((hw.quiet hq).enter hmsg hs₁ hp₁ halloc)).ledger hl).perm hperm

end Move
end MqttBroker

import MqttBroker.Solo.Typed

/-!
# What a session has heard

An answer of the peer is first a packet of the receive loop, then an operation with the packet or
with its id, and in the end the event that an entry was taken out of flight. What holds of every
answer when it is received holds in all of these places.
-/

namespace MqttBroker.Solo

variable {cfg : Config} {f f' : Flags} {x x' : Outbox}

/-- The packet that a turn receives. -/
def Turn.received : Solo.Turn → Option Inbound
  | .recvPacket p _ => some p
  | _ => none

/-- `P` holds of the type and the id of every answer that the session has received. -/
structure Heard (P : UInt8 → UInt16 → Prop) (s : Solo) : Prop where
  recvMsg : ∀ r cleared, .stop (.recvMsg r cleared) ∈ s.goroutines.ops →
    (s.outbox.packet r).kind ∉ numbered →
    P (s.outbox.packet r).kind (s.outbox.packet r).messageID
  onPubrec : ∀ id, .msg (.onPubrec id) ∈ s.goroutines.ops → P PacketType.pubrec id
  loadMessageID : ∀ r, .msg (.loadMessageID r) ∈ s.goroutines.ops →
    (s.outbox.packet r).kind ∉ numbered →
    P (s.outbox.packet r).kind (s.outbox.packet r).messageID
  removeInflight : ∀ r id, .msg (.removeInflight r id) ∈ s.goroutines.ops →
    (s.outbox.packet r).kind ∉ numbered → P (s.outbox.packet r).kind id
  removed : ∀ e r id, .removed e r id ∈ s.outbox.log → r < s.outbox.packets.next ∧
    ((s.outbox.packet r).kind ∉ numbered → P (s.outbox.packet r).kind id)

/-! ## Where the operations come from -/

section Handlers

variable {r : PacketRef} {cleared : Bool} {p : ControlPacket}

/-- The id that a PUBREC is handled with is its own. -/
theorem onPubrec_mem_procFrontRemoteMsg {id : UInt16}
    (h : .msg (.onPubrec id) ∈ procFrontRemoteMsg f r cleared p) :
    p.kind = PacketType.pubrec ∧ p.messageID = id := by
  cases p with
  | pubrec m =>
    obtain rfl := MsgOp.onPubrec.inj (Op.msg.inj (List.mem_singleton.mp h))
    exact ⟨rfl, rfl⟩
  | connect m =>
    simp only [procFrontRemoteMsg] at h
    split at h <;> exact absurd h (by simp)
  | publish m =>
    simp only [procFrontRemoteMsg] at h
    split at h
    · exact absurd h (by simp)
    · split at h <;> exact absurd h (by simp)
  | puback m | pubcomp m | suback m | unsuback m =>
    obtain ⟨o, ho, heq⟩ := List.mem_map.mp h
    rcases mem_onInflightDone ho with rfl | rfl <;> exact absurd heq (by simp)
  | _ => exact absurd h (by simp [procFrontRemoteMsg])

/-- A handler replies with a packet that is neither a PUBLISH nor a PUBREL. -/
theorem kind_of_reply_mem_procFrontRemoteMsg {q : ControlPacket}
    (h : .msg (.reply q) ∈ procFrontRemoteMsg f r cleared p) :
    q.kind ∉ [PacketType.publish, PacketType.pubrel] := by
  have hsingle : ∀ {q' : ControlPacket}, q'.kind ∉ [PacketType.publish, PacketType.pubrel] →
      Op.msg (.reply q) ∈ [Op.msg (.reply q')] →
      q.kind ∉ [PacketType.publish, PacketType.pubrel] := by
    intro q' hq' hmem
    rwa [MsgOp.reply.inj (Op.msg.inj (List.mem_singleton.mp hmem))]
  cases p with
  | connect m =>
    simp only [procFrontRemoteMsg] at h
    split at h
    · exact absurd h (by simp)
    · rcases List.mem_cons.mp h with heq | h
      · rw [MsgOp.reply.inj (Op.msg.inj heq), ControlPacket.kind]
        decide
      · exact absurd h (by simp)
  | publish m =>
    simp only [procFrontRemoteMsg] at h
    split at h
    · exact hsingle (by rw [ControlPacket.kind]; decide) h
    · split at h
      · exact hsingle (by rw [ControlPacket.kind]; decide) h
      · exact absurd h (by simp)
  | puback m | pubcomp m | suback m | unsuback m =>
    obtain ⟨o, ho, heq⟩ := List.mem_map.mp h
    rcases mem_onInflightDone ho with rfl | rfl <;> exact absurd heq (by simp)
  | pubrel m | subscribe m | unsubscribe m | pingreq m =>
    exact hsingle (by rw [ControlPacket.kind]; decide) h
  | _ => exact absurd h (by simp [procFrontRemoteMsg])

end Handlers

section Ended

variable {o : EndOp} {r : Ended}

/-- `onPubrec` is called by `RecvMsg`. -/
theorem onPubrec_of_run (h : o.run x f = some r) {id : UInt16}
    (hmem : .msg (.onPubrec id) ∈ r.next ++ Pool.ops r.spawned) :
    ∃ m cleared, o = .recvMsg m cleared ∧ (x.packet m).kind = PacketType.pubrec ∧
      (x.packet m).messageID = id := by
  obtain ⟨next, spawned, flags⟩ := r
  have hran : EndOp.Ran x f o next spawned flags := EndOp.ran_of_run h
  dsimp only at hmem
  cases hran with
  | @received m cleared _ _ =>
    rw [Pool.ops, List.flatten_nil, List.append_nil] at hmem
    exact ⟨m, cleared, rfl, onPubrec_mem_procFrontRemoteMsg hmem⟩
  | onTick timedOut _ =>
    rw [Pool.ops, List.flatten_nil, List.append_nil] at hmem
    rcases List.mem_append.mp hmem with hmem | hmem
    · split at hmem <;> exact absurd hmem (by simp)
    · exact absurd hmem (by simp)
  | clientTimeout l hl =>
    rw [Pool.ops, List.flatten_nil, List.append_nil] at hmem
    obtain ⟨o', ho', heq⟩ := List.mem_map.mp hmem
    obtain rfl := Op.msg.inj heq
    exact absurd (hl ho') (by simp)
  | _ => exact absurd hmem (by simp)

/-- The packets that other operations reply with are neither PUBLISH nor PUBREL. -/
theorem kind_of_reply_of_run (h : o.run x f = some r) {q : ControlPacket}
    (hmem : .msg (.reply q) ∈ r.next ++ Pool.ops r.spawned) :
    q.kind ∉ [PacketType.publish, PacketType.pubrel] := by
  obtain ⟨next, spawned, flags⟩ := r
  have hran : EndOp.Ran x f o next spawned flags := EndOp.ran_of_run h
  dsimp only at hmem
  cases hran with
  | received cleared _ _ =>
    rw [Pool.ops, List.flatten_nil, List.append_nil] at hmem
    exact kind_of_reply_mem_procFrontRemoteMsg hmem
  | onTick timedOut _ =>
    rw [Pool.ops, List.flatten_nil, List.append_nil] at hmem
    rcases List.mem_append.mp hmem with hmem | hmem
    · split at hmem <;> exact absurd hmem (by simp)
    · exact absurd hmem (by simp)
  | clientTimeout l hl =>
    rw [Pool.ops, List.flatten_nil, List.append_nil] at hmem
    obtain ⟨o', ho', heq⟩ := List.mem_map.mp hmem
    obtain rfl := Op.msg.inj heq
    rw [MsgOp.reply.inj (List.mem_singleton.mp (hl ho'))]
    decide
  | _ => exact absurd hmem (by simp)

end Ended

section Step

variable {s s' : Solo} {t : Solo.Turn} {old new : List Op}

/-- `RecvMsg` is called for a packet that was just received. -/
theorem Exchange.recvMsg (h : Exchange cfg s t old new x' f') {r : PacketRef} {cleared : Bool}
    (hmem : .stop (.recvMsg r cleared) ∈ new) :
    ∃ p, p ∈ t.received ∧ r = s.outbox.packets.next ∧ x' = s.outbox.newPacket p.1 := by
  cases h with
  | recvPacket p cleared' =>
    obtain ⟨rfl, -⟩ := EndOp.recvMsg.inj (Op.stop.inj (List.mem_singleton.mp hmem))
    exact ⟨p, rfl, rfl, rfl⟩
  | msg _ _ =>
    obtain ⟨o, -, heq⟩ := List.mem_map.mp hmem
    exact absurd heq (by simp)
  | stop _ hrun => exact (Begins.of_run hrun _ hmem).elim
  | round t new hnew =>
    obtain ⟨o, ho, heq⟩ := List.mem_map.mp hmem
    obtain rfl := Op.stop.inj heq
    exact (hnew _ ho).elim
  | _ => exact absurd hmem (by simp)

/-- The handler of a PUBREC comes from a PUBREC with the id. -/
theorem Exchange.onPubrec (h : Exchange cfg s t old new x' f') {id : UInt16}
    (hmem : .msg (.onPubrec id) ∈ new) :
    ∃ r cleared, .stop (.recvMsg r cleared) ∈ old ∧
      (s.outbox.packet r).kind = PacketType.pubrec ∧ (s.outbox.packet r).messageID = id := by
  cases h with
  | msg _ hran =>
    obtain ⟨o', ho', heq⟩ := List.mem_map.mp hmem
    obtain rfl := Op.msg.inj heq
    exact nomatch hran.follows ho'
  | stop _ hrun =>
    obtain ⟨r, cleared, rfl, hkind, hid⟩ := onPubrec_of_run hrun hmem
    exact ⟨r, cleared, List.mem_cons_self, hkind, hid⟩
  | round t new hnew =>
    obtain ⟨o, -, heq⟩ := List.mem_map.mp hmem
    exact absurd heq (by simp)
  | _ => exact absurd hmem (by simp)

/-- No handler sends a PUBLISH or a PUBREL with a `reply`. -/
theorem Exchange.kind_of_reply (h : Exchange cfg s t old new x' f') {q : ControlPacket}
    (hmem : .msg (.reply q) ∈ new) : q.kind ∉ [PacketType.publish, PacketType.pubrel] := by
  cases h with
  | msg _ hran =>
    obtain ⟨o', ho', heq⟩ := List.mem_map.mp hmem
    obtain rfl := Op.msg.inj heq
    exact nomatch hran.follows ho'
  | stop _ hrun => exact kind_of_reply_of_run hrun hmem
  | round t new hnew =>
    obtain ⟨o, -, heq⟩ := List.mem_map.mp hmem
    exact absurd heq (by simp)
  | _ => exact absurd hmem (by simp)

/-- An acknowledgement is looked up for a packet that was received, or for a PUBLISH that was
written. -/
theorem Exchange.loadMessageID (h : Exchange cfg s t old new x' f') {r : PacketRef}
    (hmem : .msg (.loadMessageID r) ∈ new) :
    (.msg (.onWrited r) ∈ old ∧ (s.outbox.packet r).kind = PacketType.publish) ∨
      ∃ cleared, .stop (.recvMsg r cleared) ∈ old := by
  cases h with
  | msg _ hran =>
    obtain ⟨o', ho', heq⟩ := List.mem_map.mp hmem
    obtain rfl := Op.msg.inj heq
    cases hran.follows ho' with
    | loadMessageID r =>
      cases hran with
      | writedQos0 hkind _ => exact .inl ⟨List.mem_cons_self, hkind⟩
      | writedOther r => exact absurd ho' List.not_mem_nil
  | stop _ hrun =>
    cases Begins.of_run hrun _ hmem with
    | loadMessageID hr =>
      obtain ⟨cleared, rfl⟩ := hr
      exact .inr ⟨cleared, List.mem_cons_self⟩
  | round t new hnew =>
    obtain ⟨o, -, heq⟩ := List.mem_map.mp hmem
    exact absurd heq (by simp)
  | _ => exact absurd hmem (by simp)

/-- An entry is looked up with the id of the acknowledgement. -/
theorem Exchange.removeInflight (h : Exchange cfg s t old new x' f') {r : PacketRef} {id : UInt16}
    (hmem : .msg (.removeInflight r id) ∈ new) :
    .msg (.loadMessageID r) ∈ old ∧ id = (s.outbox.packet r).messageID := by
  rcases h.origin hmem with ⟨o, l, hran, ho', -, rfl, -⟩ | hopens
  · cases hran.follows ho' with
    | removeInflight r => exact ⟨List.mem_cons_self, rfl⟩
  · cases hopens with
    | starts hstarts => exact nomatch hstarts

/-- What a step hears is what it receives: `P` may grow with it. -/
theorem heard_step {P P' : UInt8 → UInt16 → Prop} (hs : Typed s) (hh : Heard P s)
    (hgrow : ∀ kind id, P kind id → P' kind id)
    (hreceived : ∀ p ∈ t.received, p.1.kind ∉ numbered → P' p.1.kind p.1.messageID)
    (h : Solo.step cfg t s = some s') : Heard P' s' := by
  obtain ⟨old, new, hx, hex⟩ := exchange_of_step h
  have hold : ∀ o ∈ old, o ∈ s.goroutines.ops := fun o => hex.mem_old
  have hg := (hx.typed hs fun o ho => hs.ops o (hold o ho)).1
  -- an answer stays what it is
  have hsame : ∀ r < s.outbox.packets.next, (s'.outbox.packet r).kind ∉ numbered →
      (s.outbox.packet r).kind ∉ numbered ∧ s'.outbox.packet r = s.outbox.packet r := by
    intro r hr hkind
    obtain ⟨hk, -, hpacket⟩ := hg.packet r hr
    rw [hk] at hkind
    exact ⟨hkind, hpacket hkind⟩
  constructor
  · intro r cleared hmem hkind
    rcases hex.mem_or hmem with hnew | hmem
    · obtain ⟨p, hp, rfl, hx'⟩ := hx.recvMsg hnew
      have hpacket : s'.outbox.packet s.outbox.packets.next = p.1 := by
        rw [hx']
        exact Outbox.newPacket_self p.1 s.outbox
      rw [hpacket] at hkind ⊢
      exact hreceived p hp hkind
    · obtain ⟨hkind', hpacket⟩ := hsame r (hs.ops _ hmem) hkind
      rw [hpacket]
      exact hgrow _ _ (hh.recvMsg r cleared hmem hkind')
  · intro id hmem
    rcases hex.mem_or hmem with hnew | hmem
    · obtain ⟨r, cleared, hmem, hkind, hid⟩ := hx.onPubrec hnew
      have hpubrec := hh.recvMsg r cleared (hold _ hmem) (by rw [hkind]; decide)
      rw [hkind, hid] at hpubrec
      exact hgrow _ _ hpubrec
    · exact hgrow _ _ (hh.onPubrec id hmem)
  · intro r hmem hkind
    rcases hex.mem_or hmem with hnew | hmem
    · rcases hx.loadMessageID hnew with ⟨hmem, hpublish⟩ | ⟨cleared, hmem⟩
      · obtain ⟨hkind', -⟩ := hsame r (hs.ops _ (hold _ hmem)) hkind
        rw [hpublish] at hkind'
        exact absurd (by decide) hkind'
      · obtain ⟨hkind', hpacket⟩ := hsame r (hs.ops _ (hold _ hmem)) hkind
        rw [hpacket]
        exact hgrow _ _ (hh.recvMsg r cleared (hold _ hmem) hkind')
    · obtain ⟨hkind', hpacket⟩ := hsame r (hs.ops _ hmem) hkind
      rw [hpacket]
      exact hgrow _ _ (hh.loadMessageID r hmem hkind')
  · intro r id hmem hkind
    rcases hex.mem_or hmem with hnew | hmem
    · obtain ⟨hload, rfl⟩ := hx.removeInflight hnew
      obtain ⟨hkind', hpacket⟩ := hsame r (hs.ops _ (hold _ hload)) hkind
      rw [hpacket]
      exact hgrow _ _ (hh.loadMessageID r (hold _ hload) hkind')
    · obtain ⟨hkind', hpacket⟩ := hsame r (hs.ops _ hmem) hkind
      rw [hpacket]
      exact hgrow _ _ (hh.removeInflight r id hmem hkind')
  · intro e r id hmem
    have hbefore : r < s.outbox.packets.next ∧
        ((s.outbox.packet r).kind ∉ numbered → P (s.outbox.packet r).kind id) := by
      refine hx.log_induct (P := fun l => .removed e r id ∈ l → r < s.outbox.packets.next ∧
        ((s.outbox.packet r).kind ∉ numbered → P (s.outbox.packet r).kind id))
        (hh.removed e r id) (fun ev l hev hl hmem => ?_) hmem
      rcases List.mem_cons.mp hmem with rfl | hmem
      · cases hev with
        | @removed _ _ id' hop hfound =>
          have hfind := List.find?_some hfound
          have hid : s.outbox.idOf e = id' := of_decide_eq_true hfind
          rw [hid]
          exact ⟨hs.ops _ (hold _ hop), hh.removeInflight r id' (hold _ hop)⟩
      · exact hl hmem
    refine ⟨hg.lt_packets hbefore.1, fun hkind => ?_⟩
    obtain ⟨hkind', hpacket⟩ := hsame r hbefore.1 hkind
    rw [hpacket]
    exact hgrow _ _ (hbefore.2 hkind')

theorem Heard.mono {P P' : UInt8 → UInt16 → Prop} (h : Heard P s)
    (hgrow : ∀ kind id, P kind id → P' kind id) : Heard P' s where
  recvMsg r cleared hmem hkind := hgrow _ _ (h.recvMsg r cleared hmem hkind)
  onPubrec id hmem := hgrow _ _ (h.onPubrec id hmem)
  loadMessageID r hmem hkind := hgrow _ _ (h.loadMessageID r hmem hkind)
  removeInflight r id hmem hkind := hgrow _ _ (h.removeInflight r id hmem hkind)
  removed e r id hmem :=
    ⟨(h.removed e r id hmem).1, fun hkind => hgrow _ _ ((h.removed e r id hmem).2 hkind)⟩

theorem heard_initial (P : UInt8 → UInt16 → Prop) (isServer : Bool) (now : ℤ) :
    Heard P (Solo.initial isServer now) := by
  constructor <;> simp [Solo.initial]

end Step
end MqttBroker.Solo

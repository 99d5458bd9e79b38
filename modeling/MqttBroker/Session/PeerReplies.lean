import MqttBroker.Packets.Received
import MqttBroker.Session.Replies

/-!
# The replies as the peer reads them

The replies to the requests of a peer, written one after another, and read by the peer with
`recvRun`. They can be read up to the first UNSUBACK: its header says type 0, for which
`ReadPacket` returns an error, and with that the peer gives the connection up.
-/

namespace MqttBroker

/-- The error of `ReadPacket` for a header without a packet type. -/
def badData : GoError := .new "Bad data from client"

/-! ## One reply -/

/-- The replies can be read, but for the UNSUBACK. -/
theorem encodable_reply {p q : ControlPacket} (hp : p.Fits) (hreply : p.reply = some q)
    (hkind : p.kind ≠ PacketType.unsubscribe) : q.written.Encodable := by
  have hzero : (0 : UInt8) < 4 := by decide
  have hid : 2 < 2 ^ 28 := by decide
  cases p with
  | subscribe m =>
    obtain rfl := Option.some.inj hreply
    have hcount : m.topics.length ≤ m.header.remainingLength - 2 := hp.fields.count
    have hpaired : m.topics.length = m.qoss.length := hp.fields.paired
    have hlength : m.header.remainingLength < 2 ^ 28 := hp.remainingLength
    refine ControlPacket.encodable_written rfl rfl hzero rfl trivial rfl ?_
    rw [SubackPacket.body, List.length_append, length_encodeUint16]
    show 2 + m.qoss.length < 2 ^ 28
    omega
  | publish m =>
    rw [ControlPacket.reply] at hreply
    by_cases hqos : m.header.qos = 1
    · rw [if_pos hqos] at hreply
      obtain rfl := Option.some.inj hreply
      exact ControlPacket.encodable_written rfl rfl hzero rfl trivial rfl hid
    · rw [if_neg hqos] at hreply
      obtain rfl := Option.some.inj hreply
      exact ControlPacket.encodable_written rfl rfl hzero rfl trivial rfl hid
  | unsubscribe m => exact absurd rfl hkind
  | pubrec m =>
    obtain rfl := Option.some.inj hreply
    exact ControlPacket.encodable_written rfl rfl (show (1 : UInt8) < 4 by decide) rfl trivial rfl
      hid
  | pubrel m =>
    obtain rfl := Option.some.inj hreply
    exact ControlPacket.encodable_written rfl rfl hzero rfl trivial rfl hid
  | pingreq fh =>
    obtain rfl := Option.some.inj hreply
    exact ControlPacket.encodable_written rfl rfl hzero rfl trivial rfl (Nat.two_pow_pos 28)
  | _ => exact absurd hreply (by simp [ControlPacket.reply])

theorem newControlPacketWithHeader_zero {fh : FixedHeader} (h : fh.messageType = 0) :
    newControlPacketWithHeader fh = none := by
  obtain ⟨messageType, dup, qos, retain, remainingLength⟩ := fh
  obtain rfl : messageType = 0 := h
  rfl

/-- Whatever follows it, a first byte with the type 0 is an error. -/
theorem recvRead_badData {b : UInt8} (h : (FixedHeader.ofTypeAndFlags b).messageType = 0)
    (rest : GoString) (err : GoError) :
    ∃ s, recvRead ByteStream.reader ⟨b :: rest, err⟩ = (.error badData, s) := by
  have hread := readPacket_cons b rest err
  have hzero : newControlPacketWithHeader
      (FixedHeader.unpack ByteStream.reader b ⟨rest, err⟩).1 = none :=
    newControlPacketWithHeader_zero h
  rw [readBody, hzero] at hread
  exact ⟨_, recvRead_of_some hread⟩

/-- The UNSUBACK of `onUnsubscribe`. -/
theorem recvRead_unsuback (messageID : UInt16) (rest : GoString) (err : GoError) :
    ∃ s, recvRead ByteStream.reader
      ⟨(ControlPacket.unsuback { header := {}, messageID }).written.wire ++ rest, err⟩ =
        (.error badData, s) :=
  recvRead_badData (b := FixedHeader.typeAndFlags {}) (by decide) _ err

/-- The UNSUBACK is the reply to an UNSUBSCRIBE, and no other reply. -/
theorem kind_reply_eq_unsuback {p q : ControlPacket} (hreply : p.reply = some q) :
    q.kind = PacketType.unsuback ↔ p.kind = PacketType.unsubscribe := by
  cases p with
  | publish m =>
    rw [ControlPacket.reply] at hreply
    by_cases hqos : m.header.qos = 1
    · rw [if_pos hqos] at hreply
      obtain rfl := Option.some.inj hreply
      simp only [ControlPacket.kind]
      decide
    · rw [if_neg hqos] at hreply
      obtain rfl := Option.some.inj hreply
      simp only [ControlPacket.kind]
      decide
  | unsubscribe m =>
    obtain rfl := Option.some.inj hreply
    exact iff_of_true rfl rfl
  | subscribe m | pubrec m | pubrel m | pingreq m =>
    obtain rfl := Option.some.inj hreply
    simp only [ControlPacket.kind]
    decide
  | _ => exact absurd hreply (by simp [ControlPacket.reply])

/-! ## All replies -/

/-- The packets before the first UNSUBACK. -/
def beforeUnsuback (sent : List ControlPacket) : List ControlPacket :=
  sent.takeWhile fun q => q.kind ≠ PacketType.unsuback

/-- By induction on the packets, of which the first UNSUBACK is the last one to be read. -/
theorem recvRun_unsuback {sent : List ControlPacket}
    (hencodable : ∀ q ∈ sent, q.kind ≠ PacketType.unsuback → q.written.Encodable)
    (hunsuback : ∀ q ∈ sent, q.kind = PacketType.unsuback →
      ∃ messageID, q = .unsuback { header := {}, messageID })
    (err : GoError) :
    let s : ByteStream := ⟨sent.flatMap fun q => q.written.wire, err⟩
    (recvRun ByteStream.shows_self s).1 = (beforeUnsuback sent).map ControlPacket.written ∧
      (recvRun ByteStream.shows_self s).2.1 =
        if sent.any fun q => q.kind = PacketType.unsuback then badData else err := by
  induction sent with
  | nil =>
    have hend : recvRun ByteStream.shows_self ⟨[], err⟩ = ([], err, ⟨[], err⟩) :=
      MessageReader.readAll_of_error (R := packetReader ByteStream.shows_self) (recvRead_nil err)
    dsimp only
    rw [List.flatMap_nil, hend]
    exact ⟨rfl, rfl⟩
  | cons q sent ih =>
    obtain ⟨hpackets, herr⟩ := ih (fun q' hq' => hencodable q' (List.mem_cons_of_mem q hq'))
      (fun q' hq' => hunsuback q' (List.mem_cons_of_mem q hq'))
    dsimp only
    rw [List.flatMap_cons]
    by_cases hkind : q.kind = PacketType.unsuback
    · obtain ⟨messageID, rfl⟩ := hunsuback q List.mem_cons_self hkind
      obtain ⟨s, hbad⟩ := recvRead_unsuback messageID (sent.flatMap fun q => q.written.wire) err
      have hend := MessageReader.readAll_of_error (R := packetReader ByteStream.shows_self) hbad
      rw [recvRun, hend]
      exact ⟨rfl, rfl⟩
    · have hread := ControlPacket.recvRead_wire (hencodable q List.mem_cons_self hkind)
        (sent.flatMap fun q => q.written.wire) err
      have hrest := MessageReader.readAll_of_ok (R := packetReader ByteStream.shows_self) hread
      have hbefore : beforeUnsuback (q :: sent) = q :: beforeUnsuback sent :=
        List.takeWhile_cons_of_pos (decide_eq_true hkind)
      rw [recvRun, hrest, hbefore, List.map_cons, List.any_cons, decide_eq_false hkind,
        Bool.false_or]
      exact ⟨congrArg (q.written :: ·) hpackets, herr⟩

/-- Every reply belongs to a request. -/
theorem exists_request {handled replies : List ControlPacket}
    (h : List.Forall₂ (fun p q => p.reply = some q) handled replies) {q : ControlPacket}
    (hq : q ∈ replies) : ∃ p ∈ handled, p.reply = some q := by
  induction h with
  | nil => exact absurd hq List.not_mem_nil
  | @cons p q' handled replies hreply _ ih =>
    obtain rfl | hq := List.mem_cons.mp hq
    · exact ⟨p, List.mem_cons_self, hreply⟩
    · obtain ⟨p', hp', hreply'⟩ := ih hq
      exact ⟨p', List.mem_cons_of_mem p hp', hreply'⟩

theorem any_unsuback {handled replies : List ControlPacket}
    (h : List.Forall₂ (fun p q => p.reply = some q) handled replies) :
    (replies.any fun q => q.kind = PacketType.unsuback) =
      handled.any fun p => p.kind = PacketType.unsubscribe := by
  induction h with
  | nil => rfl
  | @cons p q handled replies hreply _ ih =>
    rw [List.any_cons, List.any_cons, ih, decide_eq_decide.mpr (kind_reply_eq_unsuback hreply)]

namespace Session

variable {σ : Type} (cfg : Config) {S : StoreMgr σ} {this : SessionRef} {b : Broker σ}

/-- The peer reads what the session has sent, replies and messages in any order, up to the first
UNSUBACK. Then it gives the connection up, and what was sent after it is lost. -/
theorem peer_reads_replies (hS : S.Clears) (ps : List (Inbound × SubscriberOrder))
    (hps : ∀ p ∈ ps.map fun pp => pp.1.1, p.isRequest = true)
    (hfits : ∀ p ∈ ps.map fun pp => pp.1.1, p.Fits) (hb : Serving this b)
    {ρ : Type} {R : IoReader ρ} {f : ρ → ByteStream} (h : R.Shows ByteStream.reader f) :
    ∃ handled new, handled <+: ps.map (fun pp => pp.1.1) ∧
      (recvMsgs cfg S this ps b).2.replies this = b.replies this ++ new ∧
      ((recvMsgs cfg S this ps b).1 = .ok () ∧ handled = ps.map (fun pp => pp.1.1) ∨
        ∃ s pt, (recvMsgs cfg S this ps b).1 = .error (.blocked s pt)) ∧
      ∀ sent, (sent.filter fun q => q.kind ≠ PacketType.publish) = new →
        (∀ q ∈ sent, q.kind = PacketType.publish → q.written.Encodable) →
        ∀ r err, f r = ⟨sent.flatMap fun q => q.written.wire, err⟩ →
          (recvRun h r).1 = (beforeUnsuback sent).map ControlPacket.written ∧
          (recvRun h r).2.1 =
            if handled.any fun p => p.kind = PacketType.unsubscribe then badData else err := by
  obtain ⟨handled, new, hpre, hnew, hall, hend⟩ := recvMsgs_replies cfg hS ps hps hb
  refine ⟨handled, new, hpre, hnew, hend, fun sent hsent hpublish r err hr => ?_⟩
  have hreply : ∀ q ∈ sent, q.kind ≠ PacketType.publish → ∃ p ∈ handled, p.reply = some q := by
    intro q hq hkind
    have hmem : q ∈ new := by
      rw [← hsent]
      exact List.mem_filter.mpr ⟨hq, decide_eq_true hkind⟩
    exact exists_request hall hmem
  have hne : PacketType.unsuback ≠ PacketType.publish := by decide
  have hencodable : ∀ q ∈ sent, q.kind ≠ PacketType.unsuback → q.written.Encodable := by
    intro q hq hkind
    by_cases hpub : q.kind = PacketType.publish
    · exact hpublish q hq hpub
    · obtain ⟨p, hp, hpq⟩ := hreply q hq hpub
      exact encodable_reply (hfits p (hpre.subset hp)) hpq
        (fun hun => hkind ((kind_reply_eq_unsuback hpq).mpr hun))
  have hunsuback : ∀ q ∈ sent, q.kind = PacketType.unsuback →
      ∃ messageID, q = .unsuback { header := {}, messageID } := by
    intro q hq hkind
    obtain ⟨p, _, hpq⟩ := hreply q hq (by rw [hkind]; exact hne)
    cases p with
    | unsubscribe m => exact ⟨m.messageID, (Option.some.inj hpq).symm⟩
    | _ =>
      have hun := (kind_reply_eq_unsuback hpq).mp hkind
      rw [ControlPacket.kind] at hun
      exact absurd hun (by decide)
  obtain ⟨hpackets, herr⟩ := recvRun_unsuback hencodable hunsuback err
  have hany : (sent.any fun q => q.kind = PacketType.unsuback) =
      handled.any fun p => p.kind = PacketType.unsubscribe := by
    rw [← any_unsuback hall, ← hsent, List.any_filter]
    congr 1
    funext q
    by_cases hkind : q.kind = PacketType.unsuback
    · rw [hkind]
      rfl
    · rw [decide_eq_false hkind, Bool.and_false]
  have hview := recvRun_shows h r
  rw [hr] at hview
  rw [hview] at hpackets herr
  rw [hany] at herr
  exact ⟨hpackets, herr⟩

/-- A PINGREQ after an UNSUBSCRIBE: the PINGRESP is never read. -/
theorem peer_reads_replies_unsubscribe : ∃ q : ControlPacket,
    (recvMsgs {} (MemStore.storeMgr default) 0
      [(⟨_, unsubscribeX_decoded⟩, RangeOrder.ascending),
        (⟨.pingreq newPingreq, .other _ rfl (by decide)⟩, RangeOrder.ascending)]
      (afterConnect default)).2.replies 0 =
        (afterConnect default).replies 0 ++ [q, .pingresp newPingresp] ∧
    ∀ r, Conn.stream r = ⟨q.written.wire ++ (ControlPacket.pingresp newPingresp).written.wire,
      errEof⟩ → (recvRun conn_shows_stream r).1 = [] ∧
        (recvRun conn_shows_stream r).2.1 = badData := by
  have hfits : ∀ p ∈ [unsubscribeX, .pingreq newPingreq], p.Fits := by
    intro p hp
    obtain rfl | hp := List.mem_cons.mp hp
    · exact ⟨rfl, by decide, by decide, ⟨by decide⟩⟩
    · rw [List.mem_singleton.mp hp]
      exact encodable_pingreq.toFits
  obtain ⟨handled, new, -, hnew, hend, hread⟩ := peer_reads_replies {} (memStore_clears default)
    [(⟨_, unsubscribeX_decoded⟩, RangeOrder.ascending),
      (⟨.pingreq newPingreq, .other _ rfl (by decide)⟩, RangeOrder.ascending)]
    (by decide) hfits serving_afterConnect conn_shows_stream
  have hrun : (recvMsgs {} (MemStore.storeMgr default) 0
      [(⟨_, unsubscribeX_decoded⟩, RangeOrder.ascending),
        (⟨.pingreq newPingreq, .other _ rfl (by decide)⟩, RangeOrder.ascending)]
      (afterConnect default)).1 = .ok () ∧
      (recvMsgs {} (MemStore.storeMgr default) 0
        [(⟨_, unsubscribeX_decoded⟩, RangeOrder.ascending),
          (⟨.pingreq newPingreq, .other _ rfl (by decide)⟩, RangeOrder.ascending)]
        (afterConnect default)).2.replies 0 = (afterConnect default).replies 0 ++
          [.unsuback { header := {}, messageID := 2 }, .pingresp newPingresp] := by
    decide +kernel
  rcases hend with ⟨-, hall⟩ | ⟨s, pt, he⟩
  · obtain rfl := List.append_cancel_left (hnew.symm.trans hrun.2)
    refine ⟨_, hrun.2, fun r hr => ?_⟩
    have hstream := hread [.unsuback { header := {}, messageID := 2 }, .pingresp newPingresp] rfl
      (fun q hq hkind => ?_) r errEof ?_
    · rw [hall] at hstream
      exact hstream
    · exact absurd hkind ((show ∀ q ∈ [.unsuback { header := {}, messageID := 2 },
        .pingresp newPingresp], ControlPacket.kind q ≠ PacketType.publish by decide) q hq)
    · rw [hr, List.flatMap_cons, List.flatMap_singleton]
  · exact absurd (hrun.1.symm.trans he) (by simp)

end Session
end MqttBroker

import MqttBroker.Lib.MessageReader
import MqttBroker.Packets.Accepted

/-!
# The packets of a connection

`recvRun` calls `ReadPacket` until it returns an error, and passes the packets on. What it passes on
is a function of the bytes on the connection: the packets that were written, as far as the bytes go.
A connection that ends in the length of a fixed header is the exception. `decodeLength` drops the
error of its reads, and if the digits that have arrived make the length zero, then `ReadPacket`
returns a packet that nobody has sent.
-/

namespace MqttBroker

/-! ## The loop -/

section Read

variable {ρ : Type} (R : IoReader ρ)

/-- `ReadPacket` returns a packet or an error. -/
theorem isSome_readPacket {r : ρ} (h : (readPacket R r).1.2 = none) :
    (readPacket R r).1.1.isSome := by
  unfold readPacket at h ⊢
  split at h
  · exact absurd h (Option.some_ne_none _)
  · dsimp only at h ⊢
    unfold readBody at h ⊢
    split at h
    · exact absurd h (Option.some_ne_none _)
    · split at h
      · exact absurd h (Option.some_ne_none _)
      · rfl

/-- A round of `recvRun`: `ReadPacket`, and the comparison of its error with nil. -/
def recvRead (r : ρ) : Except GoError ControlPacket × ρ :=
  if h : (readPacket R r).1.2 = none then
    (.ok ((readPacket R r).1.1.get (isSome_readPacket R h)), (readPacket R r).2)
  else
    (.error ((readPacket R r).1.2.get (Option.isSome_iff_ne_none.mpr h)), (readPacket R r).2)

variable {R} {r r' : ρ} {p : ControlPacket}

theorem recvRead_of_none (h : readPacket R r = ((some p, none), r')) :
    recvRead R r = (.ok p, r') := by
  unfold recvRead
  rw [dif_pos (by rw [h])]
  simp only [h, Option.get_some]

theorem recvRead_of_some {cp : Option ControlPacket} {err : GoError}
    (h : readPacket R r = ((cp, some err), r')) : recvRead R r = (.error err, r') := by
  unfold recvRead
  rw [dif_neg (by rw [h]; exact Option.some_ne_none _)]
  simp only [h, Option.get_some]

theorem readPacket_of_recvRead (h : recvRead R r = (.ok p, r')) :
    readPacket R r = ((some p, none), r') := by
  rcases hread : readPacket R r with ⟨⟨cp, err⟩, rest⟩
  cases err with
  | some err =>
    rw [recvRead_of_some hread] at h
    exact nomatch h
  | none =>
    have hsome := isSome_readPacket R (r := r) (by rw [hread])
    rw [hread] at hsome
    obtain ⟨p', rfl⟩ := Option.isSome_iff_exists.mp hsome
    rw [recvRead_of_none hread] at h
    obtain ⟨hp, rfl⟩ := Prod.mk.inj h
    rw [Except.ok.inj hp]

variable {f : ρ → ByteStream}

/-- A round on a reader is a round on the stream that it shows. -/
theorem recvRead_shows (h : R.Shows ByteStream.reader f) (r : ρ) :
    recvRead ByteStream.reader (f r) = ((recvRead R r).1, f (recvRead R r).2) := by
  have hview := readPacket_shows h r
  rcases hread : readPacket R r with ⟨⟨cp, err⟩, rest⟩
  rw [hread] at hview
  cases err with
  | some err => rw [recvRead_of_some hread, recvRead_of_some hview]
  | none =>
    have hsome := isSome_readPacket R (r := r) (by rw [hread])
    rw [hread] at hsome
    obtain ⟨p', rfl⟩ := Option.isSome_iff_exists.mp hsome
    rw [recvRead_of_none hread, recvRead_of_none hview]

/-- Every packet takes a byte at least. -/
theorem recvRead_shortens (h : R.Shows ByteStream.reader f) (hread : recvRead R r = (.ok p, r')) :
    (f r').bytes.length < (f r).bytes.length := by
  have hview := recvRead_shows h r
  rw [hread] at hview
  obtain ⟨header, body, hs, hone, _⟩ := readPacket_takes (readPacket_of_recvRead hview)
  have hlength := congrArg (fun s => s.bytes.length) hs
  dsimp only at hlength
  rw [List.length_append, List.length_append] at hlength
  omega

/-- The rounds of `recvRun`. -/
def packetReader (h : R.Shows ByteStream.reader f) : MessageReader ρ ControlPacket GoError where
  read := recvRead R
  size r := (f r).bytes.length
  shortens := recvRead_shortens h

/-- `recvRun`: the packets that it passes to `RecvMsg`, the error that ends it, and the reader
after it. -/
def recvRun (h : R.Shows ByteStream.reader f) (r : ρ) : List ControlPacket × GoError × ρ :=
  (packetReader h).readAll r

end Read

theorem ByteStream.shows_self : ByteStream.reader.Shows ByteStream.reader id := fun _ _ => rfl

/-- The packets on a stream. -/
def received (s : ByteStream) : List ControlPacket := (recvRun ByteStream.shows_self s).1

/-- `recvRun` on a reader passes on the packets of the stream that the reader shows. -/
theorem recvRun_shows {ρ : Type} {R : IoReader ρ} {f : ρ → ByteStream}
    (h : R.Shows ByteStream.reader f) (r : ρ) :
    recvRun ByteStream.shows_self (f r) =
      ((recvRun h r).1, (recvRun h r).2.1, f (recvRun h r).2.2) :=
  MessageReader.readAll_view (R := packetReader h) (packetReader ByteStream.shows_self)
    (recvRead_shows h) r

/-! ## Whole packets -/

namespace ControlPacket

/-- The bytes of a packet, where `Write` does not panic. -/
def wire (p : ControlPacket) : GoString :=
  match p.body with
  | .ok body => p.header.pack ++ body
  | .error _ => []

theorem wire_of_body {p : ControlPacket} {body : GoString} (h : p.body = .ok body) :
    p.wire = p.header.pack ++ body := by
  rw [wire, h]

/-- What `Write` has written are the bytes of the packet as it is afterwards. -/
theorem wire_of_write {p p' : ControlPacket} {bytes : GoString} (h : p.write = .ok (bytes, p')) :
    bytes = p'.wire := by
  obtain ⟨body, hbody, _, rfl⟩ := write_eq_ok h
  exact (wire_of_body hbody).symm

/-- The packet as `Write` leaves it, where it does not panic. -/
def written (p : ControlPacket) : ControlPacket :=
  match p.body with
  | .ok body => p.setRemainingLength body.length
  | .error _ => p

theorem type_setRemainingLength (n : ℕ) (p : ControlPacket) :
    (p.setRemainingLength n).type = p.type ∧ (p.setRemainingLength n).kind = p.kind := by
  cases p <;> exact ⟨rfl, rfl⟩

theorem qos_setRemainingLength (n : ℕ) (p : ControlPacket) :
    (p.setRemainingLength n).header.qos = p.header.qos ∧
      (p.setRemainingLength n).reservedBit = p.reservedBit := by
  cases p <;> exact ⟨rfl, rfl⟩

/-- A packet that is not too long for its length, and whose fields fit. -/
theorem encodable_written {p : ControlPacket} {body : GoString} (hbody : p.body = .ok body)
    (htyped : p.type = p.kind) (hqos : p.header.qos < 4) (hbit : p.reservedBit = 0)
    (hfields : p.written.FieldsFit) (hremaining : p.written.header.remainingLength = body.length)
    (hlength : body.length < 2 ^ 28) : p.written.Encodable := by
  have hwritten : p.written = p.setRemainingLength body.length := by
    rw [written, hbody]
  obtain ⟨htype, hkind⟩ := p.type_setRemainingLength body.length
  obtain ⟨hqos', hbit'⟩ := p.qos_setRemainingLength body.length
  rw [hwritten] at hfields hremaining ⊢
  exact
    { typed := htype.trans (htyped.trans hkind.symm)
      qos := by
        rw [hqos']
        exact hqos
      remainingLength := by
        rw [hremaining]
        exact hlength
      fields := hfields
      reservedBit := hbit'.trans hbit
      body := ⟨body, (body_setRemainingLength body.length p).trans hbody, hremaining.symm⟩ }

theorem write_written {p : ControlPacket} {body : GoString} (h : p.body = .ok body) :
    p.write = .ok (p.written.wire, p.written) := by
  have hwritten : p.written = p.setRemainingLength body.length := by
    rw [written, h]
  rw [hwritten, wire_of_body ((body_setRemainingLength body.length p).trans h), write, h]
  rfl

theorem wire_plain (p : ControlPacket) : p.plain.wire = p.wire := by
  unfold wire
  rw [body_plain, header_plain]

/-- A round of `recvRun` takes one encodable packet. -/
theorem recvRead_wire {p : ControlPacket} (h : p.Encodable) (rest : GoString) (err : GoError) :
    recvRead ByteStream.reader ⟨p.wire ++ rest, err⟩ = (.ok p, ⟨rest, err⟩) := by
  obtain ⟨body, hbody, _⟩ := h.body
  rw [wire_of_body hbody]
  exact recvRead_of_none (readPacket_append h hbody rest err)

end ControlPacket

/-- At the end of the stream its error is returned. -/
theorem recvRead_nil (err : GoError) :
    recvRead ByteStream.reader ⟨[], err⟩ = (.error err, ⟨[], err⟩) := by
  have hread : readPacket ByteStream.reader ⟨[], err⟩ = ((none, some err), ⟨[], err⟩) := by
    rw [readPacket, ByteStream.reader_readFull, ByteStream.readFull_nil]
  exact recvRead_of_some hread

theorem received_of_error {s s' : ByteStream} {err : GoError}
    (h : recvRead ByteStream.reader s = (.error err, s')) : received s = [] :=
  congrArg Prod.fst
    (MessageReader.readAll_of_error (R := packetReader ByteStream.shows_self) h)

theorem received_of_ok {s s' : ByteStream} {p : ControlPacket}
    (h : recvRead ByteStream.reader s = (.ok p, s')) : received s = p :: received s' :=
  congrArg Prod.fst
    (MessageReader.readAll_of_ok (R := packetReader ByteStream.shows_self) h)

theorem received_nil (err : GoError) : received ⟨[], err⟩ = [] :=
  received_of_error (recvRead_nil err)

/-- Packets that have been written are received, and then what is behind them. -/
theorem recvRun_append {packets : List ControlPacket} (h : ∀ p ∈ packets, p.Encodable)
    (rest : GoString) (err : GoError) :
    recvRun ByteStream.shows_self ⟨packets.flatMap ControlPacket.wire ++ rest, err⟩ =
      (packets ++ received ⟨rest, err⟩, (recvRun ByteStream.shows_self ⟨rest, err⟩).2) := by
  have hfold := MessageReader.readAll_foldr (R := packetReader ByteStream.shows_self)
    (fun p s => ⟨p.wire ++ s.bytes, s.err⟩) packets
    (fun p hp s => ControlPacket.recvRead_wire (h p hp) s.bytes s.err) ⟨rest, err⟩
  have hbytes : packets.foldr (fun p s => (⟨p.wire ++ s.bytes, s.err⟩ : ByteStream)) ⟨rest, err⟩ =
      ⟨packets.flatMap ControlPacket.wire ++ rest, err⟩ := by
    clear hfold h
    induction packets with
    | nil => rfl
    | cons p packets ih =>
      rw [List.foldr_cons, ih, List.flatMap_cons, List.append_assoc]
  rw [hbytes] at hfold
  exact hfold

/-! ## A packet that the end of the stream cuts off -/

namespace ControlPacket

/-- What `ReadPacket` makes of the header of a packet when it reads the length zero: a packet
whose other fields are zero. -/
def phantom (p : ControlPacket) : ControlPacket := ((p.setRemainingLength 0).blank.unpack []).1

/-- The first `n` bytes of a packet are read as another packet: they end in the length, and the
digits that are there are zero. The other digits would be those of the quotient. -/
def HasPhantom (p : ControlPacket) (n : ℕ) : Prop :=
  0 < n ∧ n ≤ (encodeLength p.header.remainingLength).length ∧
    128 ^ (n - 1) ∣ p.header.remainingLength ∧ p.kind ≠ PacketType.publish

instance (p : ControlPacket) (n : ℕ) : Decidable (p.HasPhantom n) :=
  inferInstanceAs (Decidable (_ ∧ _ ∧ _ ∧ _))

theorem kind_phantom (p : ControlPacket) : p.phantom.kind = p.kind := by
  cases p <;> rfl

/-- The header that is read with the length zero. -/
theorem header_setRemainingLength_zero {p : ControlPacket} (h : p.Encodable) :
    (p.setRemainingLength 0).header = { p.header with remainingLength := 0 } := by
  have hping : ∀ {fh : FixedHeader} {body : GoString}, (.ok [] : Except Panic GoString) = .ok body →
      body.length = fh.remainingLength → fh = { fh with remainingLength := 0 } := by
    intro fh body hbody hlength
    obtain rfl := Except.ok.inj hbody
    rw [List.length_nil] at hlength
    rw [hlength]
  obtain ⟨body, hbody, hlength⟩ := h.body
  cases p with
  | pingreq fh => exact hping hbody hlength
  | pingresp fh => exact hping hbody hlength
  | disconnect fh => exact hping hbody hlength
  | _ => rfl

/-- An empty body is too short for a PUBLISH only. -/
theorem unpack_nil_iff (p : ControlPacket) :
    ((p.setRemainingLength 0).blank.unpack []).2 = none ↔ p.kind ≠ PacketType.publish := by
  cases p with
  | publish p =>
    have hsome : ∀ fh : FixedHeader, fh.remainingLength = 0 →
        (PublishPacket.unpack fh []).2 ≠ none := by
      intro fh hzero hnone
      have hlt : fh.remainingLength < PublishPacket.headLength fh [] := by
        unfold PublishPacket.headLength
        split <;> omega
      rw [PublishPacket.unpack_of_lt hlt] at hnone
      exact nomatch hnone
    exact ⟨fun hnone => absurd hnone (hsome _ rfl), fun hne => absurd rfl hne⟩
  | _ =>
    refine ⟨fun _ => ?_, fun _ => rfl⟩
    simp only [kind]
    decide

/-- The first bytes of a packet, where its length is cut off. -/
theorem wire_take {p : ControlPacket} {body : GoString} (hbody : p.body = .ok body) {i : ℕ}
    (hi : i < (encodeLength p.header.remainingLength).length) :
    p.wire.take (i + 1) =
      p.header.typeAndFlags :: (encodeLength p.header.remainingLength).take i := by
  rw [wire_of_body hbody, FixedHeader.pack, List.cons_append, List.take_succ_cons,
    List.take_append_of_le_length (by omega)]

end ControlPacket

/-- A body that is not there in full is an error. -/
theorem readBody_short (fh : FixedHeader) (s : ByteStream)
    (h : s.bytes.length < fh.remainingLength) :
    ∃ err s', readBody ByteStream.reader fh s = ((none, some err), s') := by
  obtain ⟨err', herr⟩ := readFullErr_some s.bytes s.err
  unfold readBody
  cases newControlPacketWithHeader fh with
  | none => exact ⟨_, _, rfl⟩
  | some cp =>
    rw [ByteStream.reader_readFull, ByteStream.readFull, if_pos h, herr]
    exact ⟨_, _, rfl⟩

/-- A packet of which only a part has arrived is read as an error, or as a packet whose fields are
zero. -/
theorem recvRead_take {p : ControlPacket} (h : p.Encodable) {n : ℕ} (hn : n < p.wire.length)
    (err : GoError) :
    if p.HasPhantom n then
      recvRead ByteStream.reader ⟨p.wire.take n, err⟩ = (.ok p.phantom, ⟨[], err⟩)
    else ∃ err' s', recvRead ByteStream.reader ⟨p.wire.take n, err⟩ = (.error err', s') := by
  obtain ⟨body, hbody, hlength⟩ := h.body
  cases n with
  | zero =>
    rw [if_neg (fun hphantom => Nat.lt_irrefl 0 hphantom.1)]
    exact ⟨err, _, recvRead_nil err⟩
  | succ i =>
    by_cases hcut : i < (encodeLength p.header.remainingLength).length
    · -- the length is cut off, and the stream has nothing for the body
      have hdecode := decodeLength_take h.remainingLength hcut err
      rcases hread : decodeLength ByteStream.reader
        ⟨(encodeLength p.header.remainingLength).take i, err⟩ with ⟨v, s⟩
      rw [hread] at hdecode
      obtain ⟨rfl, hzero⟩ := hdecode
      have hheader := ofTypeAndFlags_typeAndFlags (lt_sixteen_of_typed h.typed) h.qos
      have hunpack : FixedHeader.unpack ByteStream.reader p.header.typeAndFlags
          ⟨(encodeLength p.header.remainingLength).take i, err⟩ =
          ({ p.header with remainingLength := v }, ⟨[], err⟩) := by
        rw [FixedHeader.unpack, hread]
        exact Prod.ext (congrArg (fun fh : FixedHeader => { fh with remainingLength := v }) hheader)
          rfl
      have hbody' := readPacket_cons p.header.typeAndFlags
        ((encodeLength p.header.remainingLength).take i) err
      rw [hunpack, ← ControlPacket.wire_take hbody hcut] at hbody'
      by_cases hdvd : 128 ^ i ∣ p.header.remainingLength
      · obtain rfl : v = 0 := hzero.mpr hdvd
        obtain ⟨htype, hkind⟩ := p.type_setRemainingLength 0
        have hblank := ControlPacket.newControlPacketWithHeader_header
          (htype.trans (h.typed.trans hkind.symm))
        rw [ControlPacket.header_setRemainingLength_zero h] at hblank
        have hphantom := hbody'.trans (readBody_append hblank List.length_nil [] err)
        by_cases hpublish : p.kind = PacketType.publish
        · rw [if_neg (fun hphantom => hphantom.2.2.2 hpublish)]
          have hsome := mt p.unpack_nil_iff.mp (not_not.mpr hpublish)
          obtain ⟨err', herr'⟩ := Option.ne_none_iff_exists'.mp hsome
          rw [herr'] at hphantom
          exact ⟨err', _, recvRead_of_some hphantom⟩
        · rw [if_pos ⟨Nat.succ_pos i, hcut, hdvd, hpublish⟩]
          rw [p.unpack_nil_iff.mpr hpublish] at hphantom
          exact recvRead_of_none hphantom
      · rw [if_neg (fun hphantom => hdvd hphantom.2.2.1)]
        have hpos : v ≠ 0 := fun hv => hdvd (hzero.mp hv)
        obtain ⟨err', s', hshort⟩ := readBody_short { p.header with remainingLength := v } ⟨[], err⟩
          (Nat.pos_of_ne_zero hpos)
        exact ⟨err', s', recvRead_of_some (hbody'.trans hshort)⟩
    · -- the length is there, and a part of the body is not
      rw [if_neg (fun hphantom => hcut (Nat.lt_of_succ_le hphantom.2.1))]
      have hwire := ControlPacket.wire_of_body hbody
      rw [hwire, FixedHeader.pack, List.length_append, List.length_cons] at hn
      have htake : p.wire.take (i + 1) = p.header.typeAndFlags ::
          (encodeLength p.header.remainingLength ++
            body.take (i - (encodeLength p.header.remainingLength).length)) := by
        rw [hwire, FixedHeader.pack, List.cons_append, List.take_succ_cons, List.take_append,
          List.take_of_length_le (by omega)]
      have hpart : (body.take (i - (encodeLength p.header.remainingLength).length)).length <
          p.header.remainingLength := by
        rw [List.length_take]
        omega
      obtain ⟨err', s', hshort⟩ := readBody_short p.header ⟨_, err⟩ hpart
      have hread := readPacket_cons p.header.typeAndFlags (encodeLength p.header.remainingLength ++
        body.take (i - (encodeLength p.header.remainingLength).length)) err
      rw [FixedHeader.unpack_pack h.toFits, hshort, ← htake] at hread
      exact ⟨err', s', recvRead_of_some hread⟩

/-! ## A connection that ends anywhere -/

/-- What is received of packets of which only the first `n` bytes arrive. -/
def receivedOf : List ControlPacket → ℕ → List ControlPacket
  | [], _ => []
  | p :: packets, n =>
    if p.wire.length ≤ n then p :: receivedOf packets (n - p.wire.length)
    else if p.HasPhantom n then [p.phantom]
    else []

/-- By induction on the packets, of which the last one to arrive may be cut off. -/
theorem received_take {packets : List ControlPacket} (h : ∀ p ∈ packets, p.Encodable) (n : ℕ)
    (err : GoError) :
    received ⟨(packets.flatMap ControlPacket.wire).take n, err⟩ = receivedOf packets n := by
  induction packets generalizing n with
  | nil =>
    rw [List.flatMap_nil, List.take_nil]
    exact received_nil err
  | cons p packets ih =>
    have hp := h p List.mem_cons_self
    have hrest := ih fun p' hp' => h p' (List.mem_cons_of_mem p hp')
    unfold receivedOf
    rw [List.flatMap_cons]
    by_cases hwhole : p.wire.length ≤ n
    · rw [if_pos hwhole, List.take_append, List.take_of_length_le hwhole, ← hrest]
      exact received_of_ok (ControlPacket.recvRead_wire hp _ err)
    · rw [if_neg hwhole, List.take_append_of_le_length (by omega)]
      have hcut := recvRead_take hp (show n < p.wire.length by omega) err
      by_cases hphantom : p.HasPhantom n
      · rw [if_pos hphantom] at hcut ⊢
        rw [received_of_ok hcut, received_nil]
      · rw [if_neg hphantom] at hcut ⊢
        obtain ⟨err', s', hcut⟩ := hcut
        exact received_of_error hcut

/-- Of the packets the first ones are received whole, and after them one at most that nobody has
sent. -/
theorem receivedOf_eq_take (packets : List ControlPacket) (n : ℕ) :
    ∃ k, receivedOf packets n = packets.take k ∨
      ∃ p, packets[k]? = some p ∧ p.kind ≠ PacketType.publish ∧
        receivedOf packets n = packets.take k ++ [p.phantom] := by
  induction packets generalizing n with
  | nil => exact ⟨0, Or.inl rfl⟩
  | cons p packets ih =>
    unfold receivedOf
    by_cases hwhole : p.wire.length ≤ n
    · rw [if_pos hwhole]
      obtain ⟨k, hk⟩ := ih (n - p.wire.length)
      refine ⟨k + 1, ?_⟩
      rw [List.take_succ_cons, List.getElem?_cons_succ]
      cases hk with
      | inl hk => exact Or.inl (by rw [hk])
      | inr hk =>
        obtain ⟨p', hp', hkind, hk⟩ := hk
        exact Or.inr ⟨p', hp', hkind, by rw [hk, List.cons_append]⟩
    · rw [if_neg hwhole]
      refine ⟨0, ?_⟩
      by_cases hphantom : p.HasPhantom n
      · rw [if_pos hphantom]
        exact Or.inr ⟨p, rfl, hphantom.2.2.2, rfl⟩
      · rw [if_neg hphantom]
        exact Or.inl rfl

/-- The PUBLISH packets that are received are the first ones that were written. -/
theorem receivedOf_publishes (packets : List ControlPacket) (n : ℕ) :
    (receivedOf packets n).filter (fun p => p.kind = PacketType.publish) <+:
      packets.filter (fun p => p.kind = PacketType.publish) := by
  have htake : ∀ k, (packets.take k).filter (fun p => p.kind = PacketType.publish) <+:
      packets.filter (fun p => p.kind = PacketType.publish) :=
    fun k => (List.take_prefix k packets).filter _
  obtain ⟨k, hk⟩ := receivedOf_eq_take packets n
  cases hk with
  | inl hk =>
    rw [hk]
    exact htake k
  | inr hk =>
    obtain ⟨p, _, hkind, hk⟩ := hk
    have hphantom : decide (p.phantom.kind = PacketType.publish) = false := by
      rw [p.kind_phantom]
      exact decide_eq_false hkind
    rw [hk, List.filter_append, List.filter_singleton, hphantom]
    show _ ++ [] <+: _
    rw [List.append_nil]
    exact htake k

/-! ## What `recvRun` passes on -/

section RecvRun

variable {ρ : Type} {R : IoReader ρ} {f : ρ → ByteStream} (h : R.Shows ByteStream.reader f)

/-- Whatever the pieces in which the bytes of encodable packets arrive: `recvRun` passes on these
packets, and ends with the error of the connection. -/
theorem recvRun_written {packets : List ControlPacket} (hencodable : ∀ p ∈ packets, p.Encodable)
    {r : ρ} {err : GoError} (hr : f r = ⟨packets.flatMap ControlPacket.wire, err⟩) :
    (recvRun h r).1 = packets ∧ (recvRun h r).2.1 = err := by
  have hview := recvRun_shows h r
  have hwhole := recvRun_append hencodable [] err
  have hend : recvRun ByteStream.shows_self ⟨[], err⟩ = ([], err, ⟨[], err⟩) :=
    MessageReader.readAll_of_error (R := packetReader ByteStream.shows_self) (recvRead_nil err)
  rw [List.append_nil, ← hr, hview, received_nil, List.append_nil, hend] at hwhole
  exact ⟨congrArg Prod.fst hwhole, congrArg (fun result => result.2.1) hwhole⟩

theorem wire_pingreq : (ControlPacket.pingreq newPingreq).wire = [0xC0, 0] := by
  show FixedHeader.typeAndFlags newPingreq :: encodeLength 0 ++ [] = _
  rw [encodeLength_eq]
  rfl

theorem encodable_pingreq : (ControlPacket.pingreq newPingreq).Encodable where
  typed := rfl
  qos := by decide
  remainingLength := by decide
  fields := trivial
  reservedBit := rfl
  body := ⟨[], rfl, rfl⟩

/-- Two PINGREQ packets in three pieces. -/
theorem recvRun_written_pings :
    (recvRun conn_shows_stream ⟨[[0xC0], [0, 0xC0], [0]], errEof⟩).1 =
        [.pingreq newPingreq, .pingreq newPingreq] ∧
      (recvRun conn_shows_stream ⟨[[0xC0], [0, 0xC0], [0]], errEof⟩).2.1 = errEof := by
  have hbytes : [.pingreq newPingreq, .pingreq newPingreq].flatMap ControlPacket.wire =
      [0xC0, 0, 0xC0, 0] := by
    rw [List.flatMap_cons, List.flatMap_cons, wire_pingreq]
    rfl
  refine recvRun_written conn_shows_stream (fun p hp => ?_) (by rw [hbytes]; rfl)
  obtain rfl | hp := List.mem_cons.mp hp
  · exact encodable_pingreq
  · rw [List.mem_singleton.mp hp]
    exact encodable_pingreq

/-- The connection may end at any byte: the packets that have arrived whole are passed on. After
them comes one that was not sent exactly if the connection ends in the length of a packet that is
no PUBLISH, and the digits of the length that have arrived are zero. -/
theorem recvRun_take {packets : List ControlPacket} (hencodable : ∀ p ∈ packets, p.Encodable)
    {n : ℕ} {r : ρ} {err : GoError}
    (hr : f r = ⟨(packets.flatMap ControlPacket.wire).take n, err⟩) :
    (recvRun h r).1 = receivedOf packets n ∧
      ((recvRun h r).1.filter fun p => p.kind = PacketType.publish) <+:
        packets.filter fun p => p.kind = PacketType.publish := by
  have hreceived : (recvRun h r).1 = receivedOf packets n := by
    rw [← received_take hencodable n err, ← hr]
    exact (congrArg Prod.fst (recvRun_shows h r)).symm
  rw [hreceived]
  exact ⟨rfl, receivedOf_publishes packets n⟩

/-- Of a SUBSCRIBE only the first byte arrives. -/
theorem recvRun_take_subscribe :
    (recvRun conn_shows_stream ⟨[[0xC0, 0], [0x80]], errEof⟩).1 =
      [.pingreq newPingreq, (subscribeByte 97 1).phantom] := by
  have hwire : (subscribeByte 97 1).wire = [0x80, 6, 0, 1, 0, 1, 97, 1] := by
    show FixedHeader.typeAndFlags _ :: encodeLength 6 ++ _ = _
    rw [encodeLength_eq]
    rfl
  have hsubscribe : (subscribeByte 97 1).Encodable :=
    { typed := rfl
      qos := by decide
      remainingLength := by decide
      fields := ⟨rfl, by decide, by decide⟩
      reservedBit := rfl
      body := ⟨[0, 1, 0, 1, 97, 1], rfl, rfl⟩ }
  have hall : ∀ p ∈ [.pingreq newPingreq, subscribeByte 97 1], p.Encodable := by
    intro p hp
    obtain rfl | hp := List.mem_cons.mp hp
    · exact encodable_pingreq
    · rw [List.mem_singleton.mp hp]
      exact hsubscribe
  have hstream : Conn.stream ⟨[[0xC0, 0], [0x80]], errEof⟩ =
      ⟨([.pingreq newPingreq, subscribeByte 97 1].flatMap ControlPacket.wire).take 3, errEof⟩ := by
    rw [List.flatMap_cons, List.flatMap_cons, wire_pingreq, hwire]
    rfl
  have hphantom : (subscribeByte 97 1).HasPhantom (3 - ([0xC0, 0] : GoString).length) := by
    refine ⟨Nat.one_pos, ?_, Nat.one_dvd _, by decide⟩
    show 1 ≤ (encodeLength 6).length
    rw [encodeLength_eq]
    exact Nat.le_refl 1
  rw [(recvRun_take conn_shows_stream hall hstream).1, receivedOf, wire_pingreq,
    if_pos (by decide), receivedOf, hwire, if_neg (by decide), if_pos hphantom]

/-- A connection does not make the process hold more than it has sent: each packet is paid for by
its length and one byte more, and its fields are those that a packet can have. -/
theorem recvRun_bounded (r : ρ) :
    ((recvRun h r).1.map fun p => p.header.remainingLength + 1).sum ≤ (f r).bytes.length ∧
      ∀ p ∈ (recvRun h r).1, p.Fits := by
  constructor
  · refine MessageReader.sum_readAll_le (R := packetReader h) ?_ r
    intro r p r' hread
    have hview := recvRead_shows h r
    rw [show recvRead R r = _ from hread] at hview
    obtain ⟨header, body, hs, hone, _, hbody, _⟩ := readPacket_takes (readPacket_of_recvRead hview)
    have hlength := congrArg (fun s => s.bytes.length) hs
    dsimp only at hlength
    rw [List.length_append, List.length_append, hbody] at hlength
    show p.header.remainingLength + 1 + (f r').bytes.length ≤ (f r).bytes.length
    omega
  · refine MessageReader.forall_mem_readAll (R := packetReader h) ?_ r
    intro r p r' hread
    exact readPacket_fits (R := R) (r := r) (by rw [readPacket_of_recvRead hread])

/-- A connection that ends with a part of a PINGREQ. -/
theorem recvRun_bounded_pings :
    ((recvRun conn_shows_stream ⟨[[0xC0], [0, 0xC0]], errEof⟩).1.map
        fun p => p.header.remainingLength + 1).sum ≤ 3 ∧
      ∀ p ∈ (recvRun conn_shows_stream ⟨[[0xC0], [0, 0xC0]], errEof⟩).1, p.Fits :=
  recvRun_bounded conn_shows_stream ⟨[[0xC0], [0, 0xC0]], errEof⟩

end RecvRun

end MqttBroker

import MqttBroker.Packets.RoundTrip

/-!
# What `ReadPacket` takes and accepts

What a call takes from the stream is the fixed header, of at most five bytes, and as many bytes as
the header says. It depends on the bytes and not on the pieces in which they arrive. A PUBLISH is
accepted only if its topic and its id fit into its body; `Unpack` of the other packets fills what is
missing with zeros.
-/

namespace MqttBroker

/-! ## Pieces do not matter -/

section Shows

variable {ρ ρ' : Type} {R : IoReader ρ} {R' : IoReader ρ'} {f : ρ → ρ'} (h : R.Shows R' f)

include h

/-- By induction on the rounds that are left. -/
theorem decodeLengthLoop_shows (rLength : UInt32) (multiplier : ℕ) (b : UInt8) (r : ρ) :
    decodeLengthLoop R' rLength multiplier b (f r) =
      ((decodeLengthLoop R rLength multiplier b r).1,
        f (decodeLengthLoop R rLength multiplier b r).2) := by
  induction rLength, multiplier, b, r using decodeLengthLoop.induct (R := R) with
  | case1 rLength multiplier b r hlt read digit hlast =>
    rw [decodeLengthLoop, if_pos hlt, h 1 r, decodeLengthLoop, if_pos hlt]
    dsimp only
    rw [if_pos hlast, if_pos hlast]
  | case2 rLength multiplier b r hlt read digit rLength' hmore ih =>
    rw [decodeLengthLoop, if_pos hlt, h 1 r, decodeLengthLoop, if_pos hlt]
    dsimp only
    rw [if_neg hmore, if_neg hmore]
    exact ih
  | case3 rLength multiplier b r hlt =>
    rw [decodeLengthLoop, if_neg hlt, decodeLengthLoop, if_neg hlt]

theorem FixedHeader.unpack_shows (b : UInt8) (r : ρ) :
    FixedHeader.unpack R' b (f r) =
      ((FixedHeader.unpack R b r).1, f (FixedHeader.unpack R b r).2) := by
  unfold FixedHeader.unpack decodeLength
  rw [decodeLengthLoop_shows h]

theorem readBody_shows (fh : FixedHeader) (r : ρ) :
    readBody R' fh (f r) = ((readBody R fh r).1, f (readBody R fh r).2) := by
  unfold readBody
  rw [h fh.remainingLength r]
  cases newControlPacketWithHeader fh with
  | none => rfl
  | some cp =>
    obtain ⟨⟨packetBytes, err⟩, rest⟩ := R.readFull fh.remainingLength r
    cases err with
    | none => rfl
    | some err => rfl

/-- Readers that show each other return the same packets. -/
theorem readPacket_shows (r : ρ) :
    readPacket R' (f r) = ((readPacket R r).1, f (readPacket R r).2) := by
  unfold readPacket
  rw [h 1 r]
  obtain ⟨⟨b, err⟩, rest⟩ := R.readFull 1 r
  cases err with
  | none =>
    dsimp only
    rw [FixedHeader.unpack_shows h, readBody_shows h]
  | some err => rfl

end Shows

/-! ## What is taken from the stream -/

/-- A header that is read takes what the loop of `decodeLength` takes, and a body that is read is
there. -/
theorem readBody_takes {fh : FixedHeader} {s s' : ByteStream} {p : ControlPacket}
    {err : Option GoError} (h : readBody ByteStream.reader fh s = ((some p, err), s')) :
    ∃ body, body.length = fh.remainingLength ∧ s = ⟨body ++ s'.bytes, s'.err⟩ ∧
      ∃ cp, newControlPacketWithHeader fh = some cp ∧ (p, err) = cp.unpack body := by
  unfold readBody at h
  cases hnew : newControlPacketWithHeader fh with
  | none =>
    rw [hnew] at h
    exact absurd (congrArg (fun result => result.1.1) h) (by simp)
  | some cp =>
    rw [hnew, ByteStream.reader_readFull, ByteStream.readFull] at h
    by_cases hshort : s.bytes.length < fh.remainingLength
    · obtain ⟨err', herr'⟩ := readFullErr_some s.bytes s.err
      rw [if_pos hshort, herr'] at h
      exact absurd (congrArg (fun result => result.1.1) h) (by simp)
    · rw [if_neg hshort] at h
      obtain ⟨hresult, rfl⟩ := Prod.mk.inj h
      obtain ⟨hp, herr⟩ := Prod.mk.inj hresult
      refine ⟨s.bytes.take fh.remainingLength, ?_, ?_, cp, rfl, ?_⟩
      · rw [List.length_take]
        omega
      · show s = ⟨s.bytes.take fh.remainingLength ++ s.bytes.drop fh.remainingLength, s.err⟩
        rw [List.take_append_drop]
      · rw [← Option.some.inj hp, ← herr]

/-- Of the bytes of a packet one is the first byte of the header, up to four are its length, and
the rest is the body. -/
theorem readPacket_takes {s s' : ByteStream} {p : ControlPacket} {err : Option GoError}
    (h : readPacket ByteStream.reader s = ((some p, err), s')) :
    ∃ header body, s = ⟨header ++ body ++ s'.bytes, s'.err⟩ ∧
      1 ≤ header.length ∧ header.length ≤ 5 ∧ body.length = p.header.remainingLength ∧
      (p, err) = p.blank.unpack body := by
  have hfits : p.Fits := readPacket_fits (R := ByteStream.reader) (r := s) (by rw [h])
  obtain ⟨bytes, serr⟩ := s
  cases bytes with
  | nil =>
    rw [readPacket, ByteStream.reader_readFull, ByteStream.readFull_nil] at h
    exact absurd (congrArg (fun result => result.1.1) h) (by simp)
  | cons b bytes =>
    rw [readPacket_cons] at h
    obtain ⟨c, hc, hrest⟩ := decodeLength_drop ⟨bytes, serr⟩
    obtain ⟨body, hbody, hs, cp, hnew, hunpack⟩ := readBody_takes h
    have hheader : (FixedHeader.unpack ByteStream.reader b ⟨bytes, serr⟩).1 = p.header := by
      have hp := congrArg (fun result => result.1.header) hunpack
      rw [cp.unpack_header, (newControlPacketWithHeader_typed hnew).2] at hp
      exact hp.symm
    have hblank : cp = p.blank := by
      have hsame := ControlPacket.newControlPacketWithHeader_header hfits.typed
      rw [← hheader, hnew] at hsame
      exact Option.some.inj hsame
    have hsplit : (FixedHeader.unpack ByteStream.reader b ⟨bytes, serr⟩).2 =
        ⟨bytes.drop c, serr⟩ := hrest
    rw [hs] at hsplit
    obtain ⟨hbytes, herr⟩ := ByteStream.mk.inj hsplit
    refine ⟨b :: bytes.take c, body, ?_, ?_, ?_, ?_, ?_⟩
    · rw [List.cons_append, List.cons_append, List.append_assoc, hbytes, List.take_append_drop,
        herr]
    · exact Nat.succ_pos _
    · rw [List.length_cons, List.length_take]
      omega
    · rw [hbody, hheader]
    · rw [hunpack, hblank]

/-! ## PUBLISH -/

/-- What `decodeUint16` leaves when two bytes are there. -/
theorem encodeUint16_decode {buf : GoString} (h : 2 ≤ buf.length) :
    encodeUint16 (decodeUint16 buf).1 ++ (decodeUint16 buf).2 = buf := by
  obtain ⟨b₀, b₁, rest, rfl⟩ : ∃ b₀ b₁ rest, buf = b₀ :: b₁ :: rest := by
    match buf, h with
    | b₀ :: b₁ :: rest, _ => exact ⟨b₀, b₁, rest, rfl⟩
  have h₀ := b₀.toNat_lt
  have h₁ := b₁.toNat_lt
  show [UInt8.ofNat ((UInt16.ofNat (b₀.toNat * 256 + b₁.toNat)).toNat / 256),
    UInt8.ofNat (UInt16.ofNat (b₀.toNat * 256 + b₁.toNat)).toNat] ++ rest = b₀ :: b₁ :: rest
  rw [UInt16.toNat_ofNat', Nat.mod_eq_of_lt (by omega)]
  have hhigh : UInt8.ofNat ((b₀.toNat * 256 + b₁.toNat) / 256) = b₀ := by
    rw [← UInt8.toNat_inj, UInt8.toNat_ofNat']
    omega
  have hlow : UInt8.ofNat (b₀.toNat * 256 + b₁.toNat) = b₁ := by
    rw [← UInt8.toNat_inj, UInt8.toNat_ofNat']
    omega
  rw [hhigh, hlow]
  rfl

theorem readBuffer_of_le {n : ℕ} {buf : GoString} (h : n ≤ buf.length) :
    readBuffer n buf = (buf.take n, buf.drop n) := by
  rw [readBuffer, Nat.sub_eq_zero_of_le h, List.replicate_zero, List.append_nil]

/-- A string whose bytes are there. -/
theorem encodeString_decode {buf : GoString} (h : (decodeString buf).1.length + 2 ≤ buf.length) :
    encodeString (decodeString buf).1 ++ (decodeString buf).2 = buf := by
  have hnum := encodeUint16_decode (show 2 ≤ buf.length by omega)
  have hlength := length_decodeString buf
  have hrest : (decodeUint16 buf).2.length + 2 = buf.length := by
    show (buf.drop 2).length + 2 = buf.length
    rw [List.length_drop]
    omega
  have hsize : UInt16.ofNat (decodeString buf).1.length = (decodeUint16 buf).1 := by
    rw [hlength, UInt16.ofNat_toNat]
  have hread : decodeString buf = ((decodeUint16 buf).2.take (decodeUint16 buf).1.toNat,
      (decodeUint16 buf).2.drop (decodeUint16 buf).1.toNat) :=
    readBuffer_of_le (show (decodeUint16 buf).1.toNat ≤ (decodeUint16 buf).2.length by omega)
  rw [encodeString, hsize, hread, List.append_assoc, List.take_append_drop, hnum]

theorem length_decodeString_add {buf : GoString}
    (h : (decodeString buf).1.length + 2 ≤ buf.length) :
    (decodeString buf).1.length + 2 + (decodeString buf).2.length = buf.length := by
  have hlength := congrArg List.length (encodeString_decode h)
  rw [List.length_append, length_encodeString] at hlength
  omega

namespace PublishPacket

/-- The bytes that the topic and the id of a PUBLISH take. -/
def headLength (fh : FixedHeader) (buf : GoString) : ℕ :=
  (decodeString buf).1.length + if 0 < fh.qos then 4 else 2

/-- `Unpack` fails where the topic and the id need more bytes than the header has promised. -/
theorem unpack_of_lt {fh : FixedHeader} {buf : GoString}
    (h : fh.remainingLength < headLength fh buf) :
    (PublishPacket.unpack fh buf).2 = some (.new "Error upacking publish, payload length < 0") := by
  unfold headLength at h
  unfold PublishPacket.unpack
  dsimp only
  rw [if_pos]
  by_cases hqos : 0 < fh.qos
  · rw [if_pos hqos] at h ⊢
    omega
  · rw [if_neg hqos] at h ⊢
    omega

/-- Where they fit, the body is the encoding of what `Unpack` returns. -/
theorem unpack_of_le {fh : FixedHeader} {buf : GoString} (hlength : buf.length = fh.remainingLength)
    (h : headLength fh buf ≤ buf.length) :
    (PublishPacket.unpack fh buf).2 = none ∧ (PublishPacket.unpack fh buf).1.body = buf := by
  have hall : ∀ payload : GoString, readBuffer payload.length payload = (payload, []) := by
    intro payload
    rw [readBuffer_of_le (Nat.le_refl _), List.take_length, List.drop_length]
  have herr : ∀ payload : GoString, readBufferErr payload.length payload = none := by
    intro payload
    rw [readBufferErr, if_neg]
    rintro ⟨rfl, hne⟩
    exact hne rfl
  have hfirst : (decodeString buf).1.length + 2 ≤ buf.length := by
    unfold headLength at h
    split at h <;> omega
  have htopic := encodeString_decode hfirst
  have hrest := length_decodeString_add hfirst
  unfold headLength at h
  unfold PublishPacket.unpack body
  dsimp only
  by_cases hqos : 0 < fh.qos
  · simp only [if_pos hqos] at h ⊢
    have hid := encodeUint16_decode (show 2 ≤ (decodeString buf).2.length by omega)
    have hidLength := congrArg List.length hid
    rw [List.length_append, length_encodeUint16] at hidLength
    have hpayload : (fh.remainingLength : ℤ) - ((decodeString buf).1.length + 4) =
        (decodeUint16 (decodeString buf).2).2.length := by
      omega
    rw [hpayload, if_neg (by omega), Int.toNat_natCast, hall, herr]
    refine ⟨rfl, ?_⟩
    dsimp only
    rw [if_pos hqos, List.append_assoc, hid, htopic]
  · simp only [if_neg hqos] at h ⊢
    have hpayload : (fh.remainingLength : ℤ) - ((decodeString buf).1.length + 2) =
        (decodeString buf).2.length := by
      omega
    rw [hpayload, if_neg (by omega), Int.toNat_natCast, hall, herr]
    refine ⟨rfl, ?_⟩
    dsimp only
    rw [if_neg hqos, List.append_nil, htopic]

end PublishPacket

/-- A PUBLISH is accepted if its topic and its id fit into the body, and then the body on the
stream is the encoding of what is returned. -/
theorem readPacket_publish {s s' : ByteStream} {p : PublishPacket} {err : Option GoError}
    (h : readPacket ByteStream.reader s = ((some (.publish p), err), s')) :
    ∃ header body, s = ⟨header ++ body ++ s'.bytes, s'.err⟩ ∧
      1 ≤ header.length ∧ header.length ≤ 5 ∧
      body.length = p.header.remainingLength ∧
      (err = none ↔ PublishPacket.headLength p.header body ≤ body.length) ∧
      (err = none → p.body = body) := by
  obtain ⟨header, body, hs, hone, hfive, hbody, hunpack⟩ := readPacket_takes h
  obtain ⟨hp, herr⟩ := Prod.mk.inj hunpack
  have hp : p = (PublishPacket.unpack p.header body).1 := ControlPacket.publish.inj hp
  have herr : err = (PublishPacket.unpack p.header body).2 := herr
  have hbody' : body.length = p.header.remainingLength := hbody
  refine ⟨header, body, hs, hone, hfive, hbody, ?_⟩
  by_cases hfit : PublishPacket.headLength p.header body ≤ body.length
  · obtain ⟨hnone, hsame⟩ := PublishPacket.unpack_of_le hbody' hfit
    rw [← herr] at hnone
    rw [← hp] at hsame
    exact ⟨⟨fun _ => hfit, fun _ => hnone⟩, fun _ => hsame⟩
  · have hsome := PublishPacket.unpack_of_lt
      (show p.header.remainingLength < PublishPacket.headLength p.header body by omega)
    have hno : err ≠ none := by
      rw [herr, hsome]
      exact Option.some_ne_none _
    exact ⟨⟨fun hnone => absurd hnone hno, fun hle => absurd hle hfit⟩,
      fun hnone => absurd hnone hno⟩

/-- A PUBLISH with QoS 1, of which the topic says two bytes more than the body has. -/
theorem readPacket_publish_short :
    ∃ p err s', readPacket ByteStream.reader ⟨[0x32, 4, 0, 4, 97, 98, 0xC0], errEof⟩ =
        ((some (.publish p), err), s') ∧
      ∃ header body, (⟨[0x32, 4, 0, 4, 97, 98, 0xC0], errEof⟩ : ByteStream) =
          ⟨header ++ body ++ s'.bytes, s'.err⟩ ∧
        1 ≤ header.length ∧ header.length ≤ 5 ∧ body.length = p.header.remainingLength ∧
        (err = none ↔ PublishPacket.headLength p.header body ≤ body.length) ∧
        (err = none → p.body = body) := by
  let fh : FixedHeader := { messageType := PacketType.publish, qos := 1, remainingLength := 4 }
  have hfits : (ControlPacket.publish { header := fh }).Fits :=
    ⟨rfl, by decide, by decide, ⟨by decide, fun h => absurd h (by decide)⟩⟩
  have hbytes : fh.pack = [0x32, 4] := by
    have hone : fh.typeAndFlags = 0x32 := by decide
    have hlength : encodeLength 4 = [4] := by
      rw [encodeLength_eq]
      rfl
    show fh.typeAndFlags :: encodeLength 4 = _
    rw [hone, hlength]
  have hread : readPacket ByteStream.reader ⟨fh.pack ++ [0, 4, 97, 98] ++ [0xC0], errEof⟩ =
      ((some (.publish (PublishPacket.unpack fh [0, 4, 97, 98]).1),
        (PublishPacket.unpack fh [0, 4, 97, 98]).2), ⟨[0xC0], errEof⟩) :=
    readPacket_pack hfits rfl [0xC0] errEof
  rw [hbytes] at hread
  exact ⟨(PublishPacket.unpack fh [0, 4, 97, 98]).1, _, _, hread, readPacket_publish hread⟩

end MqttBroker

import MqttBroker.Packets.Lengths

/-!
# What is written is read

`Write` checks nothing and cuts what does not fit: a length to two bytes, a QoS into the bits of
its neighbours. `Fits` says what `ReadPacket` can return, and `Encodable` which packets are read as
they were written.
-/

namespace MqttBroker

/-! ## The packets that fit -/

structure ConnectPacket.Fits (c : ConnectPacket) : Prop where
  protocolName : c.protocolName.length < 65536
  clientIdentifier : c.clientIdentifier.length < 65536
  willQos : c.willQos < 4
  willTopic : c.willTopic.length < 65536
  willMessage : c.willMessage.length < 65536
  username : c.username.length < 65536
  password : c.password.length < 65536
  noWill : c.willFlag = false → c.willTopic = [] ∧ c.willMessage = []
  noUsername : c.usernameFlag = false → c.username = []
  noPassword : c.passwordFlag = false → c.password = []

structure PublishPacket.Fits (p : PublishPacket) : Prop where
  topicName : p.topicName.length < 65536
  noMessageID : p.header.qos = 0 → p.messageID = 0

/-- Each filter takes bytes of those after the id. -/
structure SubscribePacket.Fits (s : SubscribePacket) : Prop where
  paired : s.topics.length = s.qoss.length
  topics : ∀ topic ∈ s.topics, topic.length < 65536
  count : s.topics.length ≤ s.header.remainingLength - 2

/-- An empty topic ends the list. -/
structure UnsubscribePacket.Fits (u : UnsubscribePacket) : Prop where
  topics : ∀ topic ∈ u.topics, topic ≠ [] ∧ topic.length < 65536

namespace ControlPacket

/-- The fields fit their bytes, and those that no byte stands for are zero. -/
def FieldsFit : ControlPacket → Prop
  | connect p => p.Fits
  | publish p => p.Fits
  | subscribe p => p.Fits
  | unsubscribe p => p.Fits
  | _ => True

/-- The packets that `ReadPacket` can return. -/
structure Fits (p : ControlPacket) : Prop where
  typed : p.type = p.kind
  qos : p.header.qos < 4
  remainingLength : p.header.remainingLength < 2 ^ 28
  fields : p.FieldsFit

/-- The reserved bit of a CONNECT, which `Write` does not write. -/
def reservedBit : ControlPacket → UInt8
  | connect p => p.reservedBit
  | _ => 0

/-- The packets that `ReadPacket` returns after `Write` has written them. -/
structure Encodable (p : ControlPacket) : Prop extends p.Fits where
  reservedBit : p.reservedBit = 0
  body : ∃ body, p.body = .ok body ∧ body.length = p.header.remainingLength

end ControlPacket

/-! Both can be checked. -/

section Decidable

instance (c : ConnectPacket) : Decidable c.Fits :=
  decidable_of_iff (c.protocolName.length < 65536 ∧ c.clientIdentifier.length < 65536 ∧
      c.willQos < 4 ∧ c.willTopic.length < 65536 ∧ c.willMessage.length < 65536 ∧
      c.username.length < 65536 ∧ c.password.length < 65536 ∧
      (c.willFlag = false → c.willTopic = [] ∧ c.willMessage = []) ∧
      (c.usernameFlag = false → c.username = []) ∧ (c.passwordFlag = false → c.password = []))
    ⟨fun ⟨h₁, h₂, h₃, h₄, h₅, h₆, h₇, h₈, h₉, h₁₀⟩ => ⟨h₁, h₂, h₃, h₄, h₅, h₆, h₇, h₈, h₉, h₁₀⟩,
      fun ⟨h₁, h₂, h₃, h₄, h₅, h₆, h₇, h₈, h₉, h₁₀⟩ => ⟨h₁, h₂, h₃, h₄, h₅, h₆, h₇, h₈, h₉, h₁₀⟩⟩

instance (p : PublishPacket) : Decidable p.Fits :=
  decidable_of_iff (p.topicName.length < 65536 ∧ (p.header.qos = 0 → p.messageID = 0))
    ⟨fun ⟨h₁, h₂⟩ => ⟨h₁, h₂⟩, fun ⟨h₁, h₂⟩ => ⟨h₁, h₂⟩⟩

instance (s : SubscribePacket) : Decidable s.Fits :=
  decidable_of_iff (s.topics.length = s.qoss.length ∧ (∀ topic ∈ s.topics, topic.length < 65536) ∧
      s.topics.length ≤ s.header.remainingLength - 2)
    ⟨fun ⟨h₁, h₂, h₃⟩ => ⟨h₁, h₂, h₃⟩, fun ⟨h₁, h₂, h₃⟩ => ⟨h₁, h₂, h₃⟩⟩

instance (u : UnsubscribePacket) : Decidable u.Fits :=
  decidable_of_iff (∀ topic ∈ u.topics, topic ≠ [] ∧ topic.length < 65536)
    ⟨fun h => ⟨h⟩, fun h => h.1⟩

namespace ControlPacket

instance : (p : ControlPacket) → Decidable p.FieldsFit
  | connect p => inferInstanceAs (Decidable p.Fits)
  | publish p => inferInstanceAs (Decidable p.Fits)
  | subscribe p => inferInstanceAs (Decidable p.Fits)
  | unsubscribe p => inferInstanceAs (Decidable p.Fits)
  | connack _ | puback _ | pubrec _ | pubrel _ | pubcomp _ | suback _ | unsuback _ | pingreq _
  | pingresp _ | disconnect _ => inferInstanceAs (Decidable True)

instance (p : ControlPacket) : Decidable p.Fits :=
  decidable_of_iff (p.type = p.kind ∧ p.header.qos < 4 ∧ p.header.remainingLength < 2 ^ 28 ∧
      p.FieldsFit)
    ⟨fun ⟨h₁, h₂, h₃, h₄⟩ => ⟨h₁, h₂, h₃, h₄⟩, fun ⟨h₁, h₂, h₃, h₄⟩ => ⟨h₁, h₂, h₃, h₄⟩⟩

instance (p : ControlPacket) : Decidable p.Encodable :=
  have : Decidable (∃ body, p.body = .ok body ∧ body.length = p.header.remainingLength) :=
    match p.body with
    | .ok body => decidable_of_iff (body.length = p.header.remainingLength)
        ⟨fun hlength => ⟨body, rfl, hlength⟩, fun ⟨_, heq, hlength⟩ => Except.ok.inj heq ▸ hlength⟩
    | .error _ => isFalse fun ⟨_, heq, _⟩ => absurd heq (by simp)
  decidable_of_iff (p.Fits ∧ p.reservedBit = 0 ∧
      ∃ body, p.body = .ok body ∧ body.length = p.header.remainingLength)
    ⟨fun ⟨h₁, h₂, h₃⟩ => ⟨h₁, h₂, h₃⟩, fun ⟨h₁, h₂, h₃⟩ => ⟨h₁, h₂, h₃⟩⟩

end ControlPacket
end Decidable

/-! ## The fixed header -/

theorem toNat_ofNat_of_lt {n : ℕ} (h : n < 256) : (UInt8.ofNat n).toNat = n := by
  rw [UInt8.toNat_ofNat']
  omega

/-- A byte below `n` is one of the first `n` bytes. -/
theorem exists_fin_of_lt {n : ℕ} (hn : n < 256) {b : UInt8} (h : b < UInt8.ofNat n) :
    ∃ i : Fin n, b = UInt8.ofNat i := by
  have hlt : b.toNat < n := by
    have h' := UInt8.lt_iff_toNat_lt.mp h
    rwa [toNat_ofNat_of_lt hn] at h'
  exact ⟨⟨b.toNat, hlt⟩, (UInt8.ofNat_toNat).symm⟩

/-- The four parts of the first byte do not overlap. -/
theorem ofTypeAndFlags_typeAndFlags {fh : FixedHeader} (htype : fh.messageType < 16)
    (hqos : fh.qos < 4) :
    { FixedHeader.ofTypeAndFlags fh.typeAndFlags with remainingLength := fh.remainingLength } =
      fh := by
  have hbits : ∀ (i : Fin 16) (j : Fin 4) (dup retain : Bool),
      FixedHeader.ofTypeAndFlags (FixedHeader.typeAndFlags ⟨.ofNat i, dup, .ofNat j, retain, 0⟩) =
        ⟨.ofNat i, dup, .ofNat j, retain, 0⟩ := by
    decide +kernel
  obtain ⟨messageType, dup, qos, retain, remainingLength⟩ := fh
  obtain ⟨i, rfl⟩ := exists_fin_of_lt (n := 16) (by omega) htype
  obtain ⟨j, rfl⟩ := exists_fin_of_lt (n := 4) (by omega) hqos
  have hparts := hbits i j dup retain
  have hbyte : FixedHeader.typeAndFlags ⟨.ofNat i, dup, .ofNat j, retain, remainingLength⟩ =
      FixedHeader.typeAndFlags ⟨.ofNat i, dup, .ofNat j, retain, 0⟩ := rfl
  rw [hbyte, hparts]

/-- Whatever the byte is, its parts fit. -/
theorem ofTypeAndFlags_lt (b : UInt8) :
    (FixedHeader.ofTypeAndFlags b).messageType < 16 ∧ (FixedHeader.ofTypeAndFlags b).qos < 4 := by
  have hbits : ∀ i : Fin 256,
      (FixedHeader.ofTypeAndFlags (.ofNat i)).messageType < 16 ∧
        (FixedHeader.ofTypeAndFlags (.ofNat i)).qos < 4 := by
    decide +kernel
  have hbyte := hbits ⟨b.toNat, b.toNat_lt⟩
  rwa [UInt8.ofNat_toNat] at hbyte

/-! ## CONNECT -/

theorem decodeByte_cons (b : UInt8) (buf : GoString) : decodeByte (b :: buf) = (b, buf) := rfl

/-- The flags come out of the byte as they went in, and the reserved bit is zero. -/
theorem ConnectPacket.options_bits {c : ConnectPacket} (h : c.willQos < 4) :
    (1 : UInt8) &&& c.options = 0 ∧
      (decide ((1 : UInt8) &&& c.options >>> 1 > 0)) = c.cleanSession ∧
      (decide ((1 : UInt8) &&& c.options >>> 2 > 0)) = c.willFlag ∧
      (3 : UInt8) &&& c.options >>> 3 = c.willQos ∧
      (decide ((1 : UInt8) &&& c.options >>> 5 > 0)) = c.willRetain ∧
      (decide ((1 : UInt8) &&& c.options >>> 6 > 0)) = c.passwordFlag ∧
      (decide ((1 : UInt8) &&& c.options >>> 7 > 0)) = c.usernameFlag := by
  have hbits : ∀ (cleanSession willFlag willRetain passwordFlag usernameFlag : Bool) (i : Fin 4),
      let options := cleanSession.toUInt8 <<< 1 ||| willFlag.toUInt8 <<< 2 |||
        UInt8.ofNat i <<< 3 ||| willRetain.toUInt8 <<< 5 ||| passwordFlag.toUInt8 <<< 6 |||
        usernameFlag.toUInt8 <<< 7
      (1 : UInt8) &&& options = 0 ∧
        (decide ((1 : UInt8) &&& options >>> 1 > 0)) = cleanSession ∧
        (decide ((1 : UInt8) &&& options >>> 2 > 0)) = willFlag ∧
        (3 : UInt8) &&& options >>> 3 = UInt8.ofNat i ∧
        (decide ((1 : UInt8) &&& options >>> 5 > 0)) = willRetain ∧
        (decide ((1 : UInt8) &&& options >>> 6 > 0)) = passwordFlag ∧
        (decide ((1 : UInt8) &&& options >>> 7 > 0)) = usernameFlag := by
    decide +kernel
  obtain ⟨i, hi⟩ := exists_fin_of_lt (n := 4) (by omega) h
  unfold options
  rw [hi]
  exact hbits c.cleanSession c.willFlag c.willRetain c.passwordFlag c.usernameFlag i

/-- The will, into a packet that does not have it yet. -/
theorem ConnectPacket.unpackWill_append {c : ConnectPacket} (htopic : c.willTopic.length < 65536)
    (hmessage : c.willMessage.length < 65536)
    (hno : c.willFlag = false → c.willTopic = [] ∧ c.willMessage = []) (rest : GoString) :
    { c with willTopic := [], willMessage := [] }.unpackWill
      ((if c.willFlag then encodeString c.willTopic ++ encodeBytes c.willMessage else []) ++ rest) =
        (c, rest) := by
  unfold unpackWill
  by_cases hflag : c.willFlag = true
  · rw [if_pos hflag, if_pos hflag, List.append_assoc, decodeString_encode htopic]
    simp only [encodeBytes, decodeString_encode hmessage]
  · obtain ⟨htopic, hmessage⟩ := hno (Bool.eq_false_iff.mpr hflag)
    have hsame : { c with willTopic := [], willMessage := [] } = c := by
      nth_rewrite 1 [← htopic]
      rw [← hmessage]
    rw [if_neg hflag, if_neg hflag, hsame, List.nil_append]

theorem ConnectPacket.unpackUsername_append {c : ConnectPacket}
    (husername : c.username.length < 65536) (hno : c.usernameFlag = false → c.username = [])
    (rest : GoString) :
    { c with username := [] }.unpackUsername
      ((if c.usernameFlag then encodeString c.username else []) ++ rest) = (c, rest) := by
  unfold unpackUsername
  by_cases hflag : c.usernameFlag = true
  · rw [if_pos hflag, if_pos hflag, decodeString_encode husername]
  · have hsame : { c with username := [] } = c := by
      rw [← hno (Bool.eq_false_iff.mpr hflag)]
    rw [if_neg hflag, if_neg hflag, hsame, List.nil_append]

theorem ConnectPacket.unpackPassword_append {c : ConnectPacket}
    (hpassword : c.password.length < 65536) (hno : c.passwordFlag = false → c.password = []) :
    { c with password := [] }.unpackPassword
      (if c.passwordFlag then encodeBytes c.password else []) = c := by
  have hdecode := decodeString_encode hpassword []
  rw [List.append_nil] at hdecode
  unfold unpackPassword
  by_cases hflag : c.passwordFlag = true
  · rw [if_pos hflag, if_pos hflag, decodeBytes, hdecode]
  · have hsame : { c with password := [] } = c := by
      rw [← hno (Bool.eq_false_iff.mpr hflag)]
    rw [if_neg hflag, hsame]

theorem ConnectPacket.unpack_body {c : ConnectPacket} (h : c.Fits) (hreserved : c.reservedBit = 0) :
    ConnectPacket.unpack c.header c.body = c := by
  obtain ⟨hbit, hclean, hwill, hqos, hretain, hpass, huser⟩ := options_bits h.willQos
  rw [← hreserved] at hbit
  have hflags : unpackFlags c.header c.body =
      ({ c with willTopic := [], willMessage := [], username := [], password := [] },
        (if c.willFlag then encodeString c.willTopic ++ encodeBytes c.willMessage else []) ++
          ((if c.usernameFlag then encodeString c.username else []) ++
            (if c.passwordFlag then encodeBytes c.password else []))) := by
    unfold unpackFlags body
    simp only [List.append_assoc, List.cons_append, List.nil_append,
      decodeString_encode h.protocolName, decodeByte_cons, decodeUint16_encode,
      decodeString_encode h.clientIdentifier, hbit, hclean, hwill, hqos, hretain, hpass, huser]
  have hwillStep : ∀ rest,
      { c with willTopic := [], willMessage := [], username := [], password := [] }.unpackWill
        ((if c.willFlag then encodeString c.willTopic ++ encodeBytes c.willMessage else []) ++
          rest) = ({ c with username := [], password := [] }, rest) :=
    unpackWill_append (c := { c with username := [], password := [] }) h.willTopic h.willMessage
      h.noWill
  have huserStep : ∀ rest, { c with username := [], password := [] }.unpackUsername
      ((if c.usernameFlag then encodeString c.username else []) ++ rest) =
        ({ c with password := [] }, rest) :=
    unpackUsername_append (c := { c with password := [] }) h.username h.noUsername
  unfold unpack
  simp only [hflags, hwillStep, huserStep]
  exact unpackPassword_append h.password h.noPassword

/-! ## The other bodies -/

theorem ConnackPacket.unpack_body (ca : ConnackPacket) :
    ConnackPacket.unpack ca.header ca.body = ca := by
  have hbit : ∀ sessionPresent : Bool,
      decide ((1 : UInt8) &&& sessionPresent.toUInt8 > 0) = sessionPresent := by
    decide
  show { header := ca.header
         sessionPresent := decide ((1 : UInt8) &&& ca.sessionPresent.toUInt8 > 0)
         returnCode := ca.returnCode } = ca
  rw [hbit]

theorem IdPacket.unpack_body (p : IdPacket) : IdPacket.unpack p.header p.body = p := by
  have hdecode := decodeUint16_encode p.messageID []
  rw [List.append_nil] at hdecode
  unfold unpack body
  rw [hdecode]

theorem length_encodeUint16 (num : UInt16) : (encodeUint16 num).length = 2 := rfl

theorem length_encodeString (field : GoString) :
    (encodeString field).length = field.length + 2 := by
  rw [encodeString, List.length_append, length_encodeUint16]
  omega

/-- The payload is what the header leaves for it. -/
theorem PublishPacket.unpack_body {p : PublishPacket} (h : p.Fits)
    (hlength : p.body.length = p.header.remainingLength) :
    PublishPacket.unpack p.header p.body = (p, none) := by
  have hrest : readBuffer p.payload.length p.payload = (p.payload, []) := by
    have happend := readBuffer_append p.payload []
    rwa [List.append_nil] at happend
  have herr : readBufferErr p.payload.length p.payload = none := by
    unfold readBufferErr
    rw [if_neg]
    rintro ⟨hnil, hne⟩
    exact hne (by rw [hnil, List.length_nil])
  rw [body, List.length_append, List.length_append, length_encodeString] at hlength
  unfold unpack body
  rw [List.append_assoc, decodeString_encode h.topicName]
  by_cases hqos : 0 < p.header.qos
  · rw [if_pos hqos, length_encodeUint16] at hlength
    have hpayload : (p.header.remainingLength : ℤ) - (p.topicName.length + 4) =
        p.payload.length := by
      omega
    simp only [if_pos hqos, decodeUint16_encode, hpayload, Int.toNat_natCast, hrest, herr]
    rw [if_neg (by omega)]
  · rw [if_neg hqos, List.length_nil] at hlength
    have hpayload : (p.header.remainingLength : ℤ) - (p.topicName.length + 2) =
        p.payload.length := by
      omega
    have hzero : p.header.qos = 0 := by
      rw [← UInt8.toNat_inj]
      have hnot : ¬ 0 < p.header.qos.toNat := fun hlt => hqos (UInt8.lt_iff_toNat_lt.mpr hlt)
      show p.header.qos.toNat = 0
      omega
    simp only [if_neg hqos, List.nil_append, hpayload, Int.toNat_natCast, hrest, herr]
    rw [if_neg (by omega), ← h.noMessageID hzero]

/-- By induction on the topics, none of which ends the loop. -/
theorem unpackFilters_flatMap (topics : List GoString)
    (h : ∀ topic ∈ topics, topic ≠ [] ∧ topic.length < 65536) :
    unpackFilters (topics.flatMap encodeString) = topics := by
  induction topics with
  | nil =>
    rw [unpackFilters]
    exact dif_neg fun hne => hne rfl
  | cons topic topics ih =>
    obtain ⟨hne, hshort⟩ := h topic List.mem_cons_self
    have hrest := ih fun topic' hmem => h topic' (List.mem_cons_of_mem _ hmem)
    rw [unpackFilters, List.flatMap_cons, decodeString_encode hshort, dif_pos hne, hrest]

theorem UnsubscribePacket.unpack_body {u : UnsubscribePacket} (h : u.Fits) :
    UnsubscribePacket.unpack u.header u.body = u := by
  unfold unpack body
  rw [decodeUint16_encode]
  show { header := u.header, messageID := u.messageID, topics := _ } = u
  rw [unpackFilters_flatMap u.topics h.topics]

/-! ## Packets that have nothing but their header -/

namespace ControlPacket

/-- The packet of the same Go type that `NewControlPacketWithHeader` makes. -/
def blank : ControlPacket → ControlPacket
  | connect p => connect { header := p.header }
  | connack p => connack { header := p.header }
  | publish p => publish { header := p.header }
  | puback p => puback { header := p.header }
  | pubrec p => pubrec { header := p.header }
  | pubrel p => pubrel { header := p.header }
  | pubcomp p => pubcomp { header := p.header }
  | subscribe p => subscribe { header := p.header }
  | suback p => suback { header := p.header }
  | unsubscribe p => unsubscribe { header := p.header }
  | unsuback p => unsuback { header := p.header }
  | pingreq h => pingreq h
  | pingresp h => pingresp h
  | disconnect h => disconnect h

theorem newControlPacketWithHeader_header {p : ControlPacket} (h : p.type = p.kind) :
    newControlPacketWithHeader p.header = some p.blank := by
  have hmatch : ∀ {fh : FixedHeader} {kind : UInt8} (F : FixedHeader → ControlPacket),
      fh.messageType = kind →
      newControlPacketWithHeader { fh with messageType := kind } =
        some (F { fh with messageType := kind }) →
      newControlPacketWithHeader fh = some (F fh) := by
    intro fh kind F hkind hnew
    subst hkind
    exact hnew
  cases p with
  | connect p => exact hmatch (fun fh => connect { header := fh }) h rfl
  | connack p => exact hmatch (fun fh => connack { header := fh }) h rfl
  | publish p => exact hmatch (fun fh => publish { header := fh }) h rfl
  | puback p => exact hmatch (fun fh => puback { header := fh }) h rfl
  | pubrec p => exact hmatch (fun fh => pubrec { header := fh }) h rfl
  | pubrel p => exact hmatch (fun fh => pubrel { header := fh }) h rfl
  | pubcomp p => exact hmatch (fun fh => pubcomp { header := fh }) h rfl
  | subscribe p => exact hmatch (fun fh => subscribe { header := fh }) h rfl
  | suback p => exact hmatch (fun fh => suback { header := fh }) h rfl
  | unsubscribe p => exact hmatch (fun fh => unsubscribe { header := fh }) h rfl
  | unsuback p => exact hmatch (fun fh => unsuback { header := fh }) h rfl
  | pingreq fh => exact hmatch pingreq h rfl
  | pingresp fh => exact hmatch pingresp h rfl
  | disconnect fh => exact hmatch disconnect h rfl

theorem unpack_kind (buf : GoString) (p : ControlPacket) : (p.unpack buf).1.kind = p.kind := by
  cases p <;> rfl

end ControlPacket

/-! ## What `Unpack` returns fits -/

theorem length_decodeString_fits (buf : GoString) : (decodeString buf).1.length < 65536 := by
  rw [length_decodeString]
  exact (decodeUint16 buf).1.toNat_lt

theorem and_three_lt (b : UInt8) : (3 : UInt8) &&& b < 4 := by
  rw [UInt8.lt_iff_toNat_lt, UInt8.toNat_and]
  have hle : (3 : UInt8).toNat &&& b.toNat ≤ 3 := Nat.and_le_left
  show (3 : UInt8).toNat &&& b.toNat < 4
  omega

theorem ConnectPacket.unpackFlags_fits (fh : FixedHeader) (buf : GoString) :
    (unpackFlags fh buf).1.Fits where
  protocolName := length_decodeString_fits _
  clientIdentifier := length_decodeString_fits _
  willQos := and_three_lt _
  willTopic := Nat.succ_pos _
  willMessage := Nat.succ_pos _
  username := Nat.succ_pos _
  password := Nat.succ_pos _
  noWill _ := ⟨rfl, rfl⟩
  noUsername _ := rfl
  noPassword _ := rfl

/-- Each optional field is set under its flag only. -/
theorem ConnectPacket.unpackWill_fits {c : ConnectPacket} (h : c.Fits) (buf : GoString) :
    (c.unpackWill buf).1.Fits := by
  unfold unpackWill
  by_cases hflag : c.willFlag = true
  · rw [if_pos hflag]
    exact { h with
      willTopic := length_decodeString_fits _
      willMessage := length_decodeString_fits _
      noWill := fun hno => absurd (hflag.symm.trans hno) (by decide) }
  · rw [if_neg hflag]
    exact h

theorem ConnectPacket.unpackUsername_fits {c : ConnectPacket} (h : c.Fits) (buf : GoString) :
    (c.unpackUsername buf).1.Fits := by
  unfold unpackUsername
  by_cases hflag : c.usernameFlag = true
  · rw [if_pos hflag]
    exact { h with
      username := length_decodeString_fits _
      noUsername := fun hno => absurd (hflag.symm.trans hno) (by decide) }
  · rw [if_neg hflag]
    exact h

theorem ConnectPacket.unpackPassword_fits {c : ConnectPacket} (h : c.Fits) (buf : GoString) :
    (c.unpackPassword buf).Fits := by
  unfold unpackPassword
  by_cases hflag : c.passwordFlag = true
  · rw [if_pos hflag]
    exact { h with
      password := length_decodeString_fits _
      noPassword := fun hno => absurd (hflag.symm.trans hno) (by decide) }
  · rw [if_neg hflag]
    exact h

theorem ConnectPacket.unpack_fits (fh : FixedHeader) (buf : GoString) :
    (ConnectPacket.unpack fh buf).Fits :=
  unpackPassword_fits (unpackUsername_fits (unpackWill_fits (unpackFlags_fits fh buf) _) _) _

/-- A packet with QoS 0 has no id to read. -/
theorem PublishPacket.unpack_fits (fh : FixedHeader) (buf : GoString) :
    (PublishPacket.unpack fh buf).1.Fits ∧ (PublishPacket.unpack fh buf).1.header = fh := by
  unfold PublishPacket.unpack
  dsimp only
  by_cases hqos : 0 < fh.qos
  · have hno : fh.qos ≠ 0 := by
      intro hzero
      rw [hzero] at hqos
      exact absurd hqos (by decide)
    simp only [if_pos hqos]
    split <;> exact ⟨⟨length_decodeString_fits _, fun hzero => absurd hzero hno⟩, rfl⟩
  · simp only [if_neg hqos]
    split <;> exact ⟨⟨length_decodeString_fits _, fun _ => rfl⟩, rfl⟩

/-- By induction on the rounds of the loop. -/
theorem unpackTopics_lt (payloadLength : ℕ) (buf : GoString) :
    ∀ topic ∈ (unpackTopics payloadLength buf).1, topic.length < 65536 := by
  induction payloadLength, buf using unpackTopics.induct with
  | case1 n buf hn topic rest htopic qos rest' hqos topics qoss hrec ih =>
    intro topic' hmem
    rw [unpackTopics, if_pos hn] at hmem
    simp only [htopic, hqos] at hmem
    rw [List.mem_cons] at hmem
    cases hmem with
    | inl heq =>
      have hlt := length_decodeString_fits buf
      rwa [htopic, ← heq] at hlt
    | inr hmem => exact ih topic' hmem
  | case2 n buf hn =>
    intro topic hmem
    rw [unpackTopics, if_neg hn] at hmem
    exact absurd hmem List.not_mem_nil

/-- Each round takes at least one from the length. -/
theorem unpackTopics_count (payloadLength : ℕ) (buf : GoString) :
    (unpackTopics payloadLength buf).1.length ≤ payloadLength := by
  induction payloadLength, buf using unpackTopics.induct with
  | case1 n buf hn topic rest htopic qos rest' hqos topics qoss hrec ih =>
    rw [unpackTopics, if_pos hn]
    rw [hrec] at ih
    simp only [htopic, hqos, hrec, List.length_cons]
    dsimp only at ih
    omega
  | case2 n buf hn =>
    rw [unpackTopics, if_neg hn]
    exact Nat.zero_le n

theorem SubscribePacket.unpack_fits (fh : FixedHeader) (buf : GoString) :
    (SubscribePacket.unpack fh buf).Fits :=
  ⟨unpack_length fh buf, unpackTopics_lt _ _, unpackTopics_count _ _⟩

/-- By induction on the rounds of the loop. -/
theorem unpackFilters_fits (buf : GoString) :
    ∀ topic ∈ unpackFilters buf, topic ≠ [] ∧ topic.length < 65536 := by
  induction buf using unpackFilters.induct with
  | case1 buf hne ih =>
    intro topic hmem
    rw [unpackFilters, dif_pos hne, List.mem_cons] at hmem
    cases hmem with
    | inl heq => exact heq ▸ ⟨hne, length_decodeString_fits buf⟩
    | inr hmem => exact ih topic hmem
  | case2 buf hnil =>
    intro topic hmem
    rw [unpackFilters, dif_neg hnil] at hmem
    exact absurd hmem List.not_mem_nil

theorem UnsubscribePacket.unpack_fits (fh : FixedHeader) (buf : GoString) :
    (UnsubscribePacket.unpack fh buf).Fits :=
  ⟨unpackFilters_fits _⟩

namespace ControlPacket

theorem unpack_fieldsFit (buf : GoString) (p : ControlPacket) : (p.unpack buf).1.FieldsFit := by
  cases p with
  | connect p => exact ConnectPacket.unpack_fits p.header buf
  | publish p => exact (PublishPacket.unpack_fits p.header buf).1
  | subscribe p => exact SubscribePacket.unpack_fits p.header buf
  | unsubscribe p => exact UnsubscribePacket.unpack_fits p.header buf
  | _ => trivial

end ControlPacket

/-- `Unpack` of a CONNECT keeps the header: the optional fields are the only ones set after it. -/
theorem ConnectPacket.unpack_header (fh : FixedHeader) (buf : GoString) :
    (ConnectPacket.unpack fh buf).header = fh ∧
      (ConnectPacket.unpack fh buf).reservedBit = (unpackFlags fh buf).1.reservedBit := by
  have hwill : ∀ (c : ConnectPacket) (buf : GoString),
      (c.unpackWill buf).1.header = c.header ∧
        (c.unpackWill buf).1.reservedBit = c.reservedBit := by
    intro c buf
    unfold unpackWill
    split <;> exact ⟨rfl, rfl⟩
  have huser : ∀ (c : ConnectPacket) (buf : GoString),
      (c.unpackUsername buf).1.header = c.header ∧
        (c.unpackUsername buf).1.reservedBit = c.reservedBit := by
    intro c buf
    unfold unpackUsername
    split <;> exact ⟨rfl, rfl⟩
  have hpass : ∀ (c : ConnectPacket) (buf : GoString),
      (c.unpackPassword buf).header = c.header ∧
        (c.unpackPassword buf).reservedBit = c.reservedBit := by
    intro c buf
    unfold unpackPassword
    split <;> exact ⟨rfl, rfl⟩
  unfold unpack
  dsimp only
  constructor
  · rw [(hpass _ _).1, (huser _ _).1, (hwill _ _).1]
    rfl
  · rw [(hpass _ _).2, (huser _ _).2, (hwill _ _).2]

namespace ControlPacket

theorem unpack_header (buf : GoString) (p : ControlPacket) :
    (p.unpack buf).1.header = p.header := by
  cases p with
  | connect p => exact (ConnectPacket.unpack_header p.header buf).1
  | publish p => exact (PublishPacket.unpack_fits p.header buf).2
  | _ => rfl

end ControlPacket

/-! ## What `ReadPacket` returns fits -/

section ReadPacket

variable {ρ : Type} {R : IoReader ρ}

theorem FixedHeader.unpack_fits (b : UInt8) (r : ρ) :
    (FixedHeader.unpack R b r).1.qos < 4 ∧
      (FixedHeader.unpack R b r).1.remainingLength < 2 ^ 28 :=
  ⟨(ofTypeAndFlags_lt b).2, decodeLength_lt r⟩

/-- A packet that `Unpack` has filled has the header that was read. -/
theorem readBody_fits {fh : FixedHeader} (hqos : fh.qos < 4) (hlength : fh.remainingLength < 2 ^ 28)
    {r : ρ} {p : ControlPacket} (h : (readBody R fh r).1.1 = some p) : p.Fits := by
  unfold readBody at h
  split at h
  · exact absurd h (by simp)
  · rename_i cp hnew
    split at h
    · exact absurd h (by simp)
    · obtain ⟨htyped, hheader⟩ := newControlPacketWithHeader_typed hnew
      obtain rfl := Option.some.inj h
      rename_i packetBytes _ _
      have hsame : (cp.unpack packetBytes).1.header = fh := by
        rw [cp.unpack_header, hheader]
      exact {
        typed := by
          rw [ControlPacket.type, cp.unpack_header, cp.unpack_kind]
          exact htyped
        qos := hsame ▸ hqos
        remainingLength := hsame ▸ hlength
        fields := cp.unpack_fieldsFit packetBytes }

/-- Also a packet that comes with an error fits. -/
theorem readPacket_fits {r : ρ} {p : ControlPacket} (h : (readPacket R r).1.1 = some p) :
    p.Fits := by
  unfold readPacket at h
  split at h
  · exact absurd h (by simp)
  · obtain ⟨hqos, hlength⟩ := FixedHeader.unpack_fits (R := R) _ _
    exact readBody_fits hqos hlength h

/-- `Decoded` is about the packets that `ReadPacket` returns. -/
theorem readPacket_decoded {r : ρ} {p : ControlPacket} (h : (readPacket R r).1.1 = some p) :
    Decoded p := by
  have hfits := readPacket_fits h
  by_cases hkind : p.kind = PacketType.subscribe
  · unfold readPacket at h
    split at h
    · exact absurd h (by simp)
    · dsimp only at h
      unfold readBody at h
      split at h
      · exact absurd h (by simp)
      · next cp _ =>
        split at h
        · exact absurd h (by simp)
        · next packetBytes _ _ =>
          obtain rfl := Option.some.inj h
          rw [cp.unpack_kind] at hkind
          have htyped := hfits.typed
          cases cp with
          | subscribe p => exact .subscribe p.header packetBytes htyped
          | _ =>
            rw [ControlPacket.kind] at hkind
            exact absurd hkind (by decide)
  · exact .other p hfits.typed hkind

end ReadPacket

/-! ## Reading what was written -/

theorem readPacket_cons (b : UInt8) (rest : GoString) (err : GoError) :
    readPacket ByteStream.reader ⟨b :: rest, err⟩ =
      readBody ByteStream.reader (FixedHeader.unpack ByteStream.reader b ⟨rest, err⟩).1
        (FixedHeader.unpack ByteStream.reader b ⟨rest, err⟩).2 := by
  rw [readPacket, ByteStream.reader_readFull, ByteStream.readFull_cons]
  rfl

theorem readBody_append {fh : FixedHeader} {cp : ControlPacket}
    (hnew : newControlPacketWithHeader fh = some cp) {body : GoString}
    (hlength : body.length = fh.remainingLength) (rest : GoString) (err : GoError) :
    readBody ByteStream.reader fh ⟨body ++ rest, err⟩ =
      ((some (cp.unpack body).1, (cp.unpack body).2), ⟨rest, err⟩) := by
  rw [readBody, hnew, ByteStream.reader_readFull, ← hlength, ByteStream.readFull_append]

theorem lt_sixteen_of_typed {p : ControlPacket} (h : p.type = p.kind) :
    p.header.messageType < 16 := by
  have hkind : p.kind < 16 := by
    cases p <;> simp only [ControlPacket.kind] <;> decide
  rw [← h] at hkind
  exact hkind

/-- A header that fits is read as it was written. -/
theorem FixedHeader.unpack_pack {p : ControlPacket} (h : p.Fits) (rest : GoString)
    (err : GoError) :
    FixedHeader.unpack ByteStream.reader p.header.typeAndFlags
      ⟨encodeLength p.header.remainingLength ++ rest, err⟩ = (p.header, ⟨rest, err⟩) := by
  rw [FixedHeader.unpack, decodeLength_encodeLength h.remainingLength]
  exact Prod.ext (ofTypeAndFlags_typeAndFlags (lt_sixteen_of_typed h.typed) h.qos) rfl

/-- The body goes to `Unpack`. -/
theorem readPacket_pack {p : ControlPacket} (h : p.Fits) {body : GoString}
    (hlength : body.length = p.header.remainingLength) (rest : GoString) (err : GoError) :
    readPacket ByteStream.reader ⟨p.header.pack ++ body ++ rest, err⟩ =
      ((some (p.blank.unpack body).1, (p.blank.unpack body).2), ⟨rest, err⟩) := by
  rw [FixedHeader.pack, List.cons_append, List.cons_append, readPacket_cons, List.append_assoc,
    FixedHeader.unpack_pack h]
  exact readBody_append (ControlPacket.newControlPacketWithHeader_header h.typed) hlength rest err

/-- `Unpack` finds the fields that `Write` has written. -/
theorem ControlPacket.unpack_body {p : ControlPacket} (h : p.Encodable) {body : GoString}
    (hbody : p.body = .ok body) : p.blank.unpack body = (p, none) := by
  obtain ⟨body', hbody', hlength⟩ := h.body
  obtain rfl : body' = body := Except.ok.inj (hbody'.symm.trans hbody)
  have hfields := h.fields
  cases p with
  | connect p =>
    obtain rfl := Except.ok.inj hbody
    show (connect (ConnectPacket.unpack p.header p.body), none) = _
    rw [ConnectPacket.unpack_body hfields h.reservedBit]
  | connack p =>
    obtain rfl := Except.ok.inj hbody
    show (connack (ConnackPacket.unpack p.header p.body), none) = _
    rw [ConnackPacket.unpack_body]
  | publish p =>
    obtain rfl := Except.ok.inj hbody
    show (publish (PublishPacket.unpack p.header p.body).1,
      (PublishPacket.unpack p.header p.body).2) = _
    rw [PublishPacket.unpack_body hfields hlength]
  | subscribe p =>
    obtain ⟨buf, hbuf, hunpack⟩ := SubscribePacket.unpack_body hfields.paired hfields.topics
    obtain rfl : buf = body' := Except.ok.inj (hbuf.symm.trans hbody)
    show (subscribe (SubscribePacket.unpack p.header buf), none) = _
    rw [hunpack p.header hlength.symm]
  | suback p =>
    obtain rfl := Except.ok.inj hbody
    show (suback (SubackPacket.unpack p.header p.body), none) = _
    rw [SubackPacket.unpack_body]
  | unsubscribe p =>
    obtain rfl := Except.ok.inj hbody
    show (unsubscribe (UnsubscribePacket.unpack p.header p.body), none) = _
    rw [UnsubscribePacket.unpack_body hfields]
  | puback p =>
    obtain rfl := Except.ok.inj hbody
    exact congrArg (fun q => (puback q, none)) p.unpack_body
  | pubrec p =>
    obtain rfl := Except.ok.inj hbody
    exact congrArg (fun q => (pubrec q, none)) p.unpack_body
  | pubrel p =>
    obtain rfl := Except.ok.inj hbody
    exact congrArg (fun q => (pubrel q, none)) p.unpack_body
  | pubcomp p =>
    obtain rfl := Except.ok.inj hbody
    exact congrArg (fun q => (pubcomp q, none)) p.unpack_body
  | unsuback p =>
    obtain rfl := Except.ok.inj hbody
    exact congrArg (fun q => (unsuback q, none)) p.unpack_body
  | pingreq fh => rfl
  | pingresp fh => rfl
  | disconnect fh => rfl

/-- An encodable packet is read back, and nothing of what follows it. -/
theorem readPacket_append {p : ControlPacket} (h : p.Encodable) {body : GoString}
    (hbody : p.body = .ok body) (rest : GoString) (err : GoError) :
    readPacket ByteStream.reader ⟨p.header.pack ++ body ++ rest, err⟩ =
      ((some p, none), ⟨rest, err⟩) := by
  obtain ⟨body', hbody', hlength⟩ := h.body
  obtain rfl : body' = body := Except.ok.inj (hbody'.symm.trans hbody)
  rw [readPacket_pack h.toFits hlength, ControlPacket.unpack_body h hbody]

/-- What is written does not depend on the length that the header had. -/
theorem ControlPacket.body_setRemainingLength (n : ℕ) (p : ControlPacket) :
    (p.setRemainingLength n).body = p.body := by
  cases p <;> rfl

theorem ControlPacket.write_eq_ok {p p' : ControlPacket} {bytes : GoString}
    (h : p.write = .ok (bytes, p')) :
    ∃ body, p'.body = .ok body ∧ p' = p.setRemainingLength body.length ∧
      bytes = p'.header.pack ++ body := by
  unfold write at h
  cases hbody : p.body with
  | error e =>
    rw [hbody] at h
    exact nomatch h
  | ok body =>
    rw [hbody] at h
    obtain ⟨rfl, rfl⟩ := Prod.mk.inj (Except.ok.inj h)
    exact ⟨body, by rw [body_setRemainingLength, hbody], rfl, rfl⟩

/-- The packet without what `Write` leaves out: the reserved bit and the optional fields of a
CONNECT whose flag is not set, and the id of a PUBLISH with QoS 0. -/
def ControlPacket.plain : ControlPacket → ControlPacket
  | connect p =>
    connect
      { p with
        reservedBit := 0
        willTopic := if p.willFlag then p.willTopic else []
        willMessage := if p.willFlag then p.willMessage else []
        username := if p.usernameFlag then p.username else []
        password := if p.passwordFlag then p.password else [] }
  | publish p => publish { p with messageID := if 0 < p.header.qos then p.messageID else 0 }
  | p => p

theorem ControlPacket.header_plain (p : ControlPacket) : p.plain.header = p.header := by
  cases p <;> rfl

/-- What is left out makes no difference to the bytes. -/
theorem ControlPacket.body_plain (p : ControlPacket) : p.plain.body = p.body := by
  cases p with
  | connect p =>
    obtain ⟨_, _, _, _, willFlag, _, _, usernameFlag, passwordFlag, _, _, _, _, _, _, _⟩ := p
    cases willFlag <;> cases usernameFlag <;> cases passwordFlag <;> rfl
  | publish p =>
    show Except.ok (PublishPacket.body _) = Except.ok p.body
    unfold PublishPacket.body
    dsimp only
    by_cases hqos : 0 < p.header.qos
    · simp only [if_pos hqos]
    · simp only [if_neg hqos]
  | _ => rfl

/-- The reserved bit is read as zero where the fields before it are read as they were. -/
theorem ConnectPacket.unpack_body_reservedBit {c : ConnectPacket} (h : c.Fits) (fh : FixedHeader) :
    (ConnectPacket.unpack fh c.body).reservedBit = 0 := by
  have hbit := (options_bits h.willQos).1
  rw [(ConnectPacket.unpack_header fh c.body).2, unpackFlags, body]
  simp only [List.append_assoc, List.cons_append, List.nil_append,
    decodeString_encode h.protocolName, decodeByte_cons, hbit]

theorem ControlPacket.unpack_body_reservedBit {p : ControlPacket} (h : p.FieldsFit)
    {body : GoString} (hbody : p.body = .ok body) :
    (p.blank.unpack body).1.reservedBit = 0 := by
  cases p with
  | connect p =>
    obtain rfl := Except.ok.inj hbody
    exact ConnectPacket.unpack_body_reservedBit h p.header
  | _ => rfl

/-- The packets without a body are the ones whose `RemainingLength` `Write` leaves alone. -/
theorem ControlPacket.remainingLength_setRemainingLength (n : ℕ) (p : ControlPacket) :
    (p.setRemainingLength n).header.remainingLength = n ∨
      (p.setRemainingLength n).body = .ok [] := by
  cases p with
  | pingreq fh => exact Or.inr rfl
  | pingresp fh => exact Or.inr rfl
  | disconnect fh => exact Or.inr rfl
  | _ => exact Or.inl rfl

/-- `ReadPacket` returns what `Write` has written, whatever follows it, for the encodable packets
and for no others. -/
theorem readPacket_write_iff {p p' : ControlPacket} {bytes : GoString}
    (h : p.write = .ok (bytes, p')) :
    (∀ rest err, readPacket ByteStream.reader ⟨bytes ++ rest, err⟩ =
      ((some p', none), ⟨rest, err⟩)) ↔ p'.Encodable := by
  obtain ⟨body, hbody, hp', rfl⟩ := ControlPacket.write_eq_ok h
  constructor
  · intro hread
    have hfits : p'.Fits := by
      have hfirst := hread [] errEof
      exact readPacket_fits (R := ByteStream.reader) (r := ⟨p'.header.pack ++ body ++ [], errEof⟩)
        (by rw [hfirst])
    have hlength : body.length = p'.header.remainingLength := by
      obtain hset | hnil := p.remainingLength_setRemainingLength body.length
      · rw [← hp'] at hset
        exact hset.symm
      · -- the bytes that the header promises are taken from what follows
        rw [← hp', hbody] at hnil
        obtain rfl := Except.ok.inj hnil
        have htaken := readPacket_pack hfits
          (List.length_replicate (n := p'.header.remainingLength) (a := 0)) [] errEof
        have hleft := hread (List.replicate p'.header.remainingLength 0) errEof
        rw [List.append_nil] at htaken hleft
        have hrest := congrArg (fun result => result.2.bytes.length) (htaken.symm.trans hleft)
        rwa [List.length_replicate] at hrest
    have hbit := ControlPacket.unpack_body_reservedBit hfits.fields hbody
    have hsame := readPacket_pack hfits hlength [] errEof
    rw [hread [] errEof] at hsame
    have hunpack : p' = (p'.blank.unpack body).1 :=
      Option.some.inj (congrArg (fun result => result.1.1) hsame)
    exact { hfits with
      reservedBit := by rwa [← hunpack] at hbit
      body := ⟨body, hbody, hlength⟩ }
  · intro hencodable rest err
    exact readPacket_append hencodable hbody rest err

/-- A PUBLISH with QoS 1. -/
theorem readPacket_write_publishOf :
    (publishOf [97] [98] 1 7).write =
      .ok ([50, 6, 0, 1, 97, 0, 7, 98], (publishOf [97] [98] 1 7).setRemainingLength 6) ∧
    ((∀ rest err, readPacket ByteStream.reader ⟨[50, 6, 0, 1, 97, 0, 7, 98] ++ rest, err⟩ =
        ((some ((publishOf [97] [98] 1 7).setRemainingLength 6), none), ⟨rest, err⟩)) ↔
      ((publishOf [97] [98] 1 7).setRemainingLength 6).Encodable) := by
  have hlength : encodeLength 6 = [6] := by
    rw [encodeLength_eq]
    rfl
  have hwrite : (publishOf [97] [98] 1 7).write =
      .ok ([50, 6, 0, 1, 97, 0, 7, 98], (publishOf [97] [98] 1 7).setRemainingLength 6) := by
    show Except.ok (_ :: encodeLength 6 ++ _, _) = _
    rw [hlength]
    rfl
  exact ⟨hwrite, readPacket_write_iff hwrite⟩

end MqttBroker

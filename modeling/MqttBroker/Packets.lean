import MqttBroker.Basic

/-!
# Control packets

The fourteen packet structs of `packets`, with the fields the sessions read or write, the
constructors `NewControlPacket` and `NewControlPacketWithHeader`, and the two methods the
dispatch relies on: `Type` (the message type stored in the fixed header, not the Go type)
and `Details`.

The five acknowledgement structs PUBACK, PUBREC, PUBREL, PUBCOMP and UNSUBACK have the same
fields and share `IdPacket`. Of the decoder `SubscribePacket.Unpack` is here, because it is
where the lists `Topics` and `Qoss` get their common length, and `SubackPacket.Unpack`, with
the encoders of the two.
-/

namespace MqttBroker

/-- `packets.FixedHeader`. -/
structure FixedHeader where
  messageType : UInt8 := 0
  dup : Bool := false
  qos : UInt8 := 0
  retain : Bool := false
  remainingLength : ℕ := 0
deriving DecidableEq

/-- The first byte that `pack` writes, with the message type in its upper half. -/
def FixedHeader.typeAndFlags (fh : FixedHeader) : UInt8 :=
  fh.messageType <<< 4 ||| fh.dup.toUInt8 <<< 3 ||| fh.qos <<< 1 ||| fh.retain.toUInt8

/-- `packets.Details`. -/
structure Details where
  qos : UInt8
  messageID : UInt16
deriving DecidableEq

namespace PacketType

abbrev connect : UInt8 := 1
abbrev connack : UInt8 := 2
abbrev publish : UInt8 := 3
abbrev puback : UInt8 := 4
abbrev pubrec : UInt8 := 5
abbrev pubrel : UInt8 := 6
abbrev pubcomp : UInt8 := 7
abbrev subscribe : UInt8 := 8
abbrev suback : UInt8 := 9
abbrev unsubscribe : UInt8 := 10
abbrev unsuback : UInt8 := 11
abbrev pingreq : UInt8 := 12
abbrev pingresp : UInt8 := 13
abbrev disconnect : UInt8 := 14

end PacketType

/-- `packets.ConnErrors`: no error for `Accepted` and for codes outside the table. -/
def connErrors (code : UInt8) : Option GoError :=
  if code ∈ [1, 2, 3, 4, 5, 0xFE, 0xFF] then some (.conn code) else none

def errRefusedServerUnavailable : UInt8 := 0x03
def errProtocolViolation : UInt8 := 0xFF

structure ConnectPacket where
  header : FixedHeader
  protocolName : GoString := []
  protocolVersion : UInt8 := 0
  cleanSession : Bool := false
  willFlag : Bool := false
  willQos : UInt8 := 0
  willRetain : Bool := false
  usernameFlag : Bool := false
  passwordFlag : Bool := false
  reservedBit : UInt8 := 0
  keepalive : UInt16 := 0
  clientIdentifier : GoString := []
  willTopic : GoString := []
  willMessage : GoString := []
  username : GoString := []
  password : GoString := []
deriving DecidableEq

structure ConnackPacket where
  header : FixedHeader
  sessionPresent : Bool := false
  returnCode : UInt8 := 0
deriving DecidableEq

structure PublishPacket where
  header : FixedHeader
  topicName : GoString := []
  messageID : UInt16 := 0
  payload : GoString := []
deriving DecidableEq

/-- A packet whose only field beside the header is a packet id. -/
structure IdPacket where
  header : FixedHeader
  messageID : UInt16 := 0
deriving DecidableEq

structure SubscribePacket where
  header : FixedHeader
  messageID : UInt16 := 0
  topics : List GoString := []
  qoss : List UInt8 := []
deriving DecidableEq

structure SubackPacket where
  header : FixedHeader
  messageID : UInt16 := 0
  returnCodes : List UInt8 := []
deriving DecidableEq

structure UnsubscribePacket where
  header : FixedHeader
  messageID : UInt16 := 0
  topics : List GoString := []
deriving DecidableEq

/-- `packets.ControlPacket`: one constructor for each struct behind the interface. -/
inductive ControlPacket
  | connect (p : ConnectPacket)
  | connack (p : ConnackPacket)
  | publish (p : PublishPacket)
  | puback (p : IdPacket)
  | pubrec (p : IdPacket)
  | pubrel (p : IdPacket)
  | pubcomp (p : IdPacket)
  | subscribe (p : SubscribePacket)
  | suback (p : SubackPacket)
  | unsubscribe (p : UnsubscribePacket)
  | unsuback (p : IdPacket)
  | pingreq (h : FixedHeader)
  | pingresp (h : FixedHeader)
  | disconnect (h : FixedHeader)
deriving DecidableEq

namespace ControlPacket

def header : ControlPacket → FixedHeader
  | connect p => p.header
  | connack p => p.header
  | publish p => p.header
  | puback p | pubrec p | pubrel p | pubcomp p | unsuback p => p.header
  | subscribe p => p.header
  | suback p => p.header
  | unsubscribe p => p.header
  | pingreq h | pingresp h | disconnect h => h

/-- `Type()`: the message type of the fixed header. -/
def type (p : ControlPacket) : UInt8 := p.header.messageType

/-- The message type that belongs to the Go type of the packet. -/
def kind : ControlPacket → UInt8
  | connect _ => PacketType.connect
  | connack _ => PacketType.connack
  | publish _ => PacketType.publish
  | puback _ => PacketType.puback
  | pubrec _ => PacketType.pubrec
  | pubrel _ => PacketType.pubrel
  | pubcomp _ => PacketType.pubcomp
  | subscribe _ => PacketType.subscribe
  | suback _ => PacketType.suback
  | unsubscribe _ => PacketType.unsubscribe
  | unsuback _ => PacketType.unsuback
  | pingreq _ => PacketType.pingreq
  | pingresp _ => PacketType.pingresp
  | disconnect _ => PacketType.disconnect

/-- `Details()`. -/
def details : ControlPacket → Details
  | publish p => ⟨p.header.qos, p.messageID⟩
  | puback p | pubrec p | pubrel p | pubcomp p => ⟨p.header.qos, p.messageID⟩
  | subscribe p => ⟨1, p.messageID⟩
  | suback p => ⟨0, p.messageID⟩
  | unsubscribe p => ⟨1, p.messageID⟩
  | unsuback p => ⟨0, p.messageID⟩
  | connect _ | connack _ | pingreq _ | pingresp _ | disconnect _ => ⟨0, 0⟩

/-- The packet id of `Details()`. -/
abbrev messageID (p : ControlPacket) : UInt16 := p.details.messageID

/-- The assignment `msg.MessageID = id` on the packets a session numbers itself. -/
def setMessageID (id : UInt16) : ControlPacket → ControlPacket
  | publish p => publish { p with messageID := id }
  | subscribe p => subscribe { p with messageID := id }
  | unsubscribe p => unsubscribe { p with messageID := id }
  | p => p

end ControlPacket

/-- `NewControlPacketWithHeader`. -/
def newControlPacketWithHeader (fh : FixedHeader) : Option ControlPacket :=
  match fh.messageType with
  | 1 => some (.connect { header := fh })
  | 2 => some (.connack { header := fh })
  | 3 => some (.publish { header := fh })
  | 4 => some (.puback { header := fh })
  | 5 => some (.pubrec { header := fh })
  | 6 => some (.pubrel { header := fh })
  | 7 => some (.pubcomp { header := fh })
  | 8 => some (.subscribe { header := fh })
  | 9 => some (.suback { header := fh })
  | 10 => some (.unsubscribe { header := fh })
  | 11 => some (.unsuback { header := fh })
  | 12 => some (.pingreq fh)
  | 13 => some (.pingresp fh)
  | 14 => some (.disconnect fh)
  | _ => none

/-! ## The packets the broker and its clients create

`NewControlPacket` with the type of each: PUBREL and SUBSCRIBE start with QoS 1. -/

def newPublish : PublishPacket := { header := { messageType := PacketType.publish } }
def newConnack : ConnackPacket := { header := { messageType := PacketType.connack } }
def newPuback : IdPacket := { header := { messageType := PacketType.puback } }
def newPubrec : IdPacket := { header := { messageType := PacketType.pubrec } }
def newPubrel : IdPacket := { header := { messageType := PacketType.pubrel, qos := 1 } }
def newPubcomp : IdPacket := { header := { messageType := PacketType.pubcomp } }
def newSuback : SubackPacket := { header := { messageType := PacketType.suback } }
def newSubscribe : SubscribePacket :=
  { header := { messageType := PacketType.subscribe, qos := 1 } }
def newPingreq : FixedHeader := { messageType := PacketType.pingreq }
def newPingresp : FixedHeader := { messageType := PacketType.pingresp }

/-- `PublishPacket.Copy`: topic and payload under a fresh header. -/
def PublishPacket.copy (p : PublishPacket) : PublishPacket :=
  { newPublish with topicName := p.topicName, payload := p.payload }

/-- The header that `NewControlPacketWithHeader` stores names the Go type it chose. -/
theorem newControlPacketWithHeader_typed {fh : FixedHeader} {p : ControlPacket}
    (h : newControlPacketWithHeader fh = some p) : p.type = p.kind ∧ p.header = fh := by
  unfold newControlPacketWithHeader at h
  split at h
  case h_15 => exact absurd h (by simp)
  all_goals
    rename_i ht
    obtain rfl := Option.some.inj h
    exact ⟨ht, rfl⟩

/-! ## Decoding a SUBSCRIBE -/

/-- `Read` on a `bytes.Buffer` into a zeroed slice of length `n`. -/
def readBuffer (n : ℕ) (buf : GoString) : GoString × GoString :=
  (buf.take n ++ List.replicate (n - buf.length) 0, buf.drop n)

def decodeByte (buf : GoString) : UInt8 × GoString :=
  ((readBuffer 1 buf).1.headD 0, (readBuffer 1 buf).2)

/-- Two bytes, big-endian. -/
def decodeUint16 (buf : GoString) : UInt16 × GoString :=
  let num := (readBuffer 2 buf).1
  (UInt16.ofNat ((num.headD 0).toNat * 256 + (num.tail.headD 0).toNat), (readBuffer 2 buf).2)

def decodeString (buf : GoString) : GoString × GoString :=
  let (fieldLength, rest) := decodeUint16 buf
  readBuffer fieldLength.toNat rest

/-- The loop of `SubscribePacket.Unpack`; only the sign of `payloadLength` matters, so the
subtraction may stop at zero. -/
def unpackTopics (payloadLength : ℕ) (buf : GoString) : List GoString × List UInt8 :=
  if 0 < payloadLength then
    let (topic, rest) := decodeString buf
    let (qos, rest) := decodeByte rest
    let (topics, qoss) := unpackTopics (payloadLength - (2 + topic.length + 1)) rest
    (topic :: topics, qos :: qoss)
  else
    ([], [])
termination_by payloadLength

/-- `SubscribePacket.Unpack`. -/
def SubscribePacket.unpack (fh : FixedHeader) (buf : GoString) : SubscribePacket :=
  let (messageID, rest) := decodeUint16 buf
  let (topics, qoss) := unpackTopics (fh.remainingLength - 2) rest
  { header := fh, messageID, topics, qoss }

theorem unpackTopics_length (payloadLength : ℕ) (buf : GoString) :
    (unpackTopics payloadLength buf).1.length = (unpackTopics payloadLength buf).2.length := by
  induction payloadLength, buf using unpackTopics.induct with
  | case1 n buf hn topic rest htopic qos rest' hqos topics qoss hrec ih =>
    rw [hrec] at ih
    rw [unpackTopics, if_pos hn]
    simp only [htopic, hqos, hrec, List.length_cons, ih]
  | case2 n buf hn => rw [unpackTopics, if_neg hn]; rfl

/-- A decoded SUBSCRIBE has one QoS byte for each filter. -/
theorem SubscribePacket.unpack_length (fh : FixedHeader) (buf : GoString) :
    (unpack fh buf).topics.length = (unpack fh buf).qoss.length :=
  unpackTopics_length _ _

/-- `SubackPacket.Unpack`: all that follows the id is return codes. -/
def SubackPacket.unpack (fh : FixedHeader) (buf : GoString) : SubackPacket :=
  let (messageID, rest) := decodeUint16 buf
  { header := fh, messageID, returnCodes := rest }

/-! ## Encoding a SUBSCRIBE and a SUBACK -/

/-- Two bytes, big-endian. -/
def encodeUint16 (num : UInt16) : GoString := [UInt8.ofNat (num.toNat / 256), UInt8.ofNat num.toNat]

/-- The length is cut to 16 bits. -/
def encodeString (field : GoString) : GoString :=
  encodeUint16 (UInt16.ofNat field.length) ++ field

/-- The loop of `SubscribePacket.Write`; a missing QoS is an index out of range. -/
def packTopics : List GoString → List UInt8 → Except Panic GoString
  | [], _ => .ok []
  | _ :: _, [] => .error .indexOutOfRange
  | topic :: topics, qos :: qoss => do
    let rest ← packTopics topics qoss
    pure (encodeString topic ++ qos :: rest)

/-- The body that `SubscribePacket.Write` writes after the fixed header. -/
def SubscribePacket.body (m : SubscribePacket) : Except Panic GoString := do
  let rest ← packTopics m.topics m.qoss
  pure (encodeUint16 m.messageID ++ rest)

/-- The body that `SubackPacket.Write` writes after the fixed header. -/
def SubackPacket.body (m : SubackPacket) : GoString := encodeUint16 m.messageID ++ m.returnCodes

theorem readBuffer_append (a b : GoString) : readBuffer a.length (a ++ b) = (a, b) := by
  unfold readBuffer
  rw [List.take_left, List.drop_left, List.length_append]
  simp

theorem decodeUint16_encode (num : UInt16) (rest : GoString) :
    decodeUint16 (encodeUint16 num ++ rest) = (num, rest) := by
  have hread : readBuffer 2 (encodeUint16 num ++ rest) = (encodeUint16 num, rest) :=
    readBuffer_append (encodeUint16 num) rest
  have hlt := num.toNat_lt
  unfold decodeUint16
  rw [hread]
  refine Prod.ext (UInt16.toNat_inj.mp ?_) rfl
  simp only [encodeUint16, List.headD_cons, List.tail_cons, UInt8.toNat_ofNat', UInt16.toNat_ofNat']
  omega

/-- A string that fits the two bytes of its length. -/
theorem decodeString_encode {field : GoString} (h : field.length < 65536) (rest : GoString) :
    decodeString (encodeString field ++ rest) = (field, rest) := by
  have hlength : (UInt16.ofNat field.length).toNat = field.length := by
    rw [UInt16.toNat_ofNat']
    omega
  unfold decodeString encodeString
  rw [List.append_assoc, decodeUint16_encode]
  show readBuffer (UInt16.ofNat field.length).toNat (field ++ rest) = _
  rw [hlength]
  exact readBuffer_append field rest

/-- By induction on the filters, whose lengths count the payload down. -/
theorem unpackTopics_packTopics (topics : List GoString) :
    ∀ (qoss : List UInt8), topics.length = qoss.length → (∀ topic ∈ topics, topic.length < 65536) →
      ∃ buf, packTopics topics qoss = .ok buf ∧ unpackTopics buf.length buf = (topics, qoss) := by
  induction topics with
  | nil =>
    intro qoss hlength _
    obtain rfl : qoss = [] := List.eq_nil_of_length_eq_zero hlength.symm
    exact ⟨[], rfl, by rw [unpackTopics]; rfl⟩
  | cons topic topics ih =>
    intro qoss hlength hshort
    cases qoss with
    | nil => exact absurd hlength (Nat.succ_ne_zero _)
    | cons qos qoss =>
      obtain ⟨buf, hpack, hunpack⟩ := ih qoss (Nat.succ.inj hlength) fun topic' h' =>
        hshort topic' (List.mem_cons_of_mem _ h')
      refine ⟨encodeString topic ++ qos :: buf, ?_, ?_⟩
      · rw [packTopics, hpack]
        rfl
      · have hbyte : decodeByte (qos :: buf) = (qos, buf) := rfl
        have hlong : (encodeString topic ++ qos :: buf).length =
            2 + topic.length + (buf.length + 1) := by
          rw [List.length_append, List.length_cons, encodeString, List.length_append]
          rfl
        have hpayload : (encodeString topic ++ qos :: buf).length - (2 + topic.length + 1) =
            buf.length := by
          omega
        rw [unpackTopics, if_pos (by omega), decodeString_encode (hshort topic List.mem_cons_self)]
        simp only [hbyte, hpayload, hunpack]

/-- Filters that fit their length bytes come out as they were written. -/
theorem SubscribePacket.unpack_body {m : SubscribePacket}
    (hlength : m.topics.length = m.qoss.length)
    (hshort : ∀ topic ∈ m.topics, topic.length < 65536) : ∃ buf, m.body = .ok buf ∧
      ∀ fh : FixedHeader, fh.remainingLength = buf.length →
        SubscribePacket.unpack fh buf = { m with header := fh } := by
  obtain ⟨rest, hpack, hunpack⟩ := unpackTopics_packTopics m.topics m.qoss hlength hshort
  refine ⟨encodeUint16 m.messageID ++ rest, ?_, fun fh hfh => ?_⟩
  · rw [SubscribePacket.body, hpack]
    rfl
  · have hpayload : fh.remainingLength - 2 = rest.length := by
      rw [hfh, List.length_append]
      show 2 + rest.length - 2 = _
      omega
    rw [SubscribePacket.unpack, decodeUint16_encode]
    simp only [hpayload, hunpack]

theorem SubackPacket.unpack_body (m : SubackPacket) (fh : FixedHeader) :
    SubackPacket.unpack fh m.body = { m with header := fh } := by
  rw [SubackPacket.unpack, SubackPacket.body, decodeUint16_encode]

/-! ## What `ReadPacket` returns -/

/-- The packets `ReadPacket` can return: the header names the Go type, and a SUBSCRIBE is
what `Unpack` makes of some bytes. The other fields may hold anything. -/
inductive Decoded : ControlPacket → Prop
  | subscribe (fh : FixedHeader) (buf : GoString) :
      fh.messageType = PacketType.subscribe → Decoded (.subscribe (.unpack fh buf))
  | other (p : ControlPacket) : p.type = p.kind → p.kind ≠ PacketType.subscribe → Decoded p

theorem Decoded.typed {p : ControlPacket} (h : Decoded p) : p.type = p.kind := by
  cases h with
  | subscribe fh buf ht => exact ht
  | other _ ht _ => exact ht

theorem Decoded.paired {m : SubscribePacket} (h : Decoded (.subscribe m)) :
    m.topics.length = m.qoss.length := by
  cases h with
  | subscribe fh buf _ => exact SubscribePacket.unpack_length fh buf
  | other _ _ hk => exact absurd rfl hk

/-! ## Packets of a client -/

/-- A CONNECT without a will. -/
def connectAs (clientIdentifier : GoString) : ControlPacket :=
  .connect { header := { messageType := PacketType.connect }, clientIdentifier }

theorem connectAs_decoded (clientIdentifier : GoString) : Decoded (connectAs clientIdentifier) :=
  .other _ rfl (by rw [connectAs, ControlPacket.kind]; decide)

/-- A CONNACK. -/
def connackOf (returnCode : UInt8) : ControlPacket :=
  .connack { header := { messageType := PacketType.connack }, returnCode }

theorem connackOf_decoded (returnCode : UInt8) : Decoded (connackOf returnCode) :=
  .other _ rfl (by rw [connackOf, ControlPacket.kind]; decide)

/-- A DISCONNECT. -/
def disconnectPacket : ControlPacket := .disconnect { messageType := PacketType.disconnect }

theorem disconnectPacket_decoded : Decoded disconnectPacket :=
  .other _ rfl (by rw [disconnectPacket, ControlPacket.kind]; decide)

/-- A SUBSCRIBE for one filter of one byte. -/
def subscribeByte (filter qos : UInt8) : ControlPacket :=
  .subscribe
    { header := { messageType := PacketType.subscribe, remainingLength := 6 }
      messageID := 1
      topics := [[filter]]
      qoss := [qos] }

theorem subscribeByte_decoded (filter qos : UInt8) : Decoded (subscribeByte filter qos) := by
  have h : ControlPacket.subscribe (SubscribePacket.unpack
      { messageType := PacketType.subscribe, remainingLength := 6 }
      [0, 1, 0, 1, filter, qos]) = subscribeByte filter qos := by
    simp [SubscribePacket.unpack, unpackTopics, decodeString, decodeUint16, decodeByte,
      readBuffer, subscribeByte]
  exact h ▸ Decoded.subscribe _ _ rfl

/-- A PUBLISH that a client sends. -/
def publishOf (topicName payload : GoString) (qos : UInt8) (messageID : UInt16) : ControlPacket :=
  .publish { header := { newPublish.header with qos := qos }, topicName, messageID, payload }

theorem publishOf_decoded (topicName payload : GoString) (qos : UInt8) (messageID : UInt16) :
    Decoded (publishOf topicName payload qos messageID) :=
  .other _ rfl (by rw [publishOf, ControlPacket.kind]; decide)

end MqttBroker

import MqttBroker.Packets
import MqttBroker.Packets.Reader

/-!
# Packets on the wire

`Write` and `Unpack` of the fourteen packet structs, the fixed header, and `ReadPacket`. A packet
is written as its fixed header, whose `RemainingLength` the call sets, and a body. It is read the
other way round: the fixed header decides the Go type, `RemainingLength` bytes are read, and
`Unpack` takes the fields from a buffer of these bytes. A buffer that is too short for a field
leaves zeros in it.
-/

namespace MqttBroker

/-! ## The fixed header -/

/-- `encodeLength`: seven bits in each byte, the lowest first, and the eighth bit set in every
byte but the last. -/
def encodeLength (length : ℕ) : GoString :=
  if 0 < length / 128 then
    (UInt8.ofNat (length % 128) ||| 0x80) :: encodeLength (length / 128)
  else
    [UInt8.ofNat (length % 128)]

/-- `FixedHeader.pack`. -/
def FixedHeader.pack (fh : FixedHeader) : GoString :=
  fh.typeAndFlags :: encodeLength fh.remainingLength

section Read

variable {ρ : Type} (R : IoReader ρ)

/-- The loop of `decodeLength`. The error of `io.ReadFull` is dropped, and a call that reads
nothing leaves the byte `b` of the round before in the buffer. -/
def decodeLengthLoop (rLength : UInt32) (multiplier : ℕ) (b : UInt8) (r : ρ) : ℕ × ρ :=
  if multiplier < 27 then
    let read := R.readFull 1 r
    let digit := read.1.1.headD b
    let rLength := rLength ||| (digit &&& 127).toUInt32 <<< UInt32.ofNat multiplier
    if digit &&& 128 = 0 then (rLength.toNat, read.2)
    else decodeLengthLoop rLength (multiplier + 7) digit read.2
  else
    (rLength.toNat, r)
termination_by 27 - multiplier

/-- `decodeLength`. -/
def decodeLength (r : ρ) : ℕ × ρ := decodeLengthLoop R 0 0 0 r

/-- The part of the fixed header that is in its first byte. -/
def FixedHeader.ofTypeAndFlags (typeAndFlags : UInt8) : FixedHeader where
  messageType := typeAndFlags >>> 4
  dup := typeAndFlags >>> 3 &&& 0x01 > 0
  qos := typeAndFlags >>> 1 &&& 0x03
  retain := typeAndFlags &&& 0x01 > 0

/-- `FixedHeader.unpack`. -/
def FixedHeader.unpack (typeAndFlags : UInt8) (r : ρ) : FixedHeader × ρ :=
  let length := decodeLength R r
  ({ FixedHeader.ofTypeAndFlags typeAndFlags with remainingLength := length.1 }, length.2)

end Read

/-! ## The bodies that `Write` writes -/

/-- `encodeBytes`. -/
abbrev encodeBytes : GoString → GoString := encodeString

/-- `decodeBytes`. -/
abbrev decodeBytes : GoString → GoString × GoString := decodeString

/-- The byte of flags of a CONNECT. -/
def ConnectPacket.options (c : ConnectPacket) : UInt8 :=
  c.cleanSession.toUInt8 <<< 1 ||| c.willFlag.toUInt8 <<< 2 ||| c.willQos <<< 3 |||
    c.willRetain.toUInt8 <<< 5 ||| c.passwordFlag.toUInt8 <<< 6 ||| c.usernameFlag.toUInt8 <<< 7

def ConnectPacket.body (c : ConnectPacket) : GoString :=
  encodeString c.protocolName ++ [c.protocolVersion, c.options] ++ encodeUint16 c.keepalive ++
    encodeString c.clientIdentifier ++
    (if c.willFlag then encodeString c.willTopic ++ encodeBytes c.willMessage else []) ++
    (if c.usernameFlag then encodeString c.username else []) ++
    (if c.passwordFlag then encodeBytes c.password else [])

def ConnackPacket.body (ca : ConnackPacket) : GoString :=
  [ca.sessionPresent.toUInt8, ca.returnCode]

/-- The body with the payload behind it. -/
def PublishPacket.body (p : PublishPacket) : GoString :=
  encodeString p.topicName ++ (if 0 < p.header.qos then encodeUint16 p.messageID else []) ++
    p.payload

def IdPacket.body (p : IdPacket) : GoString := encodeUint16 p.messageID

def UnsubscribePacket.body (u : UnsubscribePacket) : GoString :=
  encodeUint16 u.messageID ++ u.topics.flatMap encodeString

namespace ControlPacket

/-- What `Write` writes after the fixed header. -/
def body : ControlPacket → Except Panic GoString
  | connect p => .ok p.body
  | connack p => .ok p.body
  | publish p => .ok p.body
  | puback p | pubrec p | pubrel p | pubcomp p | unsuback p => .ok p.body
  | subscribe p => p.body
  | suback p => .ok p.body
  | unsubscribe p => .ok p.body
  | pingreq _ | pingresp _ | disconnect _ => .ok []

/-- The assignment to `RemainingLength`; the packets without a body make none. -/
def setRemainingLength (n : ℕ) : ControlPacket → ControlPacket
  | connect p => connect { p with header := { p.header with remainingLength := n } }
  | connack p => connack { p with header := { p.header with remainingLength := n } }
  | publish p => publish { p with header := { p.header with remainingLength := n } }
  | puback p => puback { p with header := { p.header with remainingLength := n } }
  | pubrec p => pubrec { p with header := { p.header with remainingLength := n } }
  | pubrel p => pubrel { p with header := { p.header with remainingLength := n } }
  | pubcomp p => pubcomp { p with header := { p.header with remainingLength := n } }
  | subscribe p => subscribe { p with header := { p.header with remainingLength := n } }
  | suback p => suback { p with header := { p.header with remainingLength := n } }
  | unsubscribe p => unsubscribe { p with header := { p.header with remainingLength := n } }
  | unsuback p => unsuback { p with header := { p.header with remainingLength := n } }
  | pingreq h => pingreq h
  | pingresp h => pingresp h
  | disconnect h => disconnect h

/-- `Write`: the bytes of its one call of the writer, and the packet after it. -/
def write (p : ControlPacket) : Except Panic (GoString × ControlPacket) := do
  let body ← p.body
  let p := p.setRemainingLength body.length
  pure (p.header.pack ++ body, p)

end ControlPacket

/-! ## `Unpack` -/

/-- The error of `Read` on a `bytes.Buffer` into a slice of length `n`. -/
def readBufferErr (n : ℕ) (buf : GoString) : Option GoError :=
  if buf = [] ∧ n ≠ 0 then some errEof else none

/-- The fields of a CONNECT before its optional ones, with the bytes after them. -/
def ConnectPacket.unpackFlags (fh : FixedHeader) (buf : GoString) : ConnectPacket × GoString :=
  let (protocolName, buf) := decodeString buf
  let (protocolVersion, buf) := decodeByte buf
  let (options, buf) := decodeByte buf
  let (keepalive, buf) := decodeUint16 buf
  let (clientIdentifier, buf) := decodeString buf
  ({ header := fh
     protocolName
     protocolVersion
     reservedBit := (1 : UInt8) &&& options
     cleanSession := (1 : UInt8) &&& options >>> 1 > 0
     willFlag := (1 : UInt8) &&& options >>> 2 > 0
     willQos := (3 : UInt8) &&& options >>> 3
     willRetain := (1 : UInt8) &&& options >>> 5 > 0
     passwordFlag := (1 : UInt8) &&& options >>> 6 > 0
     usernameFlag := (1 : UInt8) &&& options >>> 7 > 0
     keepalive
     clientIdentifier }, buf)

/-- The will, if its flag is set. -/
def ConnectPacket.unpackWill (c : ConnectPacket) (buf : GoString) : ConnectPacket × GoString :=
  if c.willFlag then
    let (willTopic, buf) := decodeString buf
    let (willMessage, buf) := decodeBytes buf
    ({ c with willTopic, willMessage }, buf)
  else
    (c, buf)

/-- The user name, if its flag is set. -/
def ConnectPacket.unpackUsername (c : ConnectPacket) (buf : GoString) : ConnectPacket × GoString :=
  if c.usernameFlag then
    let (username, buf) := decodeString buf
    ({ c with username }, buf)
  else
    (c, buf)

/-- The password, if its flag is set. -/
def ConnectPacket.unpackPassword (c : ConnectPacket) (buf : GoString) : ConnectPacket :=
  if c.passwordFlag then { c with password := (decodeBytes buf).1 } else c

/-- `ConnectPacket.Unpack`. -/
def ConnectPacket.unpack (fh : FixedHeader) (buf : GoString) : ConnectPacket :=
  let (c, buf) := unpackFlags fh buf
  let (c, buf) := c.unpackWill buf
  let (c, buf) := c.unpackUsername buf
  c.unpackPassword buf

/-- `ConnackPacket.Unpack`. -/
def ConnackPacket.unpack (fh : FixedHeader) (buf : GoString) : ConnackPacket :=
  let (sessionPresent, buf) := decodeByte buf
  { header := fh
    sessionPresent := (1 : UInt8) &&& sessionPresent > 0
    returnCode := (decodeByte buf).1 }

/-- `PublishPacket.Unpack`: what the topic and the id leave of `RemainingLength` is payload. -/
def PublishPacket.unpack (fh : FixedHeader) (buf : GoString) : PublishPacket × Option GoError :=
  let (topicName, buf) := decodeString buf
  let (messageID, buf) := if 0 < fh.qos then decodeUint16 buf else (0, buf)
  let payloadLength : ℤ :=
    fh.remainingLength - (topicName.length + if 0 < fh.qos then 4 else 2)
  if payloadLength < 0 then
    ({ header := fh, topicName, messageID },
      some (.new "Error upacking publish, payload length < 0"))
  else
    ({ header := fh, topicName, messageID, payload := (readBuffer payloadLength.toNat buf).1 },
      readBufferErr payloadLength.toNat buf)

/-- `Unpack` of PUBACK, PUBREC, PUBREL, PUBCOMP and UNSUBACK. -/
def IdPacket.unpack (fh : FixedHeader) (buf : GoString) : IdPacket :=
  { header := fh, messageID := (decodeUint16 buf).1 }

theorem length_readBuffer (n : ℕ) (buf : GoString) : (readBuffer n buf).1.length = n := by
  show (buf.take n ++ List.replicate (n - buf.length) 0).length = n
  rw [List.length_append, List.length_take, List.length_replicate]
  omega

theorem length_decodeString (buf : GoString) :
    (decodeString buf).1.length = (decodeUint16 buf).1.toNat :=
  length_readBuffer _ _

/-- A string that is not empty takes bytes from the buffer. -/
theorem length_decodeString_lt {buf : GoString} (h : (decodeString buf).1 ≠ []) :
    (decodeString buf).2.length < buf.length := by
  cases buf with
  | nil => exact absurd rfl h
  | cons b buf =>
    show (((b :: buf).drop 2).drop _).length < _
    rw [List.length_drop, List.length_drop, List.length_cons]
    omega

/-- The loop of `UnsubscribePacket.Unpack`, which ends at the first empty topic. -/
def unpackFilters (buf : GoString) : List GoString :=
  if _h : (decodeString buf).1 ≠ [] then
    (decodeString buf).1 :: unpackFilters (decodeString buf).2
  else []
termination_by buf.length
decreasing_by exact length_decodeString_lt _h

/-- `UnsubscribePacket.Unpack`. -/
def UnsubscribePacket.unpack (fh : FixedHeader) (buf : GoString) : UnsubscribePacket :=
  let (messageID, buf) := decodeUint16 buf
  { header := fh, messageID, topics := unpackFilters buf }

/-- `Unpack` on a packet that `NewControlPacketWithHeader` has made, which has nothing but its
header. -/
def ControlPacket.unpack (buf : GoString) : ControlPacket → ControlPacket × Option GoError
  | connect p => (connect (ConnectPacket.unpack p.header buf), none)
  | connack p => (connack (ConnackPacket.unpack p.header buf), none)
  | publish p =>
    (publish (PublishPacket.unpack p.header buf).1, (PublishPacket.unpack p.header buf).2)
  | puback p => (puback (IdPacket.unpack p.header buf), none)
  | pubrec p => (pubrec (IdPacket.unpack p.header buf), none)
  | pubrel p => (pubrel (IdPacket.unpack p.header buf), none)
  | pubcomp p => (pubcomp (IdPacket.unpack p.header buf), none)
  | subscribe p => (subscribe (SubscribePacket.unpack p.header buf), none)
  | suback p => (suback (SubackPacket.unpack p.header buf), none)
  | unsubscribe p => (unsubscribe (UnsubscribePacket.unpack p.header buf), none)
  | unsuback p => (unsuback (IdPacket.unpack p.header buf), none)
  | pingreq h => (pingreq h, none)
  | pingresp h => (pingresp h, none)
  | disconnect h => (disconnect h, none)

/-! ## `ReadPacket` -/

section ReadPacket

variable {ρ : Type} (R : IoReader ρ)

/-- `ReadPacket` after the fixed header. -/
def readBody (fh : FixedHeader) (r : ρ) : (Option ControlPacket × Option GoError) × ρ :=
  match newControlPacketWithHeader fh with
  | none => ((none, some (.new "Bad data from client")), r)
  | some cp =>
    match R.readFull fh.remainingLength r with
    | ((_, some err), r) => ((none, some err), r)
    | ((packetBytes, none), r) => ((some (cp.unpack packetBytes).1, (cp.unpack packetBytes).2), r)

/-- `ReadPacket`: the packet and the error that it returns, and the reader after it. -/
def readPacket (r : ρ) : (Option ControlPacket × Option GoError) × ρ :=
  match R.readFull 1 r with
  | ((_, some err), r) => ((none, some err), r)
  | ((b, none), r) =>
    let header := FixedHeader.unpack R (b.headD 0) r
    readBody R header.1 header.2

end ReadPacket

end MqttBroker

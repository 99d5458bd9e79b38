import MqttBroker.Session.Session

/-!
# Publishing to subscribers

The loops that call `Publish` on several sessions: `sendToSubcriber`,
`BroadcastSessionInfo`, `sessionMgr.overviewRun` and `sessionMgr.Publish`. Each is a start,
which looks the subscribers up, and a loop over them in the order in which the map of
`GetSessions` happens to be ranged over. A round of the loop returns whether the loop goes
on.
-/

namespace MqttBroker

open GoM

variable {σ : Type}

/-- One order for ranging over the map that `GetSessions` returns. -/
abbrev SubscriberOrder := RangeOrder SessionRef UInt8

/-- The subscribers that are still to be served, with the QoS granted to each. -/
abbrev Subscribers := List (Σ _ : SessionRef, UInt8)

/-- The assignment `msg.Retain = false`. -/
def ControlPacket.clearRetain : ControlPacket → ControlPacket
  | publish p => publish { p with header := { p.header with retain := false } }
  | p => p

/-- `TopicName` of a PUBLISH. -/
def ControlPacket.topicName : ControlPacket → GoString
  | publish p => p.topicName
  | _ => []

/-- `config.SessionInfoTopic`. -/
def sessionInfoTopic (sessionId : GoString) : GoString :=
  str "$sys/session/" ++ sessionId ++ str "/info"

/-- `config.OverviewTopic`. -/
def overviewTopic : GoString := str "$sys/overview"

/-- `SessionInfo`. -/
structure SessionInfo where
  id : GoString
  peddingMsgCnt : ℕ
  inflightMsgCnt : ℕ
  sendingMsgCnt : ℕ

/-- Run the rounds of a loop until one of them breaks. -/
def rounds {α : Type} (round : α → GoM σ Bool) : List α → GoM σ Unit
  | [] => pure ()
  | a :: as => do
    if ← round a then
      rounds round as

namespace Session

variable (cfg : Config)

/-! ## `sendToSubcriber` -/

def sendToSubcriberStart (order : SubscriberOrder) (this : SessionRef) (msg : PacketRef) :
    GoM σ Subscribers := do
  let p ← packet msg
  emit (.sendToSubcriber this p)
  let sessionQosMap ← getSessions p.topicName
  modifyPacket msg ControlPacket.clearRetain
  pure (order.toList sessionQosMap)

/-- The copy `nmsg` with the lower QoS is made, and `msg` itself is published. -/
def sendToSubcriberRound (this : SessionRef) (msg : PacketRef) (v : Σ _ : SessionRef, UInt8) :
    GoM σ Bool := do
  let s ← session v.1
  if cfg.sendToSelf = false ∧ v.1 = this then
    pure true
  else if s.isConnected ∧ ¬ s.isClosed then
    match ← packet msg with
    | .publish p =>
      let nmsg := p.copy
      let nmsg := if v.2 < p.header.qos then
        { nmsg with header := { nmsg.header with qos := v.2 } } else nmsg
      let _ ← newPacket (.publish nmsg)
      let (_, err) ← publish cfg v.1 msg
      pure err.isNone
    | _ => pure true
  else
    pure true

def sendToSubcriber (order : SubscriberOrder) (this : SessionRef) (msg : PacketRef) :
    GoM σ Unit := do
  let sessionQosMap ← sendToSubcriberStart order this msg
  rounds (sendToSubcriberRound cfg this msg) sessionQosMap

/-! ## `BroadcastSessionInfo` -/

/-- The packet without a topic that all subscribers of the info topic get, if there are any
and `json.MarshalIndent` returns a text. -/
def broadcastSessionInfoStart (order : SubscriberOrder)
    (marshalIndent : SessionInfo → Option GoString) (this : SessionRef) :
    GoM σ (Option (PacketRef × Subscribers)) := do
  let s ← session this
  let sessionQosMap ← getSessions (sessionInfoTopic s.clientId)
  if (order.toList sessionQosMap).length = 0 then
    pure none
  else
    match marshalIndent ⟨s.clientId, s.peddingMsgList.length, s.inflightingList.length,
        s.channel.iSendList.length⟩ with
    | none => pure none
    | some bs =>
      let nmsg ← newPacket (.publish { newPublish with payload := bs })
      pure (some (nmsg, order.toList sessionQosMap))

def broadcastSessionInfoRound (nmsg : PacketRef) (v : Σ _ : SessionRef, UInt8) :
    GoM σ Bool := do
  let s ← session v.1
  if s.isConnected ∧ ¬ s.isClosed then
    let (_, err) ← publish cfg v.1 nmsg
    pure err.isNone
  else
    pure true

end Session

namespace SessionMgr

variable (cfg : Config)

/-! ## `overviewRun` -/

/-- One packet with the JSON of the overview, for all subscribers of its topic. -/
def overviewStart (order : SubscriberOrder) (bsjson : GoString) :
    GoM σ (PacketRef × Subscribers) := do
  let pubmsg ← newPacket (.publish
    { newPublish with
      header := { newPublish.header with retain := true }
      topicName := overviewTopic
      payload := bsjson })
  let sessionMaps ← getSessions overviewTopic
  pure (pubmsg, order.toList sessionMaps)

def overviewRound (pubmsg : PacketRef) (v : Σ _ : SessionRef, UInt8) : GoM σ Bool := do
  let _ ← Session.publish cfg v.1 pubmsg
  pure true

/-! ## `sessionMgr.Publish` -/

/-- A packet of its own for every subscriber. -/
def publishRound (topic msg : GoString) (qos : UInt8) (v : Σ _ : SessionRef, UInt8) :
    GoM σ Bool := do
  let pkg ← newPacket (.publish
    { header := { newPublish.header with qos := qos }, topicName := topic, payload := msg })
  let _ ← Session.publish cfg v.1 pkg
  pure true

def publish (order : SubscriberOrder) (topic msg : GoString) (qos : UInt8) : GoM σ Unit := do
  let sessinMap ← getSessions topic
  rounds (publishRound cfg topic msg qos) (order.toList sessinMap)

end SessionMgr
end MqttBroker

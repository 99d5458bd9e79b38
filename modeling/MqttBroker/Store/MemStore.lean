import MqttBroker.Lib.GoMap
import MqttBroker.Lib.StepSystem
import MqttBroker.Store.Store

/-!
# The in-memory store

Two indices over the messages that wait for a PUBREL, by store id and by the string
`clientId ++ decimal msgId`, and a separate map of retained messages by topic. Every method
runs under a mutex, so each is one step. A message is stored by pointer and the only field
written through it is `Id`, before it is indexed, so messages are values here.
-/

namespace MqttBroker

/-- `memStore`. -/
structure MemStore where
  indexId : GoMap ℤ Msg
  indexClientIdMsgId : GoMap GoString Msg
  retainMsgs : GoMap GoString Msg

namespace MemStore

def newStoreMgr : MemStore := ⟨∅, ∅, ∅⟩

/-- `fmt.Sprintf("%s%d", clientId, msgId)`. -/
def clientIdMsgIdAsKey (clientId : GoString) (msgId : UInt16) : GoString :=
  clientId ++ decimal msgId.toNat

/-- The key a message is filed under in the second index. -/
abbrev key (m : Msg) : GoString := clientIdMsgIdAsKey m.clientId m.msgId

def saveByClientIdMsgId (msg : Msg) (s : MemStore) : Option StoreError × MemStore :=
  if key msg ∈ s.indexClientIdMsgId then
    (some .errDupMsg, s)
  else
    let msg := { msg with id := (s.indexId.entries.card : ℤ) }
    (none, { s with
      indexId := s.indexId.insert msg.id msg
      indexClientIdMsgId := s.indexClientIdMsgId.insert (key msg) msg })

/-- An empty body deletes the retained message of the topic instead of storing one. -/
def saveRetainMsg (topic body : GoString) (qos : UInt8) (s : MemStore) : MemStore :=
  let msg : Msg := { clientId := [], msgId := 0, topic, qos, body }
  if msg.body.length = 0 then
    { s with retainMsgs := s.retainMsgs.erase msg.topic }
  else
    { s with retainMsgs := s.retainMsgs.insert msg.topic msg }

def getMsgByClientIdMsgId (clientId : GoString) (msgId : UInt16) (s : MemStore) :
    Except StoreError Msg :=
  match s.indexClientIdMsgId.lookup (clientIdMsgIdAsKey clientId msgId) with
  | none => .error .errNoExsit
  | some msg => .ok msg

def removeMsgById (id : ℤ) (s : MemStore) : Option StoreError × MemStore :=
  match s.indexId.lookup id with
  | some msg =>
    (none, { s with
      indexId := s.indexId.erase id
      indexClientIdMsgId := s.indexClientIdMsgId.erase (key msg) })
  | none => (some .errNoExsit, s)

def removeMsgByTopic (topic : GoString) (s : MemStore) : Option StoreError × MemStore :=
  if topic ∈ s.retainMsgs then
    (none, { s with retainMsgs := s.retainMsgs.erase topic })
  else
    (some .errNoExsit, s)

/-- The retained messages, in the order in which the map happens to be ranged over. -/
def getAllRetainMsgs (order : RangeOrder GoString Msg) (s : MemStore) : List Msg :=
  (order.toList s.retainMsgs).map Sigma.snd

/-- `memStore` as the store of a broker. -/
def storeMgr (order : RangeOrder GoString Msg) : StoreMgr MemStore where
  saveByClientIdMsgId msg s := (s.saveByClientIdMsgId msg).map (·.map .store) (fun s => s)
  saveRetainMsg topic body qos s := (none, s.saveRetainMsg topic body qos)
  getMsgByClientIdMsgId clientId msgId s :=
    ((s.getMsgByClientIdMsgId clientId msgId).mapError .store, s)
  removeMsgById id s := (s.removeMsgById id).map (·.map .store) (fun s => s)
  getAllRetainMsgs s := (.ok (s.getAllRetainMsgs order), s)
  removeMsgByTopic topic s := (s.removeMsgByTopic topic).map (·.map .store) (fun s => s)

/-! ## Histories of calls -/

/-- The calls that change a store. -/
inductive Call
  | saveByClientIdMsgId (msg : Msg)
  | removeMsgById (id : ℤ)
  | saveRetainMsg (topic body : GoString) (qos : UInt8)
  | removeMsgByTopic (topic : GoString)

def Call.apply : Call → MemStore → MemStore
  | .saveByClientIdMsgId msg, s => (s.saveByClientIdMsgId msg).2
  | .removeMsgById id, s => (s.removeMsgById id).2
  | .saveRetainMsg topic body qos, s => s.saveRetainMsg topic body qos
  | .removeMsgByTopic topic, s => (s.removeMsgByTopic topic).2

/-- A store under any sequence of calls, from `NewStoreMgr`. -/
def system : StepSystem MemStore Call where
  init s := s = newStoreMgr
  step c s := some (c.apply s)

end MemStore

end MqttBroker

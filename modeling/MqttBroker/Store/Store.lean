import MqttBroker.Basic

/-!
# Message stores

`Msg` is the stored message and `StoreMgr` the interface the sessions use. An
implementation is a state type with one function per method; any call may fail with any
error, and even a read may change the state.
-/

namespace MqttBroker

/-- `store.Msg`. The `id` is the store's own; `msgId` is the author's. -/
structure Msg where
  id : ℤ := 0
  clientId : GoString
  msgId : UInt16
  topic : GoString
  qos : UInt8
  body : GoString
deriving DecidableEq

/-- `store.StoreMgr`: the methods of a store whose state has type `σ`. -/
structure StoreMgr (σ : Type) where
  saveByClientIdMsgId : Msg → σ → Option GoError × σ
  saveRetainMsg : GoString → GoString → UInt8 → σ → Option GoError × σ
  getMsgByClientIdMsgId : GoString → UInt16 → σ → Except GoError Msg × σ
  removeMsgById : ℤ → σ → Option GoError × σ
  getAllRetainMsgs : σ → Except GoError (List Msg) × σ
  removeMsgByTopic : GoString → σ → Option GoError × σ

end MqttBroker

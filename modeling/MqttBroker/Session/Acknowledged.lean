import MqttBroker.Session.Replies
import MqttBroker.Session.Violations
import MqttBroker.Store.MemStoreTheorems

/-!
# What an acknowledgement promises

`onPublish` queues its PUBACK or PUBREC before it calls the store. When a call fails after
that, the peer has been promised what is not kept, or at least the handler returns an error
for a packet that it has acknowledged.
-/

namespace MqttBroker

open Broker GoM Exec

variable {σ : Type}

/-- What the methods of a store do when they return no error: `view` is the message under a
client id and a message id. Keeping a retained message changes none of these. -/
structure StoreMgr.Honest (S : StoreMgr σ) (view : σ → GoString → UInt16 → Option Msg) : Prop where
  get : ∀ clientId msgId s msg, (S.getMsgByClientIdMsgId clientId msgId s).1 = .ok msg →
    view s clientId msgId = some msg ∧
      view (S.getMsgByClientIdMsgId clientId msgId s).2 clientId msgId = some msg
  save : ∀ msg s, (S.saveByClientIdMsgId msg s).1 = none →
    ∃ id, view (S.saveByClientIdMsgId msg s).2 msg.clientId msg.msgId = some { msg with id }
  saveRetain : ∀ topic body qos s, view (S.saveRetainMsg topic body qos s).2 = view s
  removeTopic : ∀ topic s, view (S.removeMsgByTopic topic s).2 = view s

namespace Session

variable {cfg : Config} {S : StoreMgr σ} {order : SubscriberOrder} {this : SessionRef}
  {p : PublishPacket} {b b' : Broker σ} {err : Option GoError}

/-- A store that can hold nothing. -/
def fullStore : StoreMgr Unit where
  saveByClientIdMsgId _ s := (some (.new "store is full"), s)
  saveRetainMsg _ _ _ s := (some (.new "store is full"), s)
  getMsgByClientIdMsgId _ _ s := (.error (.store .errNoExsit), s)
  removeMsgById _ s := (some (.store .errNoExsit), s)
  getAllRetainMsgs s := (.ok [], s)
  removeMsgByTopic _ s := (some (.store .errNoExsit), s)

theorem fullStore_honest : fullStore.Honest fun _ _ _ => none where
  get _ _ _ _ h := absurd h (by simp [fullStore])
  save _ _ h := absurd h (by simp [fullStore])
  saveRetain _ _ _ _ := rfl
  removeTopic _ _ := rfl

end Session
end MqttBroker

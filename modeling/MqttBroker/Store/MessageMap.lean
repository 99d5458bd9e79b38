import MqttBroker.Lib.GoMap
import MqttBroker.Store.Store

/-!
# Stores whose message part is a finite map

`IsMessageMap` is what a session may hope for from a store: the messages are a finite map
from the client id and the message id, a removal by the id of a stored message removes this
message and no other, the retained messages are kept apart, and no call fails.
`PairStore` is a store that is so: its keys are pairs and its ids are counted.
-/

namespace MqttBroker

/-- The messages of a store, by client id and message id. -/
abbrev Messages := GoMap (GoString × UInt16) Msg

/-- The key of a message. -/
abbrev Msg.key (msg : Msg) : GoString × UInt16 := (msg.clientId, msg.msgId)

/-- The result of a look-up that does not fail. -/
def found : Option Msg → Except GoError Msg
  | some msg => .ok msg
  | none => .error (.store .errNoExsit)

/-- In the valid states the messages are the map `view`, and no call fails. -/
structure StoreMgr.IsMessageMap {σ : Type} (S : StoreMgr σ) (Valid : σ → Prop)
    (view : σ → Messages) : Prop where
  get : ∀ s clientId msgId, Valid s →
    (S.getMsgByClientIdMsgId clientId msgId s).1 = found ((view s).lookup (clientId, msgId)) ∧
      Valid (S.getMsgByClientIdMsgId clientId msgId s).2 ∧
      view (S.getMsgByClientIdMsgId clientId msgId s).2 = view s
  save : ∀ s msg, Valid s → (view s).lookup msg.key = none →
    (S.saveByClientIdMsgId msg s).1 = none ∧ Valid (S.saveByClientIdMsgId msg s).2 ∧
      ∃ id, view (S.saveByClientIdMsgId msg s).2 = (view s).insert msg.key { msg with id }
  remove : ∀ s key msg, Valid s → (view s).lookup key = some msg →
    Valid (S.removeMsgById msg.id s).2 ∧ view (S.removeMsgById msg.id s).2 = (view s).erase key
  saveRetain : ∀ s topic body qos, Valid s →
    (S.saveRetainMsg topic body qos s).1 = none ∧ Valid (S.saveRetainMsg topic body qos s).2 ∧
      view (S.saveRetainMsg topic body qos s).2 = view s
  removeTopic : ∀ s topic, Valid s →
    ((S.removeMsgByTopic topic s).1 = none ∨
      (S.removeMsgByTopic topic s).1 = some (.store .errNoExsit)) ∧
    Valid (S.removeMsgByTopic topic s).2 ∧ view (S.removeMsgByTopic topic s).2 = view s

/-! ## A store that counts its ids -/

/-- The messages, the key of each id, the next id and the retained messages. -/
structure PairStore where
  msgs : Messages
  keys : GoMap ℤ (GoString × UInt16)
  nextId : ℤ
  retainMsgs : GoMap GoString Msg

namespace PairStore

def newStoreMgr : PairStore := ⟨∅, ∅, 0, ∅⟩

def saveByClientIdMsgId (msg : Msg) (s : PairStore) : Option GoError × PairStore :=
  if msg.key ∈ s.msgs then
    (some (.store .errDupMsg), s)
  else
    (none, { s with
      msgs := s.msgs.insert msg.key { msg with id := s.nextId }
      keys := s.keys.insert s.nextId msg.key
      nextId := s.nextId + 1 })

def removeMsgById (id : ℤ) (s : PairStore) : Option GoError × PairStore :=
  match s.keys.lookup id with
  | some key => (none, { s with msgs := s.msgs.erase key, keys := s.keys.erase id })
  | none => (some (.store .errNoExsit), s)

def saveRetainMsg (topic body : GoString) (qos : UInt8) (s : PairStore) : PairStore :=
  let msg : Msg := { clientId := [], msgId := 0, topic, qos, body }
  { s with retainMsgs := s.retainMsgs.insert topic msg }

def removeMsgByTopic (topic : GoString) (s : PairStore) : Option GoError × PairStore :=
  if topic ∈ s.retainMsgs then
    (none, { s with retainMsgs := s.retainMsgs.erase topic })
  else
    (some (.store .errNoExsit), s)

/-- `PairStore` as the store of a broker. -/
def storeMgr (order : RangeOrder GoString Msg) : StoreMgr PairStore where
  saveByClientIdMsgId := saveByClientIdMsgId
  saveRetainMsg topic body qos s := (none, s.saveRetainMsg topic body qos)
  getMsgByClientIdMsgId clientId msgId s := (found (s.msgs.lookup (clientId, msgId)), s)
  removeMsgById := removeMsgById
  getAllRetainMsgs s := (.ok ((order.toList s.retainMsgs).map Sigma.snd), s)
  removeMsgByTopic := removeMsgByTopic

/-- The id of a stored message leads back to its key, and the next id is new. -/
structure Valid (s : PairStore) : Prop where
  keys_lookup : ∀ key msg, s.msgs.lookup key = some msg → s.keys.lookup msg.id = some key
  keys_lt : ∀ id key, s.keys.lookup id = some key → id < s.nextId

theorem valid_newStoreMgr : Valid newStoreMgr :=
  ⟨fun _ _ h => absurd h (by simp [newStoreMgr]), fun _ _ h => absurd h (by simp [newStoreMgr])⟩

/-- A new message gets an id that no other message has. -/
theorem Valid.save {s : PairStore} (h : Valid s) {msg : Msg} :
    Valid (saveByClientIdMsgId msg s).2 := by
  unfold saveByClientIdMsgId
  split
  · exact h
  constructor
  · intro key msg' hlookup
    by_cases hkey : key = msg.key
    · rw [hkey, Finmap.lookup_insert] at hlookup
      rw [← Option.some.inj hlookup, hkey]
      exact Finmap.lookup_insert _
    · rw [Finmap.lookup_insert_of_ne _ hkey] at hlookup
      have hold := h.keys_lookup key msg' hlookup
      have hlt := h.keys_lt _ _ hold
      exact (Finmap.lookup_insert_of_ne _ (ne_of_lt hlt)).trans hold
  · intro id key hlookup
    show id < s.nextId + 1
    by_cases hid : id = s.nextId
    · omega
    · have hlt := h.keys_lt id key ((Finmap.lookup_insert_of_ne _ hid).symm.trans hlookup)
      omega

/-- The other messages keep their ids. -/
theorem Valid.erase {s : PairStore} (h : Valid s) {key : GoString × UInt16} {id : ℤ}
    (hid : s.keys.lookup id = some key) :
    Valid { s with msgs := s.msgs.erase key, keys := s.keys.erase id } := by
  constructor
  · intro key' msg hlookup
    obtain ⟨hkey, hthere⟩ := GoMap.of_lookup_erase hlookup
    have hold := h.keys_lookup key' msg hthere
    have hne : msg.id ≠ id := fun he => hkey (Option.some.inj (hold.symm.trans (he ▸ hid)))
    exact (Finmap.lookup_erase_ne hne).trans hold
  · intro id' key' hlookup
    exact h.keys_lt id' key' (GoMap.of_lookup_erase hlookup).2

theorem isMessageMap (order : RangeOrder GoString Msg) :
    (storeMgr order).IsMessageMap Valid PairStore.msgs where
  get _ _ _ h := ⟨rfl, h, rfl⟩
  save s msg h hnone := by
    have hnot : msg.key ∉ s.msgs := Finmap.lookup_eq_none.mp hnone
    refine ⟨?_, h.save, s.nextId, ?_⟩
    · show (saveByClientIdMsgId msg s).1 = none
      rw [saveByClientIdMsgId, if_neg hnot]
    · show (saveByClientIdMsgId msg s).2.msgs = _
      rw [saveByClientIdMsgId, if_neg hnot]
  remove s key msg h hsome := by
    have hkeys := h.keys_lookup key msg hsome
    have hrun : removeMsgById msg.id s =
        (none, { s with msgs := s.msgs.erase key, keys := s.keys.erase msg.id }) := by
      rw [removeMsgById, hkeys]
    show Valid (removeMsgById msg.id s).2 ∧ (removeMsgById msg.id s).2.msgs = _
    rw [hrun]
    exact ⟨h.erase hkeys, rfl⟩
  saveRetain _ _ _ _ h := ⟨rfl, ⟨h.keys_lookup, h.keys_lt⟩, rfl⟩
  removeTopic s topic h := by
    have hrun : (storeMgr order).removeMsgByTopic topic s =
      if topic ∈ s.retainMsgs then (none, { s with retainMsgs := s.retainMsgs.erase topic })
      else (some (.store .errNoExsit), s) := rfl
    rw [hrun]
    split
    · exact ⟨.inl rfl, ⟨h.keys_lookup, h.keys_lt⟩, rfl⟩
    · exact ⟨.inr rfl, h, rfl⟩

end PairStore
end MqttBroker

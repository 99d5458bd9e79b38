import MqttBroker.Store.MemStore

/-!
# The two indices of the in-memory store

`SaveByClientIdMsgId` takes the number of stored messages as the next id, and the number
goes down again with every removal. `SizeIsFree` says that this number is not the id of a
message that is still stored; this turns out to be exactly what keeps the two indices in
agreement, and a history of four calls breaks it.

The second half is about the key of the second index, a client id followed directly by a
decimal number.
-/

namespace MqttBroker
namespace MemStore

/-! ## The representation invariant -/

/-- The two indices hold the same messages. -/
structure IndicesAgree (s : MemStore) : Prop where
  id_index : ∀ i m, s.indexId.lookup i = some m →
    m.id = i ∧ s.indexClientIdMsgId.lookup (key m) = some m
  key_index : ∀ k m, s.indexClientIdMsgId.lookup k = some m → s.indexId.lookup m.id = some m

/-- Every message is filed in the second index under its own key. -/
def FiledByKey (s : MemStore) : Prop :=
  ∀ k m, s.indexClientIdMsgId.lookup k = some m → k = key m

/-- No two stored messages have one id. -/
def IdsUnique (s : MemStore) : Prop :=
  ∀ k k' m m', s.indexClientIdMsgId.lookup k = some m →
    s.indexClientIdMsgId.lookup k' = some m' → m.id = m'.id → m = m'

/-- Removing an id takes exactly the message with that id out of both indices, and every
other stored message can still be fetched. -/
def RemovesOne (s : MemStore) : Prop :=
  ∀ id m, s.indexId.lookup id = some m →
    (s.removeMsgById id).2.indexId = s.indexId.erase id ∧
    (s.removeMsgById id).2.indexClientIdMsgId = s.indexClientIdMsgId.erase (key m) ∧
    ∀ k m', s.indexClientIdMsgId.lookup k = some m' → m' ≠ m →
      (s.removeMsgById id).2.getMsgByClientIdMsgId m'.clientId m'.msgId = .ok m'

/-- The next call does not save a message under a fresh key while the number of stored
messages is the id of one of them. -/
def SizeIsFree (s : MemStore) : Call → Prop
  | .saveByClientIdMsgId msg =>
    key msg ∈ s.indexClientIdMsgId ∨ (s.indexId.entries.card : ℤ) ∉ s.indexId
  | _ => True

/-! ## What the calls do to the indices -/

theorem saveByClientIdMsgId_of_mem {s : MemStore} {msg : Msg}
    (h : key msg ∈ s.indexClientIdMsgId) :
    s.saveByClientIdMsgId msg = (some .errDupMsg, s) :=
  if_pos h

theorem saveByClientIdMsgId_of_notMem {s : MemStore} {msg : Msg}
    (h : key msg ∉ s.indexClientIdMsgId) :
    s.saveByClientIdMsgId msg = (none, { s with
      indexId := s.indexId.insert s.indexId.entries.card
        { msg with id := s.indexId.entries.card }
      indexClientIdMsgId := s.indexClientIdMsgId.insert (key msg)
        { msg with id := s.indexId.entries.card } }) :=
  if_neg h

theorem removeMsgById_of_lookup {s : MemStore} {id : ℤ} {m : Msg}
    (h : s.indexId.lookup id = some m) :
    s.removeMsgById id = (none, { s with
      indexId := s.indexId.erase id
      indexClientIdMsgId := s.indexClientIdMsgId.erase (key m) }) := by
  rw [removeMsgById, h]

theorem removeMsgById_of_none {s : MemStore} {id : ℤ} (h : s.indexId.lookup id = none) :
    s.removeMsgById id = (some .errNoExsit, s) := by
  rw [removeMsgById, h]

theorem getMsgByClientIdMsgId_eq_ok {s : MemStore} {clientId : GoString} {msgId : UInt16}
    {m : Msg} : s.getMsgByClientIdMsgId clientId msgId = .ok m ↔
      s.indexClientIdMsgId.lookup (clientIdMsgIdAsKey clientId msgId) = some m := by
  rw [getMsgByClientIdMsgId]
  cases s.indexClientIdMsgId.lookup (clientIdMsgIdAsKey clientId msgId) <;> simp

@[simp] theorem saveRetainMsg_indexId (topic body : GoString) (qos : UInt8) (s : MemStore) :
    (s.saveRetainMsg topic body qos).indexId = s.indexId := by
  simp only [saveRetainMsg]
  split <;> rfl

@[simp] theorem saveRetainMsg_indexClientIdMsgId (topic body : GoString) (qos : UInt8)
    (s : MemStore) :
    (s.saveRetainMsg topic body qos).indexClientIdMsgId = s.indexClientIdMsgId := by
  simp only [saveRetainMsg]
  split <;> rfl

@[simp] theorem removeMsgByTopic_indexId (topic : GoString) (s : MemStore) :
    (s.removeMsgByTopic topic).2.indexId = s.indexId := by
  unfold removeMsgByTopic
  split <;> rfl

@[simp] theorem removeMsgByTopic_indexClientIdMsgId (topic : GoString) (s : MemStore) :
    (s.removeMsgByTopic topic).2.indexClientIdMsgId = s.indexClientIdMsgId := by
  unfold removeMsgByTopic
  split <;> rfl

/-! ## Preservation -/

/-- Filing by key needs no condition. -/
theorem FiledByKey.apply {s : MemStore} (h : FiledByKey s) (c : Call) : FiledByKey (c.apply s) := by
  cases c with
  | saveByClientIdMsgId msg =>
    by_cases hk : key msg ∈ s.indexClientIdMsgId
    · rw [Call.apply, saveByClientIdMsgId_of_mem hk]
      exact h
    · rw [Call.apply, saveByClientIdMsgId_of_notMem hk]
      intro k m hm
      by_cases he : k = key msg
      · subst he
        rw [Finmap.lookup_insert] at hm
        rw [← Option.some.inj hm]
      · rw [Finmap.lookup_insert_of_ne _ he] at hm
        exact h k m hm
  | removeMsgById id =>
    cases hl : s.indexId.lookup id with
    | none =>
      rw [Call.apply, removeMsgById_of_none hl]
      exact h
    | some m₀ =>
      rw [Call.apply, removeMsgById_of_lookup hl]
      intro k m hm
      exact h k m (GoMap.of_lookup_erase hm).2
  | saveRetainMsg topic body qos =>
    intro k m hm
    rw [Call.apply, saveRetainMsg_indexClientIdMsgId] at hm
    exact h k m hm
  | removeMsgByTopic topic =>
    intro k m hm
    rw [Call.apply, removeMsgByTopic_indexClientIdMsgId] at hm
    exact h k m hm

/-- A save under a fresh key keeps the agreement when the size is not an id in use: the new
message gets an id of its own. -/
theorem IndicesAgree.save {s : MemStore} {msg : Msg} (h : IndicesAgree s)
    (hk : key msg ∉ s.indexClientIdMsgId) (hid : (s.indexId.entries.card : ℤ) ∉ s.indexId) :
    IndicesAgree (s.saveByClientIdMsgId msg).2 := by
  rw [saveByClientIdMsgId_of_notMem hk]
  have hkey : ∀ m, s.indexClientIdMsgId.lookup (key m) = some m → key m ≠ key msg := by
    intro m hm he
    exact hk (he ▸ Finmap.mem_of_lookup_eq_some hm)
  constructor
  · intro i m hm
    by_cases hi : i = s.indexId.entries.card
    · subst hi
      rw [Finmap.lookup_insert] at hm
      rw [← Option.some.inj hm]
      exact ⟨rfl, Finmap.lookup_insert _⟩
    · rw [Finmap.lookup_insert_of_ne _ hi] at hm
      obtain ⟨hmi, hmk⟩ := h.id_index i m hm
      exact ⟨hmi, by rw [Finmap.lookup_insert_of_ne _ (hkey m hmk)]; exact hmk⟩
  · intro k m hm
    by_cases he : k = key msg
    · subst he
      rw [Finmap.lookup_insert] at hm
      rw [← Option.some.inj hm]
      exact Finmap.lookup_insert _
    · rw [Finmap.lookup_insert_of_ne _ he] at hm
      have hmid := h.key_index k m hm
      have hne : m.id ≠ s.indexId.entries.card := by
        intro hc
        exact hid (hc ▸ Finmap.mem_of_lookup_eq_some hmid)
      rw [Finmap.lookup_insert_of_ne _ hne]
      exact hmid

/-- When the size is the id of a stored message, that message loses its place in the first
index to the new one. -/
theorem not_indicesAgree_save {s : MemStore} {msg : Msg} (h : IndicesAgree s)
    (hk : key msg ∉ s.indexClientIdMsgId) (hid : (s.indexId.entries.card : ℤ) ∈ s.indexId) :
    ¬ IndicesAgree (s.saveByClientIdMsgId msg).2 := by
  obtain ⟨old, hold⟩ := Finmap.mem_iff.mp hid
  obtain ⟨hoid, hokey⟩ := h.id_index _ _ hold
  have hne : key old ≠ key msg := by
    intro he
    exact hk (he ▸ Finmap.mem_of_lookup_eq_some hokey)
  intro h'
  rw [saveByClientIdMsgId_of_notMem hk] at h'
  have hlost := h'.key_index (key old) old (by rw [Finmap.lookup_insert_of_ne _ hne]; exact hokey)
  rw [hoid, Finmap.lookup_insert] at hlost
  exact hne (congrArg key (Option.some.inj hlost)).symm

theorem IndicesAgree.remove {s : MemStore} (h : IndicesAgree s) (hf : FiledByKey s) (id : ℤ) :
    IndicesAgree (s.removeMsgById id).2 := by
  cases hl : s.indexId.lookup id with
  | none =>
    rw [removeMsgById_of_none hl]
    exact h
  | some m₀ =>
    rw [removeMsgById_of_lookup hl]
    obtain ⟨hid₀, hkey₀⟩ := h.id_index id m₀ hl
    constructor
    · intro i m hm
      obtain ⟨hi, hm⟩ := GoMap.of_lookup_erase hm
      obtain ⟨hmi, hmk⟩ := h.id_index i m hm
      refine ⟨hmi, ?_⟩
      have hne : key m ≠ key m₀ := by
        intro he
        rw [he, hkey₀] at hmk
        exact hi (by rw [← hmi, ← hid₀, Option.some.inj hmk])
      rw [Finmap.lookup_erase_ne hne]
      exact hmk
    · intro k m hm
      obtain ⟨he, hm⟩ := GoMap.of_lookup_erase hm
      have hne : m.id ≠ id := by
        intro hc
        have := h.key_index k m hm
        rw [hc, hl] at this
        exact he (by rw [hf k m hm, Option.some.inj this])
      rw [Finmap.lookup_erase_ne hne]
      exact h.key_index k m hm

/-- From agreeing indices, a call keeps them in agreement if and only if it does not save
while the size is an id in use. -/
theorem sizeIsFree_iff_indicesAgree_apply {s : MemStore} (h : IndicesAgree s)
    (hf : FiledByKey s) (c : Call) : SizeIsFree s c ↔ IndicesAgree (c.apply s) := by
  cases c with
  | saveByClientIdMsgId msg =>
    rw [Call.apply, SizeIsFree]
    by_cases hk : key msg ∈ s.indexClientIdMsgId
    · rw [saveByClientIdMsgId_of_mem hk]
      exact ⟨fun _ => h, fun _ => .inl hk⟩
    · by_cases hid : (s.indexId.entries.card : ℤ) ∈ s.indexId
      · simp only [hk, hid, not_true_eq_false, or_self, false_iff]
        exact not_indicesAgree_save h hk hid
      · exact ⟨fun _ => h.save hk hid, fun _ => .inr hid⟩
  | removeMsgById id => exact ⟨fun _ => h.remove hf id, fun _ => trivial⟩
  | saveRetainMsg topic body qos =>
    refine ⟨fun _ => ⟨?_, ?_⟩, fun _ => trivial⟩
    · simpa [Call.apply] using h.id_index
    · simpa [Call.apply] using h.key_index
  | removeMsgByTopic topic =>
    refine ⟨fun _ => ⟨?_, ?_⟩, fun _ => trivial⟩
    · simpa [Call.apply] using h.id_index
    · simpa [Call.apply] using h.key_index

/-! ## What the agreement gives -/

theorem IndicesAgree.idsUnique {s : MemStore} (h : IndicesAgree s) : IdsUnique s := by
  intro k k' m m' hm hm' hid
  have h₁ := h.key_index k m hm
  have h₂ := h.key_index k' m' hm'
  rw [hid, h₂] at h₁
  exact (Option.some.inj h₁).symm

theorem IndicesAgree.removesOne {s : MemStore} (h : IndicesAgree s) : RemovesOne s := by
  intro id m hm
  rw [removeMsgById_of_lookup hm]
  refine ⟨rfl, rfl, fun k m' hm' hne => ?_⟩
  obtain ⟨_, hkey⟩ := h.id_index id m hm
  obtain ⟨_, hkey'⟩ := h.id_index _ m' (h.key_index k m' hm')
  have hk : key m' ≠ key m := by
    intro he
    rw [he, hkey] at hkey'
    exact hne (Option.some.inj hkey').symm
  rw [getMsgByClientIdMsgId_eq_ok]
  exact (Finmap.lookup_erase_ne hk).trans hkey'

theorem indicesAgree_newStoreMgr : IndicesAgree newStoreMgr :=
  ⟨fun i m h => absurd h (by simp [newStoreMgr]), fun k m h => absurd h (by simp [newStoreMgr])⟩

theorem filedByKey_newStoreMgr : FiledByKey newStoreMgr :=
  fun k m h => absurd h (by simp [newStoreMgr])

/-- Filing by key holds throughout, so it may be added to any property of a history. -/
theorem always_and_filedByKey (P : MemStore → Prop) (calls : List Call) (s : MemStore)
    (hs : FiledByKey s) :
    system.Always (fun s => P s ∧ FiledByKey s) calls s ↔ system.Always P calls s := by
  refine StepSystem.always_congr (fun s c s' hf hs' => ?_) (fun s hf => and_iff_left hf) calls s hs
  obtain rfl := Option.some.inj hs'
  exact hf.apply c

/-- For every history of calls on a new store: the two indices hold the same messages, ids
are unique and a removal removes one message, after every call, if and only if no message
is ever saved under a fresh key while the number of stored messages is the id of one of
them. -/
theorem indices_agree_iff (calls : List Call) :
    system.Always (fun s => IndicesAgree s ∧ IdsUnique s ∧ RemovesOne s) calls newStoreMgr ↔
      system.Along SizeIsFree calls newStoreMgr := by
  have hsystem : system.Always (fun s => (IndicesAgree s ∧ IdsUnique s ∧ RemovesOne s) ∧
      FiledByKey s) calls newStoreMgr ↔ system.Along SizeIsFree calls newStoreMgr := by
    refine StepSystem.always_iff_along ?_ calls newStoreMgr
      ⟨⟨indicesAgree_newStoreMgr, indicesAgree_newStoreMgr.idsUnique,
        indicesAgree_newStoreMgr.removesOne⟩, filedByKey_newStoreMgr⟩
    rintro s c ⟨⟨h, -, -⟩, hf⟩
    rw [sizeIsFree_iff_indicesAgree_apply h hf c]
    constructor
    · intro h' s' hs'
      obtain rfl := Option.some.inj hs'
      exact ⟨⟨h', h'.idsUnique, h'.removesOne⟩, hf.apply c⟩
    · intro h'
      exact (h' _ rfl).1.1
  rw [← hsystem]
  exact (always_and_filedByKey _ calls newStoreMgr filedByKey_newStoreMgr).symm

/-- Three clients save one message each, and the first message is removed before the third
save: the store then holds two messages and gives the id 1 out again. -/
def staleIdCalls : List Call :=
  [.saveByClientIdMsgId ⟨0, str "a", 1, str "t", 2, str "x"⟩,
   .saveByClientIdMsgId ⟨0, str "b", 1, str "t", 2, str "y"⟩,
   .removeMsgById 0,
   .saveByClientIdMsgId ⟨0, str "c", 1, str "t", 2, str "z"⟩]

theorem indices_disagree_staleIdCalls :
    ¬ system.Always (fun s => IndicesAgree s ∧ IdsUnique s ∧ RemovesOne s) staleIdCalls
      newStoreMgr := by
  intro h
  obtain ⟨hagree, -, -⟩ := (((h.2 _ rfl).2 _ rfl).2 _ rfl).2 _ rfl
  have hlost := hagree.key_index (clientIdMsgIdAsKey (str "b") 1)
    ⟨1, str "b", 1, str "t", 2, str "y"⟩ (by decide)
  exact absurd hlost (by decide)

/-! ## The key of the second index -/

/-- `c'` is `c` followed by the first digits of `m`, and the rest of `m` is `m'`: the same
key, cut at two places. -/
def CutsDigits (c : GoString) (m : UInt16) (c' : GoString) (m' : UInt16) : Prop :=
  ∃ d, d ≠ [] ∧ c' = c ++ d ∧ decimal m.toNat = d ++ decimal m'.toNat

theorem CutsDigits.key_eq {c c' : GoString} {m m' : UInt16} (h : CutsDigits c m c' m') :
    clientIdMsgIdAsKey c m = clientIdMsgIdAsKey c' m' := by
  obtain ⟨d, -, hc, hm⟩ := h
  rw [clientIdMsgIdAsKey, clientIdMsgIdAsKey, hc, hm, List.append_assoc]

/-- The only way for two pairs to have one key is to cut it at two places. -/
theorem clientIdMsgIdAsKey_eq_iff {c c' : GoString} {m m' : UInt16} (hne : (c, m) ≠ (c', m')) :
    clientIdMsgIdAsKey c m = clientIdMsgIdAsKey c' m' ↔
      CutsDigits c m c' m' ∨ CutsDigits c' m' c m := by
  constructor
  · intro h
    -- without digits in between, client ids and decimals agree one by one
    have hnil : ∀ {x y : GoString} {i j : UInt16}, x = y → decimal i.toNat = decimal j.toNat →
        (x, i) = (y, j) := by
      intro x y i j hxy hij
      rw [hxy, UInt16.toNat_inj.mp (decimal_injective hij)]
    rcases List.append_eq_append_iff.mp h with ⟨d, hc, hm⟩ | ⟨d, hc, hm⟩
    · refine .inl ⟨d, ?_, hc, hm⟩
      rintro rfl
      exact hne (hnil (by rw [hc, List.append_nil]) hm)
    · refine .inr ⟨d, ?_, hc, hm⟩
      rintro rfl
      exact hne (hnil (by rw [hc, List.append_nil]) hm.symm)
  · rintro (h | h)
    · exact h.key_eq
    · exact h.key_eq.symm

/-- Saving under the first pair neither makes a save under the second pair a duplicate nor
changes what is fetched for it, in any state of the store. -/
def Isolated (c : GoString) (m : UInt16) (c' : GoString) (m' : UInt16) : Prop :=
  ∀ (s : MemStore) (msg msg' : Msg), msg.clientId = c → msg.msgId = m →
    msg'.clientId = c' → msg'.msgId = m' →
    (((s.saveByClientIdMsgId msg).2.saveByClientIdMsgId msg').1 = some .errDupMsg →
      (s.saveByClientIdMsgId msg').1 = some .errDupMsg) ∧
    (s.saveByClientIdMsgId msg).2.getMsgByClientIdMsgId c' m' = s.getMsgByClientIdMsgId c' m'

/-- A save touches the second index at one key only. -/
theorem lookup_saveByClientIdMsgId_of_ne {s : MemStore} {msg : Msg} {k : GoString}
    (hk : k ≠ key msg) :
    (s.saveByClientIdMsgId msg).2.indexClientIdMsgId.lookup k =
      s.indexClientIdMsgId.lookup k := by
  by_cases h : key msg ∈ s.indexClientIdMsgId
  · rw [saveByClientIdMsgId_of_mem h]
  · rw [saveByClientIdMsgId_of_notMem h]
    exact Finmap.lookup_insert_of_ne _ hk

theorem saveByClientIdMsgId_eq_errDupMsg {s : MemStore} {msg : Msg} :
    (s.saveByClientIdMsgId msg).1 = some .errDupMsg ↔ key msg ∈ s.indexClientIdMsgId := by
  by_cases h : key msg ∈ s.indexClientIdMsgId
  · rw [saveByClientIdMsgId_of_mem h]
    exact iff_of_true rfl h
  · rw [saveByClientIdMsgId_of_notMem h]
    exact iff_of_false (by simp) h

theorem isolated_of_key_ne {c c' : GoString} {m m' : UInt16}
    (hk : clientIdMsgIdAsKey c m ≠ clientIdMsgIdAsKey c' m') : Isolated c m c' m' := by
  rintro s msg msg' rfl rfl rfl rfl
  have hlookup : (s.saveByClientIdMsgId msg).2.indexClientIdMsgId.lookup
      (clientIdMsgIdAsKey msg'.clientId msg'.msgId) =
        s.indexClientIdMsgId.lookup (clientIdMsgIdAsKey msg'.clientId msg'.msgId) :=
    lookup_saveByClientIdMsgId_of_ne hk.symm
  constructor
  · rw [saveByClientIdMsgId_eq_errDupMsg, saveByClientIdMsgId_eq_errDupMsg,
      ← Finmap.lookup_isSome, ← Finmap.lookup_isSome, key, hlookup]
    exact id
  · rw [getMsgByClientIdMsgId, getMsgByClientIdMsgId, hlookup]

/-- With one key for both pairs, the second client's first message is a duplicate. -/
theorem not_isolated_of_key_eq {c c' : GoString} {m m' : UInt16}
    (hk : clientIdMsgIdAsKey c m = clientIdMsgIdAsKey c' m') : ¬ Isolated c m c' m' := by
  intro h
  obtain ⟨hdup, -⟩ := h newStoreMgr ⟨0, c, m, [], 0, []⟩ ⟨0, c', m', [], 0, []⟩ rfl rfl rfl rfl
  rw [saveByClientIdMsgId_eq_errDupMsg, saveByClientIdMsgId_eq_errDupMsg] at hdup
  have hfresh : clientIdMsgIdAsKey c m ∉ newStoreMgr.indexClientIdMsgId := Finmap.notMem_empty
  have hmem : clientIdMsgIdAsKey c' m' ∈
      (newStoreMgr.saveByClientIdMsgId ⟨0, c, m, [], 0, []⟩).2.indexClientIdMsgId := by
    rw [saveByClientIdMsgId_of_notMem hfresh]
    exact Finmap.mem_insert.mpr (.inl hk.symm)
  exact absurd (hdup hmem) Finmap.notMem_empty

/-- Two different pairs are isolated from each other if and only if neither client id is the
other one followed by leading digits of its message id that leave the other message id. -/
theorem isolated_iff {c c' : GoString} {m m' : UInt16} (hne : (c, m) ≠ (c', m')) :
    Isolated c m c' m' ↔ ¬ (CutsDigits c m c' m' ∨ CutsDigits c' m' c m) := by
  rw [← clientIdMsgIdAsKey_eq_iff hne]
  exact ⟨fun h hk => not_isolated_of_key_eq hk h, isolated_of_key_ne⟩

/-- Client ids of one length are isolated. -/
theorem isolated_sensor_device : Isolated (str "sensor") 12 (str "device") 12 := by
  refine (isolated_iff (by decide)).mpr ?_
  have hnil : ∀ {x y d : GoString}, x.length = y.length → y = x ++ d → d = [] := by
    intro x y d hlen h
    have := congrArg List.length h
    rw [List.length_append] at this
    exact List.length_eq_zero_iff.mp (by omega)
  rintro (⟨d, hd, hc, -⟩ | ⟨d, hd, hc, -⟩)
  · exact hd (hnil (by decide) hc)
  · exact hd (hnil (by decide) hc)

/-- Message 12 of client `dev` and message 2 of client `dev1` have the key `dev12`. -/
theorem not_isolated_dev_dev1 : ¬ Isolated (str "dev") 12 (str "dev1") 2 :=
  not_isolated_of_key_eq (by decide)

end MemStore
end MqttBroker

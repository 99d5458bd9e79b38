import MqttBroker.Solo.Steps

/-!
# Packets and entries keep their types

`Grows` is what every step does to the two heaps: nothing that exists goes away, a packet
keeps its Go type and its header, and an entry its packet of origin and whether it has a
token. `Typed` says that the types fit together: an entry has the token of its packet's type,
an entry of `Publish` holds a PUBLISH or the PUBREL that a PUBREC put in its place, and what
the lists, the operations and the events refer to exists.
-/

namespace MqttBroker.Solo

variable {cfg : Config} {f : Flags} {x x' x'' : Outbox}

/-! ## What happens to the heaps -/

/-- The types of packets that a session numbers itself. -/
abbrev numbered : List UInt8 :=
  [PacketType.publish, PacketType.subscribe, PacketType.unsubscribe]

structure Grows (x x' : Outbox) : Prop where
  entries_next : x.entries.next ≤ x'.entries.next
  packets_next : x.packets.next ≤ x'.packets.next
  packet : ∀ r < x.packets.next,
    (x'.packet r).kind = (x.packet r).kind ∧ (x'.packet r).header = (x.packet r).header ∧
      ((x.packet r).kind ∉ numbered → x'.packet r = x.packet r)
  entry : ∀ e < x.entries.next, (x'.entry e).msg = (x.entry e).msg ∧
    (x'.entry e).published = (x.entry e).published ∧
    (x'.entry e).t.isSome = (x.entry e).t.isSome

/-- The header of a PUBLISH has its QoS. -/
theorem qos_of_kind {p : ControlPacket} (h : p.kind = PacketType.publish) :
    p.details.qos = p.header.qos := by
  cases p with
  | publish m => rfl
  | _ => exact absurd h (by rw [ControlPacket.kind]; decide)

theorem setMessageID_fields (id : UInt16) (p : ControlPacket) :
    (p.setMessageID id).kind = p.kind ∧ (p.setMessageID id).header = p.header ∧
      (p.kind ∉ numbered → p.setMessageID id = p) := by
  cases p with
  | publish m | subscribe m | unsubscribe m =>
    exact ⟨rfl, rfl, fun h => absurd (by rw [ControlPacket.kind]; decide) h⟩
  | _ => exact ⟨rfl, rfl, fun _ => rfl⟩

namespace Grows

theorem of_eq (hp : x'.packets = x.packets) (he : x'.entries = x.entries) : Grows x x' where
  entries_next := by rw [he]
  packets_next := by rw [hp]
  packet r _ := by rw [Outbox.packet, Outbox.packet, hp]; exact ⟨rfl, rfl, fun _ => rfl⟩
  entry e _ := by rw [Outbox.entry, Outbox.entry, he]; exact ⟨rfl, rfl, rfl⟩

theorem refl (x : Outbox) : Grows x x := of_eq rfl rfl

theorem trans (h : Grows x x') (h' : Grows x' x'') : Grows x x'' where
  entries_next := le_trans h.entries_next h'.entries_next
  packets_next := le_trans h.packets_next h'.packets_next
  packet r hr := by
    obtain ⟨hkind, hheader, hsame⟩ := h.packet r hr
    obtain ⟨hkind', hheader', hsame'⟩ := h'.packet r (lt_of_lt_of_le hr h.packets_next)
    exact ⟨hkind'.trans hkind, hheader'.trans hheader,
      fun hk => (hsame' (hkind ▸ hk)).trans (hsame hk)⟩
  entry e he := by
    have he' := h'.entry e (lt_of_lt_of_le he h.entries_next)
    rw [he'.1, he'.2.1, he'.2.2]
    exact h.entry e he

theorem modifyEntry {e : EntryRef} {g : Entry → Entry}
    (hmsg : (g (x.entry e)).msg = (x.entry e).msg)
    (hpub : (g (x.entry e)).published = (x.entry e).published)
    (ht : (g (x.entry e)).t.isSome = (x.entry e).t.isSome) : Grows x (x.modifyEntry e g) where
  entries_next := le_refl _
  packets_next := le_refl _
  packet _ _ := ⟨rfl, rfl, fun _ => rfl⟩
  entry e' _ := by
    by_cases h : e' = e
    · rw [h, Outbox.modifyEntry_self]
      exact ⟨hmsg, hpub, ht⟩
    · rw [Outbox.modifyEntry_of_ne g x h]
      exact ⟨rfl, rfl, rfl⟩

theorem modifyPacket (r : PacketRef) (id : UInt16) (x : Outbox) :
    Grows x (x.modifyPacket r (ControlPacket.setMessageID id)) where
  entries_next := le_refl _
  packets_next := le_refl _
  packet r' _ := by
    by_cases h : r' = r
    · subst h
      have : (x.modifyPacket r' (ControlPacket.setMessageID id)).packet r' =
          (x.packet r').setMessageID id := Heap.modify_self ..
      rw [this]
      exact setMessageID_fields id _
    · have : (x.modifyPacket r (ControlPacket.setMessageID id)).packet r' = x.packet r' :=
        Heap.modify_of_ne _ _ h
      rw [this]
      exact ⟨rfl, rfl, fun _ => rfl⟩
  entry _ _ := ⟨rfl, rfl, rfl⟩

theorem newPacket (p : ControlPacket) (x : Outbox) : Grows x (x.newPacket p) where
  entries_next := le_refl _
  packets_next := Nat.le_succ _
  packet r hr := by
    rw [Outbox.newPacket_of_lt p hr]
    exact ⟨rfl, rfl, fun _ => rfl⟩
  entry _ _ := ⟨rfl, rfl, rfl⟩

theorem newEntry (r : PacketRef) (published : Bool) (x : Outbox) :
    Grows x (x.newEntry r published) where
  entries_next := Nat.le_succ _
  packets_next := le_refl _
  packet _ _ := ⟨rfl, rfl, fun _ => rfl⟩
  entry e he := by
    rw [Outbox.newEntry_of_lt r published he]
    exact ⟨rfl, rfl, rfl⟩

end Grows

/-! ## `updateInflightMsg` -/

/-- What the update of each entry preserves, the whole update does. -/
theorem updateInflight_induct {P : Outbox → Prop} (r : PacketRef) (x : Outbox) (h : P x)
    (hstep : ∀ y, ∀ e ∈ x.withId r, P y →
      P ((y.modifyEntry e fun i => { i with p := r }).note (.updated e r))) :
    P (x.updateInflight r) := by
  suffices hall : ∀ l : List EntryRef, (∀ e ∈ l, e ∈ x.withId r) → ∀ y, P y →
      P (l.foldl (fun y e => (y.modifyEntry e fun i => { i with p := r }).note (.updated e r)) y)
    from hall _ (fun _ he => he) x h
  intro l
  induction l with
  | nil => exact fun _ y hy => hy
  | cons e l ih =>
    intro hl y hy
    exact ih (fun e' he' => hl e' (List.mem_cons_of_mem _ he')) _
      (hstep y e (hl e List.mem_cons_self) hy)

/-- The events of the updates. -/
theorem mem_log_updateInflight {r : PacketRef} {x : Outbox} {ev : Event}
    (h : ev ∈ (x.updateInflight r).log) :
    ev ∈ x.log ∨ ∃ e ∈ x.withId r, ev = .updated e r := by
  refine updateInflight_induct (P := fun y => ev ∈ y.log → ev ∈ x.log ∨
    ∃ e ∈ x.withId r, ev = .updated e r) r x .inl (fun y e he hy hev => ?_) h
  rcases List.mem_cons.mp hev with rfl | hev
  · exact .inr ⟨e, he, rfl⟩
  · exact hy hev

/-- The fields that `updateInflightMsg` does not write. -/
theorem updateInflight_lists (r : PacketRef) (x : Outbox) :
    (x.updateInflight r).packets = x.packets ∧
    (x.updateInflight r).inflightingList = x.inflightingList ∧
    (x.updateInflight r).peddingMsgList = x.peddingMsgList ∧
    (x.updateInflight r).iSendList = x.iSendList ∧
    (x.updateInflight r).connectToken = x.connectToken ∧
    (x.updateInflight r).disconnectToken = x.disconnectToken ∧
    (x.updateInflight r).entries.next = x.entries.next := by
  refine updateInflight_induct (P := fun y => y.packets = x.packets ∧
    y.inflightingList = x.inflightingList ∧ y.peddingMsgList = x.peddingMsgList ∧
    y.iSendList = x.iSendList ∧ y.connectToken = x.connectToken ∧
    y.disconnectToken = x.disconnectToken ∧ y.entries.next = x.entries.next) r x ?_ ?_
  · exact ⟨rfl, rfl, rfl, rfl, rfl, rfl, rfl⟩
  · exact fun _ _ _ h => h

theorem Grows.updateInflight (r : PacketRef) (x : Outbox) : Grows x (x.updateInflight r) := by
  refine updateInflight_induct r x (.refl x) fun y e _ h => h.trans ?_
  have hmodify : Grows y (y.modifyEntry e fun i => { i with p := r }) := modifyEntry rfl rfl rfl
  exact hmodify.trans (of_eq rfl rfl)

theorem Grows.assignToken (e : EntryRef) (p : ControlPacket) (x : Outbox) :
    Grows x (assignToken e p x) := by
  cases p with
  | connect m | disconnect m => exact of_eq rfl rfl
  | subscribe m => exact modifyEntry rfl rfl Option.isSome_map
  | _ => exact refl x

theorem MsgOp.Ran.grows {o : MsgOp} {new : List MsgOp} (h : Ran cfg f x o new x') :
    Grows x x' := by
  cases h with
  | numberPublish id _ | numberSend id _ => exact .modifyPacket _ id x
  | newInflight c timeout => exact .modifyEntry rfl rfl rfl
  | send e _ => exact .assignToken e _ x
  | resend e now timeout => exact .modifyEntry rfl rfl rfl
  | @subackResults e r t t' ht _ =>
    refine .modifyEntry rfl rfl ?_
    rw [ht]
    rfl
  | @flowComplete e t ht _ =>
    have hmodify : Grows x
        (x.modifyEntry e fun i => { i with t := some { t with complete := true } }) := by
      refine .modifyEntry rfl rfl ?_
      rw [ht]
      rfl
    exact hmodify.trans (.of_eq rfl rfl)
  | onPubrec messageID => exact .newPacket _ x
  | updateInflight r => exact .updateInflight r x
  | reply p => exact .newPacket p x
  | connectErr code _ => exact .modifyEntry rfl rfl Option.isSome_map
  | _ => exact .of_eq rfl rfl

/-! ## The types fit together -/

/-- The Go type of a packet and the type in its header: the UNSUBACK that a handler builds
has none. -/
def HasType (p : ControlPacket) : Prop := p.type = p.kind ∨ p.kind = PacketType.unsuback

/-- Packets and entries. -/
structure Outbox.Heaps (x : Outbox) : Prop where
  type : ∀ r < x.packets.next, HasType (x.packet r)
  refs : ∀ e < x.entries.next, (x.entry e).p < x.packets.next ∧ (x.entry e).msg < x.packets.next
  token : ∀ e < x.entries.next,
    (x.entry e).t.isSome = (newToken (x.packet (x.entry e).msg).kind).isSome
  published : ∀ e < x.entries.next, (x.entry e).published = true →
    (x.packet (x.entry e).msg).kind = PacketType.publish
  packet : ∀ e < x.entries.next, (x.entry e).p = (x.entry e).msg ∨
    (x.packet (x.entry e).p).kind = PacketType.pubrel

/-- An entry of a call of `Publish`. -/
def Outbox.Published (x : Outbox) (e : EntryRef) : Prop :=
  e < x.entries.next ∧ (x.entry e).published = true

/-- An entry of a call for a packet that gets an id, a token and an acknowledgement. -/
def Outbox.Tracked (x : Outbox) (e : EntryRef) : Prop :=
  e < x.entries.next ∧ (x.packet (x.entry e).msg).kind ∈ numbered

/-- The entry that an event is about. -/
def Event.entry : Event → Option EntryRef
  | called e | returned e _ | lost e | updated e _ | removed e _ _ | completed e => some e
  | sent c _ => c.map Caller.entry
  | written _ => none

/-- `Channel.Send` pushed packet `r` for entry `e`. -/
def Event.pushes (e : EntryRef) (r : PacketRef) : Event → Bool
  | sent (some c) r' => c.entry = e ∧ r' = r
  | _ => false

/-- What the lists, the token fields and the events refer to. -/
structure Outbox.Lists (x : Outbox) : Prop where
  pedding : ∀ e ∈ x.peddingMsgList, x.Published e
  inflight : ∀ e ∈ x.inflightingList, e < x.entries.next
  sendList : ∀ r ∈ x.iSendList, r < x.packets.next
  connectToken : ∀ e, x.connectToken = some e → e < x.entries.next ∧
    (x.packet (x.entry e).msg).kind = PacketType.connect
  disconnectToken : ∀ e, x.disconnectToken = some e → e < x.entries.next ∧
    (x.packet (x.entry e).msg).kind = PacketType.disconnect
  log : ∀ ev ∈ x.log, ∀ e, ev.entry = some e → e < x.entries.next

/-- What an operation refers to. -/
def MsgOp.Typed (x : Outbox) : MsgOp → Prop
  | addMsgId e | setMessageID e _ => x.Tracked e
  | send e => e < x.entries.next ∧ (x.entry e).published = false
  | returned e _ | resend e _ | flowComplete e => e < x.entries.next
  | isConnected e | isClosed e | inflightLen e | sendLen e | sendPeddingChan e
  | pushPedding e => x.Published e
  | insert2Inflight c | sendEntry c => x.Published c.entry
  | newInflight c | pushInflight c =>
    c.entry < x.entries.next ∧ ((∃ e, c = .send e) ∨ x.Published c.entry)
  | channelSend c r | pushSend c r =>
    (∀ k, c = some k → k.entry < x.entries.next) ∧ r < x.packets.next
  | loadMessageID r | removeInflight r _ | onWrited r => r < x.packets.next
  | subackResults e r => e < x.entries.next ∧ r < x.packets.next
  | updateInflight r => r < x.packets.next ∧ (x.packet r).kind = PacketType.pubrel
  | reply p => HasType p
  | checkInflight | readNow | collect _ | refillLen _ | refillSendLen | recvPeddingChan
  | popPedding | onPubrec _ | connectErr _ | completeConnect | completeDisconnect => True

/-- The entry that an operation works on. -/
def MsgOp.entry : MsgOp → Option EntryRef
  | addMsgId e | setMessageID e _ | isConnected e | isClosed e | inflightLen e | sendLen e
  | sendPeddingChan e | pushPedding e | returned e _ | send e | resend e _ | subackResults e _
  | flowComplete e => some e
  | insert2Inflight c | newInflight c | pushInflight c | sendEntry c => some c.entry
  | channelSend c _ | pushSend c _ => c.map Caller.entry
  | _ => none

def Op.Typed (x : Outbox) : Op → Prop
  | .msg o => o.Typed x
  | .stop (.recvMsg r _) => r < x.packets.next
  | .stop _ => True

structure Typed (s : Solo) : Prop where
  heaps : s.outbox.Heaps
  lists : s.outbox.Lists
  ops : ∀ o ∈ s.goroutines.ops, o.Typed s.outbox

theorem MsgOp.Typed.lt {o : MsgOp} {e : EntryRef} (ho : o.Typed x) (h : o.entry = some e) :
    e < x.entries.next := by
  cases o with
  | addMsgId e' | setMessageID e' _ | send e' | isConnected e' | isClosed e' | inflightLen e'
  | sendLen e' | sendPeddingChan e' | pushPedding e' | insert2Inflight c | sendEntry c
  | newInflight c | pushInflight c | subackResults e' _ => exact Option.some.inj h ▸ ho.1
  | returned e' _ | resend e' _ | flowComplete e' => exact Option.some.inj h ▸ ho
  | channelSend c r | pushSend c r =>
    obtain ⟨k, hk, rfl⟩ := Option.map_eq_some_iff.mp h
    exact ho.1 k hk
  | _ => exact absurd h (by simp [MsgOp.entry])

namespace Outbox.Lists

variable {e : EntryRef}

/-! An entry that is not made yet is nowhere. -/

theorem count_pedding (hl : x.Lists) (he : x.entries.next ≤ e) : x.peddingMsgList.count e = 0 :=
  List.count_eq_zero.mpr fun h => Nat.not_lt.mpr he (hl.pedding e h).1

theorem count_inflighting (hl : x.Lists) (he : x.entries.next ≤ e) :
    x.inflightingList.count e = 0 :=
  List.count_eq_zero.mpr fun h => Nat.not_lt.mpr he (hl.inflight e h)

theorem countP_log (hl : x.Lists) {q : Event → Bool}
    (hq : ∀ ev, q ev = true → ev.entry = some e) (he : x.entries.next ≤ e) : x.log.countP q = 0 :=
  List.countP_eq_zero.mpr fun ev hev h => Nat.not_lt.mpr he (hl.log ev hev e (hq ev h))

end Outbox.Lists

/-- What counts operations on an entry finds none before the entry is made. -/
theorem Typed.countP_eq_zero {s : Solo} (hs : Typed s) {q : Op → Bool} {e : EntryRef}
    (hmsg : ∀ o : MsgOp, q (.msg o) = true → o.entry = some e)
    (hstop : ∀ o, q (.stop o) = false) (he : s.outbox.entries.next ≤ e) :
    s.goroutines.ops.countP q = 0 := by
  refine List.countP_eq_zero.mpr fun o ho hq => ?_
  cases o with
  | msg o => exact Nat.not_lt.mpr he ((hs.ops _ ho : o.Typed s.outbox).lt (hmsg o hq))
  | stop o => exact absurd hq (by rw [hstop o]; exact Bool.false_ne_true)

/-! ## Typed things stay typed when the heaps grow -/

namespace Grows

theorem lt_entries (h : Grows x x') {e : EntryRef} (he : e < x.entries.next) :
    e < x'.entries.next :=
  lt_of_lt_of_le he h.entries_next

theorem lt_packets (h : Grows x x') {r : PacketRef} (hr : r < x.packets.next) :
    r < x'.packets.next :=
  lt_of_lt_of_le hr h.packets_next

theorem published (h : Grows x x') {e : EntryRef} (he : x.Published e) : x'.Published e :=
  ⟨h.lt_entries he.1, (h.entry e he.1).2.1.trans he.2⟩

theorem hasType (h : Grows x x') {r : PacketRef} (hr : r < x.packets.next)
    (ht : HasType (x.packet r)) : HasType (x'.packet r) := by
  obtain ⟨hkind, hheader, -⟩ := h.packet r hr
  rw [HasType, ControlPacket.type, hheader, hkind]
  exact ht

/-- The kind of the packet that an entry was made for. -/
theorem kind_msg (h : Grows x x') (hx : x.Heaps) {e : EntryRef} (he : e < x.entries.next) :
    (x'.packet (x'.entry e).msg).kind = (x.packet (x.entry e).msg).kind := by
  rw [(h.entry e he).1]
  exact (h.packet _ (hx.refs e he).2).1

/-- A PUBLISH keeps its QoS. -/
theorem qos (h : Grows x x') {r : PacketRef} (hr : r < x.packets.next)
    (hk : (x.packet r).kind = PacketType.publish) :
    (x'.packet r).details.qos = (x.packet r).details.qos := by
  obtain ⟨hkind, hheader, -⟩ := h.packet r hr
  rw [qos_of_kind hk, ← hheader, ← qos_of_kind (hkind.trans hk)]

theorem tracked (h : Grows x x') (hx : x.Heaps) {e : EntryRef} (he : x.Tracked e) :
    x'.Tracked e := by
  refine ⟨h.lt_entries he.1, ?_⟩
  rw [h.kind_msg hx he.1]
  exact he.2

theorem msgOp (h : Grows x x') (hx : x.Heaps) {o : MsgOp} (ho : o.Typed x) : o.Typed x' := by
  cases o with
  | addMsgId e | setMessageID e _ => exact h.tracked hx ho
  | send e => exact ⟨h.lt_entries ho.1, (h.entry e ho.1).2.1.trans ho.2⟩
  | returned e _ | resend e _ | flowComplete e => exact h.lt_entries ho
  | isConnected e | isClosed e | inflightLen e | sendLen e | sendPeddingChan e
  | pushPedding e | insert2Inflight c | sendEntry c => exact h.published ho
  | newInflight c | pushInflight c => exact ⟨h.lt_entries ho.1, ho.2.imp id h.published⟩
  | channelSend c r | pushSend c r =>
    exact ⟨fun k hk => h.lt_entries (ho.1 k hk), h.lt_packets ho.2⟩
  | loadMessageID r | removeInflight r _ | onWrited r => exact h.lt_packets ho
  | subackResults e r => exact ⟨h.lt_entries ho.1, h.lt_packets ho.2⟩
  | updateInflight r => exact ⟨h.lt_packets ho.1, (h.packet r ho.1).1.trans ho.2⟩
  | reply p => exact ho
  | _ => trivial

theorem op (h : Grows x x') (hx : x.Heaps) {o : Op} (ho : o.Typed x) : o.Typed x' := by
  cases o with
  | msg o => exact h.msgOp hx ho
  | stop o =>
    cases o with
    | recvMsg r _ => exact h.lt_packets ho
    | _ => trivial

/-- Nothing was allocated, and an entry has its packet or a PUBREL. -/
theorem heaps (h : Grows x x') (hx : x.Heaps) (hp : x'.packets.next = x.packets.next)
    (he : x'.entries.next = x.entries.next)
    (hentry : ∀ e < x.entries.next, (x'.entry e).p = (x.entry e).p ∨
      (x'.entry e).p < x.packets.next ∧
        (x'.packet (x'.entry e).p).kind = PacketType.pubrel) : x'.Heaps where
  type r hr := h.hasType (hp ▸ hr) (hx.type r (hp ▸ hr))
  refs e hlt := by
    rw [he] at hlt
    rw [hp, (h.entry e hlt).1]
    refine ⟨?_, (hx.refs e hlt).2⟩
    rcases hentry e hlt with hsame | hrel
    · rw [hsame]
      exact (hx.refs e hlt).1
    · exact hrel.1
  token e hlt := by
    rw [he] at hlt
    rw [(h.entry e hlt).2.2, h.kind_msg hx hlt]
    exact hx.token e hlt
  published e hlt hpub := by
    rw [he] at hlt
    rw [(h.entry e hlt).2.1] at hpub
    rw [h.kind_msg hx hlt]
    exact hx.published e hlt hpub
  packet e hlt := by
    rw [he] at hlt
    rcases hentry e hlt with hsame | hrel
    · rw [hsame, (h.entry e hlt).1, (h.packet _ (hx.refs e hlt).1).1]
      exact hx.packet e hlt
    · exact .inr hrel.2

/-- The lists and the events are as they were. -/
theorem lists (h : Grows x x') (hx : x.Heaps) (hl : x.Lists)
    (hpedding : x'.peddingMsgList = x.peddingMsgList)
    (hinflight : x'.inflightingList = x.inflightingList) (hsend : x'.iSendList = x.iSendList)
    (hconnect : x'.connectToken = x.connectToken)
    (hdisconnect : x'.disconnectToken = x.disconnectToken)
    (hlog : ∀ ev ∈ x'.log, ev ∈ x.log ∨ ∀ e, ev.entry = some e → e < x'.entries.next) :
    x'.Lists where
  pedding e he := h.published (hl.pedding e (hpedding ▸ he))
  inflight e he := h.lt_entries (hl.inflight e (hinflight ▸ he))
  sendList r hr := h.lt_packets (hl.sendList r (hsend ▸ hr))
  connectToken e he := by
    obtain ⟨hlt, hkind⟩ := hl.connectToken e (hconnect ▸ he)
    exact ⟨h.lt_entries hlt, (h.kind_msg hx hlt).trans hkind⟩
  disconnectToken e he := by
    obtain ⟨hlt, hkind⟩ := hl.disconnectToken e (hdisconnect ▸ he)
    exact ⟨h.lt_entries hlt, (h.kind_msg hx hlt).trans hkind⟩
  log ev hev e he := by
    rcases hlog ev hev with hold | hnew
    · exact h.lt_entries (hl.log ev hold e he)
    · exact hnew e he

end Grows

/-! ## Allocations -/

theorem Outbox.Heaps.newPacket {p : ControlPacket} (hx : x.Heaps) (hp : HasType p) :
    (x.newPacket p).Heaps := by
  have hold : ∀ r < x.packets.next, (x.newPacket p).packet r = x.packet r := fun r hr =>
    Heap.alloc_of_lt p hr
  constructor
  · intro r hr
    by_cases h : r = x.packets.next
    · rw [h, show (x.newPacket p).packet x.packets.next = p from Heap.alloc_self ..]
      exact hp
    · have hlt : r < x.packets.next := Nat.lt_of_le_of_ne (Nat.le_of_lt_succ hr) h
      rw [hold r hlt]
      exact hx.type r hlt
  · intro e he
    exact ⟨Nat.lt_succ_of_lt (hx.refs e he).1, Nat.lt_succ_of_lt (hx.refs e he).2⟩
  · intro e he
    have h := hx.token e he
    rw [← hold _ (hx.refs e he).2] at h
    exact h
  · intro e he hpub
    have h := hx.published e he hpub
    rw [← hold _ (hx.refs e he).2] at h
    exact h
  · intro e he
    have h := hx.packet e he
    rw [← hold _ (hx.refs e he).1] at h
    exact h

theorem Outbox.Heaps.newEntry {r : PacketRef} {published : Bool} (hx : x.Heaps)
    (hr : r < x.packets.next) (ht : (x.packet r).type = (x.packet r).kind)
    (hpub : published = true → (x.packet r).kind = PacketType.publish) :
    (x.newEntry r published).Heaps := by
  have hold : ∀ e < x.entries.next, (x.newEntry r published).entry e = x.entry e := fun e he =>
    Heap.alloc_of_lt _ he
  have hnew : (x.newEntry r published).entry x.entries.next =
      { p := r, t := newToken (x.packet r).type, msg := r, published } := Heap.alloc_self ..
  have hcases : ∀ e < (x.newEntry r published).entries.next,
      e < x.entries.next ∨ e = x.entries.next := fun e he => by
    have : e < x.entries.next + 1 := he
    omega
  constructor
  · exact hx.type
  · intro e he
    rcases hcases e he with he | rfl
    · rw [hold e he]
      exact hx.refs e he
    · rw [hnew]
      exact ⟨hr, hr⟩
  · intro e he
    rcases hcases e he with he | rfl
    · rw [hold e he]
      exact hx.token e he
    · rw [hnew]
      exact congrArg (fun ty => (newToken ty).isSome) ht
  · intro e he hp
    rcases hcases e he with he | rfl
    · rw [hold e he] at hp ⊢
      exact hx.published e he hp
    · rw [hnew] at hp ⊢
      exact hpub hp
  · intro e he
    rcases hcases e he with he | rfl
    · rw [hold e he]
      exact hx.packet e he
    · rw [hnew]
      exact .inl rfl

/-! ## Operations -/

theorem modifyEntry_p {g : Entry → Entry} {e : EntryRef}
    (hg : (g (x.entry e)).p = (x.entry e).p) (e' : EntryRef) :
    ((x.modifyEntry e g).entry e').p = (x.entry e').p := by
  by_cases h : e' = e
  · rw [h, Outbox.modifyEntry_self, hg]
  · rw [Outbox.modifyEntry_of_ne g x h]

theorem assignToken_p (e e' : EntryRef) (p : ControlPacket) (x : Outbox) :
    ((assignToken e p x).entry e').p = (x.entry e').p := by
  cases p with
  | subscribe m => exact modifyEntry_p (x := x) (e := e) rfl e'
  | _ => rfl

/-- An entry keeps its packet, or gets the PUBREL with its id. -/
theorem updateInflight_p (r : PacketRef) (e : EntryRef) (x : Outbox) :
    ((x.updateInflight r).entry e).p = (x.entry e).p ∨
      e ∈ x.withId r ∧ ((x.updateInflight r).entry e).p = r := by
  refine updateInflight_induct (P := fun y => (y.entry e).p = (x.entry e).p ∨
    e ∈ x.withId r ∧ (y.entry e).p = r) r x (.inl rfl) fun y e' he' h => ?_
  rw [Outbox.note_entry]
  by_cases he : e = e'
  · rw [he, Outbox.modifyEntry_self]
    exact .inr ⟨he', rfl⟩
  · rw [Outbox.modifyEntry_of_ne _ y he]
    exact h

theorem rest_typed {c : Caller} (hc : c.entry < x.entries.next) :
    ∀ o ∈ c.rest, o.Typed x := by
  intro o ho
  rw [mem_rest ho]
  exact hc

theorem sendCase_typed {e : EntryRef} {r : PacketRef} {p : ControlPacket}
    (he : e < x.entries.next) (hr : r < x.packets.next)
    (hp : (x.packet (x.entry e).msg).kind = p.kind) : ∀ o ∈ sendCase e r p, o.Typed x := by
  intro o ho
  cases p with
  | publish m | subscribe m | unsubscribe m =>
    obtain rfl := List.mem_singleton.mp ho
    exact ⟨he, by rw [hp, ControlPacket.kind]; decide⟩
  | pubrec m | pubrel m =>
    obtain rfl := List.mem_singleton.mp ho
    exact ⟨he, .inl ⟨e, rfl⟩⟩
  | _ =>
    obtain rfl := List.mem_singleton.mp ho
    exact ⟨fun k hk => Option.some.inj hk ▸ he, hr⟩

theorem forall_mem_push {α : Type} {P : α → Prop} {a : α} {l : List α} :
    (∀ b ∈ GoList.push a l, P b) ↔ (∀ b ∈ l, P b) ∧ P a := by
  simp only [GoList.push, List.forall_mem_append, List.forall_mem_singleton]

theorem count_push (e e' : EntryRef) (l : List EntryRef) :
    (GoList.push e' l).count e = l.count e + if e' = e then 1 else 0 := by
  rw [GoList.push, List.count_append, List.count_singleton]
  simp only [beq_iff_eq]

/-- One more event. -/
theorem Outbox.Lists.note {ev : Event} (hl : x.Lists)
    (hev : ∀ e, ev.entry = some e → e < x.entries.next) : (x.note ev).Lists :=
  { hl with log := List.forall_mem_cons.mpr ⟨hev, hl.log⟩ }

theorem mem_log_note {ev : Event} {n : ℕ} {l : List Event}
    (hev : ∀ e, ev.entry = some e → e < n) :
    ∀ ev' ∈ ev :: l, ev' ∈ l ∨ ∀ e, ev'.entry = some e → e < n :=
  List.forall_mem_cons.mpr ⟨.inr hev, fun _ h => .inl h⟩

theorem assignToken_lists {e : EntryRef} (hx : x.Heaps) (hl : x.Lists)
    (he : e < x.entries.next) : (assignToken e (x.packet (x.entry e).msg) x).Lists := by
  have hgrows := Grows.assignToken e (x.packet (x.entry e).msg) x
  unfold assignToken at hgrows ⊢
  split at hgrows
  · next hp =>
    refine { hl with connectToken := fun e' he' => ?_ }
    obtain rfl := Option.some.inj he'
    exact ⟨he, congrArg ControlPacket.kind hp⟩
  · next hp =>
    refine { hl with disconnectToken := fun e' he' => ?_ }
    obtain rfl := Option.some.inj he'
    exact ⟨he, congrArg ControlPacket.kind hp⟩
  · exact hgrows.lists hx hl rfl rfl rfl rfl rfl fun _ hev => .inl hev
  · exact hl

theorem updateInflight_typed (r : PacketRef) (hx : x.Heaps) (hl : x.Lists) :
    (x.updateInflight r).Lists := by
  obtain ⟨_, hinflight, hpedding, hsend, hconnect, hdisconnect, hnext⟩ :=
    updateInflight_lists r x
  refine (Grows.updateInflight r x).lists hx hl hpedding hinflight hsend hconnect hdisconnect ?_
  rw [hnext]
  -- each event is about an entry in flight
  refine updateInflight_induct (P := fun y => ∀ ev ∈ y.log, ev ∈ x.log ∨
    ∀ e, ev.entry = some e → e < x.entries.next) r x (fun _ hev => .inl hev) ?_
  intro y e he hy
  have hlt := hl.inflight e (List.mem_of_mem_filter he)
  exact List.forall_mem_cons.mpr ⟨.inr fun _ he' => Option.some.inj he' ▸ hlt, hy⟩

namespace MsgOp.Ran

variable {o : MsgOp} {new : List MsgOp}

/-- An entry keeps its packet, unless a PUBREC gives it a PUBREL. -/
theorem entry_p (h : Ran cfg f x o new x') (e : EntryRef) :
    (x'.entry e).p = (x.entry e).p ∨
      ∃ r, o = .updateInflight r ∧ e ∈ x.withId r ∧ (x'.entry e).p = r := by
  cases h with
  | newInflight c timeout => exact .inl (modifyEntry_p rfl e)
  | resend e' now timeout | subackResults r _ _ => exact .inl (modifyEntry_p rfl e)
  | @flowComplete e' t _ _ =>
    rw [Outbox.note_entry]
    exact .inl (modifyEntry_p rfl e)
  | connectErr code _ => exact .inl (modifyEntry_p rfl e)
  | send e' _ => exact .inl (assignToken_p e' e _ x)
  | updateInflight r => exact (updateInflight_p r e x).imp id fun h => ⟨r, rfl, h⟩
  | _ => exact .inl rfl

theorem heaps (h : Ran cfg f x o new x') (hx : x.Heaps) (ho : o.Typed x) : x'.Heaps := by
  have hgrows := h.grows
  have hp := h.entry_p
  cases h with
  | send e _ =>
    obtain ⟨hpackets, hnext, _⟩ := assignToken_fields e (x.packet (x.entry e).msg) x
    exact hgrows.heaps hx (congrArg Heap.next hpackets) hnext
      fun e' _ => .inl (assignToken_p e e' _ x)
  | onPubrec messageID => exact hx.newPacket (.inl rfl)
  | reply p => exact hx.newPacket ho
  | updateInflight r =>
    obtain ⟨hpackets, _, _, _, _, _, hnext⟩ := updateInflight_lists r x
    refine hgrows.heaps hx (congrArg Heap.next hpackets) hnext fun e _ => ?_
    refine (updateInflight_p r e x).imp id fun hp => ?_
    rw [hp.2, Outbox.packet, hpackets]
    exact ho
  | _ => exact hgrows.heaps hx rfl rfl fun e' _ => .inl ((hp e').resolve_right (by simp))

/-- What operations of the outbound side leave is typed again. -/
theorem typed (h : Ran cfg f x o new x') (hx : x.Heaps) (hl : x.Lists) (ho : o.Typed x) :
    ∀ o' ∈ new, o'.Typed x' := by
  have hgrows := h.grows
  intro o' ho'
  cases h with
  | addMsgId e =>
    obtain rfl := List.mem_singleton.mp ho'
    exact hgrows.tracked hx ho
  | connected e _ | notClosed e _ | windowOpen e _ | windowFull e | sendListOpen e _
  | sendListFull e | peddingRoom e | notInserted _ | channelSend c r _ | loadMessageID r =>
    obtain rfl := List.mem_singleton.mp ho'
    exact ho
  | notConnected e err | closed e err | peddingClosed e _ | pushPedding e | sendStoped e err
  | subackResults r _ _ =>
    obtain rfl := List.mem_singleton.mp ho'
    exact ho.1
  | numberPublish id hp =>
    obtain rfl := List.mem_singleton.mp ho'
    exact ⟨ho.1, hp⟩
  | @numberSend e id _ =>
    obtain rfl := List.mem_singleton.mp ho'
    exact ⟨ho.1, .inl ⟨e, rfl⟩⟩
  | refused c _ => exact rest_typed ho.1 o' ho'
  | inserted c _ =>
    obtain rfl := List.mem_singleton.mp ho'
    exact ⟨ho.1, .inr ho⟩
  | newInflight c timeout =>
    obtain rfl := List.mem_singleton.mp ho'
    exact hgrows.msgOp hx (o := .pushInflight c) ho
  | pushInflight c =>
    obtain rfl := List.mem_singleton.mp ho'
    cases c with
    | send e => exact ⟨fun k hk => Option.some.inj hk ▸ ho.1, (hx.refs e ho.1).2⟩
    | publish e | refill e | resend e =>
      rcases ho.2 with ⟨_, hc⟩ | hpub
      · exact absurd hc (by simp)
      · exact hpub
  | sendEntry c =>
    obtain rfl := List.mem_singleton.mp ho'
    exact ⟨fun k hk => Option.some.inj hk ▸ ho.1, (hx.refs _ ho.1).1⟩
  | channelStoped c r _ | pushSend c r =>
    obtain ⟨k, hk, rfl⟩ := mem_rest_of_mem_elim ho'
    exact ho.1 k hk
  | send e _ => exact hgrows.msgOp hx (sendCase_typed ho.1 (hx.refs e ho.1).2 rfl o' ho')
  | collect now =>
    obtain ⟨e, he, rfl⟩ := List.mem_map.mp ho'
    exact hl.inflight e (List.mem_of_mem_filter he)
  | resend e now timeout =>
    obtain rfl := List.mem_singleton.mp ho'
    exact ⟨fun k hk => Option.some.inj hk ▸ ho, (hx.refs e ho).1⟩
  | @popPedding e rest hp =>
    obtain rfl := List.mem_singleton.mp ho'
    exact hl.pedding e (hp ▸ List.mem_cons_self)
  | removeInflight r he =>
    have hlt := hl.inflight _ (List.mem_of_find?_eq_some he)
    rcases mem_afterRemove ho' with rfl | rfl
    · exact hlt
    · exact ⟨hlt, ho⟩
  | onPubrec messageID =>
    have hrel : (x.newPacket (.pubrel { newPubrel with messageID })).packet x.packets.next =
        .pubrel { newPubrel with messageID } := Heap.alloc_self ..
    rcases List.mem_cons.mp ho' with rfl | ho'
    · exact ⟨fun _ hk => absurd hk (by simp), Nat.lt_succ_self _⟩
    · obtain rfl := List.mem_singleton.mp ho'
      exact ⟨Nat.lt_succ_self _, congrArg ControlPacket.kind hrel⟩
  | reply p =>
    obtain rfl := List.mem_singleton.mp ho'
    exact ⟨fun _ hk => absurd hk (by simp), Nat.lt_succ_self _⟩
  | @writedQos0 r _ _ =>
    rcases mem_onInflightDone ho' with rfl | rfl
    · exact ho
    · trivial
  | completeConnect =>
    obtain ⟨e, he, rfl⟩ := mem_handshake ho'
    exact (hl.connectToken e he).1
  | completeDisconnect =>
    obtain ⟨e, he, rfl⟩ := mem_handshake ho'
    exact (hl.disconnectToken e he).1
  | inflightNonempty | inflightEmpty | readNow | tickWindowOpen _ | doneWindowOpen _
  | refillSendOpen | recvPeddingChan | connectErr code _ =>
    simp only [List.mem_cons, List.not_mem_nil, or_false] at ho'
    rcases ho' with rfl | rfl <;> trivial
  | _ => exact absurd ho' (by simp)

/-- So are the lists and the events that they leave. -/
theorem lists (h : Ran cfg f x o new x') (hx : x.Heaps) (hl : x.Lists) (ho : o.Typed x) :
    x'.Lists := by
  have hgrows := h.grows
  cases h with
  | pushPedding e => exact { hl with pedding := forall_mem_push.mpr ⟨hl.pedding, ho⟩ }
  | pushInflight c => exact { hl with inflight := forall_mem_push.mpr ⟨hl.inflight, ho.1⟩ }
  | popPedding hp =>
    exact { hl with pedding := fun e he => hl.pedding e (hp ▸ List.mem_cons_of_mem _ he) }
  | pushSend c r =>
    refine { hl.note fun e he => ?_ with
      sendList := forall_mem_push.mpr ⟨hl.sendList, ho.2⟩ }
    obtain ⟨k, hk, rfl⟩ := Option.map_eq_some_iff.mp he
    exact ho.1 k hk
  | peddingClosed e _ | refused c _ => exact hl.note fun _ he => Option.some.inj he ▸ ho.1
  | returned e err => exact hl.note fun _ he => Option.some.inj he ▸ ho
  | send e _ => exact assignToken_lists hx hl ho.1
  | @removeInflight e r id he =>
    have hfound := hl.inflight e (List.mem_of_find?_eq_some he)
    have hremoved : (x.removeInflight id).Lists :=
      { hl with inflight := fun e' he' => hl.inflight e' (List.mem_of_mem_eraseP he') }
    exact hremoved.note fun _ he => Option.some.inj he ▸ hfound
  | @flowComplete e t _ _ =>
    exact hgrows.lists hx hl rfl rfl rfl rfl rfl
      (mem_log_note fun _ he => Option.some.inj he ▸ ho)
  | updateInflight r => exact updateInflight_typed r hx hl
  | newInflight c timeout | resend e now timeout | subackResults r _ _ | connectErr code _
  | onPubrec messageID | reply p | numberPublish id _ | numberSend id _ =>
    exact hgrows.lists hx hl rfl rfl rfl rfl rfl fun _ hev => .inl hev
  | _ => exact { hl with }

end MsgOp.Ran

/-! ## Turns -/

theorem Begins.typed {P : PacketRef → Prop} {l : List Op} (h : Begins P l)
    (hP : ∀ r, P r → r < x.packets.next) : ∀ o ∈ l, o.Typed x := by
  intro o ho
  cases o with
  | msg o =>
    cases h _ ho with
    | loadMessageID hr => exact hP _ hr
    | reply hp => exact hp
    | _ => trivial
  | stop o =>
    cases o with
    | recvMsg r cleared => exact (h _ ho).elim
    | _ => trivial

/-- Operations that others begin do not work on an entry. -/
theorem Begins.entry_eq_none {P : PacketRef → Prop} {l : List Op} (h : Begins P l) {o : MsgOp}
    (ho : .msg o ∈ l) : o.entry = none := by
  cases h _ ho with
  | _ => rfl

theorem Exchange.typed {s : Solo} {t : Solo.Turn} {old new : List Op} {f' : Flags}
    (h : Exchange cfg s t old new x' f') (hs : Typed s) (hold : ∀ o ∈ old, o.Typed s.outbox) :
    Grows s.outbox x' ∧ x'.Heaps ∧ x'.Lists ∧ ∀ o ∈ new, o.Typed x' := by
  have hx := hs.heaps
  have hl := hs.lists
  cases h with
  | @msg i o new x' _ hran =>
    have ho : o.Typed s.outbox := hold _ List.mem_cons_self
    refine ⟨hran.grows, hran.heaps hx ho, hran.lists hx hl ho, fun o' ho' => ?_⟩
    obtain ⟨o₁, ho₁, rfl⟩ := List.mem_map.mp ho'
    exact hran.typed hx hl ho o₁ ho₁
  | @stop i o r _ hrun =>
    refine ⟨.refl _, hx, hl, ?_⟩
    refine (Begins.of_run hrun).typed fun r hr => ?_
    obtain ⟨cleared, rfl⟩ := hr
    exact hold _ List.mem_cons_self
  | @publish r hr hk =>
    have ht : (s.outbox.packet r).type = (s.outbox.packet r).kind :=
      (hx.type r hr).resolve_right (by rw [hk]; decide)
    have hg := Grows.newEntry r true s.outbox
    refine ⟨hg, hx.newEntry hr ht fun _ => hk, ?_, ?_⟩
    · exact hg.lists hx hl rfl rfl rfl rfl rfl
        (mem_log_note fun _ he => Option.some.inj he ▸ Nat.lt_succ_self _)
    · refine List.forall_mem_singleton.mpr ⟨Nat.lt_succ_self _, ?_⟩
      rw [show (s.outbox.newEntry r true).entry s.outbox.entries.next =
        { p := r, t := newToken (s.outbox.packet r).type, msg := r, published := true } from
        Heap.alloc_self ..]
      exact List.mem_cons.mpr (.inl hk)
  | send p =>
    have hnew : (s.outbox.newPacket p.1).packet s.outbox.packets.next = p.1 := Heap.alloc_self ..
    have hg := Grows.newPacket p.1 s.outbox
    have hg' := Grows.newEntry s.outbox.packets.next false (s.outbox.newPacket p.1)
    have hx' := hx.newPacket (p := p.1) (.inl p.2)
    refine ⟨hg.trans hg', hx'.newEntry (Nat.lt_succ_self _) ?_ (fun h => absurd h (by simp)),
      ?_, ?_⟩
    · rw [hnew]
      exact p.2
    · exact hg'.lists hx' (hg.lists hx hl rfl rfl rfl rfl rfl fun _ hev => .inl hev)
        rfl rfl rfl rfl rfl (mem_log_note fun _ he => Option.some.inj he ▸ Nat.lt_succ_self _)
    · exact List.forall_mem_singleton.mpr
        ⟨Nat.lt_succ_self _, congrArg Entry.published (Heap.alloc_self ..)⟩
  | newPacket p =>
    have hg := Grows.newPacket p.1 s.outbox
    exact ⟨hg, hx.newPacket (.inl p.2), hg.lists hx hl rfl rfl rfl rfl rfl fun _ hev => .inl hev,
      by simp⟩
  | @renumber r id hr =>
    have hg := Grows.modifyPacket r id s.outbox
    exact ⟨hg, hg.heaps hx rfl rfl fun _ _ => .inl rfl,
      hg.lists hx hl rfl rfl rfl rfl rfl fun _ hev => .inl hev, by simp⟩
  | recvPacket p cleared =>
    have hg := Grows.newPacket p.1 s.outbox
    exact ⟨hg, hx.newPacket (.inl p.2.typed),
      hg.lists hx hl rfl rfl rfl rfl rfl fun _ hev => .inl hev,
      List.forall_mem_singleton.mpr (Nat.lt_succ_self _)⟩
  | @written r rest hlist =>
    have hrest : ∀ m ∈ rest, m < s.outbox.packets.next := fun m hm =>
      hl.sendList m (hlist ▸ List.mem_cons_of_mem _ hm)
    have hlists : Outbox.Lists { s.outbox with iSendList := rest } :=
      { hl with sendList := hrest }
    have hg : Grows s.outbox ({ s.outbox with iSendList := rest }.note (.written r)) :=
      .of_eq rfl rfl
    exact ⟨hg, hg.heaps hx rfl rfl fun _ _ => .inl rfl,
      hlists.note fun _ he => absurd he (by simp [Event.entry]),
      List.forall_mem_singleton.mpr (hl.sendList r (hlist ▸ List.mem_cons_self))⟩
  | @notWritten r rest hlist =>
    have hrest : ∀ m ∈ rest, m < s.outbox.packets.next := fun m hm =>
      hl.sendList m (hlist ▸ List.mem_cons_of_mem _ hm)
    have hg : Grows s.outbox { s.outbox with iSendList := rest } := .of_eq rfl rfl
    exact ⟨hg, hg.heaps hx rfl rfl fun _ _ => .inl rfl, { hl with sendList := hrest },
      by simp [Op.Typed]⟩
  | elapse d =>
    have hg : Grows s.outbox { s.outbox with now := s.outbox.now + d } := .of_eq rfl rfl
    exact ⟨hg, hg.heaps hx rfl rfl fun _ _ => .inl rfl, { hl with }, by simp⟩
  | start => exact ⟨.refl _, hx, hl, by simp⟩
  | close _ => exact ⟨.refl _, hx, hl, by simp [Op.Typed]⟩
  | round t new hnew =>
    exact ⟨.refl _, hx, hl, Begins.typed (P := fun _ => False) (.round hnew) fun _ hr => hr.elim⟩

/-- The packet of an entry changes to a PUBREL only, when a PUBREC with its id comes. -/
theorem Exchange.entry_p {s : Solo} {t : Solo.Turn} {old new : List Op} {f' : Flags}
    (h : Exchange cfg s t old new x' f') (hold : ∀ o ∈ old, o.Typed s.outbox)
    {e : EntryRef} (he : e < s.outbox.entries.next) :
    (x'.entry e).p = (s.outbox.entry e).p ∨
      (x'.packet (x'.entry e).p).kind = PacketType.pubrel ∧
        ∃ r, .updateInflight r ∈ t.msgOp s ∧ e ∈ s.outbox.withId r := by
  cases h with
  | msg hnext hran =>
    refine (hran.entry_p e).imp id ?_
    rintro ⟨r, rfl, hmem, hp⟩
    have hrel : r < s.outbox.packets.next ∧ (s.outbox.packet r).kind = PacketType.pubrel :=
      hold _ List.mem_cons_self
    rw [hp, (hran.grows.packet r hrel.1).1]
    exact ⟨hrel.2, r, Solo.Turn.msgOp_run hnext, hmem⟩
  | publish _ _ | send p =>
    exact .inl (congrArg Entry.p (Heap.alloc_of_lt _ he))
  | _ => exact .inl rfl

/-- Entries are made by calls only. -/
theorem MsgOp.Ran.entries_next {o : MsgOp} {new : List MsgOp} (h : Ran cfg f x o new x') :
    x'.entries.next = x.entries.next := by
  cases h with
  | send e _ =>
    obtain ⟨_, hnext, _⟩ := assignToken_fields e (x.packet (x.entry e).msg) x
    exact hnext
  | updateInflight r =>
    obtain ⟨_, _, _, _, _, _, hnext⟩ := updateInflight_lists r x
    exact hnext
  | _ => rfl

theorem Exchange.entries_next {s : Solo} {t : Solo.Turn} {old new : List Op} {f' : Flags}
    (h : Exchange cfg s t old new x' f') : x'.entries.next = s.outbox.entries.next ∨
      ∃ r published, x'.log = .called s.outbox.entries.next :: s.outbox.log ∧
        x'.peddingMsgList = s.outbox.peddingMsgList ∧
        x'.inflightingList = s.outbox.inflightingList ∧
        x'.entries.next = s.outbox.entries.next + 1 ∧
        x'.entry s.outbox.entries.next =
          { p := r, t := newToken (x'.packet r).type, msg := r, published } ∧
        new = [.msg (if published then .addMsgId s.outbox.entries.next
          else .send s.outbox.entries.next)] := by
  cases h with
  | msg _ hran => exact .inl hran.entries_next
  | @publish r _ _ => exact .inr ⟨r, true, rfl, rfl, rfl, rfl, Heap.alloc_self .., rfl⟩
  | send p =>
    exact .inr ⟨s.outbox.packets.next, false, rfl, rfl, rfl, rfl, Heap.alloc_self .., rfl⟩
  | _ => exact .inl rfl

/-- How a turn changes the pending list. -/
theorem Exchange.pedding {s : Solo} {t : Solo.Turn} {old new : List Op} {f' : Flags}
    (h : Exchange cfg s t old new x' f') :
    x'.peddingMsgList = s.outbox.peddingMsgList ∨
    (∃ e, .pushPedding e ∈ t.msgOp s ∧ old = [.msg (.pushPedding e)] ∧
      new = [.msg (.returned e none)] ∧
      x'.peddingMsgList = GoList.push e s.outbox.peddingMsgList) ∨
    ∃ e, .popPedding ∈ t.msgOp s ∧ new = [.msg (.insert2Inflight (.refill e))] ∧
      s.outbox.peddingMsgList = e :: x'.peddingMsgList := by
  cases h with
  | msg hnext hran =>
    have hop := Solo.Turn.msgOp_run hnext
    cases hran with
    | pushPedding e => exact .inr (.inl ⟨e, hop, rfl, rfl, rfl⟩)
    | popPedding hp => exact .inr (.inr ⟨_, hop, rfl, hp⟩)
    | send e _ =>
      obtain ⟨_, _, _, hpedding, _⟩ := assignToken_fields e (s.outbox.packet _) s.outbox
      exact .inl hpedding
    | updateInflight r =>
      obtain ⟨_, _, hpedding, _⟩ := updateInflight_lists r s.outbox
      exact .inl hpedding
    | _ => exact .inl rfl
  | _ => exact .inl rfl

/-- How a turn changes the list of what is in flight. -/
theorem Exchange.inflight {s : Solo} {t : Solo.Turn} {old new : List Op} {f' : Flags}
    (h : Exchange cfg s t old new x' f') :
    x'.inflightingList = s.outbox.inflightingList ∨
    (∃ c, .pushInflight c ∈ t.msgOp s ∧ old = [.msg (.pushInflight c)] ∧
      new = [.msg (c.afterPush s.outbox)] ∧
      x'.inflightingList = GoList.push c.entry s.outbox.inflightingList) ∨
    ∃ r id e, .removeInflight r id ∈ t.msgOp s ∧ s.outbox.acknowledged id = some e ∧
      x' = (s.outbox.removeInflight id).note (.removed e r (s.outbox.idOf e)) := by
  cases h with
  | msg hnext hran =>
    have hop := Solo.Turn.msgOp_run hnext
    cases hran with
    | pushInflight c => exact .inr (.inl ⟨c, hop, rfl, rfl, rfl⟩)
    | removeInflight r he => exact .inr (.inr ⟨r, _, _, hop, he, rfl⟩)
    | send e _ =>
      obtain ⟨_, _, hinflight, _⟩ := assignToken_fields e (s.outbox.packet _) s.outbox
      exact .inl hinflight
    | updateInflight r =>
      obtain ⟨_, hinflight, _⟩ := updateInflight_lists r s.outbox
      exact .inl hinflight
    | _ => exact .inl rfl
  | _ => exact .inl rfl

/-- The events that a turn notes when it does the operations `old`. -/
inductive Notes (s : Solo) (old : List Op) : Event → Prop
  | called : Notes s old (.called s.outbox.entries.next)
  | returned {e : EntryRef} {err : Option GoError} : .msg (.returned e err) ∈ old →
      Notes s old (.returned e err)
  | lost (e : EntryRef) : Notes s old (.lost e)
  | sent {c : Option Caller} {r : PacketRef} : .msg (.pushSend c r) ∈ old →
      Notes s old (.sent c r)
  | written (r : PacketRef) : Notes s old (.written r)
  | updated {e : EntryRef} {r : PacketRef} : .msg (.updateInflight r) ∈ old →
      e ∈ s.outbox.withId r → Notes s old (.updated e r)
  | removed {e : EntryRef} {r : PacketRef} {id : UInt16} : .msg (.removeInflight r id) ∈ old →
      s.outbox.acknowledged id = some e → Notes s old (.removed e r (s.outbox.idOf e))
  | completed {e : EntryRef} : .msg (.flowComplete e) ∈ old → Notes s old (.completed e)

/-- What the events of a turn preserve, the turn does. -/
theorem Exchange.log_induct {s : Solo} {t : Solo.Turn} {old new : List Op} {f' : Flags}
    (h : Exchange cfg s t old new x' f') {P : List Event → Prop} (h0 : P s.outbox.log)
    (hstep : ∀ ev l, Notes s old ev → P l → P (ev :: l)) : P x'.log := by
  cases h with
  | msg _ hran =>
    cases hran with
    | peddingClosed e _ => exact hstep _ _ (.lost e) h0
    | refused c _ => exact hstep _ _ (.lost c.entry) h0
    | pushSend c r => exact hstep _ _ (.sent List.mem_cons_self) h0
    | returned e err => exact hstep _ _ (.returned List.mem_cons_self) h0
    | removeInflight r hfound => exact hstep _ _ (.removed List.mem_cons_self hfound) h0
    | flowComplete _ _ => exact hstep _ _ (.completed List.mem_cons_self) h0
    | send e _ =>
      obtain ⟨_, _, _, _, _, hlog⟩ := assignToken_fields e (s.outbox.packet _) s.outbox
      exact hlog ▸ h0
    | updateInflight r =>
      exact updateInflight_induct (P := fun y => P y.log) r s.outbox h0
        fun y e he hy => hstep _ _ (.updated List.mem_cons_self he) hy
    | _ => exact h0
  | publish _ _ | send p => exact hstep _ _ .called h0
  | @written r rest _ => exact hstep _ _ (.written r) h0
  | _ => exact h0

/-- No event is forgotten. -/
theorem Exchange.log_sublist {s : Solo} {t : Solo.Turn} {old new : List Op} {f' : Flags}
    (h : Exchange cfg s t old new x' f') : List.Sublist s.outbox.log x'.log :=
  h.log_induct (P := fun l => List.Sublist s.outbox.log l) (.refl _) fun _ _ _ hl => hl.cons _

theorem typed_step {s s' : Solo} {t : Solo.Turn} (hs : Typed s)
    (h : Solo.step cfg t s = some s') : Typed s' := by
  obtain ⟨old, new, hx, hex⟩ := exchange_of_step h
  obtain ⟨hg, hheaps, hlists, hnew⟩ := hx.typed hs fun o ho => hs.ops o (hex.mem_old ho)
  refine ⟨hheaps, hlists, fun o ho => ?_⟩
  rcases hex.mem_or ho with ho | ho
  · exact hnew o ho
  · exact hg.op hs.heaps (hs.ops o ho)

theorem typed_initial (isServer : Bool) (now : ℤ) : Typed (Solo.initial isServer now) where
  heaps := by constructor <;> exact fun _ h => absurd h (Nat.not_lt_zero _)
  lists := by constructor <;> simp [Solo.initial]
  ops := by simp [Solo.initial]

theorem typed_of_reach {ok : Solo → Solo.Turn → Prop} {s : Solo}
    (h : (Solo.system cfg).Reach ok s) : Typed s := by
  refine h.invariant (I := Typed) ?_ fun _ _ _ hs _ hstep => typed_step hs hstep
  rintro s ⟨isServer, now, rfl⟩
  exact typed_initial isServer now

end MqttBroker.Solo

import MqttBroker.Solo.Typed

/-!
# The flow of a message

`removeInflightMsg` looks an entry up by its id alone, whatever has come with that id: the
acknowledgement of another kind of flow takes an entry out of flight as well. Where what comes
with the id of an entry belongs to its flow, a token is completed by that flow only: that of a
QoS 0 message when its PUBLISH was written, that of a QoS 1 message on a PUBACK with its id,
and that of a QoS 2 message on a PUBCOMP with its id after a PUBREC.
-/

namespace MqttBroker.Solo

variable {cfg : Config} {f f' : Flags} {x x' : Outbox}

/-! ## Flows -/

/-- `p` is the packet that ends the flow of message `m`. -/
def EndsFlow (p m : ControlPacket) : Prop :=
  p.kind = PacketType.puback ∧ m.kind = PacketType.publish ∧ m.details.qos = 1 ∨
  p.kind = PacketType.pubcomp ∧ m.kind = PacketType.publish ∧ m.details.qos = 2 ∨
  p.kind = PacketType.pubcomp ∧ m.kind = PacketType.pubrel ∨
  p.kind = PacketType.suback ∧ m.kind = PacketType.subscribe ∨
  p.kind = PacketType.unsuback ∧ m.kind = PacketType.unsubscribe

/-- Packet `r` is the acknowledgement that entry `e` waits for in the end, or its QoS 0
PUBLISH. -/
def Outbox.SameFlow (x : Outbox) (r : PacketRef) (e : EntryRef) : Prop :=
  EndsFlow (x.packet r) (x.packet (x.entry e).msg) ∨
    r = (x.entry e).msg ∧ (x.packet r).kind = PacketType.publish ∧ (x.packet r).details.qos = 0

/-- The packet and the id with which `removeInflightMsg` is called. -/
def MsgOp.removes : MsgOp → Option (PacketRef × UInt16)
  | removeInflight r id => some (r, id)
  | _ => none

/-- What takes an entry out of flight belongs to its flow, and a PUBCOMP comes after a
PUBREC. -/
def OwnAnswers (s : Solo) (t : Solo.Turn) : Prop :=
  ∀ o ∈ t.msgOp s, ∀ k ∈ o.removes, ∀ e ∈ s.outbox.acknowledged k.2,
    s.outbox.SameFlow k.1 e ∧
      ((s.outbox.packet k.1).kind = PacketType.pubcomp →
        (s.outbox.packet (s.outbox.entry e).p).kind = PacketType.pubrel)

/-- What has happened, latest first, when the token of a published message is completed. -/
inductive Trail (x : Outbox) (e : EntryRef) : List Event → Prop
  | qos0 (id : UInt16) : (x.packet (x.entry e).msg).details.qos = 0 →
      Trail x e [.removed e (x.entry e).msg id, .written (x.entry e).msg]
  | qos1 {r : PacketRef} {m : IdPacket} : (x.packet (x.entry e).msg).details.qos = 1 →
      x.packet r = .puback m → Trail x e [.removed e r m.messageID]
  | qos2 {r r' : PacketRef} {m : IdPacket} : (x.packet (x.entry e).msg).details.qos = 2 →
      x.packet r = .pubcomp m → Trail x e [.removed e r m.messageID, .updated e r']

/-- Entries are removed, and tokens of published messages completed, by their own flow. -/
structure OwnFlow (x : Outbox) : Prop where
  removed : ∀ e r id, .removed e r id ∈ x.log → x.SameFlow r e
  completed : ∀ e, x.Published e → .completed e ∈ x.log →
    ∃ l, Trail x e l ∧ List.Sublist (.completed e :: l) x.log

instance (p m : ControlPacket) : Decidable (EndsFlow p m) :=
  inferInstanceAs (Decidable (_ ∨ _ ∨ _ ∨ _ ∨ _))

instance (x : Outbox) (r : PacketRef) (e : EntryRef) : Decidable (x.SameFlow r e) :=
  inferInstanceAs (Decidable (_ ∨ _))

instance (s : Solo) (t : Solo.Turn) : Decidable (OwnAnswers s t) :=
  inferInstanceAs (Decidable (∀ o ∈ t.msgOp s, ∀ k ∈ o.removes,
    ∀ e ∈ s.outbox.acknowledged k.2, _))

/-! ## The invariant -/

/-- What an operation on the way to a completion has behind it. -/
def MsgOp.Finishes (x : Outbox) : MsgOp → Prop
  | onWrited r => .written r ∈ x.log
  | loadMessageID r => (x.packet r).kind = PacketType.publish → .written r ∈ x.log
  | removeInflight r id =>
    ((x.packet r).kind = PacketType.publish → .written r ∈ x.log) ∧
      ((x.packet r).kind ∉ numbered → (x.packet r).messageID = id)
  | flowComplete e | subackResults e _ =>
    x.Published e → ∃ l, Trail x e l ∧ List.Sublist l x.log
  | _ => True

structure Flowing (s : Solo) : Prop where
  own : OwnFlow s.outbox
  finishes : ∀ o, .msg o ∈ s.goroutines.ops → o.Finishes s.outbox
  updated : ∀ e < s.outbox.entries.next, (s.outbox.entry e).p ≠ (s.outbox.entry e).msg →
    ∃ r, .updated e r ∈ s.outbox.log
  refs : ∀ e r id, .removed e r id ∈ s.outbox.log → r < s.outbox.packets.next

/-! ## What stays true -/

theorem Grows.sameFlow (h : Grows x x') (hx : x.Heaps) {r : PacketRef} {e : EntryRef}
    (hr : r < x.packets.next) (he : e < x.entries.next) (hs : x.SameFlow r e) :
    x'.SameFlow r e := by
  obtain ⟨hkind, -, -⟩ := h.packet r hr
  obtain ⟨hmsg, -, -⟩ := h.entry e he
  have hm := (hx.refs e he).2
  obtain ⟨hkind', -, -⟩ := h.packet _ hm
  rw [Outbox.SameFlow, EndsFlow, hkind, hmsg, hkind']
  rcases hs with (⟨hp, hk, hq⟩ | ⟨hp, hk, hq⟩ | hs | hs | hs) | ⟨rfl, hk, hq⟩
  · exact .inl (.inl ⟨hp, hk, (h.qos hm hk).trans hq⟩)
  · exact .inl (.inr (.inl ⟨hp, hk, (h.qos hm hk).trans hq⟩))
  · exact .inl (.inr (.inr (.inl hs)))
  · exact .inl (.inr (.inr (.inr (.inl hs))))
  · exact .inl (.inr (.inr (.inr (.inr hs))))
  · exact .inr ⟨rfl, hk, (h.qos hr hk).trans hq⟩

theorem Grows.trail (h : Grows x x') (hx : x.Heaps) {e : EntryRef} (he : x.Published e)
    {l : List Event} (hrefs : ∀ r id, .removed e r id ∈ l → r < x.packets.next)
    (ht : Trail x e l) : Trail x' e l := by
  obtain ⟨hmsg, -, -⟩ := h.entry e he.1
  have hqos := h.qos (hx.refs e he.1).2 (hx.published e he.1 he.2)
  rw [← hmsg] at hqos
  cases ht with
  | qos0 id hq =>
    rw [← hmsg]
    exact .qos0 id (hqos.trans (hmsg ▸ hq))
  | @qos1 r m hq hp =>
    have hr := hrefs r _ List.mem_cons_self
    refine .qos1 (hqos.trans (hmsg ▸ hq)) ?_
    rw [(h.packet r hr).2.2 (by rw [hp, ControlPacket.kind]; decide)]
    exact hp
  | @qos2 r r' m hq hp =>
    have hr := hrefs r _ List.mem_cons_self
    refine .qos2 (hqos.trans (hmsg ▸ hq)) ?_
    rw [(h.packet r hr).2.2 (by rw [hp, ControlPacket.kind]; decide)]
    exact hp

theorem Grows.finishes (h : Grows x x') (hx : x.Heaps)
    (hrefs : ∀ e r id, .removed e r id ∈ x.log → r < x.packets.next)
    (hlog : List.Sublist x.log x'.log) {o : MsgOp} (ho : o.Typed x) (hf : o.Finishes x) :
    o.Finishes x' := by
  have htrail : ∀ e < x.entries.next,
      (x.Published e → ∃ l, Trail x e l ∧ List.Sublist l x.log) →
      x'.Published e → ∃ l, Trail x' e l ∧ List.Sublist l x'.log := by
    intro e he hf hpub
    have hpub₀ : x.Published e := ⟨he, (h.entry e he).2.1.symm.trans hpub.2⟩
    obtain ⟨l, ht, hl⟩ := hf hpub₀
    exact ⟨l, h.trail hx hpub₀ (fun r id hmem => hrefs e r id (hl.subset hmem)) ht,
      hl.trans hlog⟩
  cases o with
  | onWrited r => exact hlog.subset hf
  | loadMessageID r =>
    rw [MsgOp.Finishes, (h.packet r ho).1]
    exact fun hk => hlog.subset (hf hk)
  | removeInflight r id =>
    obtain ⟨hkind, -, hsame⟩ := h.packet r ho
    rw [MsgOp.Finishes, hkind]
    refine ⟨fun hk => hlog.subset (hf.1 hk), fun hk => ?_⟩
    rw [hsame hk]
    exact hf.2 hk
  | flowComplete e => exact htrail e ho hf
  | subackResults e r => exact htrail e ho.1 hf
  | _ => trivial

/-! ## One step -/

theorem acknowledged_idOf {id : UInt16} {e : EntryRef} (h : x.acknowledged id = some e) :
    x.idOf e = id :=
  of_decide_eq_true (List.find?_some (p := fun e => decide (x.idOf e = id)) h)

theorem eq_puback_of_kind {p : ControlPacket} (h : p.kind = PacketType.puback) :
    ∃ m, p = .puback m := by
  cases p with
  | puback m => exact ⟨m, rfl⟩
  | _ => exact absurd h (by rw [ControlPacket.kind]; decide)

theorem eq_pubcomp_of_kind {p : ControlPacket} (h : p.kind = PacketType.pubcomp) :
    ∃ m, p = .pubcomp m := by
  cases p with
  | pubcomp m => exact ⟨m, rfl⟩
  | _ => exact absurd h (by rw [ControlPacket.kind]; decide)

/-- A published entry that is removed by its own flow has come to the end of it. -/
theorem trail_of_removed {r : PacketRef} {id : UInt16} {e : EntryRef} (hx : x.Heaps)
    (hfound : x.acknowledged id = some e) (hf : (MsgOp.removeInflight r id).Finishes x)
    (hupdated : (x.entry e).p ≠ (x.entry e).msg → ∃ r, .updated e r ∈ x.log)
    (hsame : x.SameFlow r e) (hcomp : (x.packet r).kind = PacketType.pubcomp →
      (x.packet (x.entry e).p).kind = PacketType.pubrel) (hpub : x.Published e) :
    ∃ l, Trail x e l ∧ List.Sublist l (.removed e r (x.idOf e) :: x.log) := by
  have hkind := hx.published e hpub.1 hpub.2
  rcases hsame with (⟨hp, -, hq⟩ | ⟨hp, -, hq⟩ | ⟨-, hk⟩ | ⟨-, hk⟩ | ⟨-, hk⟩) | ⟨rfl, hk, hq⟩
  · obtain ⟨m, hm⟩ := eq_puback_of_kind hp
    have hid : m.messageID = x.idOf e := by
      rw [acknowledged_idOf hfound, ← hf.2 (by rw [hp]; decide), hm]
      rfl
    rw [← hid]
    exact ⟨_, .qos1 hq hm, List.singleton_sublist.mpr List.mem_cons_self⟩
  · obtain ⟨m, hm⟩ := eq_pubcomp_of_kind hp
    have hid : m.messageID = x.idOf e := by
      rw [acknowledged_idOf hfound, ← hf.2 (by rw [hp]; decide), hm]
      rfl
    have hne : (x.entry e).p ≠ (x.entry e).msg := by
      intro h
      have hrel := hcomp hp
      rw [h, hkind] at hrel
      exact absurd hrel (by decide)
    obtain ⟨r', hr'⟩ := hupdated hne
    rw [← hid]
    exact ⟨_, .qos2 hq hm, (List.singleton_sublist.mpr hr').cons_cons _⟩
  · exact absurd (hkind.symm.trans hk) (by decide)
  · exact absurd (hkind.symm.trans hk) (by decide)
  · exact absurd (hkind.symm.trans hk) (by decide)
  · exact ⟨_, .qos0 (x.idOf e) hq, (List.singleton_sublist.mpr (hf.1 hk)).cons_cons _⟩

/-- What an operation leaves has the same behind it. -/
theorem MsgOp.Ran.finishes {o : MsgOp} {new : List MsgOp} (h : Ran cfg f x o new x')
    (hx : x.Heaps) (hl : x.Lists) (ho : o.Typed x) (hf : o.Finishes x)
    (hrefs : ∀ e r id, .removed e r id ∈ x.log → r < x.packets.next)
    (hupdated : ∀ e < x.entries.next, (x.entry e).p ≠ (x.entry e).msg →
      ∃ r, .updated e r ∈ x.log)
    (hok : ∀ k ∈ o.removes, ∀ e ∈ x.acknowledged k.2, x.SameFlow k.1 e ∧
      ((x.packet k.1).kind = PacketType.pubcomp →
        (x.packet (x.entry e).p).kind = PacketType.pubrel)) {o' : MsgOp} (hmem : o' ∈ new) :
    o'.Finishes x' := by
  have hg := h.grows
  cases h with
  | loadMessageID r =>
    obtain rfl := List.mem_singleton.mp hmem
    exact ⟨hf, fun _ => rfl⟩
  | @removeInflight e r id hfound =>
    obtain ⟨hsame, hcomp⟩ := hok (r, id) rfl e hfound
    have hlt := hl.inflight e (List.mem_of_find?_eq_some hfound)
    have htrail : x.Published e → ∃ l, Trail ((x.removeInflight id).note
        (.removed e r (x.idOf e))) e l ∧ List.Sublist l (.removed e r (x.idOf e) :: x.log) := by
      intro hpub
      obtain ⟨l, ht, hsub⟩ := trail_of_removed hx hfound hf (hupdated e hlt) hsame hcomp hpub
      refine ⟨l, hg.trail hx hpub (fun r' id' hmem => ?_) ht, hsub⟩
      rcases List.mem_cons.mp (hsub.subset hmem) with heq | hold
      · obtain ⟨-, rfl, -⟩ := Event.removed.inj heq
        exact ho
      · exact hrefs e r' id' hold
    rcases mem_afterRemove hmem with rfl | rfl <;> exact htrail
  | @subackResults e r t t' _ _ =>
    obtain rfl := List.mem_singleton.mp hmem
    exact hg.finishes hx hrefs (.refl _) (o := .subackResults e r) ho hf
  | @writedQos0 r _ _ =>
    rcases mem_onInflightDone hmem with rfl | rfl
    · exact fun _ => hf
    · trivial
  | completeConnect =>
    obtain ⟨e, he, rfl⟩ := mem_handshake hmem
    intro hpub
    have hk := (hl.connectToken e he).2
    rw [hx.published e hpub.1 hpub.2] at hk
    exact absurd hk (by decide)
  | completeDisconnect =>
    obtain ⟨e, he, rfl⟩ := mem_handshake hmem
    intro hpub
    have hk := (hl.disconnectToken e he).2
    rw [hx.published e hpub.1 hpub.2] at hk
    exact absurd hk (by decide)
  | refused c _ =>
    rw [mem_rest hmem]
    trivial
  | channelStoped c r _ | pushSend c r =>
    obtain ⟨k, -, rfl⟩ := mem_rest_of_mem_elim hmem
    trivial
  | pushInflight c =>
    obtain rfl := List.mem_singleton.mp hmem
    cases c with
    | _ => trivial
  | send e' _ => rcases mem_sendCase hmem with rfl | ⟨rfl, -⟩ | rfl <;> trivial
  | collect now =>
    obtain ⟨e', -, rfl⟩ := List.mem_map.mp hmem
    trivial
  | onPubrec messageID | inflightNonempty =>
    rcases List.mem_cons.mp hmem with rfl | hmem
    · trivial
    · obtain rfl := List.mem_singleton.mp hmem
      trivial
  | removeNothing r id | noRefill tick | refillSendFull | popNothing _ | flowComplete _ _
  | updateInflight r | writedOther r | noConnectErr code | returned e' err =>
    exact absurd hmem (by simp)
  | _ =>
    obtain rfl := List.mem_singleton.mp hmem
    trivial

/-- A PUBLISH of the peer ends no flow. -/
theorem kind_of_loadMessageID {o : EndOp} {r : Ended} (h : o.run x f = some r) {m : PacketRef}
    (hmem : .msg (.loadMessageID m) ∈ r.next ++ Pool.ops r.spawned) :
    (x.packet m).kind ≠ PacketType.publish := by
  intro hk
  obtain ⟨p, hp⟩ : ∃ p, x.packet m = .publish p := by
    cases hp : x.packet m with
    | publish p => exact ⟨p, rfl⟩
    | _ =>
      rw [hp] at hk
      exact absurd hk (by rw [ControlPacket.kind]; decide)
  cases Begins.of_run h _ hmem with
  | loadMessageID hr =>
    obtain ⟨cleared, rfl⟩ := hr
    rw [EndOp.run] at h
    split at h
    · rw [← Option.some.inj h] at hmem
      exact absurd hmem (by simp)
    · rw [← Option.some.inj h, hp] at hmem
      simp only [procFrontRemoteMsg, List.flatten_nil, List.append_nil] at hmem
      split at hmem
      · exact absurd hmem (by simp)
      · split at hmem <;> exact absurd hmem (by simp)

section Step

variable {s s' : Solo} {t : Solo.Turn} {old new : List Op}

theorem Exchange.finishes (h : Exchange cfg s t old new x' f') (hs : Typed s)
    (hflow : Flowing s) (hok : OwnAnswers s t) (hold : ∀ o ∈ old, o ∈ s.goroutines.ops)
    {o : MsgOp} (hmem : .msg o ∈ new) : o.Finishes x' := by
  cases h with
  | @msg i o₀ new _ hnext hran =>
    obtain ⟨o', ho', heq⟩ := List.mem_map.mp hmem
    obtain rfl := Op.msg.inj heq
    have hmem₀ := hold _ List.mem_cons_self
    exact hran.finishes hs.heaps hs.lists (hs.ops _ hmem₀) (hflow.finishes _ hmem₀) hflow.refs
      hflow.updated (hok o₀ (Solo.Turn.msgOp_run hnext)) ho'
  | stop _ hrun =>
    have hstarts := Begins.of_run hrun _ hmem
    cases hstarts with
    | loadMessageID _ => exact fun hk => absurd hk (kind_of_loadMessageID hrun hmem)
    | _ => trivial
  | written _ =>
    obtain rfl := Op.msg.inj (List.mem_singleton.mp hmem)
    exact List.mem_cons_self
  | publish _ _ | send p =>
    obtain rfl := Op.msg.inj (List.mem_singleton.mp hmem)
    trivial
  | _ => exact absurd hmem (by simp)

/-- An entry gets another packet when a PUBREC comes. -/
theorem Exchange.updated (h : Exchange cfg s t old new x' f') {e : EntryRef}
    (he : e < s.outbox.entries.next) :
    (x'.entry e).p = (s.outbox.entry e).p ∨ ∃ r, .updated e r ∈ x'.log := by
  cases h with
  | msg _ hran =>
    have hp := hran.entry_p e
    cases hran with
    | updateInflight r =>
      refine updateInflight_induct (P := fun y => (y.entry e).p = (s.outbox.entry e).p ∨
        ∃ r, .updated e r ∈ y.log) r s.outbox (.inl rfl) fun y e' _ hy => ?_
      by_cases h : e = e'
      · exact .inr ⟨r, h ▸ List.mem_cons_self⟩
      · rw [Outbox.note_entry, Outbox.modifyEntry_of_ne _ y h]
        exact hy.imp id fun ⟨r', hr'⟩ => ⟨r', List.mem_cons_of_mem _ hr'⟩
    | _ => exact .inl (hp.resolve_right (by simp))
  | publish _ _ | send p => exact .inl (congrArg Entry.p (Heap.alloc_of_lt _ he))
  | _ => exact .inl rfl

/-- An entry is removed by its own flow. -/
theorem Exchange.removed (h : Exchange cfg s t old new x' f') (hs : Typed s)
    (hflow : Flowing s) (hok : OwnAnswers s t) (hold : ∀ o ∈ old, o ∈ s.goroutines.ops)
    {e : EntryRef} {r : PacketRef} {id : UInt16} (hmem : .removed e r id ∈ x'.log) :
    r < s.outbox.packets.next ∧ e < s.outbox.entries.next ∧ s.outbox.SameFlow r e := by
  refine h.log_induct (P := fun l => .removed e r id ∈ l → r < s.outbox.packets.next ∧
    e < s.outbox.entries.next ∧ s.outbox.SameFlow r e) ?_ (fun ev l hev hl hmem => ?_) hmem
  · exact fun hlog => ⟨hflow.refs e r id hlog, hs.lists.log _ hlog e rfl,
      hflow.own.removed e r id hlog⟩
  · rcases List.mem_cons.mp hmem with rfl | hmem
    · cases hev with
      | @removed _ _ id' hop hfound =>
        exact ⟨hs.ops _ (hold _ hop), hs.lists.inflight _ (List.mem_of_find?_eq_some hfound),
          (hok _ (h.msgOp hop) (r, id') rfl e hfound).1⟩
    · exact hl hmem

theorem Exchange.lt_of_completed (h : Exchange cfg s t old new x' f') (hs : Typed s)
    (hold : ∀ o ∈ old, o ∈ s.goroutines.ops) {e : EntryRef} (hmem : .completed e ∈ x'.log) :
    e < s.outbox.entries.next := by
  refine h.log_induct (P := fun l => .completed e ∈ l → e < s.outbox.entries.next)
    (fun hlog => hs.lists.log _ hlog e rfl) (fun ev l hev hl hmem => ?_) hmem
  rcases List.mem_cons.mp hmem with rfl | hmem
  · cases hev with
    | completed hop => exact hs.ops _ (hold _ hop)
  · exact hl hmem

/-- A token is completed at the end of its flow. -/
theorem Exchange.completed (h : Exchange cfg s t old new x' f') (hflow : Flowing s)
    (hold : ∀ o ∈ old, o ∈ s.goroutines.ops) {e : EntryRef} (he : s.outbox.Published e)
    (hmem : .completed e ∈ x'.log) :
    ∃ l, Trail s.outbox e l ∧ (∀ ev ∈ l, ev ∈ s.outbox.log) ∧
      List.Sublist (.completed e :: l) x'.log := by
  refine (h.log_induct (P := fun l => List.Sublist s.outbox.log l ∧ (.completed e ∈ l →
    ∃ l', Trail s.outbox e l' ∧ (∀ ev ∈ l', ev ∈ s.outbox.log) ∧
      List.Sublist (.completed e :: l') l)) ?_ ?_).2 hmem
  · refine ⟨.refl _, fun hmem => ?_⟩
    obtain ⟨l, ht, hl⟩ := hflow.own.completed e he hmem
    exact ⟨l, ht, fun ev hev => hl.subset (List.mem_cons_of_mem _ hev), hl⟩
  · rintro ev l hev ⟨hsub, hl⟩
    refine ⟨hsub.cons _, fun hmem => ?_⟩
    rcases List.mem_cons.mp hmem with rfl | hmem
    · cases hev with
      | completed hop =>
        obtain ⟨l', ht, hl'⟩ := hflow.finishes _ (hold _ hop) he
        exact ⟨l', ht, fun ev hev => hl'.subset hev, (hl'.trans hsub).cons_cons _⟩
    · obtain ⟨l', ht, hin, hl'⟩ := hl hmem
      exact ⟨l', ht, hin, hl'.cons _⟩

theorem flowing_step (hs : Typed s) (hflow : Flowing s) (hok : OwnAnswers s t)
    (h : Solo.step cfg t s = some s') : Flowing s' := by
  obtain ⟨old, new, hx, hex⟩ := exchange_of_step h
  have hold : ∀ o ∈ old, o ∈ s.goroutines.ops := fun o => hex.mem_old
  have hg := (hx.typed hs fun o ho => hs.ops o (hex.mem_old ho)).1
  constructor
  · constructor
    · intro e r id hmem
      obtain ⟨hr, he, hsame⟩ := hx.removed hs hflow hok hold hmem
      exact hg.sameFlow hs.heaps hr he hsame
    · intro e hpub hmem
      have hlt := hx.lt_of_completed hs hold hmem
      have hpub₀ : s.outbox.Published e := ⟨hlt, (hg.entry e hlt).2.1.symm.trans hpub.2⟩
      obtain ⟨l, ht, hin, hl⟩ := hx.completed hflow hold hpub₀ hmem
      exact ⟨l, hg.trail hs.heaps hpub₀ (fun r id hmem => hflow.refs e r id (hin _ hmem)) ht, hl⟩
  · intro o hmem
    rcases hex.mem_or hmem with hnew | hmem
    · exact hx.finishes hs hflow hok hold hnew
    · exact hg.finishes hs.heaps hflow.refs hx.log_sublist (hs.ops _ hmem)
        (hflow.finishes o hmem)
  · intro e he hne
    by_cases hlt : e < s.outbox.entries.next
    · rcases hx.updated hlt with hsame | hupdated
      · rw [hsame, (hg.entry e hlt).1] at hne
        obtain ⟨r, hr⟩ := hflow.updated e hlt hne
        exact ⟨r, hx.log_sublist.subset hr⟩
      · exact hupdated
    · rcases hx.entries_next with hsame | ⟨r, published, -, -, -, hnext, hentry, -⟩
      · exact absurd (hsame ▸ he) hlt
      · obtain rfl : e = s.outbox.entries.next :=
          Nat.le_antisymm (Nat.le_of_lt_succ (lt_of_lt_of_eq he hnext)) (Nat.not_lt.mp hlt)
        rw [hentry] at hne
        exact absurd rfl hne
  · intro e r id hmem
    exact hg.lt_packets (hx.removed hs hflow hok hold hmem).1

end Step

/-! ## Runs -/

/-- In a run in which what takes an entry out of flight belongs to its flow, each token is
completed by its own flow. -/
theorem completes_by_own_flow {s : Solo} (h : (Solo.system cfg).Reach OwnAnswers s) :
    OwnFlow s.outbox := by
  suffices hinv : Typed s ∧ Flowing s from hinv.2.own
  refine h.invariant (I := fun s => Typed s ∧ Flowing s) ?_ ?_
  · rintro s ⟨isServer, now, rfl⟩
    refine ⟨typed_initial isServer now, ⟨?_, ?_⟩, ?_, ?_, ?_⟩ <;> simp [Solo.initial]
  · exact fun s t s' hs hok hstep => ⟨typed_step hs.1 hstep, flowing_step hs.1 hs.2 hok hstep⟩

/-- A QoS 2 message is published after a CONNECT. -/
def qos2Call : List Solo.Turn :=
  Solo.connecting ++ [.newPacket (Solo.outboundPublish 2), .publish 2] ++ Solo.runs 4 13

/-- The PUBREC and the PUBCOMP come for it. -/
theorem completes_by_own_flow_qos2 : ∃ s, (Solo.system {}).Reach OwnAnswers s ∧
    .completed 0 ∈ s.outbox.log ∧ OwnFlow s.outbox := by
  have hok : (Solo.system {}).checkAll (fun s t => decide (OwnAnswers s t))
      (qos2Call ++ [.recvPacket (Solo.inboundPubrec 1) true] ++ Solo.runs 0 5 ++
        [.recvPacket (Solo.inboundPubcomp 1) true] ++ Solo.runs 0 4)
      (Solo.initial true 0) = true := by
    decide
  have hend : ((Solo.system {}).exec
      (qos2Call ++ [.recvPacket (Solo.inboundPubrec 1) true] ++ Solo.runs 0 5 ++
        [.recvPacket (Solo.inboundPubcomp 1) true] ++ Solo.runs 0 4)
      (Solo.initial true 0)).any (fun s => .completed 0 ∈ s.outbox.log) = true := by
    decide
  obtain ⟨s, hs, hc⟩ := StepSystem.exists_reach_of_any (Solo.initial_init {} true 0)
    (StepSystem.along_of_check (fun _ _ h => of_decide_eq_true h) hok) hend
  exact ⟨s, hs, of_decide_eq_true hc, completes_by_own_flow hs⟩

/-- The ids of what is in flight are distinct. -/
def DistinctIds (s : Solo) : Prop := (s.outbox.inflightingList.map s.outbox.idOf).Nodup

instance (s : Solo) : Decidable (DistinctIds s) := inferInstanceAs (Decidable (List.Nodup _))

/-- A PUBACK completes the token of a QoS 2 message. -/
theorem puback_completes_qos2 :
    ¬ ∀ s, (Solo.system {}).Reach (fun s _ => DistinctIds s) s → OwnFlow s.outbox := by
  have hok : (Solo.system {}).checkAll (fun s _ => decide (DistinctIds s))
      (qos2Call ++ [.recvPacket (Solo.inboundPuback 1) true] ++ Solo.runs 0 4)
      (Solo.initial true 0) = true := by
    decide
  have hend : ((Solo.system {}).exec
      (qos2Call ++ [.recvPacket (Solo.inboundPuback 1) true] ++ Solo.runs 0 4)
      (Solo.initial true 0)).any (fun s => .completed 0 ∈ s.outbox.log ∧
        .removed 0 3 1 ∈ s.outbox.log ∧ ¬ s.outbox.SameFlow 3 0) = true := by
    decide
  obtain ⟨s, hs, hc⟩ := StepSystem.exists_reach_of_any (Solo.initial_init {} true 0)
    (StepSystem.along_of_check (fun _ _ h => of_decide_eq_true h) hok) hend
  obtain ⟨-, hremoved, hother⟩ := of_decide_eq_true hc
  exact fun hall => hother ((hall s hs).removed 0 3 1 hremoved)

end MqttBroker.Solo

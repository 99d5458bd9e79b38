import MqttBroker.Solo.Conservation
import MqttBroker.Solo.Flows

/-!
# Outbound QoS 2 does not step back

After a PUBREC an entry has a PUBREL as its packet, and this is what a tick sends again until
the entry is taken out of flight. A tick first collects the entries that have timed out and
sends the packet of each of them later, so this holds where each tick and each handler is one
step: an entry does not change and is not taken out while a tick is about to send it again.
That an entry does not come back is a matter of counting the places where it can be.
-/

namespace MqttBroker.Solo

variable {cfg : Config} {f f' : Flags} {x x' : Outbox}

/-! ## An entry goes in flight once -/

/-- An operation after which the entry may be put in flight. -/
def MsgOp.enters (e : EntryRef) : MsgOp → Bool
  | send e' | addMsgId e' | setMessageID e' _ | isConnected e' | isClosed e' | inflightLen e'
  | sendLen e' | sendPeddingChan e' | pushPedding e' => e' = e
  | insert2Inflight c | newInflight c | pushInflight c => c.entry = e
  | _ => false

def Op.enters (e : EntryRef) : Op → Bool
  | .msg o => o.enters e
  | .stop _ => false

def Event.removes (e : EntryRef) : Event → Bool
  | removed e' _ _ => e' = e
  | _ => false

/-- How often the entry is in a list, and how often it was taken out of flight. -/
def Outbox.uses (e : EntryRef) (x : Outbox) : ℕ :=
  x.peddingMsgList.count e + x.inflightingList.count e + x.log.countP (Event.removes e)

theorem entry_of_enters {e : EntryRef} (o : MsgOp) (h : o.enters e = true) :
    o.entry = some e := by
  cases o with
  | send e' | addMsgId e' | setMessageID e' _ | isConnected e' | isClosed e' | inflightLen e'
  | sendLen e' | sendPeddingChan e' | pushPedding e' | insert2Inflight c | newInflight c
  | pushInflight c => exact congrArg some (of_decide_eq_true h)
  | _ => exact absurd h Bool.false_ne_true

theorem sendCase_enters {e e' : EntryRef} {r : PacketRef} {p : ControlPacket} :
    (sendCase e' r p).countP (MsgOp.enters e) ≤ [MsgOp.send e'].countP (MsgOp.enters e) := by
  cases p with
  | publish m | subscribe m | unsubscribe m | pubrec m | pubrel m => exact le_rfl
  | _ => exact Nat.zero_le _

theorem uses_eq_zero {e : EntryRef} (hl : x.Lists) (he : x.entries.next ≤ e) :
    x.uses e = 0 := by
  have hlog : x.log.countP (Event.removes e) = 0 := by
    refine hl.countP_log (fun ev h => ?_) he
    cases ev with
    | removed e' r id => exact congrArg some (of_decide_eq_true h)
    | _ => exact absurd h Bool.false_ne_true
  rw [Outbox.uses, hl.count_pedding he, hl.count_inflighting he, hlog]

/-- An operation moves an entry on, or drops it. -/
theorem MsgOp.Ran.uses {o : MsgOp} {new : List MsgOp} (h : Ran cfg f x o new x')
    (e : EntryRef) :
    new.countP (MsgOp.enters e) + x'.uses e ≤ [o].countP (MsgOp.enters e) + x.uses e := by
  cases h with
  | @removeInflight e' r id hfound =>
    have hcount := count_removeInflight (e := e) hfound
    have hafter : (afterRemove e' r x).countP (MsgOp.enters e) = 0 := by
      refine countP_eq_zero_of_false fun o ho => ?_
      rcases mem_afterRemove ho with rfl | rfl <;> rfl
    have hlog : (((x.removeInflight id).note (.removed e' r (x.idOf e'))).log).countP
        (Event.removes e) = x.log.countP (Event.removes e) + if e' = e then 1 else 0 := by
      rw [Outbox.note_log, List.countP_cons]
      simp only [Event.removes, decide_eq_true_eq]
      rfl
    rw [hafter, Outbox.uses, hlog, Outbox.uses, hcount]
    show 0 + (x.peddingMsgList.count e + (x.removeInflight id).inflightingList.count e + _) ≤ _
    omega
  | send e' hs =>
    obtain ⟨_, _, hinflight, hpedding, _, hlog⟩ := assignToken_fields e' (x.packet _) x
    rw [Outbox.uses, hinflight, hpedding, hlog]
    exact Nat.add_le_add_right sendCase_enters _
  | updateInflight r =>
    obtain ⟨_, hinflight, hpedding, _⟩ := updateInflight_lists r x
    have hlog : (x.updateInflight r).log.countP (Event.removes e) =
        x.log.countP (Event.removes e) :=
      updateInflight_induct (P := fun y => y.log.countP (Event.removes e) =
        x.log.countP (Event.removes e)) r x rfl fun _ _ _ h => h
    rw [Outbox.uses, hinflight, hpedding, hlog]
    exact le_rfl
  | refused c hs =>
    rw [countP_eq_zero_of_false (q := MsgOp.enters e) fun o ho => by rw [mem_rest ho]; rfl,
      Nat.zero_add]
    exact Nat.le_add_left _ _
  | channelStoped c r hs | pushSend c r =>
    rw [countP_eq_zero_of_false (q := MsgOp.enters e) fun o ho => by
      obtain ⟨k, -, rfl⟩ := mem_rest_of_mem_elim ho
      rfl]
    exact le_rfl
  | pushInflight c =>
    have hafter : [c.afterPush x].countP (MsgOp.enters e) = 0 := by
      cases c with
      | _ => rfl
    rw [hafter]
    simp only [Outbox.uses, count_push, List.countP_cons, List.countP_nil, MsgOp.enters,
      decide_eq_true_eq]
    omega
  | pushPedding e' =>
    simp only [Outbox.uses, count_push, List.countP_cons, List.countP_nil, MsgOp.enters,
      decide_eq_true_eq, Bool.false_eq_true, if_false]
    omega
  | collect now =>
    rw [countP_eq_zero_of_false (q := MsgOp.enters e) fun o ho => by
      obtain ⟨e', -, rfl⟩ := List.mem_map.mp ho
      rfl]
    exact le_rfl
  | @popPedding e' rest hp =>
    by_cases hc : e' = e
    · simp [Outbox.uses, hp, MsgOp.enters, Caller.entry, hc]
      omega
    · simp [Outbox.uses, hp, MsgOp.enters, Caller.entry, hc, List.count_cons_of_ne hc]
  | @writedQos0 r hk hq =>
    rw [countP_eq_zero_of_false (q := MsgOp.enters e) fun o ho => by
      rcases mem_onInflightDone ho with rfl | rfl <;> rfl]
    exact le_rfl
  | completeConnect | completeDisconnect =>
    rw [countP_eq_zero_of_false (q := MsgOp.enters e) fun o ho => by
      obtain ⟨e', -, rfl⟩ := mem_handshake ho
      rfl]
    exact le_rfl
  | notConnected _ _ | closed _ _ | peddingClosed _ _ | notInserted _ | sendStoped _ _ =>
    exact Nat.add_le_add_right (Nat.zero_le _) _
  | _ => exact le_rfl

section Step

variable {s s' : Solo} {t : Solo.Turn} {old new : List Op}

/-- A turn moves an entry on, or drops it, or makes it. -/
theorem Exchange.uses (h : Exchange cfg s t old new x' f') (e : EntryRef) :
    new.countP (Op.enters e) + x'.uses e ≤ old.countP (Op.enters e) + s.outbox.uses e +
      if e = s.outbox.entries.next then 1 else 0 := by
  have hbegins : ∀ {P : PacketRef → Prop} {l : List Op}, Begins P l →
      l.countP (Op.enters e) = 0 := fun hl =>
    hl.countP_eq_zero (fun o ho => by cases ho with | _ => rfl) fun _ => rfl
  cases h with
  | msg _ hran =>
    rw [countP_map_msg]
    exact le_trans (hran.uses e) (Nat.le_add_right _ _)
  | stop _ hrun =>
    rw [hbegins (Begins.of_run hrun), Nat.zero_add]
    exact le_trans (Nat.le_add_left _ _) (Nat.le_add_right _ _)
  | publish _ _ | send p =>
    show List.countP _ _ + s.outbox.uses e ≤ 0 + s.outbox.uses e + _
    simp only [List.countP_singleton, Op.enters, MsgOp.enters, decide_eq_true_eq,
      eq_comm (a := e)]
    omega
  | round t new hnew =>
    rw [hbegins (P := fun _ => False) (.round hnew)]
    exact Nat.le_add_right _ _
  | _ => exact Nat.le_add_right _ _

/-- Each entry is in at most one place, or was taken out of flight once. -/
def Once (s : Solo) : Prop :=
  ∀ e, s.goroutines.ops.countP (Op.enters e) + s.outbox.uses e ≤ 1

theorem once_step (hs : Typed s) (ho : Once s) (h : Solo.step cfg t s = some s') : Once s' := by
  intro e
  obtain ⟨old, new, hx, hex⟩ := exchange_of_step h
  have hcount := hex.countP_eq (Op.enters e)
  have huses := hx.uses e
  have hbefore := ho e
  by_cases he : e = s.outbox.entries.next
  · have hnone : s.goroutines.ops.countP (Op.enters e) = 0 :=
      hs.countP_eq_zero entry_of_enters (fun _ => rfl) he.ge
    have hstored := uses_eq_zero hs.lists he.ge
    rw [if_pos he] at huses
    omega
  · rw [if_neg he] at huses
    omega

/-- What was taken out of flight is in no list. -/
theorem Once.not_mem (ho : Once s) {e : EntryRef} {r : PacketRef} {id : UInt16}
    (h : .removed e r id ∈ s.outbox.log) : e ∉ s.outbox.inflightingList := by
  have hremoved : 0 < s.outbox.log.countP (Event.removes e) :=
    List.countP_pos_iff.mpr ⟨_, h, decide_eq_true rfl⟩
  have hplace := ho e
  rw [Outbox.uses] at hplace
  exact List.count_eq_zero.mp (by omega)

end Step

/-! ## What a tick sends again -/

def Caller.resends : Caller → Bool
  | resend _ => true
  | _ => false

/-- The operation is a tick's, which sends an entry again. -/
def MsgOp.resends : MsgOp → Bool
  | resend _ _ => true
  | insert2Inflight c | newInflight c | pushInflight c | sendEntry c => c.resends
  | channelSend c _ | pushSend c _ => c.any Caller.resends
  | _ => false

def Op.resends : Op → Bool
  | .msg o => o.resends
  | .stop _ => false

/-- The packet that an operation sends. -/
def MsgOp.packet : MsgOp → Option PacketRef
  | channelSend _ r | pushSend _ r => some r
  | _ => none

/-- The operation changes the packets of entries in flight, or takes an entry out. -/
def MsgOp.rewrites : MsgOp → Bool
  | updateInflight _ | removeInflight _ _ => true
  | _ => false

/-- A handler changes what is in flight while no tick has collected entries that it has still
to send. It is so where each handler and each tick is one step. -/
def Whole (s : Solo) (t : Solo.Turn) : Prop :=
  ∀ o ∈ t.msgOp s, o.rewrites = true → ∀ o' ∈ s.goroutines.ops, o'.resends = false

instance (s : Solo) (t : Solo.Turn) : Decidable (Whole s t) :=
  inferInstanceAs (Decidable (∀ o ∈ t.msgOp s, _))

/-- An entry is sent again that a tick found in flight, with the packet that it has. -/
theorem MsgOp.Ran.resends {o o' : MsgOp} {new : List MsgOp} (h : Ran cfg f x o new x')
    (hmem : o' ∈ new) (ho' : o'.resends = true) {e : EntryRef} (he : o'.entry = some e) :
    ((∃ now, o = .collect now) ∧ e ∈ x.inflightingList ∧ o'.packet = none) ∨
      (o.resends = true ∧ o.entry = some e ∧
        ∀ r ∈ o'.packet, r ∈ o.packet ∨ r = (x.entry e).p) := by
  cases h.follows hmem with
  | newInflight _ | notInserted _ | pushInflight _ | afterPush _ =>
    exact .inr ⟨ho', he, fun r hr => absurd hr (by simp [MsgOp.packet])⟩
  | sendEntry c =>
    refine .inr ⟨ho', he, fun r hr => .inr ?_⟩
    rw [← Option.some.inj hr, Option.some.inj he]
  | pushSend _ _ _ => exact .inr ⟨ho', he, fun r hr => .inl hr⟩
  | sendAgain e' now =>
    refine .inr ⟨rfl, he, fun r hr => .inr ?_⟩
    have he' : e' = e := Option.some.inj he
    rw [← Option.some.inj hr, he']
  | resend hover =>
    obtain rfl := Option.some.inj he
    exact .inl ⟨⟨_, rfl⟩, List.mem_of_mem_filter hover, rfl⟩
  | _ => exact absurd ho' Bool.false_ne_true

section Whole

variable {s s' : Solo} {t : Solo.Turn} {old new : List Op} {e : EntryRef}

/-- So it is for whole turns. -/
theorem Exchange.resends (h : Exchange cfg s t old new x' f') {o' : MsgOp}
    (hmem : .msg o' ∈ new) (ho' : o'.resends = true) (he : o'.entry = some e) :
    ∃ o, .msg o ∈ old ∧
      (((∃ now, o = .collect now) ∧ e ∈ s.outbox.inflightingList ∧ o'.packet = none) ∨
        (o.resends = true ∧ o.entry = some e ∧
          ∀ r ∈ o'.packet, r ∈ o.packet ∨ r = (s.outbox.entry e).p)) := by
  rcases h.origin hmem with ⟨o, l, hran, hnew, -, rfl, -⟩ | hopens
  · exact ⟨o, List.mem_cons_self, hran.resends hnew ho' he⟩
  · cases hopens with
    | starts hstarts =>
      cases hstarts with
      | _ => exact absurd ho' Bool.false_ne_true
    | _ => exact absurd ho' Bool.false_ne_true

/-! ## After a PUBREC -/

/-- The packet is a PUBREL with the id. -/
def Outbox.Releases (x : Outbox) (id : UInt16) (r : PacketRef) : Prop :=
  r < x.packets.next ∧ (x.packet r).kind = PacketType.pubrel ∧ (x.packet r).messageID = id

/-- The entry was taken out of flight. -/
def Outbox.Removed (x : Outbox) (e : EntryRef) : Prop := ∃ ev ∈ x.log, ev.removes e = true

/-- A tick sent the entry again, or a PUBREC gave it a packet. -/
def Event.revives (e : EntryRef) : Event → Bool
  | sent c _ => c = some (.resend e)
  | updated e' _ => e' = e
  | _ => false

/-- The entry is sent again and given packets only before it is taken out of flight. -/
def RemovedLast (e : EntryRef) : List Event → Prop
  | [] => True
  | ev :: l => (ev.revives e = true → ∀ ev' ∈ l, ev'.removes e = false) ∧ RemovedLast e l

/-- Since the events `log`, entry `e` has a PUBREL with the id, and this is what is sent again
for it. -/
structure Released (e : EntryRef) (id : UInt16) (log : List Event) (s : Solo) : Prop where
  made : e < s.outbox.entries.next
  packet : s.outbox.Releases id (s.outbox.entry e).p
  op : ∀ o, .msg o ∈ s.goroutines.ops → o.resends = true → o.entry = some e →
    ¬ s.outbox.Removed e ∧ ∀ r ∈ o.packet, s.outbox.Releases id r
  sent : ∃ new, s.outbox.log = new ++ log ∧
    ∀ r, .sent (some (.resend e)) r ∈ new → s.outbox.Releases id r
  last : RemovedLast e s.outbox.log

theorem Grows.releases (h : Grows x x') {id : UInt16} {r : PacketRef} (hr : x.Releases id r) :
    x'.Releases id r := by
  obtain ⟨hlt, hkind, hid⟩ := hr
  have hsame : x'.packet r = x.packet r :=
    (h.packet r hlt).2.2 (by rw [hkind]; decide)
  rw [Outbox.Releases, hsame]
  exact ⟨h.lt_packets hlt, hkind, hid⟩

/-- The entry was taken out of flight, or one of the operations takes something out. -/
def Leaves (s : Solo) (e : EntryRef) (old : List Op) : Prop :=
  s.outbox.Removed e ∨ ∃ r id, .msg (.removeInflight r id) ∈ old

theorem Notes.leaves {ev : Event} (h : Notes s old ev) (hev : ev.removes e = true) :
    Leaves s e old := by
  cases h with
  | removed hold _ => exact .inr ⟨_, _, hold⟩
  | _ => exact absurd hev Bool.false_ne_true

/-- Where no event of a turn revives an entry that leaves, none does afterwards. -/
theorem Exchange.removedLast (h : Exchange cfg s t old new x' f')
    (hlast : RemovedLast e s.outbox.log)
    (hnot : ∀ ev, Notes s old ev → ev.revives e = true → ¬ Leaves s e old) :
    RemovedLast e x'.log ∧ (x'.Removed e → Leaves s e old) := by
  refine h.log_induct (P := fun l => RemovedLast e l ∧
    ((∃ ev ∈ l, ev.removes e = true) → Leaves s e old)) ⟨hlast, .inl⟩ ?_
  rintro ev l hev ⟨hl, hleaves⟩
  refine ⟨⟨fun hrevives ev' hmem => ?_, hl⟩, ?_⟩
  · exact Bool.eq_false_of_not_eq_true fun hremoves =>
      hnot ev hev hrevives (hleaves ⟨ev', hmem, hremoves⟩)
  · rintro ⟨ev', hmem, hremoves⟩
    rcases List.mem_cons.mp hmem with rfl | hmem
    · exact hev.leaves hremoves
    · exact hleaves ⟨ev', hmem, hremoves⟩

/-- A packet that is a PUBREL with the id of its entry is replaced by such packets only. -/
theorem Exchange.releases (h : Exchange cfg s t old new x' f') (hs : Typed s)
    (hold : ∀ o ∈ old, o.Typed s.outbox) {id : UInt16} (he : e < s.outbox.entries.next)
    (hp : s.outbox.Releases id (s.outbox.entry e).p) : x'.Releases id (x'.entry e).p := by
  have hg := (h.typed hs hold).1
  have hsame : (x'.entry e).p = (s.outbox.entry e).p → x'.Releases id (x'.entry e).p :=
    fun hsame => hsame ▸ hg.releases hp
  cases h with
  | msg hnext hran =>
    rcases hran.entry_p e with h | ⟨r, rfl, hmem, hr⟩
    · exact hsame h
    · have hrel : r < s.outbox.packets.next ∧ (s.outbox.packet r).kind = PacketType.pubrel :=
        hold _ List.mem_cons_self
      have hid : s.outbox.idOf e = (s.outbox.packet r).messageID :=
        of_decide_eq_true (List.mem_filter.mp hmem).2
      rw [hr]
      exact hg.releases ⟨hrel.1, hrel.2, hid ▸ hp.2.2⟩
  | publish _ _ | send p => exact hsame (congrArg Entry.p (Heap.alloc_of_lt _ he))
  | _ => exact hsame rfl

/-- An entry that is in flight does not leave in a turn that does another operation. -/
theorem Once.not_leaves (ho : Once s) (hx : Exchange cfg s t old new x' f') {o : MsgOp}
    (hold : .msg o ∈ old) (hne : ∀ r id, o ≠ .removeInflight r id)
    (he : e ∈ s.outbox.inflightingList) : ¬ Leaves s e old := by
  rintro (⟨ev, hev, hremoves⟩ | ⟨r, id, hrem⟩)
  · cases ev with
    | removed e' r id =>
      obtain rfl : e' = e := of_decide_eq_true hremoves
      exact ho.not_mem hev he
    | _ => exact absurd hremoves Bool.false_ne_true
  · exact hne r id (Option.mem_unique (hx.msgOp hold) (hx.msgOp hrem))

theorem released_step {id : UInt16} {log : List Event} (hs : Typed s) (ho : Once s)
    (hw : Whole s t) (hr : Released e id log s) (h : Solo.step cfg t s = some s') :
    Released e id log s' := by
  obtain ⟨old, new, hx, hex⟩ := exchange_of_step h
  have hold : ∀ o ∈ old, o.Typed s.outbox := fun o ho => hs.ops o (hex.mem_old ho)
  have hg := (hx.typed hs hold).1
  -- a tick that has the entry in hand keeps the handlers from taking it out
  have hstays : ∀ o : MsgOp, .msg o ∈ s.goroutines.ops → o.resends = true →
      o.entry = some e → ¬ Leaves s e old := by
    rintro o hmem hres he (hremoved | ⟨r, k, hrem⟩)
    · exact (hr.op o hmem hres he).1 hremoved
    · have hnone : o.resends = false := hw _ (hx.msgOp hrem) rfl _ hmem
      exact Bool.false_ne_true (hnone.symm.trans hres)
  have hlast := hx.removedLast hr.last fun ev hev hrevives => by
    cases hev with
    | sent hmem =>
      obtain rfl := of_decide_eq_true hrevives
      exact hstays _ (hex.mem_old hmem) rfl rfl
    | updated hmem hwith =>
      obtain rfl := of_decide_eq_true hrevives
      exact ho.not_leaves hx hmem (fun _ _ => nofun) (List.mem_of_mem_filter hwith)
    | _ => exact absurd hrevives Bool.false_ne_true
  refine ⟨hg.lt_entries hr.made, hx.releases hs hold hr.made hr.packet, ?_, ?_, hlast.1⟩
  · intro o hmem hres he
    rcases hex.mem_or hmem with hnew | hbefore
    · obtain ⟨o', hmem', ⟨⟨now, rfl⟩, hin, hnone⟩ | ⟨hres', he', hpacket⟩⟩ :=
        hx.resends hnew hres he
      · refine ⟨mt hlast.2 (ho.not_leaves hx hmem' (fun _ _ => nofun) hin), fun r hmem => ?_⟩
        rw [hnone] at hmem
        exact absurd hmem (Option.not_mem_none r)
      · refine ⟨mt hlast.2 (hstays o' (hex.mem_old hmem') hres' he'), fun r hmem => ?_⟩
        rcases hpacket r hmem with hsame | rfl
        · exact hg.releases ((hr.op o' (hex.mem_old hmem') hres' he').2 r hsame)
        · exact hg.releases hr.packet
    · exact ⟨mt hlast.2 (hstays o hbefore hres he),
        fun r hmem => hg.releases ((hr.op o hbefore hres he).2 r hmem)⟩
  · obtain ⟨later, hlog, hsent⟩ := hr.sent
    refine hx.log_induct (P := fun l => ∃ new, l = new ++ log ∧
      ∀ r, .sent (some (.resend e)) r ∈ new → s'.outbox.Releases id r)
      ⟨later, hlog, fun r hmem => hg.releases (hsent r hmem)⟩ ?_
    rintro ev l hev ⟨later, rfl, hsent⟩
    refine ⟨ev :: later, rfl, fun r hmem => ?_⟩
    rcases List.mem_cons.mp hmem with rfl | hmem
    · cases hev with
      | sent hmem => exact hg.releases ((hr.op _ (hex.mem_old hmem) rfl rfl).2 r rfl)
    · exact hsent r hmem

end Whole

/-! ## Runs -/

/-- Goroutine `i` is at the end of `onPubrec(id)`: the PUBREL was sent, and what is left is to
give it to the entries in flight. -/
def EndsPubrec (s : Solo) (i : ℕ) (id : UInt16) : Prop :=
  ∃ r, s.nextOp i = some (.msg (.updateInflight r)) ∧
    s.outbox.packet r = .pubrel { newPubrel with messageID := id }

/-- `updateInflightMsg` reaches every entry with the id. -/
theorem updateInflight_self {r : PacketRef} {e : EntryRef} (h : e ∈ x.withId r) :
    ((x.updateInflight r).entry e).p = r := by
  suffices hall : ∀ (l : List EntryRef) (y : Outbox), e ∈ l ∨ (y.entry e).p = r →
      ((l.foldl (fun y e => (y.modifyEntry e fun i => { i with p := r }).note (.updated e r))
        y).entry e).p = r from hall _ x (.inl h)
  intro l
  induction l with
  | nil => exact fun y hy => hy.resolve_left (List.not_mem_nil)
  | cons e' l ih =>
    intro y hy
    refine ih _ ?_
    rw [Outbox.note_entry]
    by_cases he : e = e'
    · rw [he, Outbox.modifyEntry_self]
      exact .inr rfl
    · rw [Outbox.modifyEntry_of_ne _ y he]
      exact hy.imp (fun hmem => (List.mem_cons.mp hmem).resolve_left he) id

section Runs

variable {s s' : Solo} {e : EntryRef} {i : ℕ}

theorem ran_of_nextOp {o : MsgOp} (hnext : s.nextOp i = some (.msg o))
    (h : Solo.step cfg (.run i) s = some s') :
    ∃ new, MsgOp.Ran cfg s.flags s.outbox o new s'.outbox ∧
      Pool.Exchanged [.msg o] (new.map .msg) s.goroutines s'.goroutines := by
  obtain ⟨new, hrun, hex⟩ := run_of_nextOp hnext h
  exact ⟨new, MsgOp.ran_of_run hrun, hex⟩

theorem removedLast_of_not_removed {l : List Event} (h : ∀ ev ∈ l, ev.removes e = false) :
    RemovedLast e l := by
  induction l with
  | nil => trivial
  | cons ev l ih =>
    have hrest := fun ev' hmem => h ev' (List.mem_cons_of_mem _ hmem)
    exact ⟨fun _ => hrest, ih hrest⟩

theorem RemovedLast.not_revives {later earlier : List Event} {r : PacketRef} {k : UInt16}
    (h : RemovedLast e (later ++ .removed e r k :: earlier)) :
    ∀ ev ∈ later, ev.revives e = false := by
  induction later with
  | nil => exact fun ev hmem => absurd hmem List.not_mem_nil
  | cons ev' later ih =>
    obtain ⟨hfirst, hrest⟩ := h
    refine List.forall_mem_cons.mpr ⟨?_, ih hrest⟩
    refine Bool.eq_false_of_not_eq_true fun hrevives => ?_
    have hnone := hfirst hrevives (.removed e r k)
      (List.mem_append_right _ List.mem_cons_self)
    exact Bool.false_ne_true (hnone.symm.trans (decide_eq_true rfl))

theorem eq_pubrel_of_kind {p : ControlPacket} (h : p.kind = PacketType.pubrel) :
    ∃ m, p = .pubrel m := by
  cases p with
  | pubrel m => exact ⟨m, rfl⟩
  | _ => exact absurd h (by rw [ControlPacket.kind]; decide)

theorem once_of_reach {ok : Solo → Solo.Turn → Prop} (h : (Solo.system cfg).Reach ok s) :
    Once s := by
  refine (h.invariant (I := fun s => Typed s ∧ Once s) ?_ ?_).2
  · rintro s ⟨isServer, now, rfl⟩
    exact ⟨typed_initial isServer now, fun e => by simp [Solo.initial, Outbox.uses]⟩
  · exact fun s t s' hs _ hstep => ⟨typed_step hs.1 hstep, once_step hs.1 hs.2 hstep⟩

/-- A PUBREC changes neither the list of what is in flight nor makes an entry. -/
theorem EndsPubrec.lists {id : UInt16} (hp : EndsPubrec s i id)
    (h : Solo.step cfg (.run i) s = some s') :
    s'.outbox.inflightingList = s.outbox.inflightingList ∧
      s'.outbox.entries.next = s.outbox.entries.next := by
  obtain ⟨r, hnext, -⟩ := hp
  obtain ⟨new, hran, -⟩ := ran_of_nextOp hnext h
  generalize s'.outbox = x' at hran ⊢
  cases hran
  obtain ⟨-, hinflight, -, -, -, -, hentries⟩ := updateInflight_lists r s.outbox
  exact ⟨hinflight, hentries⟩

/-- The entries in flight with the id of a PUBREC have its PUBREL from then on. -/
theorem EndsPubrec.released {id : UInt16} (hp : EndsPubrec s i id) (hs : Typed s) (ho : Once s)
    (hw : Whole s (.run i)) (h : Solo.step cfg (.run i) s = some s')
    (he : e ∈ s.outbox.inflightingList) (hid : s.outbox.idOf e = id) :
    Released e id s'.outbox.log s' := by
  have hin : e ∈ s'.outbox.inflightingList := (hp.lists h).1 ▸ he
  have hs' := typed_step hs h
  have ho' := once_step hs ho h
  obtain ⟨r, hnext, hr⟩ := hp
  obtain ⟨new, hran, hex⟩ := ran_of_nextOp hnext h
  have hmade : r < s.outbox.packets.next := (hs.ops _ (hex.mem_old List.mem_cons_self)).1
  have hwith : e ∈ s.outbox.withId r :=
    List.mem_filter.mpr ⟨he, decide_eq_true (by rw [hid, hr]; rfl)⟩
  have hnone : ∀ ev ∈ s'.outbox.log, ev.removes e = false := by
    intro ev hev
    cases ev with
    | removed e' r' k =>
      refine decide_eq_false fun heq => ?_
      subst heq
      exact ho'.not_mem hev hin
    | _ => rfl
  have hpacket : s'.outbox.Releases id (s'.outbox.entry e).p := by
    have hreleases : s.outbox.Releases id r := ⟨hmade, by rw [hr]; rfl, by rw [hr]; rfl⟩
    have hgrown := hran.grows.releases hreleases
    have hself : (s'.outbox.entry e).p = r := by
      generalize s'.outbox = x' at hran ⊢
      cases hran
      exact updateInflight_self hwith
    rwa [hself]
  refine ⟨hs'.lists.inflight e hin, hpacket, fun o hmem hres _ => ?_,
    ⟨[], rfl, fun r hmem => absurd hmem List.not_mem_nil⟩, removedLast_of_not_removed hnone⟩
  -- no tick was at work, and the PUBREC leaves nothing to do
  have hbefore : .msg o ∈ s.goroutines.ops := by
    refine (hex.mem_or hmem).resolve_left fun hnew => ?_
    generalize s'.outbox = x' at hran
    cases hran
    exact List.not_mem_nil hnew
  have hidle : o.resends = false := hw _ (Solo.Turn.msgOp_run hnext) rfl _ hbefore
  exact absurd hres (by rw [hidle]; exact Bool.false_ne_true)

/-- In a run in which each handler and each tick is one step, a PUBREC puts nothing in flight.
What a tick sends again for an entry in flight with its id is a PUBREL with this id from then
on; and once the entry was taken out of flight, it is not sent again, no PUBREC gives it a
packet, and it does not come back. -/
theorem never_steps_back {s s₁ s₂ : Solo} {i : ℕ} {ts : List Solo.Turn} {id : UInt16}
    (hs : (Solo.system cfg).Reach Whole s) (hw : Whole s (.run i)) (hp : EndsPubrec s i id)
    (h : Solo.step cfg (.run i) s = some s₁) (hok : (Solo.system cfg).Along Whole ts s₁)
    (hrun : (Solo.system cfg).exec ts s₁ = some s₂) :
    s₁.outbox.inflightingList = s.outbox.inflightingList ∧
      s₁.outbox.entries.next = s.outbox.entries.next ∧
      ∀ e ∈ s.outbox.inflightingList, s.outbox.idOf e = id →
        ∃ new, s₂.outbox.log = new ++ s₁.outbox.log ∧
          (∀ r, .sent (some (.resend e)) r ∈ new →
            ∃ m, s₂.outbox.packet r = .pubrel m ∧ m.messageID = id) ∧
          ∀ later r k earlier, new = later ++ .removed e r k :: earlier →
            e ∉ s₂.outbox.inflightingList ∧ ∀ ev ∈ later, ev.revives e = false := by
  obtain ⟨hinflight, hentries⟩ := hp.lists h
  refine ⟨hinflight, hentries, fun e he hid => ?_⟩
  have hs₀ := typed_of_reach hs
  have ho₀ := once_of_reach hs
  obtain ⟨-, ho₂, hr⟩ := StepSystem.invariant_of_exec
    (I := fun s => Typed s ∧ Once s ∧ Released e id s₁.outbox.log s)
    (fun s t s' hs hw h => ⟨typed_step hs.1 h, once_step hs.1 hs.2.1 h,
      released_step hs.1 hs.2.1 hw hs.2.2 h⟩)
    ⟨typed_step hs₀ h, once_step hs₀ ho₀ h, hp.released hs₀ ho₀ hw h he hid⟩ hok hrun
  obtain ⟨new, hlog, hsent⟩ := hr.sent
  refine ⟨new, hlog, fun r hmem => ?_, ?_⟩
  · obtain ⟨-, hkind, hid⟩ := hsent r hmem
    obtain ⟨m, hm⟩ := eq_pubrel_of_kind hkind
    rw [hm] at hid
    exact ⟨m, hm, hid⟩
  · rintro later r k earlier rfl
    have hremoved : .removed e r k ∈ s₂.outbox.log := by
      rw [hlog]
      exact List.mem_append_left _ (List.mem_append_right _ List.mem_cons_self)
    have hlast := hr.last
    rw [hlog, List.append_assoc, List.cons_append] at hlast
    exact ⟨ho₂.not_mem hremoved, hlast.not_revives⟩

end Runs

/-- The PUBREC comes for a QoS 2 message, up to the end of its handler. -/
def pubrecReceived : List Solo.Turn :=
  qos2Call ++ [.recvPacket (Solo.inboundPubrec 1) true] ++ Solo.runs 0 4

/-- The PUBREL is sent again after ten seconds, and then the PUBCOMP comes. -/
def resentAndDone : List Solo.Turn :=
  [.elapse 10000000000, .tick false] ++ Solo.runs 2 11 ++
    [.recvPacket (Solo.inboundPubcomp 1) true] ++ Solo.runs 0 5

theorem never_steps_back_qos2 : ∃ s, (Solo.system {}).Reach Whole s ∧
    .sent (some (.resend 0)) 4 ∈ s.outbox.log ∧
    (∃ m, s.outbox.packet 4 = .pubrel m ∧ m.messageID = 1) ∧
    0 ∉ s.outbox.inflightingList := by
  have hbefore : (Solo.system {}).checkAll (fun s t => decide (Whole s t)) pubrecReceived
      (Solo.initial true 0) = true := by
    decide
  have hafter : ((Solo.system {}).exec pubrecReceived (Solo.initial true 0)).any (fun s =>
      s.nextOp 0 = some (.msg (.updateInflight 4)) ∧
      s.outbox.packet 4 = .pubrel { newPubrel with messageID := 1 } ∧
      0 ∈ s.outbox.inflightingList ∧ s.outbox.idOf 0 = 1 ∧ Whole s (.run 0) ∧
      (Solo.step {} (.run 0) s).any fun s₁ =>
        (Solo.system {}).checkAll (fun s t => decide (Whole s t)) resentAndDone s₁ ∧
        .sent (some (.resend 0)) 4 ∉ s₁.outbox.log ∧ .removed 0 5 1 ∉ s₁.outbox.log ∧
        ((Solo.system {}).exec resentAndDone s₁).any fun s₂ =>
          .sent (some (.resend 0)) 4 ∈ s₂.outbox.log ∧ .removed 0 5 1 ∈ s₂.outbox.log) = true := by
    decide
  obtain ⟨s, hs, hc⟩ := StepSystem.exists_reach_of_any (Solo.initial_init {} true 0)
    (StepSystem.along_of_check (fun _ _ h => of_decide_eq_true h) hbefore) hafter
  obtain ⟨hnext, hpacket, hin, hid, hw, hstep⟩ := of_decide_eq_true hc
  obtain ⟨s₁, hs₁, hc₁⟩ := (Option.any_eq_true _ _).mp hstep
  obtain ⟨hok, hnotSent, hnotRemoved, hrun⟩ := of_decide_eq_true hc₁
  obtain ⟨s₂, hs₂, hc₂⟩ := StepSystem.exists_of_any hrun
  obtain ⟨hsent, hremoved⟩ := of_decide_eq_true hc₂
  have halong := StepSystem.along_of_check (T := Solo.system {})
    (fun _ _ h => of_decide_eq_true h) hok
  obtain ⟨-, -, hall⟩ := never_steps_back hs hw ⟨4, hnext, hpacket⟩ hs₁ halong hs₂
  obtain ⟨new, hlog, hpubrel, hgone⟩ := hall 0 hin hid
  rw [hlog] at hsent hremoved
  obtain ⟨later, earlier, hnew⟩ :=
    List.append_of_mem ((List.mem_append.mp hremoved).resolve_right hnotRemoved)
  exact ⟨s₂, StepSystem.reach_of_exec (.step hs hw hs₁) halong hs₂,
    hlog ▸ hsent, hpubrel 4 ((List.mem_append.mp hsent).resolve_right hnotSent),
    (hgone later 5 1 earlier hnew).1⟩

end MqttBroker.Solo

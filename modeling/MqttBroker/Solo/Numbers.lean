import MqttBroker.Solo.PacketIds

/-!
# Each message has an id of its own

As long as the counter of a session has not come around, and each message is given to `Publish`
once, two messages never have the same id, whether they are in flight or not. A message that has
its id is not changed any more.
-/

namespace MqttBroker.Solo

variable {cfg : Config} {f f' : Flags} {x x' : Outbox}

/-- The id of the message that an entry was made for. -/
abbrev Outbox.msgId (x : Outbox) (e : EntryRef) : UInt16 := (x.packet (x.entry e).msg).messageID

/-- The message of an entry has its id. -/
def Numbered (s : Solo) (e : EntryRef) : Prop :=
  s.outbox.Published e ∧ ∀ o, .msg o ∈ s.goroutines.ops → o.unnumbered ≠ some e

/-- The message of an entry has the id, or is about to get it. -/
inductive Assigned (s : Solo) (e : EntryRef) (id : UInt16) : Prop
  | numbering : s.outbox.Published e → .msg (.setMessageID e id) ∈ s.goroutines.ops →
      Assigned s e id
  | numbered : Numbered s e → s.outbox.msgId e = id → Assigned s e id

/-- The packet of a call of `Publish`. -/
def Turn.published : Solo.Turn → Option PacketRef
  | .publish r => some r
  | _ => none

/-- The operation takes the next id. -/
def MsgOp.counts : MsgOp → Bool
  | addMsgId _ => true
  | _ => false

/-- Each message is given to `Publish` once and not to `Send`, no other session numbers a packet,
and the counter of ids does not come around. -/
def OwnIds (s : Solo) (t : Solo.Turn) : Prop :=
  (∀ p ∈ t.sent, p.1.kind ∉ [PacketType.publish, PacketType.pubrec, PacketType.pubrel]) ∧
    t.renumbered = none ∧
    (∀ r ∈ t.published, ∀ e < s.outbox.entries.next, (s.outbox.entry e).msg ≠ r) ∧
    ∀ o ∈ t.msgOp s, o.counts = true → s.outbox.lastMsgId + 1 < 65536

instance (s : Solo) (t : Solo.Turn) : Decidable (OwnIds s t) :=
  inferInstanceAs (Decidable ((∀ p ∈ t.sent, _) ∧ _ ∧ (∀ r ∈ t.published, ∀ e < _, _) ∧
    ∀ o ∈ t.msgOp s, _))

/-- No two entries have a message or an id in common, and the ids are those that the counter has
given. -/
structure IdsOwned (s : Solo) : Prop where
  msg : ∀ e e', e < s.outbox.entries.next → e' < s.outbox.entries.next →
    (s.outbox.entry e).msg = (s.outbox.entry e').msg → e = e'
  kind : ∀ e < s.outbox.entries.next, (s.outbox.entry e).published = false →
    (s.outbox.packet (s.outbox.entry e).msg).kind ∉
      [PacketType.publish, PacketType.pubrec, PacketType.pubrel]
  lt : s.outbox.lastMsgId < 65536
  le : ∀ e id, Assigned s e id → id.toNat ≤ s.outbox.lastMsgId
  unique : ∀ e e' id, Assigned s e id → Assigned s e' id → e = e'

section Step

variable {s s' : Solo} {t : Solo.Turn} {old new : List Op} {e : EntryRef}

/-! ## Packets -/

/-- A packet is changed by the call that numbers it. -/
theorem Exchange.packet_eq (h : Exchange cfg s t old new x' f') (hnot : t.renumbered = none)
    {r : PacketRef} (hr : r < s.outbox.packets.next) :
    x'.packet r = s.outbox.packet r ∨ ∃ e id, .msg (.setMessageID e id) ∈ old ∧
      (s.outbox.entry e).msg = r ∧ x'.packet r = (s.outbox.packet r).setMessageID id := by
  cases h with
  | msg _ hran =>
    cases hran with
    | @numberPublish e id _ | @numberSend e id _ =>
      by_cases hmsg : r = (s.outbox.entry e).msg
      · refine .inr ⟨e, id, List.mem_cons_self, hmsg.symm, ?_⟩
        rw [hmsg]
        exact Heap.modify_self ..
      · exact .inl (Heap.modify_of_ne _ _ hmsg)
    | send e _ =>
      obtain ⟨hpackets, _⟩ := assignToken_fields e (s.outbox.packet _) s.outbox
      exact .inl (congrArg (fun packets => packets.cells r) hpackets)
    | updateInflight r' =>
      obtain ⟨hpackets, _⟩ := updateInflight_lists r' s.outbox
      exact .inl (congrArg (fun packets => packets.cells r) hpackets)
    | onPubrec messageID => exact .inl (Outbox.newPacket_of_lt _ hr)
    | reply p => exact .inl (Outbox.newPacket_of_lt p hr)
    | _ => exact .inl rfl
  | send p => exact .inl (Outbox.newPacket_of_lt p.1 hr)
  | newPacket p | recvPacket p _ => exact .inl (Outbox.newPacket_of_lt p.1 hr)
  | renumber id _ => exact absurd hnot (Option.some_ne_none _)
  | _ => exact .inl rfl

/-- A message that has its id stays as it is. -/
theorem Numbered.packet_eq (hn : Numbered s e) (hs : Typed s) (ho : IdsOwned s)
    (hnot : t.renumbered = none) (hx : Exchange cfg s t old new x' f')
    (hold : ∀ o ∈ old, o ∈ s.goroutines.ops) :
    x'.packet (s.outbox.entry e).msg = s.outbox.packet (s.outbox.entry e).msg := by
  refine (hx.packet_eq hnot (hs.heaps.refs e hn.1.1).2).resolve_right ?_
  rintro ⟨e', id, hmem, hmsg, -⟩
  have htracked : s.outbox.Tracked e' := hs.ops _ (hold _ hmem)
  obtain rfl := ho.msg e' e htracked.1 hn.1.1 hmsg
  exact hn.2 _ (hold _ hmem) rfl

/-! ## Ids -/

/-- What is still to number a message and is done without a successor writes the id. -/
theorem Exchange.numbers (h : Exchange cfg s t old new x' f') (hs : Typed s)
    (hold : ∀ o ∈ old, o ∈ s.goroutines.ops) (hpub : s.outbox.Published e) {o : MsgOp}
    (hmem : .msg o ∈ old) (he : o.unnumbered = some e)
    (hnot : ∀ o', .msg o' ∈ new → o'.unnumbered ≠ some e) :
    ∃ id, o = .setMessageID e id ∧ (x'.packet (s.outbox.entry e).msg).messageID = id := by
  have htyped := hs.ops _ (hold _ hmem)
  cases h with
  | msg _ hran =>
    obtain rfl := Op.msg.inj (List.mem_singleton.mp hmem)
    cases o with
    | setMessageID e' id =>
      obtain rfl := Option.some.inj he
      have hkind : (s.outbox.packet (s.outbox.entry e').msg).kind ∈ numbered := by
        rw [hs.heaps.published e' hpub.1 hpub.2]
        decide
      refine ⟨id, rfl, ?_⟩
      cases hran with
      | numberPublish _ _ | numberSend _ _ =>
        show (Heap.cells (s.outbox.packets.modify _ _) _).messageID = id
        rw [Heap.modify_self]
        exact messageID_setMessageID hkind id
    | addMsgId e' =>
      obtain rfl := Option.some.inj he
      cases hran
      exact absurd rfl (hnot _ List.mem_cons_self)
    | send e' =>
      obtain rfl := Option.some.inj he
      have hsend : (s.outbox.entry e').published = false := htyped.2
      exact absurd (hsend.symm.trans hpub.2) Bool.false_ne_true
    | _ => exact absurd he (by simp [MsgOp.unnumbered])
  | stop _ _ => exact absurd (List.mem_singleton.mp hmem) (by simp)
  | _ => exact absurd hmem List.not_mem_nil

/-- A message gets its id from the operation that writes it. -/
theorem numbered_of_step (hs : Typed s) (h : Solo.step cfg t s = some s') (hn : Numbered s' e) :
    Numbered s e ∨ ∃ id, s.outbox.Published e ∧ .msg (.setMessageID e id) ∈ s.goroutines.ops ∧
      s'.outbox.msgId e = id := by
  obtain ⟨old, new, hx, hex⟩ := exchange_of_step h
  have hold : ∀ o ∈ old, o ∈ s.goroutines.ops := fun o => hex.mem_old
  have hg := (hx.typed hs fun o ho => hs.ops o (hold o ho)).1
  have hlt : e < s.outbox.entries.next := by
    -- the call that makes an entry is still to number its message
    by_contra hge
    rcases hx.entries_next with hsame | ⟨r, published, -, -, -, hnext, hentry, hnew⟩
    · exact hge (hsame ▸ hn.1.1)
    · have hlast : e = s.outbox.entries.next :=
        Nat.le_antisymm (Nat.le_of_lt_succ (lt_of_lt_of_eq hn.1.1 hnext)) (Nat.not_lt.mp hge)
      have hpub := hn.1.2
      rw [hlast, hentry] at hpub
      obtain rfl : published = true := hpub
      have hmem : Op.msg (.addMsgId s.outbox.entries.next) ∈ new := by
        rw [hnew, if_pos rfl]
        exact List.mem_cons_self
      exact hn.2 _ (hex.mem_new hmem) (congrArg some hlast.symm)
  have hpub : s.outbox.Published e := ⟨hlt, (hg.entry e hlt).2.1.symm.trans hn.1.2⟩
  by_cases hall : ∀ o, .msg o ∈ s.goroutines.ops → o.unnumbered ≠ some e
  · exact .inl ⟨hpub, hall⟩
  · simp only [not_forall, not_not] at hall
    obtain ⟨o, hmem, he⟩ := hall
    rcases hex.mem_or_of_mem hmem with hdone | hstays
    · obtain ⟨id, rfl, hid⟩ := hx.numbers hs hold hpub hdone he
        fun o' hnew => hn.2 o' (hex.mem_new hnew)
      refine .inr ⟨id, hpub, hmem, ?_⟩
      rw [Outbox.msgId, (hg.entry e hlt).1]
      exact hid
    · exact absurd he (hn.2 o hstays)

/-- The counter of ids goes up by one when an id is taken. -/
theorem Exchange.lastMsgId (h : Exchange cfg s t old new x' f') :
    x'.lastMsgId = s.outbox.lastMsgId ∨
      ∃ e, .addMsgId e ∈ t.msgOp s ∧ x'.lastMsgId = s.outbox.lastMsgId + 1 := by
  cases h with
  | msg hnext hran =>
    cases hran with
    | addMsgId e => exact .inr ⟨e, Solo.Turn.msgOp_run hnext, rfl⟩
    | send e _ =>
      refine .inl ?_
      unfold assignToken
      split <;> rfl
    | updateInflight r =>
      exact .inl (updateInflight_induct (P := fun y => y.lastMsgId = s.outbox.lastMsgId) r s.outbox
        rfl fun _ _ _ hy => hy)
    | _ => exact .inl rfl
  | _ => exact .inl rfl

/-- The operation that writes an id comes after the one that takes it. -/
theorem Exchange.setMessageID (h : Exchange cfg s t old new x' f') {id : UInt16}
    (hmem : .msg (.setMessageID e id) ∈ new) : .addMsgId e ∈ t.msgOp s ∧
      id = UInt16.ofNat (s.outbox.lastMsgId + 1) ∧ x'.lastMsgId = s.outbox.lastMsgId + 1 := by
  rcases h.origin hmem with ⟨o, l, hran, ho', hop, -, -⟩ | hopens
  · cases hran.follows ho' with
    | setMessageID e' id =>
      cases hran
      exact ⟨hop, (MsgOp.setMessageID.inj (List.mem_singleton.mp ho')).2, rfl⟩
  · cases hopens with
    | starts hstarts => exact nomatch hstarts

/-- An id is assigned when the counter gives it. -/
theorem assigned_of_step (hs : Typed s) (ho : IdsOwned s) (hok : OwnIds s t)
    (h : Solo.step cfg t s = some s') {id : UInt16} (ha : Assigned s' e id) :
    Assigned s e id ∨ .addMsgId e ∈ t.msgOp s ∧ id = UInt16.ofNat (s.outbox.lastMsgId + 1) ∧
      s'.outbox.lastMsgId = s.outbox.lastMsgId + 1 := by
  obtain ⟨old, new, hx, hex⟩ := exchange_of_step h
  have hold : ∀ o ∈ old, o ∈ s.goroutines.ops := fun o => hex.mem_old
  have hg := (hx.typed hs fun o ho => hs.ops o (hold o ho)).1
  cases ha with
  | numbering hpub hmem =>
    rcases hex.mem_or hmem with hnew | hmem
    · exact .inr (hx.setMessageID hnew)
    · have htracked : s.outbox.Tracked e := hs.ops _ hmem
      have hpub₀ : s.outbox.Published e :=
        ⟨htracked.1, (hg.entry e htracked.1).2.1.symm.trans hpub.2⟩
      exact .inl (.numbering hpub₀ hmem)
  | numbered hn hid =>
    rcases numbered_of_step hs h hn with hbefore | ⟨id', hpub, hmem, hid'⟩
    · have hsame := hbefore.packet_eq hs ho hok.2.1 hx hold
      refine .inl (.numbered hbefore ?_)
      rw [← hid, Outbox.msgId, Outbox.msgId, (hg.entry e hbefore.1.1).1, hsame]
    · rw [← hid, hid']
      exact .inl (.numbering hpub hmem)

/-- A new entry has a message of its own. -/
theorem Exchange.new_msg (h : Exchange cfg s t old new x' f') (hs : Typed s) (hok : OwnIds s t) :
    x'.entries.next = s.outbox.entries.next ∨
      x'.entries.next = s.outbox.entries.next + 1 ∧
        (∀ e < s.outbox.entries.next,
          (s.outbox.entry e).msg ≠ (x'.entry s.outbox.entries.next).msg) ∧
        ((x'.entry s.outbox.entries.next).published = false →
          (x'.packet (x'.entry s.outbox.entries.next).msg).kind ∉
            [PacketType.publish, PacketType.pubrec, PacketType.pubrel]) := by
  cases h with
  | msg _ hran => exact .inl hran.entries_next
  | @publish r _ _ =>
    have hself := s.outbox.newEntry_self r true
    refine .inr ⟨rfl, ?_, ?_⟩
    · rw [hself]
      exact hok.2.2.1 r rfl
    · rw [hself]
      exact fun hfalse => absurd hfalse.symm Bool.false_ne_true
  | send p =>
    have hself : ((s.outbox.newPacket p.1).newEntry s.outbox.packets.next false).entry
        s.outbox.entries.next = _ :=
      (s.outbox.newPacket p.1).newEntry_self s.outbox.packets.next false
    refine .inr ⟨rfl, ?_, ?_⟩
    · rw [hself]
      exact fun e he => Nat.ne_of_lt (hs.heaps.refs e he).2
    · rw [hself]
      intro _
      show ((s.outbox.newPacket p.1).packet s.outbox.packets.next).kind ∉ _
      rw [Outbox.newPacket_self]
      exact hok.1 p rfl
  | _ => exact .inl rfl

theorem idsOwned_step (hs : Typed s) (ho : IdsOwned s) (hok : OwnIds s t)
    (h : Solo.step cfg t s = some s') : IdsOwned s' := by
  obtain ⟨old, new, hx, hex⟩ := exchange_of_step h
  have hg := (hx.typed hs fun o ho => hs.ops o (hex.mem_old ho)).1
  have hmsg : ∀ e < s.outbox.entries.next, (s'.outbox.entry e).msg = (s.outbox.entry e).msg :=
    fun e he => (hg.entry e he).1
  -- an entry was there before, or it is the one that was made
  have hlast : ∀ e < s'.outbox.entries.next, e < s.outbox.entries.next ∨
      e = s.outbox.entries.next ∧
        (∀ e' < s.outbox.entries.next, (s.outbox.entry e').msg ≠ (s'.outbox.entry e).msg) ∧
        ((s'.outbox.entry e).published = false → (s'.outbox.packet (s'.outbox.entry e).msg).kind ∉
          [PacketType.publish, PacketType.pubrec, PacketType.pubrel]) := by
    intro e he
    rcases hx.new_msg hs hok with hsame | ⟨hnext, hfresh, hkind⟩
    · exact .inl (hsame ▸ he)
    · rw [hnext] at he
      rcases Nat.lt_succ_iff_lt_or_eq.mp he with hlt | rfl
      · exact .inl hlt
      · exact .inr ⟨rfl, hfresh, hkind⟩
  have hcounter : s.outbox.lastMsgId ≤ s'.outbox.lastMsgId ∧ s'.outbox.lastMsgId < 65536 := by
    rcases hx.lastMsgId with hsame | ⟨e, hop, hnext⟩
    · rw [hsame]
      exact ⟨le_rfl, ho.lt⟩
    · have hroom := hok.2.2.2 _ hop rfl
      omega
  have htaken : ∀ {e : EntryRef}, .addMsgId e ∈ t.msgOp s →
      (UInt16.ofNat (s.outbox.lastMsgId + 1)).toNat = s.outbox.lastMsgId + 1 :=
    fun hop => UInt16.toNat_ofNat_of_lt' (hok.2.2.2 _ hop rfl)
  constructor
  · intro e e' he he' heq
    rcases hlast e he with hlt | ⟨rfl, hfresh, -⟩
    · rcases hlast e' he' with hlt' | ⟨rfl, hfresh', -⟩
      · rw [hmsg e hlt, hmsg e' hlt'] at heq
        exact ho.msg e e' hlt hlt' heq
      · rw [hmsg e hlt] at heq
        exact absurd heq (hfresh' e hlt)
    · rcases hlast e' he' with hlt' | ⟨rfl, -, -⟩
      · rw [hmsg e' hlt'] at heq
        exact absurd heq.symm (hfresh e' hlt')
      · rfl
  · intro e he hsend
    rcases hlast e he with hlt | ⟨-, -, hkind⟩
    · rw [hg.kind_msg hs.heaps hlt]
      exact ho.kind e hlt ((hg.entry e hlt).2.1.symm.trans hsend)
    · exact hkind hsend
  · exact hcounter.2
  · intro e id ha
    rcases assigned_of_step hs ho hok h ha with hbefore | ⟨hop, rfl, hnext⟩
    · exact le_trans (ho.le e id hbefore) hcounter.1
    · rw [htaken hop, hnext]
  · intro e e' id ha ha'
    -- an id that is given now is above those that were given before
    have hapart : ∀ {e e' : EntryRef}, Assigned s e id → .addMsgId e' ∈ t.msgOp s →
        id ≠ UInt16.ofNat (s.outbox.lastMsgId + 1) := by
      rintro e e' hbefore hop rfl
      have hle := ho.le e _ hbefore
      rw [htaken hop] at hle
      omega
    rcases assigned_of_step hs ho hok h ha with hbefore | ⟨hop, hid, -⟩
    · rcases assigned_of_step hs ho hok h ha' with hbefore' | ⟨hop', hid', -⟩
      · exact ho.unique e e' id hbefore hbefore'
      · exact absurd hid' (hapart hbefore hop')
    · rcases assigned_of_step hs ho hok h ha' with hbefore' | ⟨hop', -, -⟩
      · exact absurd hid (hapart hbefore' hop)
      · exact MsgOp.addMsgId.inj (Option.mem_unique hop hop')

theorem idsOwned_initial (isServer : Bool) (now : ℤ) : IdsOwned (Solo.initial isServer now) where
  msg _ _ he := absurd he (Nat.not_lt_zero _)
  kind _ he := absurd he (Nat.not_lt_zero _)
  lt := Nat.two_pow_pos 16
  le e id ha := by
    cases ha with
    | numbering hpub _ => exact absurd hpub.1 (Nat.not_lt_zero e)
    | numbered hn _ => exact absurd hn.1.1 (Nat.not_lt_zero e)
  unique e e' id ha := by
    cases ha with
    | numbering hpub _ => exact absurd hpub.1 (Nat.not_lt_zero e)
    | numbered hn _ => exact absurd hn.1.1 (Nat.not_lt_zero e)

end Step
end MqttBroker.Solo

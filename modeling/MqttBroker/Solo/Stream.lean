import MqttBroker.Solo.AtMostOnce
import MqttBroker.Solo.Entered
import MqttBroker.Solo.Heard
import MqttBroker.Solo.Numbers

/-!
# What is sent under one id

A QoS 2 message is sent as a PUBLISH, any number of times, until a PUBREC comes; the handler of the
PUBREC sends a PUBREL with its id and then puts it in the place of the PUBLISH. No PUBLISH comes
after a PUBREL with its id where the handler meets no goroutine that is about to send the message
again, and no tick collects entries before the handler has ended.
-/

namespace MqttBroker.Solo

variable {cfg : Config} {f f' : Flags} {x x' : Outbox}

/-! ## Who sends -/

/-- The id of the PUBREC that an operation answers. -/
def MsgOp.answers : MsgOp → Option UInt16
  | onPubrec id => some id
  | _ => none

/-- The operation gives entries in flight a PUBREL. -/
def Op.updates : Op → Bool
  | .msg (.updateInflight _) => true
  | _ => false

/-- When the handler of a PUBREC begins, no goroutine is about to send the message with its id, and
a tick collects no entries before the handler has ended. -/
def Apart (s : Solo) (t : Solo.Turn) : Prop :=
  ∀ o ∈ t.msgOp s,
    (∀ id ∈ o.answers, ∀ o' ∈ s.goroutines.ops, ∀ e ∈ o'.sendsFor, s.outbox.msgId e ≠ id) ∧
    ∀ _now ∈ o.collects, ∀ o' ∈ s.goroutines.ops, o'.updates = false

instance (s : Solo) (t : Solo.Turn) : Decidable (Apart s t) :=
  -- not by going through all ids
  have (o : MsgOp) : Decidable (∀ id ∈ o.answers, ∀ o' ∈ s.goroutines.ops, ∀ e ∈ o'.sendsFor,
      s.outbox.msgId e ≠ id) :=
    Option.decidableForallMem _
  inferInstanceAs (Decidable (∀ o ∈ t.msgOp s,
    (∀ id ∈ o.answers, ∀ o' ∈ s.goroutines.ops, ∀ e ∈ o'.sendsFor, _) ∧
    ∀ _now ∈ o.collects, ∀ o' ∈ s.goroutines.ops, _))

/-- Where the packet comes from that an operation sends. -/
theorem MsgOp.Ran.packet {o o' : MsgOp} {new : List MsgOp} (h : Ran cfg f x o new x')
    (hmem : o' ∈ new) {r : PacketRef} (hr : o'.packet = some r) :
    o.packet = some r ∧ o'.sendsFor = o.sendsFor ∨
    (∃ e, o.entry = some e ∧ o.sendsFor = some e ∧ o'.sendsFor = some e ∧ r = (x.entry e).p) ∨
    (∃ e, o.entry = some e ∧ o'.sendsFor = some e ∧ r = (x.entry e).msg) ∨
    (∃ id, o = .onPubrec id ∧ r = x.packets.next ∧
      x'.packet r = .pubrel { newPubrel with messageID := id }) ∨
    ∃ p, o = .reply p ∧ r = x.packets.next ∧ x'.packet r = p := by
  cases h.follows hmem with
  | sendPushed e =>
    exact .inr (.inr (.inl ⟨e, rfl, rfl, (Option.some.inj hr).symm⟩))
  | sendEntry c =>
    exact .inr (.inl ⟨c.entry, rfl, rfl, rfl, (Option.some.inj hr).symm⟩)
  | pushSend c r' _ => exact .inl ⟨hr, rfl⟩
  | sendAtOnce e => exact .inr (.inr (.inl ⟨e, rfl, rfl, (Option.some.inj hr).symm⟩))
  | sendAgain e now =>
    exact .inr (.inl ⟨e, rfl, rfl, rfl, (Option.some.inj hr).symm⟩)
  | pubrel id =>
    obtain rfl := Option.some.inj hr
    cases h
    exact .inr (.inr (.inr (.inl ⟨id, rfl, rfl, Outbox.newPacket_self ..⟩)))
  | reply p =>
    obtain rfl := Option.some.inj hr
    cases h
    exact .inr (.inr (.inr (.inr ⟨p, rfl, rfl, Outbox.newPacket_self ..⟩)))
  | _ => exact absurd hr (by simp [MsgOp.packet])

/-! ## Where packets come from -/

/-- What is sent as a PUBLISH is the message of an entry and sent for this entry, and an entry that
has another packet has a PUBREL with its id. -/
structure Sources (s : Solo) : Prop where
  entered : ∀ o e, .msg o ∈ s.goroutines.ops → o.sendsFor = some e → s.outbox.Published e →
    s.outbox.Entered e
  carried : ∀ o r, .msg o ∈ s.goroutines.ops → o.packet = some r →
    (s.outbox.packet r).kind = PacketType.publish →
    ∃ e, o.sendsFor = some e ∧ s.outbox.Published e ∧ r = (s.outbox.entry e).msg
  reply : ∀ p, .msg (.reply p) ∈ s.goroutines.ops →
    p.kind ∉ [PacketType.publish, PacketType.pubrel]
  sent : ∀ c r, .sent c r ∈ s.outbox.log → r < s.outbox.packets.next ∧
    ((s.outbox.packet r).kind = PacketType.publish →
      ∃ e, s.outbox.Entered e ∧ s.outbox.Published e ∧ r = (s.outbox.entry e).msg ∧
        c.map Caller.entry = some e)
  packet : ∀ e, s.outbox.Published e → (s.outbox.entry e).p ≠ (s.outbox.entry e).msg →
    s.outbox.Entered e ∧ s.outbox.Releases (s.outbox.msgId e) (s.outbox.entry e).p
  removed : ∀ e r id, .removed e r id ∈ s.outbox.log → s.outbox.Published e →
    s.outbox.msgId e = id

section Sources

variable {s s' : Solo} {t : Solo.Turn} {old new : List Op} {e : EntryRef}

/-- The message of an entry that was put in flight has its id. -/
theorem Outbox.Entered.numbered (hl : s.outbox.Entered e) (ho : Once s)
    (hpub : s.outbox.Published e) : Numbered s e := by
  refine ⟨hpub, fun o hmem he => ?_⟩
  have hnot := hl.not_enters ho hmem
  cases o with
  | send e' | addMsgId e' | setMessageID e' _ =>
    exact absurd (decide_eq_true (Option.some.inj he)) (Bool.eq_false_iff.mp hnot)
  | _ => exact absurd he (by simp [MsgOp.unnumbered])

/-- An entry whose message is a PUBLISH is one of `Publish`. -/
theorem published_of_kind (ho : IdsOwned s) (he : e < s.outbox.entries.next)
    (hkind : (s.outbox.packet (s.outbox.entry e).msg).kind = PacketType.publish) :
    s.outbox.Published e := by
  refine ⟨he, Bool.eq_true_of_not_eq_false fun hsend => ?_⟩
  have hnot := ho.kind e he hsend
  rw [hkind] at hnot
  exact hnot List.mem_cons_self

/-- No message is a PUBREL. -/
theorem kind_msg_ne_pubrel (hs : Typed s) (ho : IdsOwned s) (he : e < s.outbox.entries.next) :
    (s.outbox.packet (s.outbox.entry e).msg).kind ≠ PacketType.pubrel := by
  intro hkind
  cases hpub : (s.outbox.entry e).published with
  | false =>
    have hnot := ho.kind e he hpub
    rw [hkind] at hnot
    exact hnot (by decide)
  | true =>
    have hpublish := hs.heaps.published e he hpub
    rw [hkind] at hpublish
    exact absurd hpublish (by decide)

/-- A message that is in flight or was keeps its packet. -/
theorem Outbox.Entered.packet_eq (hl : s.outbox.Entered e) (hs : Typed s) (hone : Once s)
    (ho : IdsOwned s) (hok : OwnIds s t) (hpub : s.outbox.Published e)
    (h : Solo.step cfg t s = some s') :
    s'.outbox.packet (s.outbox.entry e).msg = s.outbox.packet (s.outbox.entry e).msg := by
  obtain ⟨old, new, hx, hex⟩ := exchange_of_step h
  exact (hl.numbered hone hpub).packet_eq hs ho hok.2.1 hx fun o => hex.mem_old

theorem Outbox.Entered.msgId_eq (hl : s.outbox.Entered e) (hs : Typed s) (hone : Once s)
    (ho : IdsOwned s) (hok : OwnIds s t) (hpub : s.outbox.Published e)
    (h : Solo.step cfg t s = some s') :
    s'.outbox.msgId e = s.outbox.msgId e := by
  obtain ⟨old, new, hx, hex⟩ := exchange_of_step h
  have hg := (hx.typed hs fun o ho => hs.ops o (hex.mem_old ho)).1
  rw [Outbox.msgId, Outbox.msgId, (hg.entry e hpub.1).1,
    hl.packet_eq hs hone ho hok hpub h]

/-- An entry of `Publish` that is in flight is looked up with the id of its message. -/
theorem Sources.idOf (hsrc : Sources s) (hpub : s.outbox.Published e) :
    s.outbox.idOf e = s.outbox.msgId e := by
  by_cases hp : (s.outbox.entry e).p = (s.outbox.entry e).msg
  · rw [Outbox.idOf, hp]
  · exact (hsrc.packet e hpub hp).2.2.2

theorem MsgOp.Typed.packet_lt {o : MsgOp} (ho : o.Typed x) {r : PacketRef}
    (hr : o.packet = some r) : r < x.packets.next := by
  cases o with
  | channelSend c r' | pushSend c r' =>
    obtain rfl := Option.some.inj hr
    exact ho.2
  | _ => exact absurd hr (by simp [MsgOp.packet])

theorem MsgOp.Ran.mem_inflight {c : Caller} {l : List MsgOp}
    (h : Ran cfg f x (.pushInflight c) l x') : c.entry ∈ x'.inflightingList := by
  cases h
  exact List.mem_append_right _ List.mem_cons_self

/-- An entry keeps its packet, or gets the PUBREL of a handler. -/
theorem Exchange.entry_packet (h : Exchange cfg s t old new x' f')
    (he : e < s.outbox.entries.next) : (x'.entry e).p = (s.outbox.entry e).p ∨
      ∃ r, .msg (.updateInflight r) ∈ old ∧ e ∈ s.outbox.withId r ∧ (x'.entry e).p = r := by
  cases h with
  | msg _ hran =>
    refine (hran.entry_p e).imp id ?_
    rintro ⟨r, rfl, hwith, hp⟩
    exact ⟨r, List.mem_cons_self, hwith, hp⟩
  | publish _ _ | send p => exact .inl (congrArg Entry.p (Heap.alloc_of_lt _ he))
  | _ => exact .inl rfl

/-- An entry that a turn makes has its message as its packet. -/
theorem Exchange.entry_of_new (h : Exchange cfg s t old new x' f') (he : e < x'.entries.next)
    (hnew : ¬ e < s.outbox.entries.next) : (x'.entry e).p = (x'.entry e).msg := by
  rcases h.entries_next with hsame | ⟨r, published, -, -, -, hnext, hentry, -⟩
  · exact absurd (hsame ▸ he) hnew
  · rw [hnext] at he
    obtain rfl := Nat.le_antisymm (Nat.le_of_lt_succ he) (Nat.not_lt.mp hnew)
    rw [hentry]

/-- What a turn has sent was sent before, or was about to be. -/
theorem Exchange.sent_source (h : Exchange cfg s t old new x' f') (hs : Typed s)
    (hsrc : Sources s) (hold : ∀ o ∈ old, o ∈ s.goroutines.ops) {c : Option Caller}
    {r : PacketRef} (hmem : .sent c r ∈ x'.log) : r < s.outbox.packets.next ∧
      ((s.outbox.packet r).kind = PacketType.publish →
        ∃ e, s.outbox.Entered e ∧ s.outbox.Published e ∧ r = (s.outbox.entry e).msg ∧
          c.map Caller.entry = some e) := by
  refine h.log_induct (P := fun l => .sent c r ∈ l → r < s.outbox.packets.next ∧
    ((s.outbox.packet r).kind = PacketType.publish →
      ∃ e, s.outbox.Entered e ∧ s.outbox.Published e ∧ r = (s.outbox.entry e).msg ∧
        c.map Caller.entry = some e))
    (hsrc.sent c r) (fun ev l hev hl hmem => ?_) hmem
  rcases List.mem_cons.mp hmem with rfl | hmem
  · cases hev with
    | sent hop =>
      have htyped : MsgOp.Typed s.outbox (.pushSend c r) := hs.ops _ (hold _ hop)
      refine ⟨htyped.2, fun hkind => ?_⟩
      obtain ⟨e, he, hpub, hr⟩ := hsrc.carried _ r (hold _ hop) rfl hkind
      exact ⟨e, hsrc.entered _ e (hold _ hop) he hpub, hpub, hr, he⟩
  · exact hl hmem

theorem sources_step (hs : Typed s) (hone : Once s) (ho : IdsOwned s) (hsrc : Sources s)
    (hok : OwnIds s t) (h : Solo.step cfg t s = some s') : Sources s' := by
  have hland := fun e => entered_step (e := e) h
  have hstays := fun e hpub (hl : s.outbox.Entered e) => hl.msgId_eq hs hone ho hok hpub h
  obtain ⟨old, new, hx, hex⟩ := exchange_of_step h
  have hold : ∀ o, .msg o ∈ old → o.Typed s.outbox := fun o ho => hs.ops _ (hex.mem_old ho)
  have hg := (hx.typed hs fun o ho => hs.ops o (hex.mem_old ho)).1
  have hpub₀ : ∀ e < s.outbox.entries.next, s'.outbox.Published e → s.outbox.Published e :=
    fun e he hpub => ⟨he, (hg.entry e he).2.1.symm.trans hpub.2⟩
  have hkind₀ : ∀ r < s.outbox.packets.next, (s'.outbox.packet r).kind = (s.outbox.packet r).kind :=
    fun r hr => (hg.packet r hr).1
  -- the message of an entry stays its message
  have hmsg : ∀ {e r}, s.outbox.Published e ∧ r = (s.outbox.entry e).msg →
      s'.outbox.Published e ∧ r = (s'.outbox.entry e).msg := fun ⟨hpub, hr⟩ =>
    ⟨hg.published hpub, hr.trans (hg.entry _ hpub.1).1.symm⟩
  constructor
  · intro o e hmem he hpub
    rcases hex.mem_or hmem with hnew | hmem
    · rcases hx.origin hnew with ⟨o₀, l, hran, ho', -, rfl, -⟩ | hopens
      · have htyped := hold o₀ List.mem_cons_self
        rcases hran.sendsFor ho' he with ⟨hsends, -⟩ | ⟨-, hin, -⟩ | ⟨c, rfl, rfl⟩ |
          ⟨c, rfl, rfl, hnot⟩ | rfl
        · have hlt := htyped.lt (entry_of_sends hsends)
          have hmem₀ := hex.mem_old List.mem_cons_self
          exact hland e (hsrc.entered o₀ e hmem₀ hsends (hpub₀ e hlt hpub))
        · exact hland e (.inl hin)
        · exact .inl hran.mem_inflight
        · have hkind := kind_of_published hs.heaps htyped
          exact absurd (by rcases hkind with hk | hk <;> rw [hk] <;> decide) hnot
        · have hsend : (s.outbox.entry e).published = false := htyped.2
          have hpublished := (hpub₀ e htyped.1 hpub).2
          exact absurd (hsend.symm.trans hpublished) Bool.false_ne_true
      · exact absurd (hopens.sends_packet.1.symm.trans he) (Option.some_ne_none e).symm
    · have hlt := (hs.ops _ hmem : o.Typed s.outbox).lt (entry_of_sends he)
      exact hland e (hsrc.entered o e hmem he (hpub₀ e hlt hpub))
  · intro o r hmem hr hkind
    rcases hex.mem_or hmem with hnew | hmem
    · rcases hx.origin hnew with ⟨o₀, l, hran, ho', -, rfl, -⟩ | hopens
      · have htyped := hold o₀ List.mem_cons_self
        rcases hran.packet ho' hr with ⟨hr, hsends⟩ | ⟨e, hentry, -, hsends, rfl⟩ |
          ⟨e, hentry, hsends, rfl⟩ | ⟨id, -, rfl, hpacket⟩ | ⟨p, rfl, rfl, hpacket⟩
        · rw [hkind₀ r (htyped.packet_lt hr)] at hkind
          obtain ⟨e, he, hpub⟩ := hsrc.carried o₀ r (hex.mem_old List.mem_cons_self) hr hkind
          exact ⟨e, hsends.trans he, hmsg hpub⟩
        · have hlt := htyped.lt hentry
          rw [hkind₀ _ (hs.heaps.refs e hlt).1] at hkind
          have hp := (hs.heaps.packet e hlt).resolve_right fun hrel => by
            rw [hrel] at hkind
            exact absurd hkind (by decide)
          rw [hp] at hkind
          exact ⟨e, hsends, hmsg ⟨published_of_kind ho hlt hkind, hp⟩⟩
        · have hlt := htyped.lt hentry
          rw [hkind₀ _ (hs.heaps.refs e hlt).2] at hkind
          exact ⟨e, hsends, hmsg ⟨published_of_kind ho hlt hkind, rfl⟩⟩
        · rw [hpacket] at hkind
          exact absurd hkind (by rw [ControlPacket.kind]; decide)
        · rw [hpacket] at hkind
          have hnot := hsrc.reply p (hex.mem_old List.mem_cons_self)
          rw [hkind] at hnot
          exact absurd List.mem_cons_self hnot
      · exact absurd (hopens.sends_packet.2.symm.trans hr) (Option.some_ne_none r).symm
    · have hlt := (hs.ops _ hmem : o.Typed s.outbox).packet_lt hr
      rw [hkind₀ r hlt] at hkind
      obtain ⟨e, he, hpub⟩ := hsrc.carried o r hmem hr hkind
      exact ⟨e, he, hmsg hpub⟩
  · intro p hmem
    rcases hex.mem_or hmem with hnew | hmem
    · exact hx.kind_of_reply hnew
    · exact hsrc.reply p hmem
  · intro c r hmem
    have hbefore := hx.sent_source hs hsrc (fun o => hex.mem_old) hmem
    refine ⟨hg.lt_packets hbefore.1, fun hkind => ?_⟩
    rw [hkind₀ r hbefore.1] at hkind
    obtain ⟨e, hl, hpub, hr, hc⟩ := hbefore.2 hkind
    obtain ⟨hpub', hr'⟩ := hmsg ⟨hpub, hr⟩
    exact ⟨e, hland e hl, hpub', hr', hc⟩
  · intro e hpub hne
    by_cases hlt : e < s.outbox.entries.next
    · have hpub := hpub₀ e hlt hpub
      have hkeeps : ∀ {r}, s.outbox.Entered e → s.outbox.Releases (s.outbox.msgId e) r →
          s'.outbox.Entered e ∧ s'.outbox.Releases (s'.outbox.msgId e) r := fun hl hr =>
        ⟨hland e hl, (hstays e hpub hl).symm ▸ hg.releases hr⟩
      rcases hx.entry_packet hlt with hsame | ⟨r, hop, hwith, hr⟩
      · rw [hsame] at hne ⊢
        rw [(hg.entry e hlt).1] at hne
        obtain ⟨hl, hrel⟩ := hsrc.packet e hpub hne
        exact hkeeps hl hrel
      · have hrel : r < s.outbox.packets.next ∧ (s.outbox.packet r).kind = PacketType.pubrel :=
          hold _ hop
        obtain ⟨hin, hid⟩ := List.mem_filter.mp hwith
        have hid := of_decide_eq_true hid
        rw [hsrc.idOf hpub] at hid
        rw [hr]
        exact hkeeps (.inl hin) ⟨hrel.1, hrel.2, hid.symm⟩
    · exact absurd (hx.entry_of_new hpub.1 hlt) hne
  · intro e r id hmem hpub
    have hbefore : s.outbox.Entered e ∧ (s.outbox.Published e → s.outbox.msgId e = id) := by
      refine hx.log_induct (P := fun l => .removed e r id ∈ l →
        s.outbox.Entered e ∧ (s.outbox.Published e → s.outbox.msgId e = id))
        (fun hmem => ⟨.inr ⟨.removed e r id, hmem, decide_eq_true rfl⟩, hsrc.removed e r id hmem⟩)
        (fun ev l hev hl hmem => ?_) hmem
      rcases List.mem_cons.mp hmem with rfl | hmem
      · cases hev with
        | removed _ hfound =>
          exact ⟨.inl (List.mem_of_find?_eq_some hfound), fun hpub => (hsrc.idOf hpub).symm⟩
      · exact hl hmem
    have hlt : e < s.outbox.entries.next := by
      rcases hbefore.1 with hin | ⟨ev, hev, hremoves⟩
      · exact hs.lists.inflight e hin
      · refine hs.lists.log ev hev e ?_
        cases ev with
        | removed e' _ _ => exact congrArg some (of_decide_eq_true hremoves)
        | _ => exact absurd hremoves Bool.false_ne_true
    have hpub := hpub₀ e hlt hpub
    rw [hstays e hpub hbefore.1]
    exact hbefore.2 hpub

theorem sources_initial (isServer : Bool) (now : ℤ) : Sources (Solo.initial isServer now) := by
  constructor <;> simp [Solo.initial, Outbox.Published]

end Sources

/-! ## After a PUBREC -/

/-- The packet is on its way to the peer, or to an entry. -/
inductive Issued (s : Solo) (r : PacketRef) : Prop
  | carried {o : MsgOp} : .msg o ∈ s.goroutines.ops → o.packet = some r → Issued s r
  | updating : .msg (.updateInflight r) ∈ s.goroutines.ops → Issued s r
  | sent {c : Option Caller} : .sent c r ∈ s.outbox.log → Issued s r
  | packet {e : EntryRef} : e < s.outbox.entries.next → (s.outbox.entry e).p = r → Issued s r

/-- The message of the entry is not sent any more: what is sent for the entry is another packet, and
the entry has another one, or has left, or is about to get a PUBREL with its id. -/
structure Ceased (s : Solo) (e : EntryRef) : Prop where
  published : s.outbox.Published e
  entered : s.outbox.Entered e
  quiet : ∀ o, .msg o ∈ s.goroutines.ops → o.sendsFor = some e →
    o.sending s.outbox ≠ some (s.outbox.entry e).msg
  replaced : (s.outbox.entry e).p = (s.outbox.entry e).msg → e ∈ s.outbox.inflightingList →
    ∃ r, .msg (.updateInflight r) ∈ s.goroutines.ops ∧ s.outbox.Releases (s.outbox.msgId e) r

/-- Every PUBREL has the id of a message that is not sent any more. -/
def Ceases (s : Solo) : Prop :=
  ∀ r id, Issued s r → s.outbox.Releases id r → ∃ e, s.outbox.msgId e = id ∧ Ceased s e

/-- The handler of a PUBREC begins with the id of a message that was in flight. -/
def Prompted (s : Solo) (t : Solo.Turn) : Prop :=
  ∀ o ∈ t.msgOp s, ∀ id ∈ o.answers,
    ∃ e, s.outbox.Published e ∧ s.outbox.Entered e ∧ s.outbox.msgId e = id

section Ceased

variable {s s' : Solo} {t : Solo.Turn} {old new : List Op} {e : EntryRef}

theorem lt_of_issued {r : PacketRef} (h : Issued s r) (hs : Typed s) (hsrc : Sources s) :
    r < s.outbox.packets.next := by
  cases h with
  | carried hmem hr => exact (hs.ops _ hmem : MsgOp.Typed s.outbox _).packet_lt hr
  | updating hmem => exact (hs.ops _ hmem : _ ∧ _).1
  | sent hmem => exact (hsrc.sent _ r hmem).1
  | packet he hp => exact hp ▸ (hs.heaps.refs _ he).1

/-- A PUBREL was one before. -/
theorem Grows.releases_of_lt (h : Grows x x') {id : UInt16} {r : PacketRef}
    (hlt : r < x.packets.next) (hr : x'.Releases id r) : x.Releases id r := by
  obtain ⟨hkind, -, hsame⟩ := h.packet r hlt
  have hpubrel := hr.2.1
  rw [hkind] at hpubrel
  have hpacket := hsame (by rw [hpubrel]; decide)
  refine ⟨hlt, hpubrel, ?_⟩
  rw [← hpacket]
  exact hr.2.2

/-- A PUBREL is on its way from the handler of a PUBREC on. -/
theorem issued_of_step (hs : Typed s) (ho : IdsOwned s) (hsrc : Sources s) (hok : OwnIds s t)
    (h : Solo.step cfg t s = some s') {r : PacketRef} {id : UInt16} (hr : Issued s' r)
    (hrel : s'.outbox.Releases id r) :
    (Issued s r ∧ s.outbox.Releases id r) ∨ .onPubrec id ∈ t.msgOp s := by
  obtain ⟨old, new, hx, hex⟩ := exchange_of_step h
  have hold : ∀ o, .msg o ∈ old → o.Typed s.outbox := fun o ho => hs.ops _ (hex.mem_old ho)
  have hg := (hx.typed hs fun o ho => hs.ops o (hex.mem_old ho)).1
  have hbefore : Issued s r → Issued s r ∧ s.outbox.Releases id r := fun hr =>
    ⟨hr, hg.releases_of_lt (lt_of_issued hr hs hsrc) hrel⟩
  have hnotMsg : ∀ e < s.outbox.entries.next, r ≠ (s.outbox.entry e).msg := by
    rintro e he rfl
    have hkind := (hg.releases_of_lt (hs.heaps.refs e he).2 hrel).2.1
    exact kind_msg_ne_pubrel hs ho he hkind
  cases hr with
  | @carried o hmem hr =>
    rcases hex.mem_or hmem with hnew | hmem
    · rcases hx.origin hnew with ⟨o₀, l, hran, ho', hop, rfl, -⟩ | hopens
      · have htyped := hold o₀ List.mem_cons_self
        rcases hran.packet ho' hr with ⟨hr, -⟩ | ⟨e, hentry, -, -, rfl⟩ | ⟨e, hentry, -, rfl⟩ |
          ⟨id', rfl, rfl, hpacket⟩ | ⟨p, rfl, rfl, hpacket⟩
        · exact .inl (hbefore (.carried (hex.mem_old List.mem_cons_self) hr))
        · exact .inl (hbefore (.packet (htyped.lt hentry) rfl))
        · exact absurd rfl (hnotMsg e (htyped.lt hentry))
        · have hid := hrel.2.2
          rw [hpacket] at hid
          obtain rfl : id' = id := hid
          exact .inr hop
        · have hkind := hrel.2.1
          rw [hpacket] at hkind
          have hnot := hsrc.reply p (hex.mem_old List.mem_cons_self)
          rw [hkind] at hnot
          exact absurd (by decide) hnot
      · exact absurd (hopens.sends_packet.2.symm.trans hr) (Option.some_ne_none r).symm
    · exact .inl (hbefore (.carried hmem hr))
  | updating hmem =>
    rcases hex.mem_or hmem with hnew | hmem
    · rcases hx.origin hnew with ⟨o₀, l, hran, ho', hop, rfl, -⟩ | hopens
      · generalize s'.outbox = x' at hran hrel
        cases hran.follows ho' with
        | updateInflight id' =>
          cases hran
          have hid := hrel.2.2
          rw [Outbox.newPacket_self] at hid
          obtain rfl : id' = id := hid
          exact .inr hop
      · cases hopens with
        | starts hstarts => exact nomatch hstarts
    · exact .inl (hbefore (.updating hmem))
  | @sent c hmem =>
    refine .inl (hbefore ?_)
    refine hx.log_induct (P := fun l => .sent c r ∈ l → Issued s r) .sent
      (fun ev l hev hl hmem => ?_) hmem
    rcases List.mem_cons.mp hmem with rfl | hmem
    · cases hev with
      | sent hop => exact .carried (hex.mem_old hop) rfl
    · exact hl hmem
  | @packet e he hp =>
    by_cases hlt : e < s.outbox.entries.next
    · rcases hx.entry_packet hlt with hsame | ⟨r', hop, -, hr'⟩
      · exact .inl (hbefore (.packet hlt (hsame.symm.trans hp)))
      · obtain rfl := hr'.symm.trans hp
        exact .inl (hbefore (.updating (hex.mem_old hop)))
    · -- a new entry has a message that is not a PUBREL
      have hs' := typed_step hs h
      have hkind := hrel.2.1
      rw [← hp, hx.entry_of_new he hlt] at hkind
      exact absurd hkind (kind_msg_ne_pubrel hs' (idsOwned_step hs ho hok h) he)

theorem MsgOp.sending_of_packet {o : MsgOp} {r : PacketRef} (h : o.packet = some r) :
    o.sending x = some r := by
  cases o with
  | channelSend c r' | pushSend c r' => exact h
  | _ => exact absurd h (by simp [MsgOp.packet])

/-- An operation sends the packet that it has at hand, or that of its entry. -/
theorem MsgOp.sending_of_sends {o : MsgOp} (h : o.sendsFor = some e) :
    (∃ r, o.packet = some r) ∨
      o.packet = none ∧ ∀ x : Outbox, o.sending x = some (x.entry e).p := by
  cases o with
  | sendEntry c | resend e' _ =>
    obtain rfl := Option.some.inj h
    exact .inr ⟨rfl, fun x => rfl⟩
  | channelSend c r | pushSend c r => exact .inl ⟨r, rfl⟩
  | _ => exact absurd h (by simp [MsgOp.sendsFor])

theorem Exchange.updateInflight (h : Exchange cfg s t old new x' f') {r : PacketRef}
    (hmem : .msg (.updateInflight r) ∈ old) : x' = s.outbox.updateInflight r := by
  cases h with
  | msg _ hran =>
    obtain rfl := Op.msg.inj (List.mem_singleton.mp hmem)
    cases hran
    rfl
  | stop _ _ => exact absurd (List.mem_singleton.mp hmem) (by simp)
  | _ => exact absurd hmem List.not_mem_nil

/-- An entry that has a PUBREL does not get its message back. -/
theorem Exchange.entry_packet_ne (h : Exchange cfg s t old new x' f') (hs : Typed s)
    (hold : ∀ o ∈ old, o ∈ s.goroutines.ops) (hpub : s.outbox.Published e)
    (hne : (s.outbox.entry e).p ≠ (s.outbox.entry e).msg) :
    (x'.entry e).p ≠ (s.outbox.entry e).msg := by
  rcases h.entry_packet hpub.1 with hsame | ⟨r, hop, -, hr⟩
  · rw [hsame]
    exact hne
  · have hrel : r < s.outbox.packets.next ∧ (s.outbox.packet r).kind = PacketType.pubrel :=
      hs.ops _ (hold _ hop)
    rw [hr]
    rintro rfl
    have hkind := hs.heaps.published e hpub.1 hpub.2
    rw [hrel.2] at hkind
    exact absurd hkind (by decide)

theorem ceased_step (hs : Typed s) (hone : Once s) (ho : IdsOwned s) (hsrc : Sources s)
    (hok : OwnIds s t) (hap : Apart s t) (h : Solo.step cfg t s = some s') (hq : Ceased s e) :
    Ceased s' e := by
  have hid := hq.entered.msgId_eq hs hone ho hok hq.published h
  have hland := entered_step h hq.entered
  obtain ⟨old, new, hx, hex⟩ := exchange_of_step h
  have hold : ∀ o ∈ old, o ∈ s.goroutines.ops := fun o => hex.mem_old
  have hg := (hx.typed hs fun o ho => hs.ops o (hold o ho)).1
  have hpub := hq.published
  have hmsg : (s'.outbox.entry e).msg = (s.outbox.entry e).msg := (hg.entry e hpub.1).1
  have hnever : ∀ o, .msg o ∈ old → o.enters e ≠ true := fun o hmem =>
    Bool.eq_false_iff.mp (hq.entered.not_enters hone (hold _ hmem))
  -- what is sent for the entry is not its message, and does not become it
  have hkeeps : ∀ o : MsgOp, o.sendsFor = some e →
      o.sending s.outbox ≠ some (s.outbox.entry e).msg →
      o.sending s'.outbox ≠ some (s'.outbox.entry e).msg := by
    intro o he hne
    rw [hmsg]
    rcases MsgOp.sending_of_sends he with ⟨r, hr⟩ | ⟨-, hp⟩
    · rwa [MsgOp.sending_of_packet hr] at hne ⊢
    · rw [hp] at hne ⊢
      have hold_ne := hx.entry_packet_ne hs hold hpub fun heq => hne (congrArg some heq)
      exact fun heq => hold_ne (Option.some.inj heq)
  refine ⟨hg.published hpub, hland, fun o hmem he => ?_, fun hp hin => ?_⟩
  · rcases hex.mem_or hmem with hnew | hmem
    · rcases hx.origin hnew with ⟨o₀, l, hran, ho', hop, rfl, -⟩ | hopens
      · have hmem₀ := List.mem_cons_self (a := Op.msg o₀) (l := [])
        rcases hran.sendsFor ho' he with ⟨hsends, r, hr, hsending⟩ | ⟨⟨now, rfl⟩, hin, hnone⟩ |
          ⟨c, rfl, rfl⟩ | ⟨c, rfl, rfl, -⟩ | rfl
        · have hne := hq.quiet o₀ (hold _ hmem₀) hsends
          rw [hmsg, MsgOp.sending_of_packet hr, ← hsending]
          exact hne
        · -- the entry is collected, so it has another packet
          have hne : (s.outbox.entry e).p ≠ (s.outbox.entry e).msg := by
            intro hp
            obtain ⟨r, hupdates, -⟩ := hq.replaced hp hin
            have hnot := (hap _ hop).2 now rfl _ hupdates
            exact Bool.false_ne_true hnot.symm
          refine hkeeps o he ?_
          rcases MsgOp.sending_of_sends he with ⟨r, hr⟩ | ⟨-, hp⟩
          · exact absurd (hnone.symm.trans hr) (Option.some_ne_none r).symm
          · rw [hp]
            exact fun heq => hne (Option.some.inj heq)
        · exact absurd (decide_eq_true rfl) (hnever _ hmem₀)
        · exact absurd (decide_eq_true rfl) (hnever _ hmem₀)
        · exact absurd (decide_eq_true rfl) (hnever _ hmem₀)
      · exact absurd (hopens.sends_packet.1.symm.trans he) (Option.some_ne_none e).symm
    · exact hkeeps o he (hq.quiet o hmem he)
  · rw [hmsg] at hp
    have hp₀ : (s.outbox.entry e).p = (s.outbox.entry e).msg := by
      by_contra hne
      exact hx.entry_packet_ne hs hold hpub hne hp
    have hin₀ : e ∈ s.outbox.inflightingList := by
      rcases hx.inflight_of_mem hin with hin | ⟨c, hop, rfl⟩
      · exact hin
      · exact absurd (decide_eq_true rfl) (hnever _ hop)
    obtain ⟨r, hupdates, hrel⟩ := hq.replaced hp₀ hin₀
    rcases hex.mem_or_of_mem hupdates with hdone | hstays
    · -- the PUBREL has taken the place of the message
      have hwith : e ∈ s.outbox.withId r := by
        refine List.mem_filter.mpr ⟨hin₀, decide_eq_true ?_⟩
        rw [hsrc.idOf hpub]
        exact hrel.2.2.symm
      rw [hx.updateInflight hdone, updateInflight_self hwith] at hp
      have hkind := hs.heaps.published e hpub.1 hpub.2
      rw [← hp, hrel.2.1] at hkind
      exact absurd hkind (by decide)
    · rw [hid]
      exact ⟨r, hstays, hg.releases hrel⟩

/-- The handler of a PUBREC begins: it is about to give the entries with its id a PUBREL, and
nobody else is going to send anything for an entry. -/
theorem pubrec_step {id : UInt16} (hop : .onPubrec id ∈ t.msgOp s)
    (h : Solo.step cfg t s = some s') :
    (∃ r, .msg (.updateInflight r) ∈ s'.goroutines.ops ∧ s'.outbox.Releases id r) ∧
      ∀ o, .msg o ∈ s'.goroutines.ops → o.sendsFor = some e → .msg o ∈ s.goroutines.ops := by
  obtain ⟨i, rfl, hnext⟩ := nextOp_of_msgOp hop
  obtain ⟨l, hran, hex⟩ := ran_of_nextOp hnext h
  generalize s'.outbox = x' at hran ⊢
  cases hran
  refine ⟨⟨s.outbox.packets.next, hex.mem_new (List.mem_cons_of_mem _ List.mem_cons_self),
    Nat.lt_succ_self _, ?_⟩, fun o hmem he => ?_⟩
  · rw [Outbox.newPacket_self]
    exact ⟨rfl, rfl⟩
  · refine (hex.mem_or hmem).resolve_left fun hnew => ?_
    rcases List.mem_pair.mp hnew with heq | heq
    · obtain rfl := Op.msg.inj heq
      exact Option.some_ne_none e he.symm
    · obtain rfl := Op.msg.inj heq
      exact Option.some_ne_none e he.symm

theorem ceases_step (hs : Typed s) (hone : Once s) (ho : IdsOwned s) (hsrc : Sources s)
    (hset : Ceases s) (hok : OwnIds s t) (hap : Apart s t) (hprompt : Prompted s t)
    (h : Solo.step cfg t s = some s') : Ceases s' := by
  intro r id hr hrel
  rcases issued_of_step hs ho hsrc hok h hr hrel with ⟨hr, hrel⟩ | hop
  · obtain ⟨e, rfl, hq⟩ := hset r id hr hrel
    exact ⟨e, hq.entered.msgId_eq hs hone ho hok hq.published h,
      ceased_step hs hone ho hsrc hok hap h hq⟩
  · obtain ⟨e, hpub, hl, hid⟩ := hprompt _ hop id rfl
    obtain ⟨old, new, hx, hex⟩ := exchange_of_step h
    have hg := (hx.typed hs fun o ho => hs.ops o (hex.mem_old ho)).1
    have hid' := (hl.msgId_eq hs hone ho hok hpub h).trans hid
    obtain ⟨hupdates, hsends⟩ := pubrec_step (e := e) hop h
    refine ⟨e, hid', hg.published hpub, entered_step h hl, fun o hmem he => ?_, fun _ _ => ?_⟩
    · exact absurd hid ((hap _ hop).1 id rfl _ (hsends o hmem he) e he)
    · rw [hid']
      exact hupdates

end Ceased

/-! ## The order -/

/-- Packet `q` may come after packet `p`: it is not a PUBLISH after a PUBREL with its id. -/
def MayFollow (q p : ControlPacket) : Prop :=
  p.kind = PacketType.pubrel → q.kind = PacketType.publish → q.messageID ≠ p.messageID

instance (q p : ControlPacket) : Decidable (MayFollow q p) :=
  inferInstanceAs (Decidable (_ → _ → _))

def Event.sentRef : Event → Option PacketRef
  | sent _ r => some r
  | _ => none

/-- What `Channel.Send` has pushed to `iSendList`, latest first. -/
def Outbox.sents (x : Outbox) : List PacketRef := x.log.filterMap Event.sentRef

theorem mem_sents {r : PacketRef} (h : r ∈ x.sents) : ∃ c, .sent c r ∈ x.log := by
  obtain ⟨ev, hev, hr⟩ := List.mem_filterMap.mp h
  cases ev with
  | sent c r' =>
    obtain rfl := Option.some.inj hr
    exact ⟨c, hev⟩
  | _ => exact absurd hr (by simp [Event.sentRef])

/-- What was sent is in order. -/
def InOrder (x : Outbox) : Prop := x.sents.Pairwise fun q p => MayFollow (x.packet q) (x.packet p)

section Order

variable {s s' : Solo} {t : Solo.Turn} {old new : List Op}

/-- What has been sent stays as it was sent. -/
theorem Exchange.sent_packet_eq (h : Exchange cfg s t old new x' f') (hs : Typed s)
    (hone : Once s) (ho : IdsOwned s) (hsrc : Sources s) (hok : OwnIds s t)
    (hold : ∀ o ∈ old, o ∈ s.goroutines.ops) {r : PacketRef} (hmem : r ∈ x'.sents) :
    (x'.packet r).kind = (s.outbox.packet r).kind ∧
      ((s.outbox.packet r).kind ∈ [PacketType.publish, PacketType.pubrel] →
        x'.packet r = s.outbox.packet r) := by
  have hg := (h.typed hs fun o ho => hs.ops o (hold o ho)).1
  obtain ⟨c, hsent⟩ := mem_sents hmem
  obtain ⟨hlt, hsource⟩ := h.sent_source hs hsrc hold hsent
  obtain ⟨hkind, -, hsame⟩ := hg.packet r hlt
  refine ⟨hkind, fun hin => ?_⟩
  rcases List.mem_pair.mp hin with hpublish | hpubrel
  · obtain ⟨e, hl, hpub, rfl, -⟩ := hsource hpublish
    exact (hl.numbered hone hpub).packet_eq hs ho hok.2.1 h hold
  · exact hsame (by rw [hpubrel]; decide)

/-- A PUBLISH that is about to be sent may come after what was sent before it. -/
theorem mayFollow_of_pushSend (hs : Typed s) (hone : Once s) (ho : IdsOwned s) (hsrc : Sources s)
    (hset : Ceases s) {c : Option Caller} {q p : PacketRef}
    (hop : .msg (.pushSend c q) ∈ s.goroutines.ops) (hp : Issued s p) :
    MayFollow (s.outbox.packet q) (s.outbox.packet p) := by
  intro hpubrel hpublish hid
  obtain ⟨e, he, hpub, rfl⟩ := hsrc.carried _ q hop rfl hpublish
  have hl := hsrc.entered _ e hop he hpub
  obtain ⟨e', hid', hq⟩ := hset p _ hp ⟨lt_of_issued hp hs hsrc, hpubrel, rfl⟩
  have hnumbered := hl.numbered hone hpub
  have hnumbered' := hq.entered.numbered hone hq.published
  obtain rfl := ho.unique e e' _ (.numbered hnumbered hid) (.numbered hnumbered' hid')
  exact hq.quiet _ hop he rfl

theorem inOrder_step (hs : Typed s) (hone : Once s) (ho : IdsOwned s) (hsrc : Sources s)
    (hset : Ceases s) (hok : OwnIds s t) (hin : InOrder s.outbox)
    (h : Solo.step cfg t s = some s') : InOrder s'.outbox := by
  obtain ⟨old, new, hx, hex⟩ := exchange_of_step h
  have hold : ∀ o ∈ old, o ∈ s.goroutines.ops := fun o => hex.mem_old
  have hpairs : s'.outbox.sents.Pairwise fun q p =>
      MayFollow (s.outbox.packet q) (s.outbox.packet p) := by
    refine (hx.log_induct (P := fun l => ((l.filterMap Event.sentRef).Pairwise fun q p =>
      MayFollow (s.outbox.packet q) (s.outbox.packet p)) ∧ ∀ c p, .sent c p ∈ l → Issued s p)
      ⟨hin, fun c p => .sent⟩ ?_).1
    rintro ev l hev ⟨hl, hissued⟩
    cases hev with
    | @sent c q hop =>
      refine ⟨List.pairwise_cons.mpr ⟨fun p hp => ?_, hl⟩, fun c' p hmem => ?_⟩
      · obtain ⟨ev, hev, hr⟩ := List.mem_filterMap.mp hp
        cases ev with
        | sent c' p' =>
          obtain rfl := Option.some.inj hr
          exact mayFollow_of_pushSend hs hone ho hsrc hset (hold _ hop) (hissued c' p' hev)
        | _ => exact absurd hr (by simp [Event.sentRef])
      · rcases List.mem_cons.mp hmem with heq | hmem
        · obtain ⟨-, rfl⟩ := Event.sent.inj heq
          exact .carried (hold _ hop) rfl
        · exact hissued c' p hmem
    | _ => exact ⟨hl, fun c p hmem => hissued c p ((List.mem_cons.mp hmem).resolve_left (by simp))⟩
  refine hpairs.imp_of_mem fun {q p} hq hp hfollow hpubrel hpublish => ?_
  obtain ⟨hkind, hsame⟩ := hx.sent_packet_eq hs hone ho hsrc hok hold hq
  obtain ⟨hkind', hsame'⟩ := hx.sent_packet_eq hs hone ho hsrc hok hold hp
  rw [hkind] at hpublish
  rw [hkind'] at hpubrel
  rw [hsame (by rw [hpublish]; decide), hsame' (by rw [hpubrel]; decide)]
  exact hfollow hpubrel hpublish

end Order

/-! ## The send list -/

def Event.writtenRef : Event → Option PacketRef
  | written r => some r
  | _ => none

/-- What the send loop has written, latest first. -/
def Outbox.writtens (x : Outbox) : List PacketRef := x.log.filterMap Event.writtenRef

/-- The packet that a turn writes. -/
def Turn.writes (s : Solo) : Solo.Turn → Option PacketRef
  | .sendRound true => if s.flags.sendLoop.interrupted then none else s.outbox.iSendList.head?
  | _ => none

/-- What was written and what is still to be written was sent in this order. -/
def Queued (x : Outbox) : Prop := List.Sublist (x.iSendList.reverse ++ x.writtens) x.sents

section Queue

variable {s s' : Solo} {t : Solo.Turn} {old new : List Op}

theorem updateInflight_refs (r : PacketRef) (x : Outbox) :
    (x.updateInflight r).sents = x.sents ∧ (x.updateInflight r).writtens = x.writtens :=
  updateInflight_induct (P := fun y => y.sents = x.sents ∧ y.writtens = x.writtens) r x
    ⟨rfl, rfl⟩ fun _ _ _ h => h

theorem Exchange.queued (h : Exchange cfg s t old new x' f') (hq : Queued s.outbox) :
    Queued x' := by
  cases h with
  | msg _ hran =>
    cases hran with
    | pushSend c r =>
      show List.Sublist ((s.outbox.iSendList ++ [r]).reverse ++ _) _
      rw [List.reverse_append, List.reverse_singleton]
      exact hq.cons_cons r
    | send e _ =>
      obtain ⟨_, _, _, _, hsend, hlog⟩ := assignToken_fields e (s.outbox.packet _) s.outbox
      rw [Queued, Outbox.writtens, Outbox.sents, hsend, hlog]
      exact hq
    | updateInflight r =>
      obtain ⟨_, _, _, hsend, _⟩ := updateInflight_lists r s.outbox
      obtain ⟨hsents, hwrittens⟩ := updateInflight_refs r s.outbox
      rw [Queued, hsend, hsents, hwrittens]
      exact hq
    | _ => exact hq
  | @written r rest hlist =>
    have hmoved : (r :: rest).reverse ++ s.outbox.writtens =
        rest.reverse ++ (r :: s.outbox.writtens) := by
      rw [List.reverse_cons, List.append_assoc, List.singleton_append]
    rw [Queued, hlist, hmoved] at hq
    exact hq
  | @notWritten r rest hlist =>
    have hlost : List.Sublist rest.reverse (r :: rest).reverse :=
      (List.sublist_cons_self r rest).reverse
    rw [Queued, hlist] at hq
    exact (hlost.append_right _).trans hq
  | _ => exact hq

/-- Only a round of the send loop writes. -/
theorem Exchange.writtens (h : Exchange cfg s t old new x' f') (ht : t ≠ .sendRound true) :
    x'.writtens = s.outbox.writtens := by
  cases h with
  | msg _ hran =>
    cases hran with
    | send e _ =>
      obtain ⟨_, _, _, _, _, hlog⟩ := assignToken_fields e (s.outbox.packet _) s.outbox
      rw [Outbox.writtens, Outbox.writtens, hlog]
    | updateInflight r => exact (updateInflight_refs r s.outbox).2
    | _ => rfl
  | written _ => exact absurd rfl ht
  | _ => rfl

/-- A turn writes the first packet of the send list, or nothing. -/
theorem writtens_step (h : Solo.step cfg t s = some s') :
    s'.outbox.writtens = (t.writes s).toList ++ s.outbox.writtens := by
  by_cases ht : t = .sendRound true
  · subst ht
    rw [Solo.step] at h
    split at h
    · rw [Solo.sendRound] at h
      rw [Turn.writes]
      split at h
      · next hinterrupted =>
        obtain ⟨-, rfl⟩ := begin_eq_some h
        rw [if_pos hinterrupted]
        rfl
      · next hinterrupted =>
        rw [if_neg hinterrupted]
        split at h
        · exact absurd h (by simp)
        · next r rest hlist =>
          rw [if_pos rfl] at h
          split at h
          · exact absurd h (by simp)
          · obtain ⟨-, rfl⟩ := begin_eq_some h
            rw [hlist]
            rfl
    · exact absurd h (by simp)
  · obtain ⟨old, new, hx, -⟩ := exchange_of_step h
    have hnone : t.writes s = none := by
      cases t with
      | sendRound written =>
        cases written with
        | true => exact absurd rfl ht
        | false => rfl
      | _ => rfl
    rw [hx.writtens ht, hnone]
    rfl

end Queue

/-! ## Runs -/

/-- What holds of a session that numbers its messages itself. -/
structure Sourced (s : Solo) : Prop where
  typed : Typed s
  once : Once s
  ids : IdsOwned s
  sources : Sources s
  queued : Queued s.outbox

/-- What holds of a session whose turns keep apart. -/
structure Disciplined (s : Solo) : Prop extends Sourced s where
  ceases : Ceases s
  order : InOrder s.outbox

section Runs

variable {s s' : Solo} {t : Solo.Turn} {e : EntryRef}

theorem sourced_initial (isServer : Bool) (now : ℤ) : Sourced (Solo.initial isServer now) where
  typed := typed_initial isServer now
  once e := by simp [Solo.initial, Outbox.uses]
  ids := idsOwned_initial isServer now
  sources := sources_initial isServer now
  queued := List.Sublist.refl []

theorem disciplined_initial (isServer : Bool) (now : ℤ) :
    Disciplined (Solo.initial isServer now) where
  toSourced := sourced_initial isServer now
  ceases _ _ _ hrel := absurd hrel.1 (Nat.not_lt_zero _)
  order := List.Pairwise.nil

theorem sourced_step (hd : Sourced s) (hok : OwnIds s t) (h : Solo.step cfg t s = some s') :
    Sourced s' where
  typed := typed_step hd.typed h
  once := once_step hd.typed hd.once h
  ids := idsOwned_step hd.typed hd.ids hok h
  sources := sources_step hd.typed hd.once hd.ids hd.sources hok h
  queued := by
    obtain ⟨old, new, hx, -⟩ := exchange_of_step h
    exact hx.queued hd.queued

theorem disciplined_step (hd : Disciplined s) (hok : OwnIds s t) (hap : Apart s t)
    (hprompt : Prompted s t) (h : Solo.step cfg t s = some s') : Disciplined s' where
  toSourced := sourced_step hd.toSourced hok h
  ceases := ceases_step hd.typed hd.once hd.ids hd.sources hd.ceases hok hap hprompt h
  order := inOrder_step hd.typed hd.once hd.ids hd.sources hd.ceases hok hd.order h

/-- What is written was sent, and stays as it was. -/
theorem Sourced.written_packet_eq (hd : Sourced s) (hok : OwnIds s t)
    (h : Solo.step cfg t s = some s') {r : PacketRef} (hr : r ∈ s'.outbox.writtens)
    (hkind : (s.outbox.packet r).kind ∈ [PacketType.publish, PacketType.pubrel]) :
    s'.outbox.packet r = s.outbox.packet r := by
  obtain ⟨old, new, hx, hex⟩ := exchange_of_step h
  have hsent : r ∈ s'.outbox.sents :=
    (hx.queued hd.queued).subset (List.mem_append_right _ hr)
  exact (hx.sent_packet_eq hd.typed hd.once hd.ids hd.sources hok (fun o => hex.mem_old) hsent).2
    hkind

/-- A message that was written is one that was in flight. -/
theorem Sourced.source (hd : Sourced s) {r : PacketRef} (hr : r ∈ s.outbox.writtens)
    (hkind : (s.outbox.packet r).kind = PacketType.publish) :
    ∃ e, s.outbox.Entered e ∧ s.outbox.Published e ∧ r = (s.outbox.entry e).msg := by
  obtain ⟨c, hsent⟩ := mem_sents (hd.queued.subset (List.mem_append_right _ hr))
  obtain ⟨e, hl, hpub, hmsg, -⟩ := (hd.sources.sent c r hsent).2 hkind
  exact ⟨e, hl, hpub, hmsg⟩

/-- A message is written for its entry only. -/
theorem Sourced.count_writtens_le (hd : Sourced s) (hpub : s.outbox.Published e) :
    s.outbox.writtens.count (s.outbox.entry e).msg ≤
      s.outbox.log.countP (Event.pushes e (s.outbox.entry e).msg) := by
  have hkind : (s.outbox.packet (s.outbox.entry e).msg).kind = PacketType.publish :=
    hd.typed.heaps.published e hpub.1 hpub.2
  have hsublist := (List.sublist_append_right _ _).trans hd.queued
  refine (hsublist.count_le _).trans ?_
  rw [Outbox.sents, List.count_filterMap]
  refine List.countP_mono_left fun ev hev hsent => ?_
  cases ev with
  | sent c r =>
    obtain rfl : r = (s.outbox.entry e).msg := by simpa [Event.sentRef] using hsent
    obtain ⟨e', -, hpub', hmsg, hc⟩ := (hd.sources.sent c _ hev).2 hkind
    obtain rfl := hd.ids.msg e e' hpub.1 hpub'.1 hmsg
    obtain ⟨k, rfl, hk⟩ := Option.map_eq_some_iff.mp hc
    exact decide_eq_true ⟨hk, rfl⟩
  | _ => exact absurd hsent (by simp [Event.sentRef])

/-- A PUBREC comes for a message that was written. -/
def Answered (s : Solo) (t : Solo.Turn) : Prop :=
  ∀ p ∈ t.received, p.1.kind = PacketType.pubrec → ∃ r ∈ s.outbox.writtens,
    (s.outbox.packet r).kind = PacketType.publish ∧
      (s.outbox.packet r).messageID = p.1.messageID

instance (s : Solo) (t : Solo.Turn) : Decidable (Answered s t) :=
  inferInstanceAs (Decidable (∀ p ∈ t.received, _ → ∃ r ∈ _, _))

/-- An answer with the id of a message that was in flight. -/
def Answer (s : Solo) (kind : UInt8) (id : UInt16) : Prop :=
  kind = PacketType.pubrec → ∃ e, s.outbox.Published e ∧ s.outbox.Entered e ∧ s.outbox.msgId e = id

/-- In a run whose turns keep apart, and whose peer sends a PUBREC for what was written to it, what
is written has no PUBLISH after a PUBREL with its id. -/
theorem publish_before_pubrel
    (h : (Solo.system cfg).Reach (fun s t => OwnIds s t ∧ Apart s t ∧ Answered s t) s) :
    s.outbox.writtens.Pairwise fun q p => MayFollow (s.outbox.packet q) (s.outbox.packet p) := by
  have hinv : Disciplined s ∧ Heard (Answer s) s := by
    refine h.invariant (I := fun s => Disciplined s ∧ Heard (Answer s) s) ?_ ?_
    · rintro s ⟨isServer, now, rfl⟩
      exact ⟨disciplined_initial isServer now, heard_initial _ isServer now⟩
    · rintro s t s' ⟨hd, hh⟩ ⟨hok, hap, hans⟩ hstep
      obtain ⟨old, new, hx, hex⟩ := exchange_of_step hstep
      have hg := (hx.typed hd.typed fun o ho => hd.typed.ops o (hex.mem_old ho)).1
      have hgrow : ∀ kind id, Answer s kind id → Answer s' kind id := by
        intro kind id hanswer hkind
        obtain ⟨e, hpub, hl, rfl⟩ := hanswer hkind
        exact ⟨e, hg.published hpub, entered_step hstep hl,
          hl.msgId_eq hd.typed hd.once hd.ids hok hpub hstep⟩
      refine ⟨disciplined_step hd hok hap (fun o hop id hid => ?_) hstep,
        heard_step hd.typed hh hgrow (fun p hp _ => hgrow _ _ fun hkind => ?_) hstep⟩
      · cases o with
        | onPubrec id' =>
          obtain rfl := Option.some.inj hid
          exact hh.onPubrec id' (mem_ops_of_msgOp hop) rfl
        | _ => exact absurd hid (by simp [MsgOp.answers])
      · obtain ⟨r, hr, hpublish, hid⟩ := hans p hp hkind
        obtain ⟨e, hl, hpub, rfl⟩ := hd.source hr hpublish
        exact ⟨e, hpub, hl, hid⟩
  exact hinv.1.order.sublist ((List.sublist_append_right _ _).trans hinv.1.queued)

end Runs

/-- The send loop writes a packet. -/
def writeRound : List Solo.Turn := .sendRound true :: Solo.runs 1 1

/-- Ten seconds later a tick sends what is in flight again. -/
def resendRound : List Solo.Turn := [.elapse 10000000000, .tick false] ++ Solo.runs 2 11

/-- A QoS 2 message is sent twice, then the PUBREC comes, and the PUBREL is sent twice. -/
def sentTwice : List Solo.Turn :=
  qos2Call ++ writeRound ++ writeRound ++ resendRound ++ writeRound ++
    [.recvPacket (Solo.inboundPubrec 1) true] ++ Solo.runs 0 5 ++ writeRound ++ resendRound ++
    writeRound

theorem publish_before_pubrel_twice : ∃ s : Solo,
    (s.outbox.writtens.map fun r => (s.outbox.packet r).kind) = [PacketType.pubrel,
      PacketType.pubrel, PacketType.publish, PacketType.publish, PacketType.connack] ∧
    s.outbox.writtens.Pairwise fun q p => MayFollow (s.outbox.packet q) (s.outbox.packet p) := by
  have hok : (Solo.system {}).checkAll
      (fun s t => decide (OwnIds s t ∧ Apart s t ∧ Answered s t)) sentTwice
      (Solo.initial true 0) = true := by
    decide +kernel
  have hend : ((Solo.system {}).exec sentTwice (Solo.initial true 0)).any (fun s =>
      (s.outbox.writtens.map fun r => (s.outbox.packet r).kind) = [PacketType.pubrel,
        PacketType.pubrel, PacketType.publish, PacketType.publish, PacketType.connack]) = true := by
    decide +kernel
  obtain ⟨s, hs, hc⟩ := StepSystem.exists_reach_of_any (Solo.initial_init {} true 0)
    (StepSystem.along_of_check (fun _ _ h => of_decide_eq_true h) hok) hend
  exact ⟨s, of_decide_eq_true hc, publish_before_pubrel hs⟩

end MqttBroker.Solo

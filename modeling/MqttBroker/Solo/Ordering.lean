import MqttBroker.Solo.Alone
import MqttBroker.Solo.Conservation

/-!
# The order of a session's messages

A message that finds no room waits in `peddingMsgList` and leaves it by a refill. `Publish`
tests the window and the send list, not whether something is waiting, and a refill is between
the pending list and the send list for a while, where another one can overtake it. Where
neither happens, messages are pushed to the send list in the order in which `Publish` has
returned for them: the invariant says, for every place that the newer of two messages can be
in, where the older one is.
-/

namespace MqttBroker.Solo

variable {cfg : Config} {f f' : Flags} {x x' : Outbox}

/-! ## Older messages -/

/-- `Publish` returned without an error for `a` before it was called for `b`. -/
def Outbox.Older (x : Outbox) (a b : EntryRef) : Prop :=
  List.Sublist [.called b, .returned a none] x.log

/-- `Channel.Send` pushed something for entry `e`. -/
def Event.transmits (e : EntryRef) : Event → Bool
  | sent (some c) _ => c.entry = e
  | _ => false

/-- Before every transmission for `b`, the packet `r` was pushed for `a`. -/
def SentBefore (a : EntryRef) (r : PacketRef) (b : EntryRef) : List Event → Prop
  | [] => True
  | ev :: l =>
    (ev.transmits b = true → ∃ ev' ∈ l, ev'.pushes a r = true) ∧ SentBefore a r b l

/-- The message of the entry was pushed. -/
def Outbox.Pushed (x : Outbox) (e : EntryRef) : Prop :=
  ∃ ev ∈ x.log, ev.pushes e (x.entry e).msg = true

/-! ## Waiting messages -/

/-- Who an operation puts in flight or sends a packet for. -/
def MsgOp.caller : MsgOp → Option Caller
  | insert2Inflight c | newInflight c | pushInflight c | sendEntry c => some c
  | channelSend c _ | pushSend c _ => c
  | _ => none

/-- A refill has popped the entry and not yet pushed its packet. -/
def Op.refills (e : EntryRef) : Op → Bool
  | .msg o => o.caller = some (.refill e)
  | .stop _ => false

/-- The entry is about to be sent, with the packet that it has then. -/
def Op.sends (e : EntryRef) : Op → Bool
  | .msg (.sendEntry c) => c.entry = e
  | _ => false

/-- A refill has the entry. -/
def Refilled (s : Solo) (e : EntryRef) : Prop := ∃ o ∈ s.goroutines.ops, o.refills e = true

/-- The entry is pending, or a refill has it. -/
def Waits (s : Solo) (e : EntryRef) : Prop := e ∈ s.outbox.peddingMsgList ∨ Refilled s e

/-- The operation does not let a newer message pass an older one. A test of `Publish` that
finds room finds no older message that waits, a refill pops no message while another has an
older one, and a session whose `peddingChan` was closed is closed; and no PUBREC comes for an
entry before its PUBLISH was sent. -/
def MsgOp.KeepsOrder (cfg : Config) (s : Solo) : MsgOp → Prop
  | isClosed _ => s.flags.peddingClosed = true → s.flags.isClosed
  | sendLen e => s.outbox.iSendList.length < cfg.maxSizeOfPublishMsg →
      ∀ a < s.outbox.entries.next, s.outbox.Older a e → ¬ Waits s a
  | popPedding => ∀ e ∈ s.outbox.peddingMsgList.head?,
      ∀ a < s.outbox.entries.next, s.outbox.Older a e → ¬ Refilled s a
  | updateInflight r => ∀ e ∈ s.outbox.withId r, ∀ o ∈ s.goroutines.ops, o.sends e = false
  | _ => True

def KeepsOrder (cfg : Config) (s : Solo) (t : Solo.Turn) : Prop :=
  ∀ o ∈ t.msgOp s, o.KeepsOrder cfg s

instance (x : Outbox) (a b : EntryRef) : Decidable (x.Older a b) :=
  inferInstanceAs (Decidable (List.Sublist _ _))

instance (s : Solo) (e : EntryRef) : Decidable (Refilled s e) :=
  inferInstanceAs (Decidable (∃ o ∈ _, _))

instance (s : Solo) (e : EntryRef) : Decidable (Waits s e) := inferInstanceAs (Decidable (_ ∨ _))

instance decidableKeepsOrder (cfg : Config) (s : Solo) :
    (o : MsgOp) → Decidable (o.KeepsOrder cfg s)
  | .isClosed _ => inferInstanceAs (Decidable (_ → _))
  | .sendLen _ => inferInstanceAs (Decidable (_ → ∀ a < _, _))
  | .popPedding => inferInstanceAs (Decidable (∀ e ∈ List.head? _, _))
  | .updateInflight _ => inferInstanceAs (Decidable (∀ e ∈ s.outbox.withId _, _))
  | .addMsgId _ | .setMessageID _ _ | .isConnected _ | .inflightLen _ | .sendPeddingChan _
  | .pushPedding _ | .insert2Inflight _ | .newInflight _ | .pushInflight _ | .sendEntry _
  | .channelSend _ _ | .pushSend _ _ | .returned _ _ | .send _ | .checkInflight | .readNow
  | .collect _ | .resend _ _ | .refillLen _ | .refillSendLen | .recvPeddingChan
  | .loadMessageID _ | .removeInflight _ _ | .subackResults _ _ | .flowComplete _ | .onPubrec _
  | .reply _ | .onWrited _ | .connectErr _ | .completeConnect | .completeDisconnect =>
    isTrue trivial

instance (s : Solo) (t : Solo.Turn) : Decidable (KeepsOrder cfg s t) :=
  inferInstanceAs (Decidable (∀ o ∈ t.msgOp s, _))

/-! ## The invariant -/

/-- The message was pushed, or nothing will be any more. -/
def Gone (s : Solo) (e : EntryRef) : Prop := s.outbox.Pushed e ∨ s.flags.isStoped = true

/-- The operation has the packet that its call was given. -/
def MsgOp.First (x : Outbox) : MsgOp → Prop
  | addMsgId e | setMessageID e _ | isConnected e | isClosed e | inflightLen e | sendLen e
  | sendPeddingChan e | pushPedding e => (x.entry e).p = (x.entry e).msg
  | insert2Inflight c | newInflight c | pushInflight c | sendEntry c =>
    (x.entry c.entry).p = (x.entry c.entry).msg
  | channelSend (some c) r | pushSend (some c) r =>
    (∀ e, c ≠ .resend e) → r = (x.entry c.entry).msg
  | _ => True

/-- Where the older message `a` is when the operation works on a newer one. -/
def MsgOp.After (s : Solo) (a : EntryRef) : MsgOp → Prop
  | inflightLen _ | sendLen _ | sendPeddingChan _ | pushPedding _ => Waits s a ∨ Gone s a
  | insert2Inflight _ | newInflight _ | pushInflight _ | sendEntry _ | channelSend _ _
  | resend _ _ => Gone s a
  | pushSend _ _ => s.outbox.Pushed a
  | _ => True

/-- Where the older message `a` is when the newer one `b` is in a list. -/
structure Follows (s : Solo) (a b : EntryRef) : Prop where
  inflight : b ∈ s.outbox.inflightingList → Gone s a
  pedding : b ∈ s.outbox.peddingMsgList →
    List.Sublist [a, b] s.outbox.peddingMsgList ∨ Refilled s a ∨ Gone s a
  op : ∀ o, .msg o ∈ s.goroutines.ops → o.entry = some b → o.After s a
  sent : SentBefore a (s.outbox.entry a).msg b s.outbox.log

structure Ordered (s : Solo) : Prop where
  first : ∀ o e, .msg o ∈ s.goroutines.ops → o.entry = some e → s.outbox.Published e →
    o.First s.outbox
  firstPedding : ∀ e ∈ s.outbox.peddingMsgList, (s.outbox.entry e).p = (s.outbox.entry e).msg
  returned : ∀ a, s.outbox.Published a →
    .returned a none ∈ s.outbox.log ∨ .msg (.returned a none) ∈ s.goroutines.ops →
    Waits s a ∨ Gone s a ∨ s.flags.peddingClosed = true
  follows : ∀ a b, s.outbox.Published a → s.outbox.Published b → s.outbox.Older a b →
    Follows s a b

/-! ## What stays true -/

section Step

variable {s s' : Solo} {t : Solo.Turn} {old new : List Op}

/-- A caller goes on with its entry until the channel has stopped or the packet is pushed. -/
theorem MsgOp.Ran.caller {o : MsgOp} {new : List MsgOp} (h : Ran cfg f x o new x') {c : Caller}
    (hc : o.caller = some c) : (∃ o' ∈ new, o'.caller = some c) ∨ f.isStoped = true ∨
      ∃ r, o = .pushSend (some c) r ∧ .sent (some c) r ∈ x'.log := by
  cases h with
  | inserted c' _ | notInserted _ | newInflight c' _ | sendEntry c' | channelSend c' _ _ =>
    exact .inl ⟨_, List.mem_singleton_self _, hc⟩
  | pushInflight c' =>
    refine .inl ⟨_, List.mem_singleton_self _, ?_⟩
    rw [← hc]
    cases c' with
    | _ => rfl
  | refused c' hs | channelStoped c' _ hs => exact .inr (.inl hs)
  | pushSend c' r =>
    obtain rfl : c' = some c := hc
    exact .inr (.inr ⟨r, rfl, List.mem_cons_self⟩)
  | _ => exact absurd hc (by simp [MsgOp.caller])

theorem Exchange.older (h : Exchange cfg s t old new x' f') {a b : EntryRef}
    (ho : x'.Older a b) : s.outbox.Older a b ∨ b = s.outbox.entries.next := by
  refine h.log_induct (P := fun l => List.Sublist [Event.called b, Event.returned a none] l →
    s.outbox.Older a b ∨ b = s.outbox.entries.next) .inl (fun ev l hev hl hsub => ?_) ho
  rcases List.sublist_cons_iff.mp hsub with hsub | ⟨r, hr, -⟩
  · exact hl hsub
  · obtain ⟨rfl, -⟩ := List.cons.inj hr
    cases hev with
    | called => exact .inr rfl

theorem Exchange.returned (h : Exchange cfg s t old new x' f') {a : EntryRef}
    (hr : .returned a none ∈ x'.log) :
    .returned a none ∈ s.outbox.log ∨ .msg (.returned a none) ∈ old := by
  refine h.log_induct (P := fun l => .returned a none ∈ l → .returned a none ∈ s.outbox.log ∨
    .msg (.returned a none) ∈ old) .inl (fun ev l hev hl hmem => ?_) hr
  rcases List.mem_cons.mp hmem with rfl | hmem
  · cases hev with
    | returned hold => exact .inr hold
  · exact hl hmem

theorem Exchange.pushed (h : Exchange cfg s t old new x' f') (hg : Grows s.outbox x')
    {a : EntryRef} (ha : a < s.outbox.entries.next) (hp : s.outbox.Pushed a) : x'.Pushed a := by
  obtain ⟨ev, hev, hpush⟩ := hp
  refine ⟨ev, h.log_induct (P := fun l => ev ∈ l) hev fun _ _ _ => List.mem_cons_of_mem _, ?_⟩
  rw [(hg.entry a ha).1]
  exact hpush

theorem gone_step (hs : Typed s) (h : Solo.step cfg t s = some s') {a : EntryRef}
    (ha : a < s.outbox.entries.next) (hgone : Gone s a) : Gone s' a := by
  obtain ⟨old, new, hx, hex⟩ := exchange_of_step h
  have hg := (hx.typed hs fun o ho => hs.ops o (hex.mem_old ho)).1
  exact hgone.imp (hx.pushed hg ha) hx.stays.1

/-- What a refill has, it keeps or sends. -/
theorem refilled_step (hs : Typed s) (ho : Ordered s) (h : Solo.step cfg t s = some s')
    {a : EntryRef} (ha : s.outbox.Published a) (hr : Refilled s a) :
    Refilled s' a ∨ Gone s' a := by
  obtain ⟨old, new, hx, hex⟩ := exchange_of_step h
  have hg := (hx.typed hs fun o ho => hs.ops o (hex.mem_old ho)).1
  obtain ⟨o, hmem, hr⟩ := hr
  rcases hex.mem_or_of_mem hmem with hold | hstay
  · unfold Gone
    have hnew : ∀ o ∈ new, o ∈ s'.goroutines.ops := fun o => hex.mem_new
    generalize hx' : s'.outbox = x' at hx hg ⊢
    generalize hf' : s'.flags = f' at hx ⊢
    cases hx with
    | @msg i o' new _ hnext hran =>
      obtain rfl := List.mem_singleton.mp hold
      have hc : o'.caller = some (.refill a) := of_decide_eq_true hr
      rcases hran.caller hc with ⟨o₁, ho₁, hc₁⟩ | hstop | ⟨r, rfl, hsent⟩
      · exact .inl ⟨_, hnew _ (List.mem_map_of_mem ho₁), decide_eq_true hc₁⟩
      · exact .inr (.inr hstop)
      · have hfirst : r = (s.outbox.entry a).msg := ho.first _ a hmem rfl ha (by simp)
        refine .inr (.inl ⟨_, hsent, ?_⟩)
        rw [(hg.entry a ha.1).1]
        exact decide_eq_true ⟨rfl, hfirst⟩
    | stop _ _ =>
      obtain rfl := List.mem_singleton.mp hold
      exact absurd hr Bool.false_ne_true
    | _ => exact absurd hold (by simp)
  · exact .inl ⟨o, hstay, hr⟩

/-- What waits goes on waiting until it is sent. -/
theorem waits_step (hs : Typed s) (ho : Ordered s) (h : Solo.step cfg t s = some s')
    {a : EntryRef} (ha : s.outbox.Published a) (hw : Waits s a) : Waits s' a ∨ Gone s' a := by
  rcases hw with hpend | hr
  · obtain ⟨old, new, hx, hex⟩ := exchange_of_step h
    rcases hx.pedding with hsame | ⟨e, -, -, -, hpush⟩ | ⟨e, -, rfl, hpop⟩
    · exact .inl (.inl (hsame ▸ hpend))
    · exact .inl (.inl (hpush ▸ List.mem_append_left _ hpend))
    · rcases List.mem_cons.mp (hpop ▸ hpend) with rfl | hrest
      · exact .inl (.inr ⟨_, hex.mem_new List.mem_cons_self, decide_eq_true rfl⟩)
      · exact .inl (.inl hrest)
  · exact (refilled_step hs ho h ha hr).imp .inr id

/-! ## The packets of the calls -/

/-- The operations that a first one leaves have the packet that it had. -/
theorem MsgOp.Ran.first {o : MsgOp} {new : List MsgOp} (h : Ran cfg f x o new x')
    (ho : o.Typed x) (hfirst : ∀ e, o.entry = some e → x.Published e → o.First x)
    (hpedding : ∀ e ∈ x.peddingMsgList, (x.entry e).p = (x.entry e).msg) {o' : MsgOp}
    (hmem : o' ∈ new) {e : EntryRef} (he : o'.entry = some e) (hpub : x.Published e) :
    o'.First x' := by
  cases h with
  | addMsgId e' | connected e' _ | notClosed e' _ | windowOpen e' _ | windowFull e'
  | sendListOpen e' _ | sendListFull e' | peddingRoom e' | inserted c _ | notInserted _
  | numberPublish id _ =>
    obtain rfl := List.mem_singleton.mp hmem
    exact hfirst e he hpub
  | numberSend id hsend =>
    obtain rfl := List.mem_singleton.mp hmem
    obtain rfl := Option.some.inj he
    exact absurd (hsend.symm.trans hpub.2) Bool.false_ne_true
  | newInflight c timeout =>
    obtain rfl := List.mem_singleton.mp hmem
    show ((x.modifyEntry c.entry _).entry c.entry).p = ((x.modifyEntry c.entry _).entry c.entry).msg
    rw [Outbox.modifyEntry_self]
    exact hfirst e he hpub
  | pushInflight c =>
    obtain rfl := List.mem_singleton.mp hmem
    cases c with
    | send e' => exact fun _ => rfl
    | _ => exact hfirst e he hpub
  | sendEntry c =>
    obtain rfl := List.mem_singleton.mp hmem
    exact fun _ => hfirst e he hpub
  | channelSend c r _ =>
    obtain rfl := List.mem_singleton.mp hmem
    cases c with
    | none => trivial
    | some c => exact hfirst e he hpub
  | resend e' now timeout =>
    obtain rfl := List.mem_singleton.mp hmem
    exact fun hne => absurd rfl (hne e')
  | send e' _ =>
    rcases mem_sendCase hmem with rfl | ⟨rfl, -⟩ | rfl
    · obtain rfl := Option.some.inj he
      exact absurd (ho.2.symm.trans hpub.2) Bool.false_ne_true
    · obtain rfl := Option.some.inj he
      exact absurd (ho.2.symm.trans hpub.2) Bool.false_ne_true
    · obtain rfl := Option.some.inj he
      exact absurd (ho.2.symm.trans hpub.2) Bool.false_ne_true
  | popPedding hp =>
    obtain rfl := List.mem_singleton.mp hmem
    exact hpedding _ (hp ▸ List.mem_cons_self)
  | refused c _ =>
    rw [mem_rest hmem]
    trivial
  | channelStoped c r _ | pushSend c r =>
    obtain ⟨k, -, rfl⟩ := mem_rest_of_mem_elim hmem
    trivial
  | collect now =>
    obtain ⟨e', -, rfl⟩ := List.mem_map.mp hmem
    trivial
  | removeInflight r _ => rcases mem_afterRemove hmem with rfl | rfl <;> trivial
  | writedQos0 _ _ => rcases mem_onInflightDone hmem with rfl | rfl <;> trivial
  | completeConnect | completeDisconnect =>
    obtain ⟨e', -, rfl⟩ := mem_handshake hmem
    trivial
  | onPubrec messageID | inflightNonempty =>
    rcases List.mem_cons.mp hmem with rfl | hmem
    · trivial
    · obtain rfl := List.mem_singleton.mp hmem
      trivial
  | removeNothing r id | noRefill tick | refillSendFull | popNothing _ | flowComplete _ _
  | updateInflight r | writedOther r | noConnectErr code | returned e' err =>
    exact absurd hmem (by simp)
  | _ =>
    obtain rfl := List.mem_singleton.mp hmem
    trivial

/-- What is not in flight keeps its packet, and so does what is about to be sent. -/
theorem entry_p_step (hs : Typed s) (hok : KeepsOrder cfg s t)
    (hx : Exchange cfg s t old new x' f') (hold : ∀ o ∈ old, o ∈ s.goroutines.ops)
    {e : EntryRef} (he : e < s.outbox.entries.next)
    (hnot : e ∉ s.outbox.inflightingList ∨ ∃ o ∈ s.goroutines.ops, o.sends e = true) :
    (x'.entry e).p = (s.outbox.entry e).p := by
  refine (hx.entry_p (fun o ho => hs.ops o (hold o ho)) he).resolve_right ?_
  rintro ⟨-, r, hop, hwith⟩
  rcases hnot with hnot | ⟨o, ho, hsends⟩
  · exact hnot (List.mem_of_mem_filter hwith)
  · exact absurd (hsends.symm.trans (hok _ hop e hwith o ho)) (by simp)

/-- An operation that has its first packet keeps it. -/
theorem first_of_stays (hs : Typed s) (hc : Conserves s) (hok : KeepsOrder cfg s t)
    (hx : Exchange cfg s t old new x' f') (hold : ∀ o ∈ old, o ∈ s.goroutines.ops)
    {o : MsgOp} {e : EntryRef} (hmem : .msg o ∈ s.goroutines.ops) (he : o.entry = some e)
    (hpub : s.outbox.Published e) (hfirst : o.First s.outbox) : o.First x' := by
  have hmsg := ((hx.typed hs fun o ho => hs.ops o (hold o ho)).1.entry e hpub.1).1
  have hheld : o.holds e = true → (x'.entry e).p = (s.outbox.entry e).p := fun hh =>
    entry_p_step hs hok hx hold hpub.1
      (.inl (hc.not_stored_of_held (hpub.tracked hs.heaps) hmem hh).1)
  cases o with
  | addMsgId e' | setMessageID e' _ | isConnected e' | isClosed e' | inflightLen e' | sendLen e'
  | sendPeddingChan e' | pushPedding e' =>
    obtain rfl := Option.some.inj he
    exact (hheld (decide_eq_true rfl)).trans (hfirst.trans hmsg.symm)
  | insert2Inflight c | newInflight c | pushInflight c =>
    obtain rfl := Option.some.inj he
    exact (hheld (decide_eq_true rfl)).trans (hfirst.trans hmsg.symm)
  | sendEntry c =>
    obtain rfl := Option.some.inj he
    have hp := entry_p_step hs hok hx hold hpub.1 (.inr ⟨_, hmem, decide_eq_true rfl⟩)
    exact hp.trans (hfirst.trans hmsg.symm)
  | channelSend c r | pushSend c r =>
    cases c with
    | none => trivial
    | some c =>
      obtain rfl := Option.some.inj he
      exact fun hne => (hfirst hne).trans hmsg.symm
  | _ => trivial

/-- The operations that a turn leaves have the packets of their calls. -/
theorem Exchange.first (h : Exchange cfg s t old new x' f') (hs : Typed s) (ho : Ordered s)
    (hold : ∀ o ∈ old, o ∈ s.goroutines.ops) {o : MsgOp} {e : EntryRef} (hmem : .msg o ∈ new)
    (he : o.entry = some e) (hpub : x'.Published e) : o.First x' := by
  cases h with
  | @msg i o₀ new _ _ hran =>
    obtain ⟨o', ho', heq⟩ := List.mem_map.mp hmem
    obtain rfl := Op.msg.inj heq
    have hmem₀ := hold _ List.mem_cons_self
    have hlt : e < s.outbox.entries.next := hran.entries_next ▸ hpub.1
    exact hran.first (hs.ops _ hmem₀) (fun e' => ho.first o₀ e' hmem₀) ho.firstPedding ho' he
      ⟨hlt, (hran.grows.entry e hlt).2.1.symm.trans hpub.2⟩
  | @publish r _ _ =>
    obtain rfl := Op.msg.inj (List.mem_singleton.mp hmem)
    show ((s.outbox.newEntry r true).entry _).p = ((s.outbox.newEntry r true).entry _).msg
    rw [show (s.outbox.newEntry r true).entry s.outbox.entries.next =
      { p := r, t := newToken (s.outbox.packet r).type, msg := r, published := true } from
      Heap.alloc_self ..]
  | send p =>
    obtain rfl := Op.msg.inj (List.mem_singleton.mp hmem)
    trivial
  | stop _ hrun => exact absurd he (by simp [(Begins.of_run hrun).entry_eq_none hmem])
  | written _ =>
    obtain rfl := Op.msg.inj (List.mem_singleton.mp hmem)
    trivial
  | _ => exact absurd hmem (by simp)

theorem first_step (hs : Typed s) (hc : Conserves s) (ho : Ordered s) (hok : KeepsOrder cfg s t)
    (h : Solo.step cfg t s = some s') : ∀ o e, .msg o ∈ s'.goroutines.ops → o.entry = some e →
      s'.outbox.Published e → o.First s'.outbox := by
  intro o e hmem he hpub
  obtain ⟨old, new, hx, hex⟩ := exchange_of_step h
  have hold : ∀ o ∈ old, o.Typed s.outbox := fun o ho => hs.ops o (hex.mem_old ho)
  have hg := (hx.typed hs hold).1
  have hback : e < s.outbox.entries.next → s.outbox.Published e := fun hlt =>
    ⟨hlt, (hg.entry e hlt).2.1.symm.trans hpub.2⟩
  rcases hex.mem_or hmem with hnew | hmem
  · exact hx.first hs ho (fun o => hex.mem_old) hnew he hpub
  · have hlt := (hs.ops _ hmem : o.Typed s.outbox).lt he
    exact first_of_stays hs hc hok hx (fun o => hex.mem_old) hmem he (hback hlt)
      (ho.first o e hmem he (hback hlt))

theorem firstPedding_step (hs : Typed s) (hc : Conserves s) (ho : Ordered s)
    (hok : KeepsOrder cfg s t) (h : Solo.step cfg t s = some s') :
    ∀ e ∈ s'.outbox.peddingMsgList, (s'.outbox.entry e).p = (s'.outbox.entry e).msg := by
  intro e he
  obtain ⟨old, new, hx, hex⟩ := exchange_of_step h
  have hg := (hx.typed hs fun o ho => hs.ops o (hex.mem_old ho)).1
  have hpedding : e ∈ s.outbox.peddingMsgList →
      (s'.outbox.entry e).p = (s'.outbox.entry e).msg := by
    intro he
    have hlt := (hs.lists.pedding e he).1
    have hnot := hc.not_inflight_of_pedding ((hs.lists.pedding e he).tracked hs.heaps) he
    rw [entry_p_step hs hok hx (fun o => hex.mem_old) hlt (.inl hnot), (hg.entry e hlt).1]
    exact ho.firstPedding e he
  rcases hx.pedding with hsame | ⟨e', -, rfl, -, hpush⟩ | ⟨e', -, -, hpop⟩
  · exact hpedding (hsame ▸ he)
  · rcases List.mem_append.mp (hpush ▸ he) with he | he
    · exact hpedding he
    · obtain rfl := List.mem_singleton.mp he
      have hmem := hex.mem_old List.mem_cons_self
      have hpub : s.outbox.Published e := hs.ops _ hmem
      have hp := entry_p_step hs hok hx (fun o => hex.mem_old) hpub.1
        (.inl (hc.not_stored_of_held (hpub.tracked hs.heaps) hmem (decide_eq_true rfl)).1)
      rw [hp, (hg.entry e hpub.1).1]
      exact ho.first _ e hmem rfl hpub
  · exact hpedding (hpop ▸ List.mem_cons_of_mem _ he)

/-! ## The calls that have returned -/

/-- A call that is about to return has left its message somewhere. -/
theorem MsgOp.Ran.of_returned {o : MsgOp} {new : List MsgOp} (h : Ran cfg f x o new x')
    {a : EntryRef} (hmem : .returned a none ∈ new) : f.isStoped = true ∨ f.peddingClosed = true ∨
      o = .pushPedding a ∨
        ∃ c r, o = .pushSend (some c) r ∧ c.entry = a ∧ ∀ e, c ≠ .resend e := by
  cases h.follows hmem with
  | peddingClosed _ hc => exact .inr (.inl hc)
  | pended _ => exact .inr (.inr (.inl rfl))
  | refused _ hs | channelStoped _ _ hs => exact .inl hs
  | pushed r hc => exact .inr (.inr (.inr ⟨_, r, rfl, rfl, hc⟩))

theorem Exchange.of_returned (h : Exchange cfg s t old new x' f') (ho : Ordered s)
    (hg : Grows s.outbox x') (hold : ∀ o ∈ old, o ∈ s.goroutines.ops) {a : EntryRef}
    (hmem : .msg (.returned a none) ∈ new) (ha : x'.Published a) :
    a ∈ x'.peddingMsgList ∨ x'.Pushed a ∨ s.flags.isStoped = true ∨
      s.flags.peddingClosed = true := by
  rcases h.origin hmem with ⟨o₀, l, hran, ho', -, rfl, -⟩ | hopens
  · rcases hran.of_returned ho' with hstop | hclosed | rfl | ⟨c, r, rfl, rfl, hc⟩
    · exact .inr (.inr (.inl hstop))
    · exact .inr (.inr (.inr hclosed))
    · cases hran with
      | pushPedding _ => exact .inl (List.mem_append_right _ List.mem_cons_self)
    · have hmem₀ := hold _ List.mem_cons_self
      have hlt : c.entry < s.outbox.entries.next := hran.entries_next ▸ ha.1
      have hfirst : r = (s.outbox.entry c.entry).msg :=
        ho.first _ c.entry hmem₀ rfl ⟨hlt, (hg.entry _ hlt).2.1.symm.trans ha.2⟩ hc
      cases hran with
      | pushSend _ _ =>
        refine .inr (.inl ⟨_, List.mem_cons_self, ?_⟩)
        rw [(hg.entry _ hlt).1]
        exact decide_eq_true ⟨rfl, hfirst⟩
  · cases hopens with
    | starts hstarts => cases hstarts

theorem returned_step (hs : Typed s) (ho : Ordered s) (h : Solo.step cfg t s = some s') :
    ∀ a, s'.outbox.Published a →
      .returned a none ∈ s'.outbox.log ∨ .msg (.returned a none) ∈ s'.goroutines.ops →
      Waits s' a ∨ Gone s' a ∨ s'.flags.peddingClosed = true := by
  intro a ha hret
  obtain ⟨old, new, hx, hex⟩ := exchange_of_step h
  have htyped : ∀ o ∈ old, o.Typed s.outbox := fun o ho => hs.ops o (hex.mem_old ho)
  have hg := (hx.typed hs htyped).1
  have hback : a < s.outbox.entries.next → s.outbox.Published a := fun hlt =>
    ⟨hlt, (hg.entry a hlt).2.1.symm.trans ha.2⟩
  -- a call that had returned before
  have hbefore : .returned a none ∈ s.outbox.log ∨ .msg (.returned a none) ∈ s.goroutines.ops →
      Waits s' a ∨ Gone s' a ∨ s'.flags.peddingClosed = true := by
    intro hret
    have hlt : a < s.outbox.entries.next :=
      hret.elim (fun hlog => hs.lists.log _ hlog a rfl) fun hop => hs.ops _ hop
    rcases ho.returned a (hback hlt) hret with hw | hgone | hclosed
    · exact (waits_step hs ho h (hback hlt) hw).imp id .inl
    · exact .inr (.inl (gone_step hs h hlt hgone))
    · exact .inr (.inr (hx.stays.2 hclosed))
  rcases hret with hlog | hop
  · exact hbefore ((hx.returned hlog).imp id hex.mem_old)
  · rcases hex.mem_or hop with hnew | hop
    · rcases hx.of_returned ho hg (fun o => hex.mem_old) hnew ha with hp | hp | hstop | hclosed
      · exact .inl (.inl hp)
      · exact .inr (.inl (.inl hp))
      · exact .inr (.inl (.inr (hx.stays.1 hstop)))
      · exact .inr (.inr (hx.stays.2 hclosed))
    · exact hbefore (.inr hop)

/-! ## Newer messages -/

/-- A message that is popped is not pending any more. -/
theorem not_mem_of_pop (hs : Typed s) (hc : Conserves s) {b : EntryRef} {rest : List EntryRef}
    (hp : s.outbox.peddingMsgList = b :: rest) : b ∉ rest := by
  intro hmem
  have hpub := hs.lists.pedding b (hp ▸ List.mem_cons_self)
  have hplace := hc.count_le (hpub.tracked hs.heaps)
  have hcount := List.count_pos_iff.mpr hmem
  rw [hp, List.count_cons_self] at hplace
  omega

/-- What the operations that a turn leaves need of an older message. -/
theorem Exchange.after (h : Exchange cfg s t old new x' f') (hs : Typed s) (hc : Conserves s)
    (ho : Ordered s) (hok : KeepsOrder cfg s t) (hold : ∀ o ∈ old, o ∈ s.goroutines.ops)
    {a b : EntryRef} (ha : s.outbox.Published a) (hb : s.outbox.Published b)
    (hab : s.outbox.Older a b) {o : MsgOp} (hmem : .msg o ∈ new) (he : o.entry = some b) :
    o.After s a := by
  have hfollows := ho.follows a b ha hb hab
  rcases h.origin hmem with ⟨o₀, l, hran, ho', hturn, rfl, -⟩ | hopens
  · have hop := hfollows.op o₀ (hold _ List.mem_cons_self)
    have hkeeps := hok o₀ hturn
    have htyped : o₀.Typed s.outbox := hs.ops _ (hold _ List.mem_cons_self)
    cases hran.follows ho' with
    | inflightLen e hnot =>
      have hret : .returned a none ∈ s.outbox.log :=
        hab.subset (List.mem_cons_of_mem _ List.mem_cons_self)
      rcases ho.returned a ha (.inl hret) with hw | hgone | hclosed
      · exact .inl hw
      · exact .inr hgone
      · exact absurd (hkeeps hclosed) hnot
    | sendListOpen e hlt =>
      obtain rfl := Option.some.inj he
      exact (hop rfl).resolve_left (hkeeps hlt a ha.1 hab)
    | @refill e rest hp =>
      obtain rfl := Option.some.inj he
      have hmem₁ : e ∈ s.outbox.peddingMsgList := hp ▸ List.mem_cons_self
      rcases hfollows.pedding hmem₁ with hsub | hr | hgone
      · -- the older message would be pending behind the newer one
        refine absurd ?_ (not_mem_of_pop hs hc hp)
        rw [hp] at hsub
        rcases List.sublist_cons_iff.mp hsub with hsub | ⟨r, hr, hsub⟩
        · exact hsub.subset (List.mem_cons_of_mem _ List.mem_cons_self)
        · obtain ⟨-, rfl⟩ := List.cons.inj hr
          exact hsub.subset List.mem_cons_self
      · have hhead : e ∈ s.outbox.peddingMsgList.head? := by
          rw [hp]
          rfl
        exact absurd hr (hkeeps e hhead a ha.1 hab)
      · exact hgone
    | resend hover =>
      obtain rfl := Option.some.inj he
      exact hfollows.inflight (List.mem_of_mem_filter hover)
    | pushSend c r hrunning =>
      refine (hop he).resolve_right fun hstop => ?_
      exact absurd (hrunning.symm.trans hstop) Bool.false_ne_true
    | numbered id hsend =>
      obtain rfl := Option.some.inj he
      exact absurd (hsend.symm.trans hb.2) Bool.false_ne_true
    | addMsgId e | sendReleased _ | sendAtOnce e =>
      -- the newer message belongs to a call of `Publish`
      obtain rfl := Option.some.inj he
      exact absurd (htyped.2.symm.trans hb.2) Bool.false_ne_true
    | sendLen _ | windowFull _ | sendListFull _ | pushPedding _ | newInflight _ | notInserted _
    | pushInflight _ | sendPushed _ | afterPush _ | sendEntry _ | sendAgain _ _ => exact hop he
    | _ => trivial
  · cases hopens with
    | starts hstarts =>
      cases hstarts with
      | _ => trivial
    | _ => trivial

/-- What an operation needs of an older message stays true. -/
theorem after_step (hs : Typed s) (ho : Ordered s) (h : Solo.step cfg t s = some s')
    {a : EntryRef} (ha : s.outbox.Published a) {o : MsgOp} (hafter : o.After s a) :
    o.After s' a := by
  have hwaits : Waits s a ∨ Gone s a → Waits s' a ∨ Gone s' a := by
    rintro (hw | hgone)
    · exact waits_step hs ho h ha hw
    · exact .inr (gone_step hs h ha.1 hgone)
  cases o with
  | inflightLen e | sendLen e | sendPeddingChan e | pushPedding e => exact hwaits hafter
  | insert2Inflight c | newInflight c | pushInflight c | sendEntry c | channelSend c r
  | resend e now => exact gone_step hs h ha.1 hafter
  | pushSend c r =>
    obtain ⟨old, new, hx, hex⟩ := exchange_of_step h
    exact hx.pushed (hx.typed hs fun o ho => hs.ops o (hex.mem_old ho)).1 ha.1 hafter
  | _ => trivial

theorem inflight_step (hs : Typed s) (h : Solo.step cfg t s = some s') {a b : EntryRef}
    (ha : s.outbox.Published a) (hfollows : Follows s a b)
    (hb : b ∈ s'.outbox.inflightingList) : Gone s' a := by
  obtain ⟨old, new, hx, hex⟩ := exchange_of_step h
  refine gone_step hs h ha.1 ?_
  rcases hx.inflight with hsame | ⟨c, -, rfl, -, hpush⟩ | ⟨r, id, e, -, -, hx'⟩
  · exact hfollows.inflight (hsame ▸ hb)
  · rcases List.mem_append.mp (hpush ▸ hb) with hb | hb
    · exact hfollows.inflight hb
    · obtain rfl := List.mem_singleton.mp hb
      exact hfollows.op _ (hex.mem_old List.mem_cons_self) rfl
  · rw [hx'] at hb
    exact hfollows.inflight (List.mem_of_mem_eraseP hb)

theorem pedding_step (hs : Typed s) (ho : Ordered s) (h : Solo.step cfg t s = some s')
    {a b : EntryRef} (ha : s.outbox.Published a) (hfollows : Follows s a b)
    (hb : b ∈ s'.outbox.peddingMsgList) :
    List.Sublist [a, b] s'.outbox.peddingMsgList ∨ Refilled s' a ∨ Gone s' a := by
  obtain ⟨old, new, hx, hex⟩ := exchange_of_step h
  have hrest : Refilled s a ∨ Gone s a → Refilled s' a ∨ Gone s' a := by
    rintro (hr | hgone)
    · exact refilled_step hs ho h ha hr
    · exact .inr (gone_step hs h ha.1 hgone)
  rcases hx.pedding with hsame | ⟨e, -, rfl, -, hpush⟩ | ⟨e, -, rfl, hpop⟩
  · rw [hsame] at hb ⊢
    exact (hfollows.pedding hb).imp id hrest
  · rw [hpush] at hb ⊢
    rcases List.mem_append.mp hb with hb | hb
    · exact (hfollows.pedding hb).imp (fun h => h.trans (List.sublist_append_left ..)) hrest
    · -- the newer message is appended behind the older one
      obtain rfl := List.mem_singleton.mp hb
      rcases hfollows.op _ (hex.mem_old List.mem_cons_self) rfl with (hmem | hr) | hgone
      · exact .inl ((List.singleton_sublist.mpr hmem).append (.refl [b]))
      · exact .inr (hrest (.inl hr))
      · exact .inr (hrest (.inr hgone))
  · refine (hfollows.pedding (hpop ▸ List.mem_cons_of_mem _ hb)).elim (fun hsub => ?_)
      fun h => .inr (hrest h)
    rw [hpop] at hsub
    rcases List.sublist_cons_iff.mp hsub with hsub | ⟨r, hr, -⟩
    · exact .inl hsub
    · obtain ⟨rfl, -⟩ := List.cons.inj hr
      exact .inr (.inl ⟨_, hex.mem_new List.mem_cons_self, decide_eq_true rfl⟩)

theorem sent_step (hx : Exchange cfg s t old new x' f') (hold : ∀ o ∈ old, o ∈ s.goroutines.ops)
    {a b : EntryRef} (hfollows : Follows s a b) :
    SentBefore a (s.outbox.entry a).msg b x'.log := by
  refine (hx.log_induct (P := fun l => (∀ ev ∈ s.outbox.log, ev ∈ l) ∧
    SentBefore a (s.outbox.entry a).msg b l) ⟨fun _ h => h, hfollows.sent⟩ ?_).2
  rintro ev l hev ⟨hsub, hl⟩
  refine ⟨fun ev' h => List.mem_cons_of_mem _ (hsub ev' h), fun htransmits => ?_, hl⟩
  cases hev with
  | @sent c r hop =>
    cases c with
    | none => exact absurd htransmits Bool.false_ne_true
    | some c =>
      obtain ⟨ev', hmem, hpush⟩ :=
        hfollows.op _ (hold _ hop) (congrArg some (of_decide_eq_true htransmits))
      exact ⟨ev', hsub ev' hmem, hpush⟩
  | _ => exact absurd htransmits Bool.false_ne_true

/-! ## Runs -/

theorem Event.transmits_of_pushes {e : EntryRef} {r : PacketRef} {ev : Event}
    (h : ev.pushes e r = true) : ev.transmits e = true := by
  cases ev with
  | sent c r' =>
    cases c with
    | none => exact absurd h Bool.false_ne_true
    | some c => exact decide_eq_true (of_decide_eq_true h).1
  | _ => exact absurd h Bool.false_ne_true

theorem SentBefore.exists {a b : EntryRef} {r : PacketRef} {l : List Event}
    (h : SentBefore a r b l) {ev : Event} (hev : ev ∈ l) (ht : ev.transmits b = true) :
    ∃ ev' ∈ l, ev'.pushes a r = true := by
  induction l with
  | nil => exact absurd hev (by simp)
  | cons ev₀ l ih =>
    have hcases : ∃ ev' ∈ l, ev'.pushes a r = true := by
      rcases List.mem_cons.mp hev with rfl | hev
      · exact h.1 ht
      · exact ih h.2 hev
    obtain ⟨ev', hev', hpush⟩ := hcases
    exact ⟨ev', List.mem_cons_of_mem _ hev', hpush⟩

theorem sentBefore_of_forall {a b : EntryRef} {r : PacketRef} {l : List Event}
    (h : ∀ ev ∈ l, ev.transmits b = false) : SentBefore a r b l := by
  induction l with
  | nil => trivial
  | cons ev l ih =>
    refine ⟨fun ht => ?_, ih fun ev' hev' => h ev' (List.mem_cons_of_mem _ hev')⟩
    exact absurd ((h ev List.mem_cons_self).symm.trans ht) Bool.false_ne_true

/-- A message that `Publish` was just called for is nowhere yet. -/
theorem follows_new (hs : Typed s) (h : Solo.step cfg t s = some s') {a : EntryRef}
    (hnew : s.outbox.entries.next < s'.outbox.entries.next) :
    Follows s' a s.outbox.entries.next := by
  obtain ⟨old, new, hx, hex⟩ := exchange_of_step h
  have hirrefl := Nat.lt_irrefl s.outbox.entries.next
  rcases hx.entries_next with hsame | ⟨r, published, hlog, hpedding, hinflight, -, -, rfl⟩
  · exact absurd (hsame ▸ hnew) hirrefl
  · constructor
    · exact fun hb => absurd (hs.lists.inflight _ (hinflight ▸ hb)) hirrefl
    · exact fun hb => absurd (hs.lists.pedding _ (hpedding ▸ hb)).1 hirrefl
    · intro o hmem he
      rcases hex.mem_or hmem with hmem | hmem
      · obtain rfl := Op.msg.inj (List.mem_singleton.mp hmem)
        cases published with
        | _ => trivial
      · exact absurd ((hs.ops _ hmem : o.Typed s.outbox).lt he) hirrefl
    · rw [hlog]
      refine sentBefore_of_forall (List.forall_mem_cons.mpr ⟨rfl, fun ev hev => ?_⟩)
      refine Bool.eq_false_of_not_eq_true fun ht => ?_
      have hentry : ev.entry = some s.outbox.entries.next := by
        cases ev with
        | sent c r =>
          cases c with
          | none => exact absurd ht Bool.false_ne_true
          | some c => exact congrArg some (of_decide_eq_true ht)
        | _ => exact absurd ht Bool.false_ne_true
      exact hirrefl (hs.lists.log ev hev _ hentry)

theorem ordered_step (hs : Typed s) (hc : Conserves s) (ho : Ordered s)
    (hok : KeepsOrder cfg s t) (h : Solo.step cfg t s = some s') : Ordered s' where
  first := first_step hs hc ho hok h
  firstPedding := firstPedding_step hs hc ho hok h
  returned := returned_step hs ho h
  follows a b ha hb hab := by
    obtain ⟨old, new, hx, hex⟩ := exchange_of_step h
    have htyped : ∀ o ∈ old, o.Typed s.outbox := fun o ho => hs.ops o (hex.mem_old ho)
    have hg := (hx.typed hs htyped).1
    by_cases hlt : b < s.outbox.entries.next
    · have hab₀ := (hx.older hab).resolve_right (Nat.ne_of_lt hlt)
      have hret : .returned a none ∈ s.outbox.log :=
        hab₀.subset (List.mem_cons_of_mem _ List.mem_cons_self)
      have halt : a < s.outbox.entries.next := hs.lists.log _ hret a rfl
      have ha₀ : s.outbox.Published a := ⟨halt, (hg.entry a halt).2.1.symm.trans ha.2⟩
      have hb₀ : s.outbox.Published b := ⟨hlt, (hg.entry b hlt).2.1.symm.trans hb.2⟩
      have hfollows := ho.follows a b ha₀ hb₀ hab₀
      constructor
      · exact inflight_step hs h ha₀ hfollows
      · exact pedding_step hs ho h ha₀ hfollows
      · intro o hmem he
        refine after_step hs ho h ha₀ ?_
        rcases hex.mem_or hmem with hnew | hmem
        · exact hx.after hs hc ho hok (fun o => hex.mem_old) ha₀ hb₀ hab₀ hnew he
        · exact hfollows.op o hmem he
      · rw [(hg.entry a halt).1]
        exact sent_step hx (fun o => hex.mem_old) hfollows
    · obtain rfl := (hx.older hab).resolve_left fun hold =>
        hlt (hs.lists.log _ (hold.subset List.mem_cons_self) b rfl)
      exact follows_new hs h hb.1

end Step

/-- In a run that lets no newer message pass an older one, they are sent in the order of their
calls. -/
theorem published_in_order {s : Solo} (h : (Solo.system cfg).Reach (KeepsOrder cfg) s)
    {a b : EntryRef} (ha : s.outbox.Published a) (hb : s.outbox.Published b)
    (hab : s.outbox.Older a b) : SentBefore a (s.outbox.entry a).msg b s.outbox.log := by
  suffices hinv : Typed s ∧ Conserves s ∧ Ordered s from (hinv.2.2.follows a b ha hb hab).sent
  refine h.invariant (I := fun s => Typed s ∧ Conserves s ∧ Ordered s) ?_ ?_
  · rintro s ⟨isServer, now, rfl⟩
    refine ⟨typed_initial isServer now, conserves_initial isServer now, ?_⟩
    constructor
    · exact fun o e hmem => absurd hmem (by simp [Solo.initial])
    · exact fun e he => absurd he (by simp [Solo.initial])
    · exact fun a ha => absurd ha.1 (Nat.not_lt_zero a)
    · exact fun a b ha => absurd ha.1 (Nat.not_lt_zero a)
  · rintro s t s' ⟨hs, hc, ho⟩ hok hstep
    exact ⟨typed_step hs hstep, conserved_step hs hc hstep, ordered_step hs hc ho hok hstep⟩

theorem published_in_order_two : ∃ s, (Solo.system {}).Reach (KeepsOrder {}) s ∧
    (∃ ev ∈ s.outbox.log, ev.transmits 1 = true) ∧
    SentBefore 0 (s.outbox.entry 0).msg 1 s.outbox.log := by
  have hok : (Solo.system {}).checkAll (fun s t => decide (KeepsOrder {} s t))
      (Solo.successiveCalls 2) (Solo.initial true 0) = true := by
    decide
  have hend : ((Solo.system {}).exec (Solo.successiveCalls 2) (Solo.initial true 0)).any (fun s =>
      (1 < s.outbox.entries.next ∧ (s.outbox.entry 0).published = true ∧
        (s.outbox.entry 1).published = true) ∧
      s.outbox.Older 0 1 ∧ ∃ ev ∈ s.outbox.log, ev.transmits 1 = true) = true := by
    decide
  obtain ⟨s, hs, hc⟩ := StepSystem.exists_reach_of_any (Solo.initial_init {} true 0)
    (StepSystem.along_of_check (fun _ _ h => of_decide_eq_true h) hok) hend
  obtain ⟨⟨hlt, h0, h1⟩, hold, hsent⟩ := of_decide_eq_true hc
  exact ⟨s, hs, hsent,
    published_in_order hs ⟨Nat.lt_of_succ_lt hlt, h0⟩ ⟨hlt, h1⟩ hold⟩

/-- A hundred messages are in flight and one is pending. A PUBACK takes one out of flight;
before its handler comes to refill the window, `Publish` finds room for a newer message. -/
def overtaking : List Solo.Turn :=
  Solo.successiveCalls 100 ++ [.newPacket (Solo.outboundPublish 1), .publish 102] ++
    Solo.runs 104 8 ++ [.recvPacket (Solo.inboundPuback 1) true] ++ Solo.runs 0 3 ++
    [.newPacket (Solo.outboundPublish 1), .publish 104] ++ Solo.runs 105 13

/-- The stretches of `overtaking`. -/
def overtakingStretches : List Stretch :=
  Solo.successiveStretches 100 ++
    [.turn (.newPacket (Solo.outboundPublish 1)), .turn (.publish 102), .runs 104 8,
      .turn (.recvPacket (Solo.inboundPuback 1) true), .runs 0 3,
      .turn (.newPacket (Solo.outboundPublish 1)), .turn (.publish 104), .runs 105 13]

theorem overtaking_eq : overtaking = overtakingStretches.flatMap Stretch.turns := by
  rw [overtaking, Solo.successiveCalls_eq, overtakingStretches, List.flatMap_append]
  simp only [List.append_assoc]
  rfl

theorem published_out_of_order : ¬ ∀ s, (Solo.system {}).Reachable s → ∀ a b,
    s.outbox.Published a → s.outbox.Published b → s.outbox.Older a b →
    SentBefore a (s.outbox.entry a).msg b s.outbox.log := by
  have hend : ((Solo.system {}).exec overtaking (Solo.initial true 0)).any (fun s =>
      (101 < s.outbox.entries.next ∧ (s.outbox.entry 100).published = true ∧
        (s.outbox.entry 101).published = true) ∧
      s.outbox.Older 100 101 ∧ (∃ ev ∈ s.outbox.log, ev.transmits 101 = true) ∧
      ∀ ev ∈ s.outbox.log, ev.transmits 100 = false) = true := by
    refine any_of_stretches (l := overtakingStretches) ?_ overtaking_eq
    decide +kernel
  obtain ⟨s, hs, hc⟩ := StepSystem.exists_reachable_of_any (Solo.initial_init {} true 0) hend
  obtain ⟨⟨hlt, h0, h1⟩, hold, ⟨ev, hev, hsent⟩, hnone⟩ := of_decide_eq_true hc
  intro hall
  obtain ⟨ev', hev', hpush⟩ := (hall s hs 100 101 ⟨Nat.lt_of_succ_lt hlt, h0⟩ ⟨hlt, h1⟩ hold).exists
    hev hsent
  exact absurd ((hnone ev' hev').symm.trans (Event.transmits_of_pushes hpush))
    Bool.false_ne_true

end MqttBroker.Solo

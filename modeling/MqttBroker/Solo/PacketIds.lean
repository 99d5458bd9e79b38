import MqttBroker.Solo.Alone
import MqttBroker.Solo.Conservation

/-!
# Packet identifiers

`Publish` and `Send` number their packets with the lower 16 bits of a counter that only
grows, whatever is in flight: the 65536th call gets 0, and the calls after it get ids that
may still be in use. Where each id is fresh when it is written, the ids of what is in flight
are distinct and none is 0.
-/

namespace MqttBroker.Solo

variable {cfg : Config} {f f' : Flags} {x x' : Outbox}

/-! ## Fresh ids -/

/-- An operation that has an entry with an id in its hands. -/
def MsgOp.carries (e : EntryRef) : MsgOp → Bool
  | isConnected e' | isClosed e' | inflightLen e' | sendLen e' | sendPeddingChan e'
  | pushPedding e' => e' = e
  | insert2Inflight c | newInflight c | pushInflight c => c.entry = e
  | _ => false

def Op.carries (e : EntryRef) : Op → Bool
  | .msg o => o.carries e
  | .stop _ => false

/-- The entry has its id and is in flight, pending, or in the hands of an operation. -/
def Live (s : Solo) (e : EntryRef) : Prop :=
  e ∈ s.outbox.inflightingList ∨ e ∈ s.outbox.peddingMsgList ∨
    ∃ o ∈ s.goroutines.ops, o.carries e = true

/-- The entry and the id with which a packet is numbered. -/
def MsgOp.numbers : MsgOp → Option (EntryRef × UInt16)
  | setMessageID e id => some (e, id)
  | _ => none

/-- `Send` is called for no acknowledgement, no other session numbers a packet, and an id that
is written is not 0 and no entry has it or its packet. -/
def FreshIds (s : Solo) (t : Solo.Turn) : Prop :=
  (∀ p ∈ t.sent, p.1.kind ∉ [PacketType.pubrec, PacketType.pubrel]) ∧ t.renumbered = none ∧
    ∀ o ∈ t.msgOp s, ∀ k ∈ o.numbers, k.2 ≠ 0 ∧ ∀ e < s.outbox.entries.next, Live s e →
      s.outbox.idOf e ≠ k.2 ∧ (s.outbox.entry e).p ≠ (s.outbox.entry k.1).msg

instance (s : Solo) (e : EntryRef) : Decidable (Live s e) :=
  inferInstanceAs (Decidable (_ ∨ _ ∨ ∃ o ∈ _, _))

instance (s : Solo) (t : Solo.Turn) : Decidable (FreshIds s t) :=
  inferInstanceAs (Decidable (_ ∧ _ ∧ ∀ o ∈ t.msgOp s, ∀ k ∈ o.numbers, _ ∧ ∀ e < _, _))

/-! ## The invariant -/

/-- A call has an entry that has no id yet. -/
def MsgOp.unnumbered : MsgOp → Option EntryRef
  | send e | addMsgId e | setMessageID e _ => some e
  | _ => none

structure IdsKept (s : Solo) : Prop where
  kind : ∀ e < s.outbox.entries.next, (s.outbox.packet (s.outbox.entry e).msg).kind ∉
    [PacketType.pubrec, PacketType.pubrel]
  first : ∀ o e, .msg o ∈ s.goroutines.ops → o.unnumbered = some e → s.outbox.Tracked e →
    (s.outbox.entry e).p = (s.outbox.entry e).msg
  tracked : ∀ e, Live s e → s.outbox.Tracked e
  nonzero : ∀ e, Live s e → s.outbox.idOf e ≠ 0
  distinct : ∀ e e', Live s e → Live s e' → s.outbox.idOf e = s.outbox.idOf e' → e = e'

/-! ## What becomes live -/

/-- An operation gets an entry in its hands from another one, from the pending list, or when
it has numbered the packet. -/
theorem MsgOp.Ran.carries {o : MsgOp} {new : List MsgOp} (h : Ran cfg f x o new x')
    (hsend : ∀ e, o = .send e → (x.packet (x.entry e).msg).kind ∉
      [PacketType.pubrec, PacketType.pubrel]) {o' : MsgOp} (hmem : o' ∈ new) {e : EntryRef}
    (he : o'.carries e = true) :
    o.carries e = true ∨ e ∈ x.peddingMsgList ∨ ∃ id, o = .setMessageID e id := by
  cases h.follows hmem with
  | isConnected id _ | numbered id _ =>
    obtain rfl := of_decide_eq_true he
    exact .inr (.inr ⟨id, rfl⟩)
  | isClosed _ | inflightLen _ _ | sendLen _ | windowFull _ | sendListOpen _ _ | sendListFull _
  | pushPedding _ | newInflight _ | pushInflight _ => exact .inl he
  | refill hp =>
    obtain rfl := of_decide_eq_true he
    exact .inr (.inl (hp ▸ List.mem_cons_self))
  | sendReleased hk => exact absurd hk (hsend _ rfl)
  | _ => exact absurd he Bool.false_ne_true

section Step

variable {s s' : Solo} {t : Solo.Turn} {old new : List Op}

/-- The id that is written is the one that is read. -/
theorem messageID_setMessageID {p : ControlPacket} (h : p.kind ∈ numbered) (id : UInt16) :
    (p.setMessageID id).messageID = id := by
  cases p with
  | publish m | subscribe m | unsubscribe m => rfl
  | _ => exact absurd h (by rw [ControlPacket.kind]; decide)

theorem numbered_idOf {e : EntryRef} (he : x.Tracked e) (hp : (x.entry e).p = (x.entry e).msg)
    (id : UInt16) :
    (x.modifyPacket (x.entry e).msg (ControlPacket.setMessageID id)).idOf e = id := by
  have hcell : (x.modifyPacket (x.entry e).msg (ControlPacket.setMessageID id)).packet
      (x.entry e).msg = (x.packet (x.entry e).msg).setMessageID id := Heap.modify_self ..
  show ((x.modifyPacket (x.entry e).msg (ControlPacket.setMessageID id)).packet
    (x.entry e).p).messageID = id
  rw [hp, hcell]
  exact messageID_setMessageID he.2 id

/-- An entry becomes live when its packet is numbered. -/
theorem live_step (hs : Typed s) (hkept : IdsKept s) (h : Solo.step cfg t s = some s')
    {e : EntryRef} (hlive : Live s' e) :
    Live s e ∨ ∃ id, .msg (.setMessageID e id) ∈ s.goroutines.ops ∧
      .setMessageID e id ∈ t.msgOp s ∧ s'.outbox.idOf e = id := by
  obtain ⟨old, new, hx, hex⟩ := exchange_of_step h
  rcases hlive with hinflight | hpedding | ⟨o, hmem, hcarries⟩
  · rcases hx.inflight with hsame | ⟨c, -, rfl, -, hpush⟩ | ⟨r, id, e', -, -, hx'⟩
    · exact .inl (.inl (hsame ▸ hinflight))
    · rcases List.mem_append.mp (hpush ▸ hinflight) with hmem | hmem
      · exact .inl (.inl hmem)
      · obtain rfl := List.mem_singleton.mp hmem
        exact .inl (.inr (.inr ⟨_, hex.mem_old List.mem_cons_self, decide_eq_true rfl⟩))
    · rw [hx'] at hinflight
      exact .inl (.inl (List.mem_of_mem_eraseP hinflight))
  · rcases hx.pedding with hsame | ⟨e', -, rfl, -, hpush⟩ | ⟨e', -, -, hpop⟩
    · exact .inl (.inr (.inl (hsame ▸ hpedding)))
    · rcases List.mem_append.mp (hpush ▸ hpedding) with hmem | hmem
      · exact .inl (.inr (.inl hmem))
      · obtain rfl := List.mem_singleton.mp hmem
        exact .inl (.inr (.inr ⟨_, hex.mem_old List.mem_cons_self, decide_eq_true rfl⟩))
    · exact .inl (.inr (.inl (hpop ▸ List.mem_cons_of_mem _ hpedding)))
  · rcases hex.mem_or hmem with hnew | hmem
    · have hold : ∀ o ∈ old, o ∈ s.goroutines.ops := fun o => hex.mem_old
      generalize hx' : s'.outbox = x' at hx
      generalize hf' : s'.flags = f' at hx
      cases hx with
      | @msg i o₀ new _ hnext hran =>
        obtain ⟨o', ho', rfl⟩ := List.mem_map.mp hnew
        have hmem₀ := hold _ List.mem_cons_self
        have hsend : ∀ e, o₀ = .send e → (s.outbox.packet (s.outbox.entry e).msg).kind ∉
            [PacketType.pubrec, PacketType.pubrel] := by
          rintro e rfl
          exact hkept.kind e (hs.ops _ hmem₀ : _ ∧ _).1
        rcases hran.carries hsend ho' hcarries with hc | hpedding | ⟨id, rfl⟩
        · exact .inl (.inr (.inr ⟨_, hmem₀, hc⟩))
        · exact .inl (.inr (.inl hpedding))
        · have htracked : s.outbox.Tracked e := hs.ops _ hmem₀
          have hp := hkept.first _ e hmem₀ rfl htracked
          refine .inr ⟨id, hmem₀, Solo.Turn.msgOp_run hnext, ?_⟩
          cases hran with
          | numberPublish _ _ | numberSend _ _ => exact numbered_idOf htracked hp id
      | stop _ hrun =>
        cases o with
        | stop o => exact absurd hcarries Bool.false_ne_true
        | msg o =>
          have hstarts := Begins.of_run hrun _ hnew
          cases hstarts with
          | _ => exact absurd hcarries Bool.false_ne_true
      | publish _ _ | send p | written _ | close _ =>
        obtain rfl := List.mem_singleton.mp hnew
        exact absurd hcarries Bool.false_ne_true
      | recvPacket p _ =>
        obtain rfl := List.mem_singleton.mp hnew
        exact absurd hcarries Bool.false_ne_true
      | notWritten _ =>
        simp only [List.mem_cons, List.not_mem_nil, or_false] at hnew
        rcases hnew with rfl | rfl | rfl <;> exact absurd hcarries Bool.false_ne_true
      | round t new hnew' =>
        obtain ⟨o', -, rfl⟩ := List.mem_map.mp hnew
        exact absurd hcarries Bool.false_ne_true
      | _ => exact absurd hnew (by simp)
    · exact .inl (.inr (.inr ⟨o, hmem, hcarries⟩))

theorem idOf_eq {e : EntryRef} (hp : (x'.entry e).p = (x.entry e).p)
    (hpackets : x'.packets = x.packets) : x'.idOf e = x.idOf e := by
  rw [Outbox.idOf, Outbox.idOf, hp, Outbox.packet, hpackets]

theorem newPacket_idOf (p : ControlPacket) {e : EntryRef} (he : (x.entry e).p < x.packets.next) :
    (x.newPacket p).idOf e = x.idOf e :=
  congrArg ControlPacket.messageID (Heap.alloc_of_lt p he)

/-- What is live keeps its id. -/
theorem Exchange.idOf (h : Exchange cfg s t old new x' f') (hs : Typed s) (hok : FreshIds s t)
    {e : EntryRef} (he : e < s.outbox.entries.next) (hlive : Live s e) :
    x'.idOf e = s.outbox.idOf e := by
  have hp := (hs.heaps.refs e he).1
  cases h with
  | msg hnext hran =>
    have hfresh := hok.2.2 _ (Solo.Turn.msgOp_run hnext)
    have hsame := hran.entry_p e
    cases hran with
    | @numberPublish e' id _ | @numberSend e' id _ =>
      have hne := ((hfresh (e', id) rfl).2 e he hlive).2
      exact congrArg ControlPacket.messageID (Heap.modify_of_ne _ _ hne)
    | send e' _ =>
      obtain ⟨hpackets, _⟩ := assignToken_fields e' (s.outbox.packet _) s.outbox
      exact idOf_eq (hsame.resolve_right (by simp)) hpackets
    | onPubrec messageID => exact newPacket_idOf _ hp
    | reply p => exact newPacket_idOf _ hp
    | updateInflight r =>
      obtain ⟨hpackets, _⟩ := updateInflight_lists r s.outbox
      rcases updateInflight_p r e s.outbox with hsame | ⟨hwith, hr⟩
      · exact idOf_eq hsame hpackets
      · rw [Outbox.idOf, hr, Outbox.packet, hpackets]
        exact (of_decide_eq_true (List.mem_filter.mp hwith).2).symm
    | _ => exact idOf_eq (hsame.resolve_right (by simp)) rfl
  | publish _ _ => exact idOf_eq (congrArg Entry.p (Heap.alloc_of_lt _ he)) rfl
  | send p =>
    have hentry : ((s.outbox.newPacket p.1).newEntry s.outbox.packets.next false).idOf e =
        (s.outbox.newPacket p.1).idOf e :=
      idOf_eq (congrArg Entry.p (Heap.alloc_of_lt _ he)) rfl
    exact hentry.trans (newPacket_idOf _ hp)
  | newPacket p | recvPacket p _ => exact newPacket_idOf _ hp
  | renumber id _ => exact absurd hok.2.1 (by simp [Solo.Turn.renumbered])
  | _ => rfl

/-- The entries that are not numbered yet belong to calls, from the call on. -/
theorem MsgOp.Ran.unnumbered {o : MsgOp} {new : List MsgOp} (h : Ran cfg f x o new x')
    {o' : MsgOp} (hmem : o' ∈ new) {e : EntryRef} (he : o'.unnumbered = some e) :
    o.unnumbered = some e := by
  cases h.follows hmem with
  | setMessageID _ _ | addMsgId _ => exact he
  | _ => exact absurd he (by simp [MsgOp.unnumbered])

theorem Exchange.unnumbered (h : Exchange cfg s t old new x' f') {o : MsgOp}
    (hmem : .msg o ∈ new) {e : EntryRef} (he : o.unnumbered = some e)
    (hlt : e < s.outbox.entries.next) : ∃ o₀, .msg o₀ ∈ old ∧ o₀.unnumbered = some e := by
  rcases h.origin hmem with ⟨o₀, l, hran, ho', -, rfl, -⟩ | hopens
  · exact ⟨o₀, List.mem_cons_self, hran.unnumbered ho' he⟩
  · cases hopens with
    | starts hstarts =>
      cases hstarts with
      | _ => exact absurd he (by simp [MsgOp.unnumbered])
    | addMsgId | send => exact absurd (Option.some.inj he) (Nat.ne_of_gt hlt)
    | onWrited r => exact absurd he (by simp [MsgOp.unnumbered])

theorem holds_of_unnumbered {o : MsgOp} {e : EntryRef} (h : o.unnumbered = some e) :
    Op.holds e (.msg o) = true := by
  cases o with
  | send e' | addMsgId e' | setMessageID e' _ => exact decide_eq_true (Option.some.inj h)
  | _ => exact absurd h (by simp [MsgOp.unnumbered])

/-- A call begins with the packet that it was given, and not with an acknowledgement. -/
theorem Exchange.new_entry (h : Exchange cfg s t old new x' f') (hok : FreshIds s t)
    {e : EntryRef} (he : e < x'.entries.next) (hnew : s.outbox.entries.next ≤ e) :
    (x'.entry e).p = (x'.entry e).msg ∧
      (x'.packet (x'.entry e).msg).kind ∉ [PacketType.pubrec, PacketType.pubrel] := by
  have hlast : x'.entries.next = s.outbox.entries.next + 1 → e = s.outbox.entries.next :=
    fun h => Nat.le_antisymm (Nat.le_of_lt_succ (lt_of_lt_of_eq he h)) hnew
  cases h with
  | msg _ hran => exact absurd (hran.entries_next ▸ he) (Nat.not_lt.mpr hnew)
  | @publish r _ hk =>
    obtain rfl := hlast rfl
    rw [Outbox.newEntry_self]
    refine ⟨rfl, ?_⟩
    show (s.outbox.packet r).kind ∉ _
    rw [hk]
    decide
  | send p =>
    obtain rfl := hlast rfl
    have hentry := (s.outbox.newPacket p.1).newEntry_self s.outbox.packets.next false
    rw [show (s.outbox.newPacket p.1).entries.next = s.outbox.entries.next from rfl] at hentry
    rw [hentry]
    refine ⟨rfl, ?_⟩
    show ((s.outbox.newPacket p.1).packet s.outbox.packets.next).kind ∉ _
    rw [Outbox.newPacket_self]
    exact hok.1 p rfl
  | _ => exact absurd he (Nat.not_lt.mpr hnew)

theorem idsKept_step (hs : Typed s) (hc : Conserves s) (hkept : IdsKept s) (hok : FreshIds s t)
    (h : Solo.step cfg t s = some s') : IdsKept s' := by
  obtain ⟨old, new, hx, hex⟩ := exchange_of_step h
  have htyped : ∀ o ∈ old, o.Typed s.outbox := fun o ho => hs.ops o (hex.mem_old ho)
  have hg := (hx.typed hs htyped).1
  have hid : ∀ e, Live s e → s'.outbox.idOf e = s.outbox.idOf e := fun e hlive =>
    hx.idOf hs hok (hkept.tracked e hlive).1 hlive
  constructor
  · intro e he
    by_cases hlt : e < s.outbox.entries.next
    · rw [hg.kind_msg hs.heaps hlt]
      exact hkept.kind e hlt
    · exact (hx.new_entry hok he (Nat.not_lt.mp hlt)).2
  · intro o e hmem he htracked
    by_cases hlt : e < s.outbox.entries.next
    · have htracked₀ : s.outbox.Tracked e := ⟨hlt, hg.kind_msg hs.heaps hlt ▸ htracked.2⟩
      obtain ⟨o₀, hmem₀, he₀⟩ : ∃ o₀, .msg o₀ ∈ s.goroutines.ops ∧ o₀.unnumbered = some e := by
        rcases hex.mem_or hmem with hnew | hmem
        · obtain ⟨o₀, hold, he₀⟩ := hx.unnumbered hnew he hlt
          exact ⟨o₀, hex.mem_old hold, he₀⟩
        · exact ⟨o, hmem, he⟩
      have hnot := (hc.not_stored_of_held htracked₀ hmem₀ (holds_of_unnumbered he₀)).1
      have hp := (hx.entry_p htyped hlt).resolve_right fun ⟨_, r, _, hwith⟩ =>
        hnot (List.mem_of_mem_filter hwith)
      rw [hp, (hg.entry e hlt).1]
      exact hkept.first o₀ e hmem₀ he₀ htracked₀
    · exact (hx.new_entry hok htracked.1 (Nat.not_lt.mp hlt)).1
  · intro e hlive
    rcases live_step hs hkept h hlive with hlive | ⟨id, hmem, -, -⟩
    · exact hg.tracked hs.heaps (hkept.tracked e hlive)
    · exact hg.tracked hs.heaps (hs.ops _ hmem)
  · intro e hlive
    rcases live_step hs hkept h hlive with hlive | ⟨id, -, hop, hnew⟩
    · rw [hid e hlive]
      exact hkept.nonzero e hlive
    · rw [hnew]
      exact (hok.2.2 _ hop (e, id) rfl).1
  · intro e e' hlive hlive' heq
    rcases live_step hs hkept h hlive with hold | ⟨id, hmem, hop, hnew⟩
    · rcases live_step hs hkept h hlive' with hold' | ⟨id', hmem', hop', hnew'⟩
      · rw [hid e hold, hid e' hold'] at heq
        exact hkept.distinct e e' hold hold' heq
      · rw [hid e hold, hnew'] at heq
        have hlt := (hkept.tracked e hold).1
        exact absurd heq ((hok.2.2 _ hop' (e', id') rfl).2 e hlt hold).1
    · rcases live_step hs hkept h hlive' with hold' | ⟨id', hmem', hop', -⟩
      · rw [hid e' hold', hnew] at heq
        have hlt := (hkept.tracked e' hold').1
        exact absurd heq.symm ((hok.2.2 _ hop (e, id) rfl).2 e' hlt hold').1
      · -- one packet is numbered at a time
        have := Option.some.inj ((Option.mem_def.mp hop).symm.trans (Option.mem_def.mp hop'))
        exact (MsgOp.setMessageID.inj this).1

end Step

/-! ## Runs -/

/-- In a run that writes fresh ids, the ids of what is in flight are distinct and not 0. -/
theorem ids_distinct {s : Solo} (h : (Solo.system cfg).Reach FreshIds s) :
    (s.outbox.inflightingList.map s.outbox.idOf).Nodup ∧
      0 ∉ s.outbox.inflightingList.map s.outbox.idOf := by
  obtain ⟨hc, hkept⟩ : Conserves s ∧ IdsKept s := by
    refine (h.invariant (I := fun s => Typed s ∧ Conserves s ∧ IdsKept s) ?_ ?_).2
    · rintro s ⟨isServer, now, rfl⟩
      refine ⟨typed_initial isServer now, conserves_initial isServer now, ?_⟩
      constructor <;> simp [Solo.initial, Live]
    · rintro s t s' ⟨hs, hc, hkept⟩ hok hstep
      exact ⟨typed_step hs hstep, conserved_step hs hc hstep, idsKept_step hs hc hkept hok hstep⟩
  have hlive : ∀ e ∈ s.outbox.inflightingList, Live s e := fun e he => .inl he
  have hnodup : s.outbox.inflightingList.Nodup := by
    refine List.nodup_iff_count_le_one.mpr fun e => ?_
    by_cases he : e ∈ s.outbox.inflightingList
    · have hplace := hc.count_le (hkept.tracked e (hlive e he))
      omega
    · rw [List.count_eq_zero.mpr he]
      exact Nat.zero_le 1
  constructor
  · exact hnodup.map_on fun e he e' he' heq => hkept.distinct e e' (hlive e he) (hlive e' he') heq
  · intro hzero
    obtain ⟨e, he, hid⟩ := List.mem_map.mp hzero
    exact hkept.nonzero e (hlive e he) hid

theorem ids_distinct_two : ∃ s, (Solo.system {}).Reach FreshIds s ∧
    s.outbox.inflightingList = [0, 1] ∧
    (s.outbox.inflightingList.map s.outbox.idOf).Nodup := by
  have hok : (Solo.system {}).checkAll (fun s t => decide (FreshIds s t))
      (Solo.successiveCalls 2) (Solo.initial true 0) = true := by
    decide +kernel
  have hend : ((Solo.system {}).exec (Solo.successiveCalls 2) (Solo.initial true 0)).any
      (fun s => s.outbox.inflightingList = [0, 1]) = true := by
    decide +kernel
  obtain ⟨s, hs, hc⟩ := StepSystem.exists_reach_of_any (Solo.initial_init {} true 0)
    (StepSystem.along_of_check (fun _ _ h => of_decide_eq_true h) hok) hend
  exact ⟨s, hs, of_decide_eq_true hc, (ids_distinct hs).1⟩

/-! ## The counter wraps around -/

/-- `n` calls of `Publish` on a session that is not connected. -/
def refusedCalls (n : ℕ) : List Solo.Turn :=
  (List.range n).flatMap fun k =>
    [.newPacket (Solo.outboundPublish 1), .publish k] ++ Solo.runs (4 + k) 4

/-- What `n` refused calls leave: `n` ids are used up. -/
structure UsedUp (n : ℕ) (s : Solo) : Prop where
  flags : s.flags = { isServer := true }
  goroutines : s.goroutines = List.replicate (4 + n) []
  packets : s.outbox.packets.next = n
  entries : s.outbox.entries.next = n
  lastMsgId : s.outbox.lastMsgId = n
  inflight : s.outbox.inflightingList = []
  sendList : s.outbox.iSendList = []

/-- A call of `Publish` on a new packet. -/
theorem exec_publish {r : PacketRef} {e : EntryRef} {s : Solo} (hr : s.outbox.packets.next = r)
    (he : s.outbox.entries.next = e) :
    (Solo.system cfg).exec [.newPacket (Solo.outboundPublish 1), .publish r] s =
      some ⟨(s.outbox.newPacket (Solo.outboundPublish 1).1).newEntry r true, s.flags,
        s.goroutines ++ [[.msg (.addMsgId e)]]⟩ := by
  subst hr he
  have hcall : Solo.step cfg (.publish s.outbox.packets.next)
      { s with outbox := s.outbox.newPacket (Solo.outboundPublish 1).1 } =
      some (({ s with
        outbox := s.outbox.newPacket (Solo.outboundPublish 1).1 } : Solo).call
          s.outbox.packets.next true) := by
    refine if_pos ⟨Nat.lt_succ_self _, ?_⟩
    rw [Outbox.newPacket_self]
    rfl
  rw [StepSystem.exec_cons rfl, StepSystem.exec_cons hcall]
  rfl

variable (cfg)

/-- A call that finds the session not connected has taken an id all the same. -/
theorem alone_refused {e : EntryRef} (hf : ¬ f.isConnected)
    (hp : (x.entry e).published = true) :
    ∃ x', alone cfg 4 [.msg (.addMsgId e)] x f = some ([], x', f) ∧
      x'.lastMsgId = x.lastMsgId + 1 ∧ x'.packets.next = x.packets.next ∧
      x'.entries.next = x.entries.next ∧ x'.inflightingList = x.inflightingList ∧
      x'.iSendList = x.iSendList := by
  let x₁ : Outbox := { x with lastMsgId := x.lastMsgId + 1 }
  let x₂ := x₁.modifyPacket (x.entry e).msg
    (ControlPacket.setMessageID (UInt16.ofNat (x.lastMsgId + 1)))
  have hnumber : MsgOp.run cfg f x₁ (.setMessageID e (UInt16.ofNat (x.lastMsgId + 1))) =
      some ([.isConnected e], x₂) := by
    rw [MsgOp.run, if_pos hp]
  have hrefuse : MsgOp.run cfg f x₂ (.isConnected e) =
      some ([.returned e (some (.new "Publish session is stoped"))], x₂) := by
    rw [MsgOp.run, if_neg hf]
  refine ⟨x₂.note (.returned e (some (.new "Publish session is stoped"))), ?_,
    rfl, rfl, rfl, rfl, rfl⟩
  rw [alone_msg rfl]
  exact (alone_msg hnumber).trans ((alone_msg hrefuse).trans rfl)

theorem usedUp_succ {n : ℕ} {s : Solo} (h : UsedUp n s) : ∃ s', (Solo.system cfg).exec
    ([.newPacket (Solo.outboundPublish 1), .publish n] ++ Solo.runs (4 + n) 4) s = some s' ∧
      UsedUp (n + 1) s' := by
  have hentry := (s.outbox.newPacket (Solo.outboundPublish 1).1).newEntry_self n true
  have hgo : (s.goroutines ++ [[Op.msg (.addMsgId n)]])[4 + n]? =
      some [Op.msg (.addMsgId n)] := by
    rw [h.goroutines]
    simp
  have hnext : (s.outbox.newPacket (Solo.outboundPublish 1).1).entries.next = n := h.entries
  rw [hnext] at hentry
  obtain ⟨x, halone, hid, hpackets, hentries, hinflight, hsend⟩ := alone_refused cfg
    (f := s.flags) (by rw [h.flags]; decide) (congrArg Entry.published hentry)
  refine ⟨⟨x, s.flags, (s.goroutines ++ [[Op.msg (.addMsgId n)]]).set (4 + n) []⟩, ?_, ?_⟩
  · rw [StepSystem.exec_append (exec_publish h.packets h.entries)]
    exact exec_runs (s := ⟨_, s.flags, _⟩) hgo halone
  · constructor
    · exact h.flags
    · show List.set _ _ _ = _
      rw [h.goroutines, List.set_append_right _ _ (by simp)]
      simp [← List.replicate_succ', Nat.add_assoc]
    · rw [hpackets]
      exact congrArg (· + 1) h.packets
    · rw [hentries]
      exact congrArg (· + 1) h.entries
    · rw [hid]
      exact congrArg (· + 1) h.lastMsgId
    · rw [hinflight]
      exact h.inflight
    · rw [hsend]
      exact h.sendList

theorem usedUp_refusedCalls (n : ℕ) : ∃ s, (Solo.system cfg).exec (refusedCalls n)
    (Solo.initial true 0) = some s ∧ UsedUp n s := by
  induction n with
  | zero => exact ⟨_, rfl, by constructor <;> rfl⟩
  | succ n ih =>
    obtain ⟨s, hexec, hs⟩ := ih
    obtain ⟨s', hexec', hs'⟩ := usedUp_succ cfg hs
    refine ⟨s', ?_, hs'⟩
    rw [refusedCalls, List.range_succ, List.flatMap_append, List.flatMap_singleton,
      ← refusedCalls, StepSystem.exec_append hexec]
    exact hexec'

/-- A call that finds room puts its entry in flight with its id. -/
theorem alone_accepted {e : EntryRef} (hf : f.isConnected) (hclosed : ¬ f.isClosed)
    (hstoped : f.isStoped = false) (hwindow : x.inflightingList.length < cfg.maxSizeOfInflight)
    (hsend : x.iSendList.length < cfg.maxSizeOfPublishMsg) (hp : (x.entry e).published = true)
    (hmsg : (x.entry e).p = (x.entry e).msg)
    (hkind : (x.packet (x.entry e).msg).kind = PacketType.publish) :
    ∃ x', alone cfg 9 [.msg (.addMsgId e)] x f =
        some ([.msg (.sendEntry (.publish e))], x', f) ∧
      x'.inflightingList = x.inflightingList ++ [e] ∧
      x'.idOf e = UInt16.ofNat (x.lastMsgId + 1) := by
  let x₁ : Outbox := { x with lastMsgId := x.lastMsgId + 1 }
  let x₂ := x₁.modifyPacket (x.entry e).msg
    (ControlPacket.setMessageID (UInt16.ofNat (x.lastMsgId + 1)))
  let x₃ := x₂.modifyEntry e fun i => { i with timeout := x₂.now + cfg.sentTimeout }
  let x₄ : Outbox := { x₃ with inflightingList := x₃.inflightingList ++ [e] }
  have hcell : x₂.packet (x.entry e).p =
      (x.packet (x.entry e).msg).setMessageID (UInt16.ofNat (x.lastMsgId + 1)) := by
    rw [hmsg]
    exact Heap.modify_self ..
  have hnumber : MsgOp.run cfg f x₁ (.setMessageID e (UInt16.ofNat (x.lastMsgId + 1))) =
      some ([.isConnected e], x₂) := by
    rw [MsgOp.run, if_pos hp]
  have hconnected : MsgOp.run cfg f x₂ (.isConnected e) = some ([.isClosed e], x₂) := by
    rw [MsgOp.run, if_pos hf]
  have hopen : MsgOp.run cfg f x₂ (.isClosed e) = some ([.inflightLen e], x₂) := by
    rw [MsgOp.run, if_neg hclosed]
  have hroom : MsgOp.run cfg f x₂ (.inflightLen e) = some ([.sendLen e], x₂) := by
    exact if_pos hwindow
  have hlist : MsgOp.run cfg f x₂ (.sendLen e) =
      some ([.insert2Inflight (.publish e)], x₂) := by
    exact if_pos hsend
  have hinsert : MsgOp.run cfg f x₂ (.insert2Inflight (.publish e)) =
      some ([.newInflight (.publish e)], x₂) := by
    rw [MsgOp.run, if_neg (by simp [hstoped]), if_pos]
    show (x₂.packet (x.entry e).p).kind ∈ _
    rw [hcell, (setMessageID_fields _ _).1, hkind]
    decide
  refine ⟨x₄, ?_, rfl, ?_⟩
  · rw [alone_msg rfl]
    refine (alone_msg hnumber).trans ((alone_msg hconnected).trans ((alone_msg hopen).trans ?_))
    refine (alone_msg hroom).trans ((alone_msg hlist).trans ((alone_msg hinsert).trans ?_))
    exact (alone_msg rfl).trans rfl
  · have hentry := x₂.modifyEntry_self e fun i => { i with timeout := x₂.now + cfg.sentTimeout }
    show (x₂.packet (x₃.entry e).p).messageID = _
    rw [hentry]
    show (x₂.packet (x.entry e).p).messageID = _
    rw [hcell]
    exact messageID_setMessageID (hkind ▸ by decide) _

theorem replicate_set_zero {α : Type} (n : ℕ) (a b : α) :
    ((List.replicate (4 + n) a).set 0 b).set 0 a = List.replicate (4 + n) a := by
  rw [List.set_set, Nat.add_comm, List.replicate_succ, List.set_cons_zero]

/-- The session is started and handles a CONNECT. -/
theorem exec_connecting {n : ℕ} {s : Solo} (h : UsedUp n s) :
    ∃ s', (Solo.system cfg).exec Solo.connecting s = some s' ∧
      s'.flags.isConnected ∧ ¬ s'.flags.isClosed ∧ s'.flags.isStoped = false ∧
      s'.goroutines = List.replicate (4 + n) [] ∧ s'.outbox.packets.next = n + 2 ∧
      s'.outbox.entries.next = n ∧
      s'.outbox.lastMsgId = n ∧ s'.outbox.inflightingList = [] ∧
      s'.outbox.iSendList.length = 1 := by
  let f₁ : Flags :=
    { isServer := true
      openedFiles := 1
      recvLoop := { started := true }
      sendLoop := { started := true } }
  let x₁ := s.outbox.newPacket (connectAs [])
  let code : List Op := [.stop (.recvMsg s.outbox.packets.next true)]
  have hstart : Solo.step cfg .start s = some { s with flags := f₁ } := by
    rw [Solo.step, h.flags]
    rfl
  have hgo : s.goroutines[0]? = some [] := by
    rw [h.goroutines, Nat.add_comm]
    rfl
  have hrecv : Solo.step cfg (.recvPacket (inboundConnect []) true)
      { s with flags := f₁ } = some ⟨x₁, f₁, s.goroutines.set 0 code⟩ := by
    have hrunning : f₁.recvLoop.running ∧ ¬ f₁.connClosed := by decide
    rw [Solo.step, if_pos hrunning, Solo.begin]
    simp only [hgo]
    rfl
  have hmsg : EndOp.run x₁ f₁ (.recvMsg s.outbox.packets.next true) = some
      { next := [.msg (.reply (.connack newConnack)), .stop (.storeConnected 1),
          .stop (.setWill false)]
        flags := f₁ } := by
    have hpacket : x₁.packet s.outbox.packets.next = connectAs [] :=
      Outbox.newPacket_self ..
    rw [EndOp.run, hpacket]
    rfl
  let x₂ := x₁.newPacket (.connack newConnack)
  let x₃ : Outbox := { x₂ with iSendList := x₂.iSendList ++ [x₁.packets.next] }.note
    (.sent none x₁.packets.next)
  let f₂ : Flags := { f₁ with connected := 1 }
  have halone : alone cfg 6 code x₁ f₁ = some ([], x₃, f₂) := by
    refine (alone_stop hmsg).trans ((alone_msg rfl).trans ((alone_msg rfl).trans ?_))
    refine (alone_msg rfl).trans ((alone_stop rfl).trans ((alone_stop rfl).trans ?_))
    rfl
  refine ⟨⟨x₃, f₂, (s.goroutines.set 0 code).set 0 []⟩, ?_, Int.one_pos, Clostep.noConfusion,
    rfl, ?_, congrArg (· + 2) h.packets, h.entries, h.lastMsgId, h.inflight, ?_⟩
  · rw [Solo.connecting, List.cons_append, StepSystem.exec_cons hstart, List.cons_append,
      StepSystem.exec_cons hrecv]
    refine exec_runs ?_ halone
    rw [h.goroutines, Nat.add_comm]
    rfl
  · rw [h.goroutines]
    exact replicate_set_zero ..
  · show (s.outbox.iSendList ++ [_]).length = 1
    rw [h.sendList]
    rfl

/-- `n` calls of `Publish` before the CONNECT and one after it, up to its push. -/
def lateCall (n : ℕ) : List Solo.Turn :=
  refusedCalls n ++ Solo.connecting ++
    [.newPacket (Solo.outboundPublish 1), .publish (n + 2)] ++ Solo.runs (4 + n) 9

/-- The call after `n` refused ones puts the lower 16 bits of `n + 1` in flight. -/
theorem exec_lateCall (hwindow : 0 < cfg.maxSizeOfInflight)
    (hlist : 1 < cfg.maxSizeOfPublishMsg) (n : ℕ) :
    ∃ s, (Solo.system cfg).exec (lateCall n) (Solo.initial true 0) = some s ∧
      s.outbox.inflightingList = [n] ∧ s.outbox.idOf n = UInt16.ofNat (n + 1) := by
  obtain ⟨s₁, hexec₁, hused⟩ := usedUp_refusedCalls cfg n
  obtain ⟨s₂, hexec₂, hconnected, hclosed, hstoped, hgo, hpackets, hentries, hid, hinflight,
    hsend⟩ := exec_connecting cfg hused
  let x := (s₂.outbox.newPacket (Solo.outboundPublish 1).1).newEntry (n + 2) true
  have hentry : x.entry n = _ := hentries ▸
    (s₂.outbox.newPacket (Solo.outboundPublish 1).1).newEntry_self (n + 2) true
  have hpacket : x.packet (n + 2) = (Solo.outboundPublish 1).1 :=
    hpackets ▸ s₂.outbox.newPacket_self (Solo.outboundPublish 1).1
  have hempty : x.inflightingList = [] := hinflight
  have hkind : (x.packet (x.entry n).msg).kind = PacketType.publish := by
    rw [hentry, hpacket]
    rfl
  obtain ⟨x', halone, hpush, hnumber⟩ := alone_accepted cfg (x := x) (f := s₂.flags)
    (e := n) hconnected hclosed hstoped (hempty ▸ hwindow) (hsend ▸ hlist)
    (congrArg Entry.published hentry) (by rw [hentry]) hkind
  refine ⟨⟨x', s₂.flags, (s₂.goroutines ++ [[Op.msg (.addMsgId n)]]).set (4 + n)
    [.msg (.sendEntry (.publish n))]⟩, ?_, ?_, ?_⟩
  · rw [lateCall, List.append_assoc, List.append_assoc, StepSystem.exec_append hexec₁,
      StepSystem.exec_append hexec₂, StepSystem.exec_append (exec_publish hpackets hentries)]
    refine exec_runs (s := ⟨x, s₂.flags, _⟩) ?_ halone
    rw [hgo]
    simp
  · rw [hpush, hempty]
    rfl
  · rw [hnumber]
    exact congrArg (fun k => UInt16.ofNat (k + 1)) hid

/-- No acknowledgement is sent through `Send`, and no other session numbers a packet. -/
def Unshared (_ : Solo) (t : Solo.Turn) : Prop :=
  (∀ p ∈ t.sent, p.1.kind ∉ [PacketType.pubrec, PacketType.pubrel]) ∧ t.renumbered = none

theorem unshared_runs {i n : ℕ} {t : Solo.Turn} (h : t ∈ Solo.runs i n) (s : Solo) :
    Unshared s t := by
  obtain rfl := List.eq_of_mem_replicate h
  exact ⟨by simp [Solo.Turn.sent], rfl⟩

theorem unshared_lateCall {n : ℕ} {t : Solo.Turn} (h : t ∈ lateCall n) (s : Solo) :
    Unshared s t := by
  have hcall : ∀ r, ∀ t ∈ [Solo.Turn.newPacket (Solo.outboundPublish 1), .publish r],
      Unshared s t := by
    intro r t ht
    rcases List.mem_pair.mp ht with rfl | rfl <;> exact ⟨by simp [Solo.Turn.sent], rfl⟩
  rcases List.mem_append.mp h with h | h
  · rcases List.mem_append.mp h with h | h
    · rcases List.mem_append.mp h with h | h
      · obtain ⟨k, -, h⟩ := List.mem_flatMap.mp h
        rcases List.mem_append.mp h with h | h
        · exact hcall _ t h
        · exact unshared_runs h s
      · rcases List.mem_append.mp h with h | h
        · rcases List.mem_pair.mp h with rfl | rfl <;> exact ⟨by simp [Solo.Turn.sent], rfl⟩
        · exact unshared_runs h s
    · exact hcall _ t h
  · exact unshared_runs h s

theorem reach_lateCall (hwindow : 0 < cfg.maxSizeOfInflight)
    (hlist : 1 < cfg.maxSizeOfPublishMsg) (n : ℕ) : ∃ s, (Solo.system cfg).Reach Unshared s ∧
      s.outbox.inflightingList = [n] ∧ s.outbox.idOf n = UInt16.ofNat (n + 1) := by
  obtain ⟨s, hexec, hend⟩ := exec_lateCall cfg hwindow hlist n
  exact ⟨s, StepSystem.reach_of_exec (.init (Solo.initial_init cfg true 0))
    (StepSystem.along_of_forall (fun t ht s => unshared_lateCall ht s) _) hexec, hend⟩

/-- 65535 calls are refused, and the next one puts id 0 in flight. -/
theorem ids_wrap_around : ¬ ∀ s, (Solo.system {}).Reach Unshared s →
    (s.outbox.inflightingList.map s.outbox.idOf).Nodup ∧
      0 ∉ s.outbox.inflightingList.map s.outbox.idOf := by
  intro h
  obtain ⟨s, hs, hinflight, hid⟩ := reach_lateCall {} (by decide) (by decide) 65535
  refine (h s hs).2 ?_
  rw [hinflight, List.map_singleton, hid]
  exact List.mem_singleton_self _

end MqttBroker.Solo

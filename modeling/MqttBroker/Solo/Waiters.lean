import MqttBroker.Solo.Closer
import MqttBroker.Solo.Conservation

/-!
# Who waits for a token

`Publish` and `Send` return a token that is completed later, by the handler of an
acknowledgement or, for the two handshakes, by `Close`. `Close` completes the token of a
DISCONNECT on a session that is connected and that of a CONNECT on one that is not, and
nothing of what is in flight or pending: a caller that waits for one of these waits for ever.
Where nothing is left of them when `Close` comes to its end, and no handshake token was
overwritten or passed by, no caller is left waiting.
-/

namespace MqttBroker.Solo

variable {cfg : Config} {f f' : Flags} {x x' : Outbox}

/-! ## Calls -/

/-- The entry of the call that goes on. -/
def Caller.call : Caller → Option EntryRef
  | publish e | send e => some e
  | refill _ | resend _ => none

/-- An operation of the call that made the entry. -/
def MsgOp.calls (e : EntryRef) : MsgOp → Bool
  | send e' | addMsgId e' | setMessageID e' _ | isConnected e' | isClosed e' | inflightLen e'
  | sendLen e' | sendPeddingChan e' | pushPedding e' | returned e' _ => e' = e
  | insert2Inflight c | newInflight c | pushInflight c | sendEntry c => c.call = some e
  | channelSend c _ | pushSend c _ => c.bind Caller.call = some e
  | _ => false

def Op.calls (e : EntryRef) : Op → Bool
  | .msg o => o.calls e
  | .stop _ => false

/-- The call returned, with its result. -/
def Event.returns (e : EntryRef) : Event → Bool
  | returned e' _ => e' = e
  | _ => false

/-- A call refused. -/
def Event.refuses (e : EntryRef) : Event → Bool
  | returned e' (some _) => e' = e
  | _ => false

/-- A handler or a refill that has yet to complete the token of the entry, or to put the entry
in flight. -/
def MsgOp.owes (e : EntryRef) : MsgOp → Bool
  | subackResults e' _ | flowComplete e' => e' = e
  | insert2Inflight c | newInflight c | pushInflight c => c.call = none ∧ c.entry = e
  | _ => false

def Op.owes (e : EntryRef) : Op → Bool
  | .msg o => o.owes e
  | .stop _ => false

theorem Caller.call_or {c : Caller} {e : EntryRef} (h : c.entry = e) :
    c.call = some e ∨ c.call = none ∧ c.entry = e := by
  cases c with
  | publish e' | send e' => exact .inl (congrArg some h)
  | refill e' | resend e' => exact .inr ⟨rfl, h⟩

/-- An entry is in the hands of its call, or of someone who owes its completion. -/
theorem MsgOp.calls_or_owes {o : MsgOp} {e : EntryRef} (h : o.holds e = true) :
    o.calls e = true ∨ o.owes e = true := by
  cases o with
  | insert2Inflight c | newInflight c | pushInflight c =>
    exact (Caller.call_or (of_decide_eq_true h)).imp (fun h => decide_eq_true h)
      fun h => decide_eq_true h
  | returned e' err =>
    cases err with
    | none => exact absurd h Bool.false_ne_true
    | some err => exact .inl h
  | subackResults e' _ | flowComplete e' => exact .inr h
  | send e' | addMsgId e' | setMessageID e' _ | isConnected e' | isClosed e' | inflightLen e'
  | sendLen e' | sendPeddingChan e' | pushPedding e' => exact .inl h
  | _ => exact absurd h Bool.false_ne_true

/-- How often the call is at work on the entry, and how often it has returned. -/
def Outbox.returns (e : EntryRef) (x : Outbox) : ℕ :=
  x.log.count (.returned e none) + x.log.countP (Event.refuses e)

theorem rest_calls (e : EntryRef) (c : Caller) :
    c.rest.countP (MsgOp.calls e) = if c.call = some e then 1 else 0 := by
  cases c with
  | publish e' | send e' => simp [Caller.rest, Caller.call, MsgOp.calls, List.countP_singleton]
  | refill e' | resend e' => rfl

theorem sendCase_calls (e e' : EntryRef) (r : PacketRef) (p : ControlPacket) :
    (sendCase e' r p).countP (MsgOp.calls e) = if e' = e then 1 else 0 := by
  cases p with
  | _ => simp [sendCase, MsgOp.calls, Caller.call, List.countP_singleton]

theorem note_returns (e : EntryRef) {ev : Event} (h : ∀ e' err, ev ≠ .returned e' err)
    (x : Outbox) : (x.note ev).returns e = x.returns e := by
  have hcount : (x.note ev).log.count (.returned e none) = x.log.count (.returned e none) :=
    List.count_cons_of_ne (h e none)
  have hrefuses : (x.note ev).log.countP (Event.refuses e) = x.log.countP (Event.refuses e) := by
    refine List.countP_cons_of_neg ?_
    cases ev with
    | returned e' err => exact absurd rfl (h e' err)
    | _ => exact Bool.false_ne_true
  rw [Outbox.returns, hcount, hrefuses]
  rfl

theorem updateInflight_returns (e : EntryRef) (r : PacketRef) (x : Outbox) :
    (x.updateInflight r).returns e = x.returns e :=
  updateInflight_induct (P := fun y => y.returns e = x.returns e) r x rfl
    fun _ _ _ h => (note_returns e (by simp) _).trans h

/-- One operation of a call leaves one, or the call returns. -/
theorem MsgOp.Ran.calls {o : MsgOp} {new : List MsgOp} (h : Ran cfg f x o new x')
    (e : EntryRef) : new.countP (MsgOp.calls e) + x'.returns e =
      [o].countP (MsgOp.calls e) + x.returns e := by
  cases h with
  | numberSend id _ | sendListOpen e' _ =>
    simp [MsgOp.calls, Caller.call, List.countP_singleton, Outbox.returns, Outbox.modifyPacket]
  | peddingClosed e' _ =>
    rw [note_returns e (by simp)]
    rfl
  | refused c _ =>
    rw [rest_calls, note_returns e (by simp), List.countP_singleton]
    simp [MsgOp.calls]
  | pushInflight c =>
    cases c with
    | _ => rfl
  | channelStoped c r _ =>
    cases c with
    | none => rfl
    | some k =>
      rw [Option.elim_some, rest_calls, List.countP_singleton]
      simp [MsgOp.calls]
  | pushSend c r =>
    rw [note_returns e (by simp)]
    cases c with
    | none => rfl
    | some k =>
      rw [Option.elim_some, rest_calls, List.countP_singleton]
      simp only [MsgOp.calls, Option.bind_some, decide_eq_true_eq]
      rfl
  | returned e' err =>
    rw [List.countP_nil, List.countP_singleton, Outbox.returns, Outbox.note_log, List.count_cons,
      List.countP_cons, Outbox.returns]
    cases err with
    | none => simp [MsgOp.calls, Event.refuses]; omega
    | some err => simp [MsgOp.calls, Event.refuses]; omega
  | send e' _ =>
    rw [sendCase_calls, List.countP_singleton, Outbox.returns, assignToken_log]
    simp [MsgOp.calls, Outbox.returns]
  | collect now =>
    rw [countP_eq_zero_of_false (q := MsgOp.calls e) (by simp [MsgOp.calls])]
    rfl
  | removeInflight r _ =>
    rw [note_returns e (by simp), countP_eq_zero_of_false (q := MsgOp.calls e) fun o ho => ?_]
    · rfl
    · rcases mem_afterRemove ho with rfl | rfl <;> rfl
  | flowComplete ht _ =>
    rw [note_returns e (by simp)]
    rfl
  | updateInflight r =>
    rw [updateInflight_returns]
    rfl
  | writedQos0 _ _ =>
    rw [countP_eq_zero_of_false (q := MsgOp.calls e) fun o ho => ?_]
    · rfl
    · rcases mem_onInflightDone ho with rfl | rfl <;> rfl
  | completeConnect | completeDisconnect =>
    rw [countP_eq_zero_of_false (q := MsgOp.calls e) fun o ho => ?_]
    · rfl
    · obtain ⟨e', -, rfl⟩ := mem_handshake ho
      rfl
  | _ => rfl

section Calls

variable {s s' : Solo} {t : Solo.Turn} {old new : List Op}

/-- A turn continues a call, or makes one. -/
theorem Exchange.calls (h : Exchange cfg s t old new x' f') (e : EntryRef) :
    new.countP (Op.calls e) + x'.returns e = old.countP (Op.calls e) + s.outbox.returns e ∨
      e = s.outbox.entries.next ∧ old = [] ∧
        new.countP (Op.calls e) + x'.returns e = 1 + s.outbox.returns e := by
  have hbegins : ∀ {P : PacketRef → Prop} {l : List Op}, Begins P l → l.countP (Op.calls e) = 0 :=
    fun hl => hl.countP_eq_zero (fun o ho => by cases ho with | _ => rfl) fun _ => rfl
  have hcall : ∀ {o : MsgOp} {y : Outbox}, o.calls e = decide (s.outbox.entries.next = e) →
      y.returns e = s.outbox.returns e →
      [Op.msg o].countP (Op.calls e) + y.returns e = 0 + s.outbox.returns e ∨
        e = s.outbox.entries.next ∧ ([] : List Op) = [] ∧
          [Op.msg o].countP (Op.calls e) + y.returns e = 1 + s.outbox.returns e := by
    intro o y ho hy
    rw [List.countP_singleton, hy, Op.calls, ho]
    by_cases he : s.outbox.entries.next = e
    · exact .inr ⟨he.symm, rfl, by simp [he]⟩
    · exact .inl (by simp [he])
  cases h with
  | msg _ hran =>
    refine .inl ?_
    rw [countP_map_msg]
    exact hran.calls e
  | stop _ hrun =>
    rw [hbegins (Begins.of_run hrun)]
    exact .inl rfl
  | publish _ _ | send p => exact hcall rfl rfl
  | round t new hnew =>
    rw [hbegins (P := fun _ => False) (.round hnew)]
    exact .inl rfl
  | written _ =>
    refine .inl ?_
    rw [note_returns e (by simp)]
    rfl
  | _ => exact .inl rfl

/-- A call is at work on its entry once, or it has returned once. -/
def Calls (s : Solo) : Prop :=
  ∀ e, s.goroutines.ops.countP (Op.calls e) + s.outbox.returns e ≤ 1

theorem entry_of_calls {e : EntryRef} (o : MsgOp) (h : o.calls e = true) : o.entry = some e := by
  have hentry : ∀ c : Caller, c.call = some e → some c.entry = some e := by
    intro c hc
    cases c with
    | publish e' | send e' => exact hc
    | refill e' | resend e' => exact absurd hc (by simp [Caller.call])
  cases o with
  | send e' | addMsgId e' | setMessageID e' _ | isConnected e' | isClosed e' | inflightLen e'
  | sendLen e' | sendPeddingChan e' | pushPedding e' | returned e' err =>
    exact congrArg some (of_decide_eq_true h)
  | insert2Inflight c | newInflight c | pushInflight c | sendEntry c =>
    exact hentry c (of_decide_eq_true h)
  | channelSend c r | pushSend c r =>
    cases c with
    | none => exact absurd h (by simp [MsgOp.calls])
    | some k => exact hentry k (of_decide_eq_true h)
  | _ => exact absurd h Bool.false_ne_true

theorem returns_eq_zero {e : EntryRef} (hl : x.Lists) (he : x.entries.next ≤ e) :
    x.returns e = 0 := by
  have hreturns : .returned e none ∉ x.log := fun hm =>
    Nat.not_lt.mpr he (hl.log _ hm e rfl)
  have hrefuses : x.log.countP (Event.refuses e) = 0 := by
    refine hl.countP_log (fun ev h => ?_) he
    cases ev with
    | returned e' err =>
      cases err with
      | none => exact absurd h Bool.false_ne_true
      | some err => exact congrArg some (of_decide_eq_true h)
    | _ => exact absurd h Bool.false_ne_true
  rw [Outbox.returns, List.count_eq_zero.mpr hreturns, hrefuses]

theorem calls_step (hs : Typed s) (hc : Calls s) (h : Solo.step cfg t s = some s') :
    Calls s' := by
  intro e
  obtain ⟨old, new, hx, hex⟩ := exchange_of_step h
  have hcount := hex.countP_eq (Op.calls e)
  have hbefore := hc e
  rcases hx.calls e with hsame | ⟨rfl, rfl, hnew⟩
  · omega
  · have hnone : s.goroutines.ops.countP (Op.calls s.outbox.entries.next) = 0 :=
      hs.countP_eq_zero entry_of_calls (fun _ => rfl) (le_refl _)
    have hzero := returns_eq_zero hs.lists (le_refl _)
    rw [List.countP_nil] at hcount
    omega

theorem calls_initial (isServer : Bool) (now : ℤ) : Calls (Solo.initial isServer now) :=
  fun e => by simp [Solo.initial, Outbox.returns]

theorem calls_of_reach {ok : Solo → Solo.Turn → Prop} (h : (Solo.system cfg).Reach ok s) :
    Calls s := by
  refine (h.invariant (I := fun s => Typed s ∧ Calls s) ?_ ?_).2
  · rintro s ⟨isServer, now, rfl⟩
    exact ⟨typed_initial isServer now, calls_initial isServer now⟩
  · exact fun s t s' hs _ hstep => ⟨typed_step hs.1 hstep, calls_step hs.1 hs.2 hstep⟩

/-- A call that has returned a token has not refused. -/
theorem Calls.not_refused (hc : Calls s) {e : EntryRef} {err : GoError}
    (hreturned : .returned e none ∈ s.outbox.log) : .returned e (some err) ∉ s.outbox.log := by
  intro hrefused
  have hone := hc e
  have hcount : 0 < s.outbox.log.count (.returned e none) := List.count_pos_iff.mpr hreturned
  have hrefuses : 0 < s.outbox.log.countP (Event.refuses e) :=
    List.countP_pos_iff.mpr ⟨_, hrefused, decide_eq_true rfl⟩
  rw [Outbox.returns] at hone
  omega

/-- What a call of `Publish` told is so, whatever the other goroutines do, in a run that
takes what `Publish` and the refills have in their hands: a message that it returned a token
for is in one place or has ended, and one that it refused is in none. -/
theorem told_of_reach (h : (Solo.system cfg).Reach Takes s) {e : EntryRef}
    (he : s.outbox.Published e) :
    (.returned e none ∈ s.outbox.log → Conserved s e) ∧
      ∀ err, .returned e (some err) ∈ s.outbox.log →
        e ∉ s.outbox.inflightingList ∧ e ∉ s.outbox.peddingMsgList := by
  refine ⟨fun hreturned => ?_, fun err hrefused => ?_⟩
  · exact conserved_of_not_lost h he (not_lost_of_reach h e) fun err =>
      (calls_of_reach h).not_refused hreturned
  · have hplace := conserved_of_reach h e (he.tracked (typed_of_reach h).heaps)
    have hends : 0 < s.outbox.log.countP (Event.ends e) :=
      List.countP_pos_iff.mpr ⟨_, hrefused, decide_eq_true rfl⟩
    rw [Outbox.stored] at hplace
    exact ⟨List.count_eq_zero.mp (by omega), List.count_eq_zero.mp (by omega)⟩

end Calls

/-! ## Handshake tokens -/

/-- The token of the entry is complete, or its completion is the next thing that someone does
with it. -/
def Done (s : Solo) (e : EntryRef) : Prop :=
  .completed e ∈ s.outbox.log ∨ .msg (.flowComplete e) ∈ s.goroutines.ops

instance (s : Solo) (e : EntryRef) : Decidable (Done s e) :=
  inferInstanceAs (Decidable (_ ∨ _))

/-- The call has not come to its switch, or was refused before. -/
def Unsent (s : Solo) (e : EntryRef) : Prop :=
  .msg (.send e) ∈ s.goroutines.ops ∨
    ∃ err, .msg (.returned e (some err)) ∈ s.goroutines.ops ∨
      .returned e (some err) ∈ s.outbox.log

/-- The tokens of a handshake: the packet that is sent, and the field that has its token. -/
structure Handshake where
  kind : UInt8
  field : Outbox → Option EntryRef

def connect : Handshake := ⟨PacketType.connect, Outbox.connectToken⟩

def disconnect : Handshake := ⟨PacketType.disconnect, Outbox.disconnectToken⟩

/-- The field has no token that is not done. -/
def Handshake.Done (k : Handshake) (s : Solo) : Prop := ∀ e ∈ k.field s.outbox, Solo.Done s e

instance (k : Handshake) (s : Solo) : Decidable (k.Done s) :=
  inferInstanceAs (Decidable (∀ e ∈ k.field s.outbox, _))

/-- `Send` puts its token into the field where that has none that waits. -/
def MsgOp.Keeps (s : Solo) (k : Handshake) : MsgOp → Prop
  | send e => s.flags.isStoped = false →
      (s.outbox.packet (s.outbox.entry e).msg).kind = k.kind → k.Done s
  | _ => True

/-- A handshake token that was returned is in its field or done. -/
def Kept (k : Handshake) (s : Solo) : Prop :=
  ∀ e < s.outbox.entries.next, (s.outbox.packet (s.outbox.entry e).msg).kind = k.kind →
    Unsent s e ∨ k.field s.outbox = some e ∨ Solo.Done s e

/-- Only the switch of `Send` writes the field. -/
structure Handshake.Lawful (k : Handshake) : Prop where
  ne_publish : k.kind ≠ PacketType.publish
  congr : ∀ x x' : Outbox, x'.connectToken = x.connectToken →
    x'.disconnectToken = x.disconnectToken → k.field x' = k.field x
  assignToken : ∀ e p (x : Outbox), k.field (assignToken e p x) =
    if p.kind = k.kind then some e else k.field x

theorem connect_lawful : connect.Lawful where
  ne_publish := by decide
  congr _ _ h _ := h
  assignToken e p x := by
    cases p with
    | _ => rfl

theorem disconnect_lawful : disconnect.Lawful where
  ne_publish := by decide
  congr _ _ _ h := h
  assignToken e p x := by
    cases p with
    | _ => rfl

section Handshakes

variable {s s' : Solo} {t : Solo.Turn} {old new : List Op} {k : Handshake}

theorem MsgOp.Ran.field {o : MsgOp} {new : List MsgOp} (h : Ran cfg f x o new x')
    (hk : k.Lawful) : k.field x' = k.field x ∨
      ∃ e, o = .send e ∧ f.isStoped = false ∧ (x.packet (x.entry e).msg).kind = k.kind ∧
        k.field x' = some e := by
  cases h with
  | send e hs =>
    rw [hk.assignToken]
    split
    · next hkind => exact .inr ⟨e, rfl, hs, hkind, rfl⟩
    · exact .inl rfl
  | updateInflight r =>
    obtain ⟨-, -, -, -, hconnect, hdisconnect, -⟩ := updateInflight_lists r x
    exact .inl (hk.congr _ _ hconnect hdisconnect)
  | _ => exact .inl (hk.congr _ _ rfl rfl)

theorem Exchange.field (h : Exchange cfg s t old new x' f') (hk : k.Lawful) :
    k.field x' = k.field s.outbox ∨ ∃ e, .send e ∈ t.msgOp s ∧ s.flags.isStoped = false ∧
      (s.outbox.packet (s.outbox.entry e).msg).kind = k.kind ∧ k.field x' = some e := by
  cases h with
  | msg hnext hran =>
    refine (hran.field hk).imp id ?_
    rintro ⟨e, rfl, h⟩
    exact ⟨e, Solo.Turn.msgOp_run hnext, h⟩
  | _ => exact .inl (hk.congr _ _ rfl rfl)

/-- What is done stays done. -/
theorem done_step (h : Solo.step cfg t s = some s') {e : EntryRef} (hd : Done s e) :
    Done s' e := by
  obtain ⟨old, new, hx, hex⟩ := exchange_of_step h
  rcases hd with hlog | hop
  · exact .inl (hx.log_sublist.subset hlog)
  · rcases hex.mem_or_of_mem hop with hold | hop
    · generalize hx' : s'.outbox = x' at hx
      generalize hf' : s'.flags = f' at hx
      refine .inl ?_
      rw [hx']
      cases hx with
      | msg _ hran =>
        obtain rfl := Op.msg.inj (List.mem_singleton.mp hold)
        cases hran with
        | flowComplete _ _ => exact List.mem_cons_self
      | stop _ _ => exact absurd (List.mem_singleton.mp hold) (by simp)
      | _ => exact absurd hold (by simp)
    · exact .inr hop

theorem Unsent.of_new {e : EntryRef} {err : GoError}
    (h : .msg (.returned e (some err)) ∈ s.goroutines.ops) : Unsent s e :=
  .inr ⟨err, .inl h⟩

/-- A call that has not come to its switch stays so, or puts its token into the field. -/
theorem unsent_step (hk : k.Lawful) (h : Solo.step cfg t s = some s') {e : EntryRef}
    (hkind : (s.outbox.packet (s.outbox.entry e).msg).kind = k.kind) (hu : Unsent s e) :
    Unsent s' e ∨ k.field s'.outbox = some e := by
  obtain ⟨old, new, hx, hex⟩ := exchange_of_step h
  have hnew : ∀ o ∈ new, o ∈ s'.goroutines.ops := fun o => hex.mem_new
  rcases hu with hsend | ⟨err, hop | hlog⟩
  · rcases hex.mem_or_of_mem hsend with hold | hop
    · generalize hx' : s'.outbox = x' at hx ⊢
      generalize hf' : s'.flags = f' at hx
      cases hx with
      | msg _ hran =>
        obtain rfl := Op.msg.inj (List.mem_singleton.mp hold)
        cases hran with
        | sendStoped _ err => exact .inl (.of_new (hnew _ (List.mem_singleton_self _)))
        | send _ _ =>
          rw [hk.assignToken, if_pos hkind]
          exact .inr rfl
      | stop _ _ => exact absurd (List.mem_singleton.mp hold) (by simp)
      | _ => exact absurd hold (by simp)
    · exact .inl (.inl hop)
  · rcases hex.mem_or_of_mem hop with hold | hop
    · generalize hx' : s'.outbox = x' at hx
      generalize hf' : s'.flags = f' at hx
      refine .inl (.inr ⟨err, .inr ?_⟩)
      rw [hx']
      cases hx with
      | msg _ hran =>
        obtain rfl := Op.msg.inj (List.mem_singleton.mp hold)
        cases hran with
        | returned _ _ => exact List.mem_cons_self
      | stop _ _ => exact absurd (List.mem_singleton.mp hold) (by simp)
      | _ => exact absurd hold (by simp)
    · exact .inl (.of_new hop)
  · exact .inl (.inr ⟨err, .inr (hx.log_sublist.subset hlog)⟩)

theorem kept_step (hs : Typed s) (hk : k.Lawful) (hkept : Kept k s)
    (hok : ∀ o ∈ t.msgOp s, o.Keeps s k) (h : Solo.step cfg t s = some s') : Kept k s' := by
  obtain ⟨old, new, hx, hex⟩ := exchange_of_step h
  have hg := (hx.typed hs fun o ho => hs.ops o (hex.mem_old ho)).1
  intro e he hkind
  by_cases hlt : e < s.outbox.entries.next
  · rw [hg.kind_msg hs.heaps hlt] at hkind
    rcases hkept e hlt hkind with hu | hfield | hd
    · rcases unsent_step hk h hkind hu with hu | hfield
      · exact .inl hu
      · exact .inr (.inl hfield)
    · rcases hx.field hk with hsame | ⟨e', hop, hrunning, hkind', -⟩
      · exact .inr (.inl (hsame.trans hfield))
      · -- another token comes into the field
        exact .inr (.inr (done_step h (hok _ hop hrunning hkind' e hfield)))
    · exact .inr (.inr (done_step h hd))
  · have hnew : ∀ o ∈ new, o ∈ s'.goroutines.ops := fun o => hex.mem_new
    generalize hx' : s'.outbox = x' at hx he hkind
    generalize hf' : s'.flags = f' at hx
    have hlast : x'.entries.next = s.outbox.entries.next + 1 → e = s.outbox.entries.next :=
      fun h => Nat.le_antisymm (Nat.le_of_lt_succ (lt_of_lt_of_eq he h)) (Nat.not_lt.mp hlt)
    cases hx with
    | msg _ hran => exact absurd (hran.entries_next ▸ he) hlt
    | @publish r _ hpublish =>
      obtain rfl := hlast rfl
      rw [Outbox.newEntry_self] at hkind
      exact absurd (hkind.symm.trans hpublish) hk.ne_publish
    | send p =>
      obtain rfl := hlast rfl
      exact .inl (.inl (hnew _ (List.mem_singleton_self _)))
    | _ => exact absurd he hlt

end Handshakes

/-! ## The end of `Close` -/

/-- The entry is nowhere where its token is still to be completed. -/
def Idle (s : Solo) (e : EntryRef) : Prop :=
  e ∉ s.outbox.inflightingList ∧ e ∉ s.outbox.peddingMsgList ∧ .lost e ∉ s.outbox.log ∧
    ∀ o ∈ s.goroutines.ops, o.owes e = false

instance (s : Solo) (e : EntryRef) : Decidable (Idle s e) :=
  inferInstanceAs (Decidable (_ ∧ _ ∧ _ ∧ ∀ o ∈ s.goroutines.ops, _))

/-- The condition on an operation of `Close`. -/
def EndOp.LeavesNone (s : Solo) : EndOp → Prop
  | loadConnected =>
    (s.flags.isConnected → connect.Done s) ∧ (¬ s.flags.isConnected → disconnect.Done s)
  | loadConnectedZero => s.flags.connected ≠ 0 → connect.Done s
  | closeReturned => ∀ e < s.outbox.entries.next, .returned e none ∈ s.outbox.log →
      (s.outbox.entry e).t.isSome = true → Idle s e
  | _ => True

/-- `Send` overwrites no handshake token that waits; `Close` passes by none; and when it
returns, nothing with a token that was returned is in flight, pending, given up, or in the
hands of a handler or a refill. -/
def LeavesNone (s : Solo) (t : Solo.Turn) : Prop :=
  (∀ o ∈ t.msgOp s, o.Keeps s connect ∧ o.Keeps s disconnect) ∧
    ∀ o ∈ t.endOp s, o.LeavesNone s

instance decidableKeeps (s : Solo) (k : Handshake) : (o : MsgOp) → Decidable (o.Keeps s k)
  | .send _ => inferInstanceAs (Decidable (_ → _ → _))
  | .addMsgId _ | .setMessageID _ _ | .isConnected _ | .isClosed _ | .inflightLen _ | .sendLen _
  | .sendPeddingChan _ | .pushPedding _ | .insert2Inflight _ | .newInflight _ | .pushInflight _
  | .sendEntry _ | .channelSend _ _ | .pushSend _ _ | .returned _ _ | .checkInflight | .readNow
  | .collect _ | .resend _ _ | .refillLen _ | .refillSendLen | .recvPeddingChan | .popPedding
  | .loadMessageID _ | .removeInflight _ _ | .subackResults _ _ | .flowComplete _ | .onPubrec _
  | .updateInflight _ | .reply _ | .onWrited _ | .connectErr _ | .completeConnect
  | .completeDisconnect => isTrue trivial

instance decidableLeavesNone (s : Solo) : (o : EndOp) → Decidable (o.LeavesNone s)
  | .loadConnected => inferInstanceAs (Decidable ((_ → _) ∧ (_ → _)))
  | .loadConnectedZero => inferInstanceAs (Decidable (_ → _))
  | .closeReturned => inferInstanceAs (Decidable (∀ e < s.outbox.entries.next, _ → _ → _))
  | .recvMsg _ _ | .storeConnected _ | .setWill _ | .readFailed | .onChannelError | .recvExit
  | .load _ | .storeClosing _ | .tellMgr _ | .onTick _ | .onTimeout | .writeFailed | .storeStoped
  | .sendExit | .exception _ | .loadWill _ | .publishWill _ | .storeException _ | .loadClostep
  | .storeClosed | .closePedding | .loadStoped | .stopChannel | .closeConn | .openedFiles
  | .stopSend | .waitSend | .stopRecv | .waitRecv => isTrue trivial

instance (s : Solo) (t : Solo.Turn) : Decidable (LeavesNone s t) :=
  inferInstanceAs (Decidable ((∀ o ∈ t.msgOp s, _ ∧ _) ∧ ∀ o ∈ t.endOp s, _))

/-- `Close` has completed the handshake tokens, or had none to complete. -/
structure Finished (s : Solo) : Prop where
  isStoped : s.flags.isStoped = true
  peddingClosed : s.flags.peddingClosed = true
  connect : connect.Done s
  disconnect : disconnect.Done s

/-- What holds when the closer of a client session comes to an operation. -/
def EndOp.Finishes (s : Solo) : EndOp → Prop
  | loadClostep => (s.flags.peddingClosed = false ∧ ¬ s.flags.isClosed) ∨ Finished s
  | storeClosed | closePedding => s.flags.peddingClosed = false ∨ Finished s
  | loadStoped | stopChannel => s.flags.peddingClosed = true
  | closeConn | openedFiles | stopSend | waitSend | stopRecv | waitRecv | loadConnected =>
    s.flags.peddingClosed = true ∧ s.flags.isStoped = true
  | loadConnectedZero =>
    s.flags.peddingClosed = true ∧ s.flags.isStoped = true ∧ disconnect.Done s
  | closeReturned => Finished s
  | _ => False

/-- The code of the closer, and what holds. -/
inductive Finishing (s : Solo) : List Op → Prop
  | idle : EndOp.Finishes s .loadClostep → Finishing s []
  | next {o : EndOp} : o.Finishes s → Finishing s [.stop o]
  | last (l : List MsgOp) : s.flags.isStoped = true → s.flags.peddingClosed = true →
      connect.Done s ∨ l = [.connectErr none] ∨ l = [.completeConnect] →
      disconnect.Done s ∨ l = [.completeDisconnect] →
      Finishing s (l.map .msg ++ [.stop .closeReturned])

section Closing

variable {s s' : Solo} {t : Solo.Turn}

/-- The fields of the handshakes are not written after the channel has stopped. -/
theorem handshake_step {k : Handshake} (hk : k.Lawful) (h : Solo.step cfg t s = some s')
    (hs : s.flags.isStoped = true) (hd : k.Done s) : k.Done s' := by
  obtain ⟨old, new, hx, -⟩ := exchange_of_step h
  rcases hx.field hk with hsame | ⟨e, -, hrunning, -⟩
  · intro e he
    rw [hsame] at he
    exact done_step h (hd e he)
  · exact absurd (hrunning.symm.trans hs) Bool.false_ne_true

theorem finished_step (h : Solo.step cfg t s = some s') (hf : Finished s) : Finished s' := by
  obtain ⟨old, new, hx, -⟩ := exchange_of_step h
  exact ⟨hx.stays.1 hf.isStoped, hx.stays.2 hf.peddingClosed,
    handshake_step connect_lawful h hf.isStoped hf.connect,
    handshake_step disconnect_lawful h hf.isStoped hf.disconnect⟩

/-- Turns of the other goroutines. -/
theorem finishes_step (h : Solo.step cfg t s = some s')
    (hp : s'.flags.peddingClosed = s.flags.peddingClosed)
    (hc : s'.flags.isClosed → s.flags.isClosed) {o : EndOp} (ho : o.Finishes s) :
    o.Finishes s' := by
  obtain ⟨old, new, hx, -⟩ := exchange_of_step h
  have hstays := hx.stays
  cases o with
  | loadClostep => exact ho.imp (fun ho => ⟨hp.trans ho.1, mt hc ho.2⟩) (finished_step h)
  | storeClosed | closePedding => exact ho.imp hp.trans (finished_step h)
  | loadStoped | stopChannel => exact hstays.2 ho
  | closeConn | openedFiles | stopSend | waitSend | stopRecv | waitRecv | loadConnected =>
    exact ⟨hstays.2 ho.1, hstays.1 ho.2⟩
  | loadConnectedZero =>
    exact ⟨hstays.2 ho.1, hstays.1 ho.2.1, handshake_step disconnect_lawful h ho.2.1 ho.2.2⟩
  | closeReturned => exact finished_step h ho
  | _ => exact ho.elim

theorem finishing_step (h : Solo.step cfg t s = some s')
    (hp : s'.flags.peddingClosed = s.flags.peddingClosed)
    (hc : s'.flags.isClosed → s.flags.isClosed) {code : List Op} (hf : Finishing s code) :
    Finishing s' code := by
  obtain ⟨old, new, hx, -⟩ := exchange_of_step h
  have hstays := hx.stays
  cases hf with
  | idle ho => exact .idle (finishes_step h hp hc ho)
  | next ho => exact .next (finishes_step h hp hc ho)
  | last l hs hpedding hconnect hdisconnect =>
    exact .last l (hstays.1 hs) (hstays.2 hpedding)
      (hconnect.imp (handshake_step connect_lawful h hs) id)
      (hdisconnect.imp (handshake_step disconnect_lawful h hs) id)

/-- One operation of the closer. -/
theorem EndOp.Ran.finishing {o : EndOp} {next : List Op} {spawned : Pool Op}
    (hran : Ran s.outbox s.flags o next spawned s'.flags) (h : Solo.step cfg t s = some s')
    (hclient : s.flags.isServer = false) (ho : o.Finishes s)
    (hok : o.LeavesNone s) : Finishing s' next := by
  have hkeep : ∀ {k : Handshake}, k.Lawful → s.flags.isStoped = true → k.Done s → k.Done s' :=
    fun hk hs => handshake_step hk h hs
  generalize hf : s'.flags = f' at hran
  cases hran with
  | closedAlready hc => exact .next (finished_step h (ho.resolve_left fun ho => ho.2 hc))
  | loadClostep hc =>
    refine .next (ho.imp (fun ho => ?_) (finished_step h))
    rw [hf]
    exact ho.1
  | storeClosed =>
    refine .next (ho.imp (fun ho => ?_) (finished_step h))
    rw [hf]
    exact ho
  | closePedding hopen =>
    refine .next ?_
    show s'.flags.peddingClosed = true
    rw [hf]
  | channelStoped hs =>
    refine .next ?_
    show s'.flags.peddingClosed = true ∧ s'.flags.isStoped = true
    rw [hf]
    exact ⟨ho, hs⟩
  | channelRuns hs =>
    refine .next ?_
    show s'.flags.peddingClosed = true
    rw [hf]
    exact ho
  | stopChannel =>
    refine .next ?_
    show s'.flags.peddingClosed = true ∧ s'.flags.isStoped = true
    rw [hf]
    exact ⟨ho, rfl⟩
  | closeConn | openedFiles | stopSend _ | sendOver _ | waitSend _ | stopRecv _ | recvOver _
  | waitRecv _ =>
    refine .next ?_
    show s'.flags.peddingClosed = true ∧ s'.flags.isStoped = true
    rw [hf]
    exact ho
  | serverClosed hserver => exact absurd (hclient.symm.trans hserver) Bool.false_ne_true
  | clientConnected _ hc =>
    have hs := ho.2
    refine .last [.completeDisconnect] ?_ ?_ (.inl (hkeep connect_lawful hs (hok.1 hc))) (.inr rfl)
    · rw [hf]
      exact hs
    · rw [hf]
      exact ho.1
  | clientNotConnected _ hc =>
    have hd := hkeep disconnect_lawful ho.2 (hok.2 hc)
    refine .next ⟨?_, ?_, hd⟩
    · rw [hf]
      exact ho.1
    · rw [hf]
      exact ho.2
  | connectTimeout _ =>
    refine .last [.connectErr none] ?_ ?_ (.inr (.inl rfl))
      (.inl (hkeep disconnect_lawful ho.2.1 ho.2.2))
    · rw [hf]
      exact ho.2.1
    · rw [hf]
      exact ho.1
  | connectRefused hc => exact .next (finished_step h ⟨ho.2.1, ho.1, hok hc, ho.2.2⟩)
  | closeReturned => exact .idle (.inr (finished_step h ho))
  | _ => exact ho.elim

/-- The operation that completes a handshake token comes next. -/
theorem done_of_handshake {e : EntryRef} {tok : Option EntryRef} (he : e ∈ tok)
    (hops : ∀ o ∈ (tok.map MsgOp.flowComplete).toList, .msg o ∈ s.goroutines.ops) :
    Done s e := by
  refine .inr (hops _ ?_)
  rw [Option.mem_def.mp he]
  exact List.mem_singleton_self _

/-- The next operation of the closer, whatever it is. -/
theorem finishing_run {o : Op} {code new : List Op} {spawned : Pool Op}
    (hf : Finishing s (o :: code)) (h : Solo.step cfg (.run 3) s = some s')
    (hclient : s.flags.isServer = false)
    (hrun : s.runOp cfg o = some (new, spawned, s'.outbox, s'.flags))
    (hops : ∀ o ∈ new ++ code, o ∈ s'.goroutines.ops)
    (hok : ∀ o', o = .stop o' → o'.LeavesNone s) : Finishing s' (new ++ code) := by
  generalize hl : o :: code = l at hf
  cases hf with
  | idle _ => exact absurd hl (by simp)
  | @next o' ho =>
    obtain ⟨rfl, rfl⟩ := List.cons.inj hl
    rw [List.append_nil]
    obtain ⟨hran, -⟩ := runOp_stop hrun
    exact hran.finishing h hclient ho (hok _ rfl)
  | last l hs hpedding hconnect hdisconnect =>
    cases l with
    | nil =>
      obtain ⟨rfl, rfl⟩ := List.cons.inj hl
      rw [List.append_nil]
      obtain ⟨hran, -⟩ := runOp_stop hrun
      exact hran.finishing h hclient
        ⟨hs, hpedding, hconnect.resolve_right (by simp), hdisconnect.resolve_right (by simp)⟩
        (hok _ rfl)
    | cons o' l =>
      obtain ⟨rfl, rfl⟩ := List.cons.inj hl
      obtain ⟨new, hran, rfl, -, hflags⟩ := runOp_msg hrun
      have hmem : ∀ o ∈ new, .msg o ∈ s'.goroutines.ops := fun o ho =>
        hops _ (List.mem_append_left _ (List.mem_map_of_mem ho))
      have hlast : Finishing s' ((new ++ l).map .msg ++ [.stop .closeReturned]) := by
        refine .last (new ++ l) (hflags ▸ hs) (hflags ▸ hpedding) ?_ ?_
        · rcases hconnect with hd | hd | hd
          · exact .inl (handshake_step connect_lawful h hs hd)
          · obtain ⟨rfl, rfl⟩ := List.cons.inj hd
            generalize hx : s'.outbox = x' at hran
            cases hran with
            | connectErr _ _ => exact .inr (.inr rfl)
            | noConnectErr _ hnone =>
              refine .inl fun e he => ?_
              have : some e = none := (hx ▸ he : e ∈ s.outbox.connectToken).symm.trans hnone
              exact absurd this (by simp)
          · obtain ⟨rfl, rfl⟩ := List.cons.inj hd
            generalize hx : s'.outbox = x' at hran
            cases hran with
            | completeConnect =>
              exact .inl fun e he =>
                done_of_handshake (hx ▸ he : e ∈ s.outbox.connectToken) hmem
        · rcases hdisconnect with hd | hd
          · exact .inl (handshake_step disconnect_lawful h hs hd)
          · obtain ⟨rfl, rfl⟩ := List.cons.inj hd
            generalize hx : s'.outbox = x' at hran
            cases hran with
            | completeDisconnect =>
              exact .inl fun e he =>
                done_of_handshake (hx ▸ he : e ∈ s.outbox.disconnectToken) hmem
      rw [List.map_append, List.append_assoc] at hlast
      exact hlast

end Closing

/-! ## Runs -/

structure Attended (s : Solo) : Prop extends ClosesAlone s where
  calls : Calls s
  connect : Kept connect s
  disconnect : Kept disconnect s
  code : s.flags.isServer = false → ∃ code, s.goroutines[3]? = some code ∧ Finishing s code

theorem EndOp.Ran.isServer {o : EndOp} {next : List Op} {spawned : Pool Op}
    (h : Ran x f o next spawned f') : f'.isServer = f.isServer := by
  cases h with
  | _ => rfl

theorem isServer_step {s s' : Solo} {t : Solo.Turn} (h : Solo.step cfg t s = some s') :
    s'.flags.isServer = s.flags.isServer := by
  obtain ⟨old, new, hx, -⟩ := exchange_of_step h
  generalize s'.outbox = x' at hx
  generalize s'.flags = f' at hx ⊢
  cases hx with
  | stop _ hrun => exact (EndOp.ran_of_run hrun).isServer
  | _ => rfl

theorem Finishing.of_nil {s : Solo} (h : Finishing s []) : EndOp.Finishes s .loadClostep := by
  generalize hl : ([] : List Op) = l at h
  cases h with
  | idle ho => exact ho
  | next _ => exact absurd hl (by simp)
  | last l _ _ _ _ => exact absurd hl (by simp)

theorem attended_step {s s' : Solo} {t : Solo.Turn} (hs : Typed s) (ha : Attended s)
    (hok : LeavesNone s t) (h : Solo.step cfg t s = some s') : Attended s' := by
  have halone := closesAlone_step ha.toClosesAlone h
  refine ⟨halone, calls_step hs ha.calls h,
    kept_step hs connect_lawful ha.connect (fun o ho => (hok.1 o ho).1) h,
    kept_step hs disconnect_lawful ha.disconnect (fun o ho => (hok.1 o ho).2) h, ?_⟩
  intro hclient
  rw [isServer_step h] at hclient
  obtain ⟨code, hcode, hf⟩ := ha.code hclient
  by_cases ht : t.goroutine = some 3
  · rcases closer_of_step h ht with ⟨hidle, -, -, hflags, hp⟩ |
      ⟨o, rest, new, spawned, hrest, rfl, hrun, hp⟩
    · obtain rfl := Option.some.inj (hcode.symm.trans hidle)
      have hnew : s'.goroutines[3]? = some [.stop .loadClostep] := by
        rw [hp, List.getElem?_set_self ha.exists_closer]
      exact ⟨_, hnew, .next (finishes_step h (by rw [hflags]) (hflags ▸ id) hf.of_nil)⟩
    · obtain rfl := Option.some.inj (hcode.symm.trans hrest)
      have hnew : s'.goroutines[3]? = some (new ++ rest) := by
        have hlt : 3 < (s.goroutines.set 3 (new ++ rest)).length := by
          rw [List.length_set]
          exact ha.exists_closer
        rw [hp, List.getElem?_append_left hlt, List.getElem?_set_self ha.exists_closer]
      refine ⟨_, hnew, finishing_run hf h hclient hrun (fun o ho => ?_) fun o' ho' => ?_⟩
      · exact List.mem_flatten.mpr ⟨_, List.mem_of_getElem? hnew, ho⟩
      · subst ho'
        exact hok.2 o' (Solo.Turn.endOp_run (by rw [Solo.nextOp, hrest]; rfl))
  · obtain ⟨hsame, hd⟩ := drifts_of_step ha.toClosesAlone h ht
    refine ⟨code, hsame.trans hcode, finishing_step h ?_ ?_ hf⟩
    · exact hd.elim (·.peddingClosed) fun hd => hd.2 ▸ rfl
    · exact hd.elim (·.isClosed) fun hd => hd.2 ▸ id

theorem attended_initial (isServer : Bool) (now : ℤ) : Attended (Solo.initial isServer now) where
  toClosesAlone := closesAlone_initial isServer now
  calls := calls_initial isServer now
  connect e he := absurd he (Nat.not_lt_zero e)
  disconnect e he := absurd he (Nat.not_lt_zero e)
  code _ := ⟨[], rfl, .idle (.inl ⟨rfl, by simp [Solo.initial]⟩)⟩

section Returned

variable {s : Solo} {e : EntryRef}

/-- A call that has returned a token has not been refused. -/
theorem not_unsent (hc : Calls s) (hreturned : .returned e none ∈ s.outbox.log) :
    ¬ Unsent s e := by
  have hone := hc e
  have hpos : 0 < s.outbox.log.count (.returned e none) := List.count_pos_iff.mpr hreturned
  rw [Outbox.returns] at hone
  have hnone : ∀ o ∈ s.goroutines.ops, o.calls e = true → False := fun o ho hcalls => by
    have : 0 < s.goroutines.ops.countP (Op.calls e) := List.countP_pos_iff.mpr ⟨o, ho, hcalls⟩
    omega
  rintro (hsend | ⟨err, hop | hlog⟩)
  · exact hnone _ hsend (decide_eq_true rfl)
  · exact hnone _ hop (decide_eq_true rfl)
  · have : 0 < s.outbox.log.countP (Event.refuses e) :=
      List.countP_pos_iff.mpr ⟨_, hlog, decide_eq_true rfl⟩
    omega

/-- A tracked entry that was returned and is idle is completed. -/
theorem completed_of_idle (hc : Conserves s) (hcalls : Calls s) (he : s.outbox.Tracked e)
    (hreturned : .returned e none ∈ s.outbox.log) (hidle : Idle s e) :
    .completed e ∈ s.outbox.log := by
  obtain ⟨hinflight, hpedding, hlost, howes⟩ := hidle
  have hone := hcalls e
  have hpos : 0 < s.outbox.log.count (.returned e none) := List.count_pos_iff.mpr hreturned
  rw [Outbox.returns] at hone
  have hheld : held e s.goroutines.ops = 0 := by
    refine List.countP_eq_zero.mpr fun o ho hholds => ?_
    cases o with
    | stop o => exact absurd hholds Bool.false_ne_true
    | msg o =>
      rcases MsgOp.calls_or_owes hholds with hcall | howe
      · have : 0 < s.goroutines.ops.countP (Op.calls e) :=
          List.countP_pos_iff.mpr ⟨_, ho, hcall⟩
        omega
      · exact absurd ((howes _ ho).symm.trans howe) Bool.false_ne_true
  have hplace := hc e he
  rw [hheld, Outbox.stored, List.count_eq_zero.mpr hinflight, List.count_eq_zero.mpr hpedding]
    at hplace
  obtain ⟨ev, hev, hends⟩ :=
    List.countP_pos_iff.mp (by omega : 0 < s.outbox.log.countP (Event.ends e))
  cases ev with
  | completed e' => exact of_decide_eq_true hends ▸ hev
  | lost e' => exact absurd (of_decide_eq_true hends ▸ hev) hlost
  | returned e' err =>
    cases err with
    | none => exact absurd hends Bool.false_ne_true
    | some err =>
      have : 0 < s.outbox.log.countP (Event.refuses e) :=
        List.countP_pos_iff.mpr ⟨_, hev, hends⟩
      omega
  | _ => exact absurd hends Bool.false_ne_true

theorem completed_of_done (hd : Done s e) (hidle : Idle s e) : .completed e ∈ s.outbox.log :=
  hd.resolve_right fun hop =>
    absurd ((hidle.2.2.2 _ hop).symm.trans (decide_eq_true rfl)) Bool.false_ne_true

/-- The types of packets that have a token. -/
theorem kind_of_token {k : UInt8} (h : (newToken k).isSome = true) :
    k ∈ numbered ∨ k = connect.kind ∨ k = disconnect.kind := by
  unfold newToken at h
  split at h
  · exact .inr (.inl rfl)
  · exact .inl (by decide)
  · exact .inl (by decide)
  · exact .inl (by decide)
  · exact .inr (.inr rfl)
  · exact absurd h Bool.false_ne_true

end Returned

theorem exists_of_endOp {s : Solo} {t : Solo.Turn} {o : EndOp} (h : o ∈ t.endOp s) :
    ∃ i code, t = .run i ∧ s.goroutines[i]? = some (.stop o :: code) := by
  cases t with
  | run i =>
    unfold Solo.Turn.endOp Solo.Turn.op Solo.nextOp at h
    cases hcode : s.goroutines[i]? with
    | none => simp [hcode] at h
    | some code =>
      cases code with
      | nil => simp [hcode] at h
      | cons o' code =>
        cases o' with
        | msg o' => simp [hcode] at h
        | stop o' =>
          obtain rfl : o' = o := by simpa [hcode] using h
          exact ⟨i, code, rfl, hcode⟩
  | _ => simp [Solo.Turn.endOp, Solo.Turn.op] at h

theorem Finishing.finished {s : Solo} {code : List Op}
    (h : Finishing s (.stop .closeReturned :: code)) : Finished s := by
  generalize hl : Op.stop .closeReturned :: code = l at h
  cases h with
  | idle _ => exact absurd hl (by simp)
  | next ho =>
    obtain ⟨heq, -⟩ := List.cons.inj hl
    obtain rfl := Op.stop.inj heq
    exact ho
  | last l hs hpedding hconnect hdisconnect =>
    cases l with
    | nil =>
      exact ⟨hs, hpedding, hconnect.resolve_right (by simp), hdisconnect.resolve_right (by simp)⟩
    | cons o l => exact absurd (List.cons.inj hl).1 (by simp)

/-- In a run whose steps leave no waiter, when `Close` returns on a client session every token
that `Publish` or `Send` has returned is complete. -/
theorem no_waiter_left {s s' : Solo} {t : Solo.Turn} (h : (Solo.system cfg).Reach LeavesNone s)
    (hok : LeavesNone s t) (hstep : Solo.step cfg t s = some s')
    (hclient : s.flags.isServer = false) (hreturns : .closeReturned ∈ t.endOp s) {e : EntryRef}
    (hreturned : .returned e none ∈ s'.outbox.log) :
    ∀ token ∈ (s'.outbox.entry e).t, token.complete = true := by
  obtain ⟨hs, ha⟩ : Typed s ∧ Attended s := by
    refine h.invariant (I := fun s => Typed s ∧ Attended s) ?_
      fun s t s' hs hok hstep => ⟨typed_step hs.1 hstep, attended_step hs.1 hs.2 hok hstep⟩
    rintro s ⟨isServer, now, rfl⟩
    exact ⟨typed_initial isServer now, attended_initial isServer now⟩
  obtain ⟨i, code, rfl, hcode⟩ := exists_of_endOp hreturns
  -- it is the closer, which has come to the end of `Close`
  have hi : i = 3 := by
    by_contra hi
    exact absurd (ha.others i hi _ hcode _ List.mem_cons_self) Bool.false_ne_true.symm
  subst hi
  obtain ⟨code', hcode', hfinishing⟩ := ha.code hclient
  obtain rfl := Option.some.inj (hcode'.symm.trans hcode)
  have hf := hfinishing.finished
  have hsame : s'.outbox = s.outbox := by
    rw [Solo.step, hcode] at hstep
    obtain ⟨r, hr, rfl⟩ := Option.map_eq_some_iff.mp hstep
    exact (runOp_stop hr).2
  rw [hsame] at hreturned ⊢
  intro token htoken
  have hlt := hs.lists.log _ hreturned e rfl
  have hsome : (s.outbox.entry e).t.isSome = true := by
    rw [Option.mem_def.mp htoken]
    rfl
  have hidle := hok.2 _ hreturns e hlt hreturned hsome
  have hcompleted : .completed e ∈ s.outbox.log := by
    have hkept : ∀ {k : Handshake}, Kept k s → k.Done s →
        (s.outbox.packet (s.outbox.entry e).msg).kind = k.kind → .completed e ∈ s.outbox.log := by
      intro k hk hd hkind
      rcases hk e hlt hkind with hu | hfield | hdone
      · exact absurd hu (not_unsent ha.calls hreturned)
      · exact completed_of_done (hd e hfield) hidle
      · exact completed_of_done hdone hidle
    rw [hs.heaps.token e hlt] at hsome
    rcases kind_of_token hsome with hk | hk | hk
    · exact completed_of_idle (conserved_of_reach h) ha.calls ⟨hlt, hk⟩ hreturned hidle
    · exact hkept ha.connect hf.connect hk
    · exact hkept ha.disconnect hf.disconnect hk
  have hcomplete := (isComplete_of_reach h e hlt).mpr hcompleted
  rw [Outbox.isComplete, Option.mem_def.mp htoken] at hcomplete
  exact hcomplete

/-- A client session is started, sends a CONNECT and handles the CONNACK. -/
def clientConnecting : List Solo.Turn :=
  [.start, .send (outboundConnect [])] ++ Solo.runs 4 4 ++ [.sendRound true] ++ Solo.runs 1 1 ++
    [.recvPacket (inboundConnack 0) true] ++ Solo.runs 0 5

/-- `Close` of a session whose channel runs, with the ends of the two loops, up to its load of
`connected`. -/
def closingChannel : List Solo.Turn :=
  [.close] ++ Solo.runs 3 8 ++ [.sendRound true] ++ Solo.runs 1 2 ++ Solo.runs 3 2 ++
    [.recvError] ++ Solo.runs 0 4 ++ Solo.runs 3 2

/-- A client session connects, sends a DISCONNECT, and is closed. -/
def disconnecting : List Solo.Turn :=
  clientConnecting ++ [.send ⟨disconnectPacket, rfl⟩] ++ Solo.runs 5 4 ++ [.sendRound true] ++
    Solo.runs 1 1 ++ closingChannel ++ Solo.runs 3 2

theorem no_waiter_left_disconnect : ∃ s s', (Solo.system {}).Reach LeavesNone s ∧
    Solo.step {} (.run 3) s = some s' ∧
    (∀ token ∈ (s'.outbox.entry 0).t, token.complete = true) ∧
    ∀ token ∈ (s'.outbox.entry 1).t, token.complete = true := by
  have hok : (Solo.system {}).checkAll (fun s t => decide (LeavesNone s t)) disconnecting
      (Solo.initial false 0) = true := by
    decide
  have hend : ((Solo.system {}).exec disconnecting (Solo.initial false 0)).any (fun s =>
      s.flags.isServer = false ∧ EndOp.closeReturned ∈ (Solo.Turn.run 3).endOp s ∧
        LeavesNone s (.run 3) ∧ (Solo.step {} (.run 3) s).any (fun s' =>
          Event.returned 0 none ∈ s'.outbox.log ∧ Event.returned 1 none ∈ s'.outbox.log)) =
        true := by
    decide
  obtain ⟨s, hs, hc⟩ := StepSystem.exists_reach_of_any (Solo.initial_init {} false 0)
    (StepSystem.along_of_check (fun _ _ h => of_decide_eq_true h) hok) hend
  obtain ⟨hclient, hreturns, hlast, hnext⟩ := of_decide_eq_true hc
  obtain ⟨s', hstep, hreturned⟩ := (Option.any_eq_true _ _).mp hnext
  obtain ⟨hconnect, hdisconnect⟩ := of_decide_eq_true hreturned
  exact ⟨s, s', hs, hstep, no_waiter_left hs hlast hstep hclient hreturns hconnect,
    no_waiter_left hs hlast hstep hclient hreturns hdisconnect⟩

/-- A client session connects, publishes a message that is not acknowledged, and is closed. -/
def closingInFlight : List Solo.Turn :=
  clientConnecting ++ [.newPacket (Solo.outboundPublish 1), .publish 2] ++ Solo.runs 5 13 ++
    closingChannel ++ Solo.runs 3 1

theorem waiter_left : ¬ ∀ s s' : Solo, (Solo.system {}).Reachable s →
    s.flags.isServer = false → .closeReturned ∈ (Solo.Turn.run 3).endOp s →
    Solo.step {} (.run 3) s = some s' → ∀ e, .returned e none ∈ s'.outbox.log →
    ∀ token ∈ (s'.outbox.entry e).t, token.complete = true := by
  have hend : ((Solo.system {}).exec closingInFlight (Solo.initial false 0)).any (fun s =>
      s.flags.isServer = false ∧ EndOp.closeReturned ∈ (Solo.Turn.run 3).endOp s ∧
        (Solo.step {} (.run 3) s).any (fun s' => Event.returned 1 none ∈ s'.outbox.log ∧
          (s'.outbox.entry 1).t.any (fun token => token.complete = false))) = true := by
    decide
  intro hall
  obtain ⟨s, hs, hc⟩ :=
    StepSystem.exists_reachable_of_any (Solo.initial_init {} false 0) hend
  obtain ⟨hclient, hreturns, hnext⟩ := of_decide_eq_true hc
  obtain ⟨s', hstep, hleft⟩ := (Option.any_eq_true _ _).mp hnext
  obtain ⟨hreturned, htoken⟩ := of_decide_eq_true hleft
  obtain ⟨token, ht, hincomplete⟩ := (Option.any_eq_true _ _).mp htoken
  have hcomplete := hall s s' hs hclient hreturns hstep 1 hreturned token ht
  exact absurd ((of_decide_eq_true hincomplete).symm.trans hcomplete) Bool.false_ne_true

end MqttBroker.Solo

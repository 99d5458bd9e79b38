import MqttBroker.Solo.Typed

/-!
# Outbound messages are conserved

An entry that is to be acknowledged is at every moment in exactly one place: an operation
that is still to be done holds it, or it is pending, or in flight, or its call has failed,
or it was given up, or its token was completed. One operation moves it from one place to
another, whatever the other goroutines do meanwhile. It is given up only by a session whose
channel has stopped or whose pending queue is closed.
-/

namespace MqttBroker.Solo

variable {cfg : Config} {f : Flags} {x x' : Outbox}

/-! ## Places -/

/-- An operation that has the entry in its hands: no list has it until the operation is done. -/
def MsgOp.holds (e : EntryRef) : MsgOp → Bool
  | send e' | addMsgId e' | setMessageID e' _ | isConnected e' | isClosed e' | inflightLen e'
  | sendLen e' | sendPeddingChan e' | pushPedding e' | subackResults e' _
  | flowComplete e' | returned e' (some _) => e' = e
  | insert2Inflight c | newInflight c | pushInflight c => c.entry = e
  | _ => false

def Op.holds (e : EntryRef) : Op → Bool
  | .msg o => o.holds e
  | .stop _ => false

/-- An event after which the entry is in no list and in no hands. -/
def Event.ends (e : EntryRef) : Event → Bool
  | returned e' (some _) | lost e' | completed e' => e' = e
  | _ => false

/-- How often the lists have the entry, and how often it has ended. -/
def Outbox.stored (e : EntryRef) (x : Outbox) : ℕ :=
  x.peddingMsgList.count e + x.inflightingList.count e + x.log.countP (Event.ends e)

/-- How many operations hold the entry. -/
def held (e : EntryRef) (l : List Op) : ℕ := l.countP (Op.holds e)

theorem held_map_msg (e : EntryRef) (l : List MsgOp) :
    held e (l.map .msg) = l.countP (MsgOp.holds e) := by
  rw [held, List.countP_map]
  rfl

theorem Begins.held_eq_zero {P : PacketRef → Prop} {l : List Op} (h : Begins P l)
    (e : EntryRef) : held e l = 0 :=
  h.countP_eq_zero (fun o ho => by cases ho with | _ => rfl) fun _ => rfl

/-- An operation that holds an entry works on it. -/
theorem entry_of_holds {e : EntryRef} (o : MsgOp) (h : o.holds e = true) : o.entry = some e := by
  cases o with
  | send e' | addMsgId e' | setMessageID e' _ | isConnected e' | isClosed e' | inflightLen e'
  | sendLen e' | sendPeddingChan e' | pushPedding e' | subackResults e' _ | flowComplete e'
  | insert2Inflight c | newInflight c | pushInflight c =>
    exact congrArg some (of_decide_eq_true h)
  | returned e' err =>
    cases err with
    | none => exact absurd h Bool.false_ne_true
    | some err => exact congrArg some (of_decide_eq_true h)
  | _ => exact absurd h Bool.false_ne_true

theorem entry_of_ends {e : EntryRef} {ev : Event} (h : ev.ends e = true) :
    ev.entry = some e := by
  cases ev with
  | lost e' | completed e' => exact congrArg some (of_decide_eq_true h)
  | returned e' err =>
    cases err with
    | none => exact absurd h Bool.false_ne_true
    | some err => exact congrArg some (of_decide_eq_true h)
  | _ => exact absurd h Bool.false_ne_true

/-- What has not been allocated is nowhere. -/
theorem stored_eq_zero {e : EntryRef} (hl : x.Lists) (he : x.entries.next ≤ e) :
    x.stored e = 0 := by
  rw [Outbox.stored, hl.count_pedding he, hl.count_inflighting he,
    hl.countP_log (fun _ => entry_of_ends) he]

/-! ## One operation -/

theorem rest_holds (e : EntryRef) (c : Caller) : c.rest.countP (MsgOp.holds e) = 0 := by
  cases c with
  | _ => rfl

/-- `Send` goes on holding an entry that is to be acknowledged. -/
theorem sendCase_holds {e e' : EntryRef} {r : PacketRef} {p : ControlPacket}
    (h : e' = e → p.kind ∈
      [PacketType.publish, PacketType.subscribe, PacketType.unsubscribe]) :
    (sendCase e' r p).countP (MsgOp.holds e) = [MsgOp.send e'].countP (MsgOp.holds e) := by
  cases p with
  | publish m | subscribe m | unsubscribe m | pubrec m | pubrel m => rfl
  | _ =>
    have hne : e' ≠ e := fun he => absurd (h he) (by rw [ControlPacket.kind]; decide)
    have hnot : MsgOp.holds e (.send e') = false := decide_eq_false hne
    rw [List.countP_singleton, hnot]
    rfl

theorem afterRemove_holds {e e' : EntryRef} {r : PacketRef}
    (h : e' = e → (x.entry e').t.isSome = true) :
    (afterRemove e' r x).countP (MsgOp.holds e) = if e' = e then 1 else 0 := by
  unfold afterRemove
  by_cases he : e' = e
  · have hsome : (x.entry e').t.isNone = false := by
      rw [← Option.not_isSome, h he]
      rfl
    rw [hsome, if_neg Bool.false_ne_true]
    split <;> simp [MsgOp.holds, he]
  · split
    · simp
    · split <;> simp [MsgOp.holds, he]

/-- A tracked entry has a token. -/
theorem Outbox.Tracked.isSome {e : EntryRef} (he : x.Tracked e) (hx : x.Heaps) :
    (x.entry e).t.isSome = true := by
  rw [hx.token e he.1]
  obtain ⟨-, hk⟩ := he
  simp only [List.mem_cons, List.not_mem_nil, or_false] at hk
  rcases hk with hk | hk | hk <;> rw [hk] <;> rfl

/-- `removeInflightMsg` takes one occurrence of the entry it finds out of the list. -/
theorem count_removeInflight {e e' : EntryRef} {id : UInt16} (h : x.acknowledged id = some e') :
    x.inflightingList.count e =
      (x.removeInflight id).inflightingList.count e + if e' = e then 1 else 0 := by
  rw [← (GoList.perm_of_find? h).count_eq e, List.count_cons]
  simp only [beq_iff_eq]
  rfl

theorem updateInflight_ends (e : EntryRef) (r : PacketRef) (x : Outbox) :
    (x.updateInflight r).log.countP (Event.ends e) = x.log.countP (Event.ends e) :=
  updateInflight_induct (P := fun y => y.log.countP (Event.ends e) = x.log.countP (Event.ends e))
    r x rfl fun _ _ _ h => h

/-- A published entry has a PUBLISH or a PUBREL, which `insert2Inflight` puts in flight. -/
theorem kind_of_published {e : EntryRef} (hx : x.Heaps) (he : x.Published e) :
    (x.packet (x.entry e).p).kind = PacketType.publish ∨
      (x.packet (x.entry e).p).kind = PacketType.pubrel := by
  refine (hx.packet e he.1).imp (fun hp => ?_) id
  rw [hp]
  exact hx.published e he.1 he.2

/-- The entry of a token field is not tracked. -/
theorem handshake_holds {e : EntryRef} {t : Option EntryRef}
    (h : ∀ e', t = some e' → e' ≠ e) :
    (t.map MsgOp.flowComplete).toList.countP (MsgOp.holds e) = 0 := by
  cases t with
  | none => rfl
  | some e' =>
    have hnot : MsgOp.holds e (.flowComplete e') = false := decide_eq_false (h e' rfl)
    simp [hnot]

/-- An operation moves a tracked entry from one place to another. -/
theorem MsgOp.Ran.balance {o : MsgOp} {new : List MsgOp} (h : Ran cfg f x o new x')
    (hx : x.Heaps) (hl : x.Lists) (ho : o.Typed x) {e : EntryRef} (he : x.Tracked e) :
    new.countP (MsgOp.holds e) + x'.stored e = [o].countP (MsgOp.holds e) + x.stored e := by
  cases h with
  | @removeInflight e' r id hfound =>
    have hcount := count_removeInflight (e := e) hfound
    have hafter := afterRemove_holds (r := r) (fun h : e' = e => h ▸ he.isSome hx)
    rw [hafter]
    show _ + (x.peddingMsgList.count e + (x.removeInflight id).inflightingList.count e +
      x.log.countP (Event.ends e)) = 0 + x.stored e
    rw [Outbox.stored]
    omega
  | send e' hs =>
    rw [sendCase_holds fun h => h ▸ he.2]
    congr 1
    unfold assignToken
    split <;> rfl
  | notInserted hk =>
    refine absurd ?_ hk
    rcases kind_of_published hx ho with h | h <;> simp [h]
  | completeConnect =>
    rw [handshake_holds fun e' h hne => ?_]
    · rfl
    · have hk := (hl.connectToken e' h).2
      rw [hne] at hk
      exact absurd he.2 (by rw [hk]; decide)
  | completeDisconnect =>
    rw [handshake_holds fun e' h hne => ?_]
    · rfl
    · have hk := (hl.disconnectToken e' h).2
      rw [hne] at hk
      exact absurd he.2 (by rw [hk]; decide)
  | updateInflight r =>
    obtain ⟨_, hinflight, hpedding, _⟩ := updateInflight_lists r x
    rw [Outbox.stored, hinflight, hpedding, updateInflight_ends]
    rfl
  | refused c hs =>
    rw [rest_holds]
    by_cases hc : c.entry = e
    · simp [Outbox.stored, Outbox.note, MsgOp.holds, Event.ends, hc]
      omega
    · simp [Outbox.stored, Outbox.note, MsgOp.holds, Event.ends, hc]
  | channelStoped c r hs | pushSend c r =>
    cases c with
    | none => rfl
    | some c => exact congrArg (· + x.stored e) (rest_holds e c)
  | pushInflight c =>
    have hafter : [c.afterPush x].countP (MsgOp.holds e) = 0 := by
      cases c with
      | _ => rfl
    rw [hafter]
    simp only [Outbox.stored, count_push, List.countP_cons, List.countP_nil, MsgOp.holds,
      decide_eq_true_eq]
    omega
  | pushPedding e' =>
    simp only [Outbox.stored, count_push, List.countP_cons, List.countP_nil, MsgOp.holds,
      decide_eq_true_eq, Bool.false_eq_true, if_false]
    omega
  | collect now =>
    have hnone : ((x.timedOut now).map (MsgOp.resend · now)).countP (MsgOp.holds e) = 0 := by
      rw [List.countP_map]
      exact List.countP_eq_zero.mpr fun _ _ => Bool.false_ne_true
    rw [hnone]
    rfl
  | @popPedding e' rest hp =>
    by_cases hc : e' = e
    · simp [Outbox.stored, hp, MsgOp.holds, Caller.entry, hc]
      omega
    · simp [Outbox.stored, hp, MsgOp.holds, Caller.entry, hc, List.count_cons_of_ne hc]
  | @writedQos0 r hk hq =>
    have hnone : (onInflightDone r (x.packet r)).countP (MsgOp.holds e) = 0 := by
      unfold onInflightDone
      split <;> rfl
    rw [hnone]
    rfl
  | returned e' err =>
    cases err with
    | none => rfl
    | some err =>
      by_cases hc : e' = e
      · simp [Outbox.stored, Outbox.note, MsgOp.holds, Event.ends, hc]
        omega
      · simp [Outbox.stored, Outbox.note, MsgOp.holds, Event.ends, hc]
  | @flowComplete e' t _ _ | peddingClosed e' _ =>
    by_cases hc : e' = e
    · simp [Outbox.stored, Outbox.note, Outbox.modifyEntry, MsgOp.holds, Event.ends, hc]
      omega
    · simp [Outbox.stored, Outbox.note, Outbox.modifyEntry, MsgOp.holds, Event.ends, hc]
  | _ => rfl

/-! ## Turns -/

theorem newEntry_stored (e : EntryRef) (r : PacketRef) (published : Bool) (x : Outbox) :
    (x.newEntry r published).stored e = x.stored e := by
  rfl

/-- A turn moves a tracked entry from one place to another. -/
theorem Exchange.balance {s : Solo} {t : Solo.Turn} {old new : List Op} {f' : Flags}
    (h : Exchange cfg s t old new x' f') (hs : Typed s) (hold : ∀ o ∈ old, o.Typed s.outbox)
    {e : EntryRef} (he : s.outbox.Tracked e) :
    held e new + x'.stored e = held e old + s.outbox.stored e := by
  have hne : s.outbox.entries.next ≠ e := Nat.ne_of_gt he.1
  cases h with
  | msg _ hran =>
    rw [held_map_msg, hran.balance hs.heaps hs.lists (hold _ List.mem_cons_self) he]
    rfl
  | @stop i o r _ hrun =>
    rw [(Begins.of_run hrun).held_eq_zero]
    rfl
  | publish _ _ =>
    have hnot : MsgOp.holds e (.addMsgId s.outbox.entries.next) = false := decide_eq_false hne
    rw [newEntry_stored, held, List.countP_singleton, Op.holds, hnot]
    rfl
  | send p =>
    have hnot : MsgOp.holds e (.send s.outbox.entries.next) = false := decide_eq_false hne
    rw [newEntry_stored, held, List.countP_singleton, Op.holds, hnot]
    rfl
  | round t new hnew =>
    have hbegins : Begins (fun _ => False) (new.map .stop) := .round hnew
    rw [hbegins.held_eq_zero]
    rfl
  | _ => rfl

/-- The call that made an entry holds it. -/
theorem Exchange.held_of_allocated {s : Solo} {t : Solo.Turn} {old new : List Op} {f' : Flags}
    (h : Exchange cfg s t old new x' f') {e : EntryRef} (hnew : s.outbox.entries.next ≤ e)
    (he : e < x'.entries.next) : held e new = 1 ∧ x'.stored e = s.outbox.stored e := by
  have hsucc : x'.entries.next = s.outbox.entries.next + 1 → e = s.outbox.entries.next :=
    fun h => Nat.le_antisymm (Nat.le_of_lt_succ (lt_of_lt_of_eq he h)) hnew
  cases h with
  | msg _ hran => exact absurd (hran.entries_next ▸ he) (Nat.not_lt.mpr hnew)
  | publish _ _ =>
    obtain rfl := hsucc rfl
    have hholds : MsgOp.holds s.outbox.entries.next (.addMsgId s.outbox.entries.next) = true :=
      decide_eq_true rfl
    rw [newEntry_stored, held, List.countP_singleton, Op.holds, hholds]
    exact ⟨rfl, rfl⟩
  | send p =>
    obtain rfl := hsucc rfl
    have hholds : MsgOp.holds s.outbox.entries.next (.send s.outbox.entries.next) = true :=
      decide_eq_true rfl
    rw [newEntry_stored, held, List.countP_singleton, Op.holds, hholds]
    exact ⟨rfl, rfl⟩
  | _ => exact absurd he (Nat.not_lt.mpr hnew)

/-- Every tracked entry is in exactly one place, once. -/
def Conserves (s : Solo) : Prop :=
  ∀ e, s.outbox.Tracked e → held e s.goroutines.ops + s.outbox.stored e = 1

theorem conserved_step {s s' : Solo} {t : Solo.Turn} (hs : Typed s) (hc : Conserves s)
    (h : Solo.step cfg t s = some s') : Conserves s' := by
  intro e he
  obtain ⟨old, new, hx, hex⟩ := exchange_of_step h
  have hold : ∀ o ∈ old, o.Typed s.outbox := fun o ho => hs.ops o (hex.mem_old ho)
  have hcount : held e s'.goroutines.ops + held e old = held e s.goroutines.ops + held e new :=
    hex.countP_eq (Op.holds e)
  by_cases hlt : e < s.outbox.entries.next
  · have hg := (hx.typed hs hold).1
    have hbalance := hx.balance hs hold ⟨hlt, hg.kind_msg hs.heaps hlt ▸ he.2⟩
    have := hc e ⟨hlt, hg.kind_msg hs.heaps hlt ▸ he.2⟩
    omega
  · -- the entry was made in this turn, and the call that was begun holds it
    have hnone : held e s.goroutines.ops = 0 :=
      hs.countP_eq_zero (q := Op.holds e) entry_of_holds (fun _ => rfl) (Nat.not_lt.mp hlt)
    have hstored := stored_eq_zero hs.lists (Nat.not_lt.mp hlt)
    obtain ⟨hnew, hsame⟩ := hx.held_of_allocated (Nat.not_lt.mp hlt) he.1
    have hold : held e old = 0 := List.countP_eq_zero.mpr fun o ho hh =>
      List.countP_eq_zero.mp hnone o (hex.mem_old ho) hh
    omega

theorem conserves_initial (isServer : Bool) (now : ℤ) : Conserves (Solo.initial isServer now) :=
  fun e he => absurd he.1 (Nat.not_lt_zero e)

theorem conserved_of_reach {ok : Solo → Solo.Turn → Prop} {s : Solo}
    (h : (Solo.system cfg).Reach ok s) : Conserves s := by
  refine (h.invariant (I := fun s => Typed s ∧ Conserves s) ?_ ?_).2
  · rintro s ⟨isServer, now, rfl⟩
    exact ⟨typed_initial isServer now, conserves_initial isServer now⟩
  · exact fun s t s' hs _ hstep => ⟨typed_step hs.1 hstep, conserved_step hs.1 hs.2 hstep⟩

/-! What is in one place is in no other. -/

section Places

variable {s : Solo} {e : EntryRef}

theorem Conserves.count_le (hc : Conserves s) (he : s.outbox.Tracked e) :
    held e s.goroutines.ops + s.outbox.peddingMsgList.count e +
      s.outbox.inflightingList.count e ≤ 1 := by
  have hplace := hc e he
  rw [Outbox.stored] at hplace
  omega

theorem Conserves.not_stored_of_held (hc : Conserves s) (he : s.outbox.Tracked e) {o : Op}
    (ho : o ∈ s.goroutines.ops) (hh : o.holds e = true) :
    e ∉ s.outbox.inflightingList ∧ e ∉ s.outbox.peddingMsgList := by
  have hplace := hc.count_le he
  have hheld : 0 < held e s.goroutines.ops := List.countP_pos_iff.mpr ⟨o, ho, hh⟩
  exact ⟨List.count_eq_zero.mp (by omega), List.count_eq_zero.mp (by omega)⟩

theorem Conserves.not_inflight_of_pedding (hc : Conserves s) (he : s.outbox.Tracked e)
    (hmem : e ∈ s.outbox.peddingMsgList) : e ∉ s.outbox.inflightingList := by
  have hplace := hc.count_le he
  have hpedding := List.count_pos_iff.mpr hmem
  exact List.count_eq_zero.mp (by omega)

end Places

/-! ## What is given up -/

/-- `insert2Inflight` finds the channel running, and `Publish` finds `peddingChan` open. -/
def MsgOp.Takes (f : Flags) : MsgOp → Prop
  | insert2Inflight _ => f.isStoped = false
  | sendPeddingChan _ => f.peddingClosed = false
  | _ => True

/-- What `Publish` or a refill has in its hands is taken. -/
def Takes (s : Solo) (t : Solo.Turn) : Prop := ∀ o ∈ t.msgOp s, o.Takes s.flags

theorem MsgOp.stoped_or_closed {o : MsgOp} (h : ¬ o.Takes f) :
    f.isStoped = true ∨ f.peddingClosed = true := by
  cases o with
  | insert2Inflight c => exact .inl (Bool.eq_true_of_not_eq_false h)
  | sendPeddingChan e => exact .inr (Bool.eq_true_of_not_eq_false h)
  | _ => exact absurd trivial h

/-- `Publish` and the refills give up an entry only when it is not taken. -/
theorem MsgOp.Ran.lost {o : MsgOp} {new : List MsgOp} (h : Ran cfg f x o new x')
    {e : EntryRef} (he : .lost e ∈ x'.log) : .lost e ∈ x.log ∨ ¬ o.Takes f := by
  cases h with
  | refused c hs => exact .inr fun h => absurd (h.symm.trans hs) Bool.false_ne_true
  | peddingClosed e' hc => exact .inr fun h => absurd (h.symm.trans hc) Bool.false_ne_true
  | returned e' err | pushSend c r | removeInflight r _ | flowComplete _ _ =>
    exact .inl (List.mem_of_ne_of_mem (by simp) he)
  | updateInflight r =>
    rcases mem_log_updateInflight he with h | ⟨e', -, h⟩
    · exact .inl h
    · exact absurd h (by simp)
  | send e' hs =>
    unfold assignToken at he
    split at he <;> exact .inl he
  | _ => exact .inl he

theorem lost_of_step {s s' : Solo} {t : Solo.Turn} (h : Solo.step cfg t s = some s')
    {e : EntryRef} (he : .lost e ∈ s'.outbox.log) : .lost e ∈ s.outbox.log ∨ ¬ Takes s t := by
  obtain ⟨old, new, hx, -⟩ := exchange_of_step h
  generalize s'.outbox = x' at hx he
  generalize s'.flags = f' at hx
  cases hx with
  | msg hnext hran =>
    exact (hran.lost he).imp id fun hnot htakes => hnot (htakes _ (Solo.Turn.msgOp_run hnext))
  | publish _ _ | send p | written _ => exact .inl (List.mem_of_ne_of_mem (by simp) he)
  | _ => exact .inl he

theorem lost_of_reach {ok : Solo → Solo.Turn → Prop} {s : Solo}
    (h : (Solo.system cfg).Reach ok s) : ∀ e, .lost e ∈ s.outbox.log →
      s.flags.isStoped = true ∨ s.flags.peddingClosed = true := by
  refine h.invariant (I := fun s => ∀ e, .lost e ∈ s.outbox.log →
    s.flags.isStoped = true ∨ s.flags.peddingClosed = true) ?_ ?_
  · rintro s ⟨isServer, now, rfl⟩ e he
    exact absurd he (by simp [Solo.initial])
  · intro s t s' hs _ hstep e he
    obtain ⟨old, new, hx, -⟩ := exchange_of_step hstep
    suffices hold : s.flags.isStoped = true ∨ s.flags.peddingClosed = true from
      hold.imp hx.stays.1 hx.stays.2
    rcases lost_of_step hstep he with hold | hnot
    · exact hs e hold
    · rw [Takes] at hnot
      push Not at hnot
      obtain ⟨o, -, ho⟩ := hnot
      exact MsgOp.stoped_or_closed ho

/-- In a run whose steps take what they have in their hands, nothing is given up. -/
theorem not_lost_of_reach {s : Solo} (h : (Solo.system cfg).Reach Takes s) (e : EntryRef) :
    .lost e ∉ s.outbox.log := by
  refine h.invariant (I := fun s => .lost e ∉ s.outbox.log) ?_
    fun s t s' hs hok hstep he => (lost_of_step hstep he).elim hs fun hnot => hnot hok
  rintro s ⟨isServer, now, rfl⟩
  simp [Solo.initial]

/-! ## Tokens -/

/-- The token of an entry is complete. -/
def Outbox.isComplete (x : Outbox) (e : EntryRef) : Bool := (x.entry e).t.any Token.complete

@[simp] theorem note_isComplete (ev : Event) (x : Outbox) (e : EntryRef) :
    (x.note ev).isComplete e = x.isComplete e := rfl

theorem modifyEntry_isComplete {g : Entry → Entry} {e : EntryRef}
    (hg : (g (x.entry e)).t.any Token.complete = (x.entry e).t.any Token.complete)
    (e' : EntryRef) : (x.modifyEntry e g).isComplete e' = x.isComplete e' := by
  unfold Outbox.isComplete
  by_cases h : e' = e
  · rw [h, Outbox.modifyEntry_self, hg]
  · rw [Outbox.modifyEntry_of_ne g x h]

theorem any_complete_map {g : Token → Token} (hg : ∀ t, (g t).complete = t.complete)
    (t : Option Token) : (t.map g).any Token.complete = t.any Token.complete := by
  cases t with
  | none => rfl
  | some t => exact hg t

theorem setConnectErr_complete (code : Option UInt8) (i : Entry) :
    (setConnectErr code i).t.any Token.complete = i.t.any Token.complete := by
  refine any_complete_map (fun t => ?_) i.t
  cases code with
  | none => rfl
  | some code =>
    dsimp only
    split <;> rfl

theorem assignToken_isComplete (e e' : EntryRef) (p : ControlPacket) (x : Outbox) :
    (assignToken e p x).isComplete e' = x.isComplete e' := by
  cases p with
  | subscribe m =>
    refine modifyEntry_isComplete (x := x) (e := e) ?_ e'
    exact any_complete_map (by simp) _
  | _ => rfl

theorem assignToken_log (e : EntryRef) (p : ControlPacket) (x : Outbox) :
    (assignToken e p x).log = x.log := by
  cases p with
  | _ => rfl

theorem updateInflight_isComplete (r : PacketRef) (x : Outbox) (e : EntryRef) :
    (x.updateInflight r).isComplete e = x.isComplete e := by
  refine updateInflight_induct (P := fun y => y.isComplete e = x.isComplete e) r x rfl ?_
  intro y e' _ hy
  rw [note_isComplete, ← hy]
  exact modifyEntry_isComplete rfl e

/-- A token is complete when `flowComplete` was called on it. -/
theorem MsgOp.Ran.isComplete {o : MsgOp} {new : List MsgOp} (h : Ran cfg f x o new x')
    {e : EntryRef} (hc : x.isComplete e = true ↔ .completed e ∈ x.log) :
    x'.isComplete e = true ↔ .completed e ∈ x'.log := by
  cases h with
  | @flowComplete e' t ht _ =>
    rw [note_isComplete, Outbox.note_log, List.mem_cons, Outbox.modifyEntry_log, ← hc]
    by_cases he : e = e'
    · rw [he, Outbox.isComplete, Outbox.modifyEntry_self]
      simp
    · rw [Outbox.isComplete, Outbox.modifyEntry_of_ne _ x he]
      simp [Outbox.isComplete, he]
  | newInflight c timeout | resend e' now timeout =>
    rw [modifyEntry_isComplete rfl]
    exact hc
  | @subackResults e' r t t' ht hc' =>
    rw [modifyEntry_isComplete]
    · exact hc
    · rw [ht]
      exact hc'
  | connectErr code _ =>
    rw [modifyEntry_isComplete (setConnectErr_complete code _)]
    exact hc
  | send e' _ =>
    rw [assignToken_isComplete, assignToken_log]
    exact hc
  | updateInflight r =>
    rw [updateInflight_isComplete, hc]
    refine ⟨fun h => ?_, fun h => ?_⟩
    · exact updateInflight_induct (P := fun y => .completed e ∈ y.log) r x h
        fun _ _ _ hy => List.mem_cons_of_mem _ hy
    · rcases mem_log_updateInflight h with h | ⟨e', -, h⟩
      · exact h
      · exact absurd h (by simp)
  | returned e' err | pushSend c r | removeInflight r _ | refused c _ | peddingClosed e' _ =>
    rw [note_isComplete, Outbox.note_log, List.mem_cons]
    exact hc.trans ⟨.inr, fun h => h.resolve_left (by simp)⟩
  | _ => exact hc

theorem newToken_incomplete (tType : UInt8) : (newToken tType).any Token.complete = false := by
  unfold newToken
  split <;> rfl

/-- A call begins with a token that is not complete. -/
theorem newEntry_isComplete (hl : x.Lists) (r : PacketRef) (published : Bool)
    (hc : ∀ e < x.entries.next, (x.isComplete e = true ↔ .completed e ∈ x.log)) :
    ∀ e < (x.newEntry r published).entries.next,
      ((x.newEntry r published).isComplete e = true ↔
        .completed e ∈ (x.newEntry r published).log) := by
  intro e he
  have hlog : .completed e ∈ (x.newEntry r published).log ↔ .completed e ∈ x.log :=
    List.mem_cons.trans ⟨fun h => h.resolve_left (by simp), .inr⟩
  rw [hlog]
  by_cases hlt : e < x.entries.next
  · rw [← hc e hlt, Outbox.isComplete, Outbox.isComplete,
      show (x.newEntry r published).entry e = x.entry e from Heap.alloc_of_lt _ hlt]
  · obtain rfl : e = x.entries.next := Nat.le_antisymm (Nat.le_of_lt_succ he) (Nat.not_lt.mp hlt)
    have hnew : (x.newEntry r published).isComplete x.entries.next = false := by
      rw [Outbox.isComplete, show (x.newEntry r published).entry x.entries.next =
        { p := r, t := newToken (x.packet r).type, msg := r, published } from Heap.alloc_self ..]
      exact newToken_incomplete _
    rw [hnew]
    exact ⟨fun h => absurd h Bool.false_ne_true, fun h =>
      absurd (hl.log _ h _ rfl) (Nat.lt_irrefl _)⟩

theorem isComplete_of_reach {ok : Solo → Solo.Turn → Prop} {s : Solo}
    (h : (Solo.system cfg).Reach ok s) : ∀ e < s.outbox.entries.next,
      (s.outbox.isComplete e = true ↔ .completed e ∈ s.outbox.log) := by
  refine (h.invariant (I := fun s => Typed s ∧ ∀ e < s.outbox.entries.next,
    (s.outbox.isComplete e = true ↔ .completed e ∈ s.outbox.log)) ?_ ?_).2
  · rintro s ⟨isServer, now, rfl⟩
    exact ⟨typed_initial isServer now, fun e he => absurd he (Nat.not_lt_zero e)⟩
  · intro s t s' ⟨hs, hc⟩ _ hstep
    refine ⟨typed_step hs hstep, ?_⟩
    obtain ⟨old, new, hx, -⟩ := exchange_of_step hstep
    generalize hx' : s'.outbox = x' at hx ⊢
    generalize hf' : s'.flags = f' at hx
    cases hx with
    | msg _ hran => exact fun e he => hran.isComplete (hc e (hran.entries_next ▸ he))
    | publish _ _ => exact newEntry_isComplete hs.lists _ true hc
    | send p =>
      have hg := Grows.newPacket p.1 s.outbox
      have hl := hg.lists hs.heaps hs.lists rfl rfl rfl rfl rfl fun _ hev => .inl hev
      exact newEntry_isComplete hl _ false hc
    | @written r rest hlist =>
      exact fun e he => (hc e he).trans ⟨List.mem_cons_of_mem _,
        List.mem_of_ne_of_mem (by simp)⟩
    | _ => exact hc

/-! ## The result -/

/-- A message that `Publish` has accepted is in exactly one place, exactly once. -/
structure Conserved (s : Solo) (e : EntryRef) : Prop where
  place : held e s.goroutines.ops + s.outbox.peddingMsgList.count e +
    s.outbox.inflightingList.count e + s.outbox.log.count (.completed e) = 1
  token : s.outbox.isComplete e = true ↔ .completed e ∈ s.outbox.log
  noPanic : .msg (.flowComplete e) ∈ s.goroutines.ops → s.outbox.isComplete e = false

theorem Outbox.Published.tracked {e : EntryRef} (he : x.Published e) (hx : x.Heaps) :
    x.Tracked e :=
  ⟨he.1, by rw [hx.published e he.1 he.2]; decide⟩

/-- While an entry has neither been refused nor given up, it has ended by its completion. -/
theorem countP_ends {e : EntryRef} {l : List Event} (hlost : .lost e ∉ l)
    (hreturned : ∀ err, .returned e (some err) ∉ l) :
    l.countP (Event.ends e) = l.count (.completed e) := by
  refine List.countP_congr fun ev hev => ?_
  cases ev with
  | completed e' => simp [Event.ends]
  | lost e' =>
    have hne : e' ≠ e := fun h => hlost (h ▸ hev)
    simp [Event.ends, hne]
  | returned e' err =>
    cases err with
    | none => simp [Event.ends]
    | some err =>
      have hne : e' ≠ e := fun h => hreturned err (h ▸ hev)
      simp [Event.ends, hne]
  | _ => simp [Event.ends]

/-- A message that was neither refused nor given up is in exactly one place. -/
theorem conserved_of_not_lost {ok : Solo → Solo.Turn → Prop} {s : Solo}
    (h : (Solo.system cfg).Reach ok s) {e : EntryRef} (he : s.outbox.Published e)
    (hlost : .lost e ∉ s.outbox.log) (haccepted : ∀ err, .returned e (some err) ∉ s.outbox.log) :
    Conserved s e := by
  have htoken := isComplete_of_reach h e he.1
  have hplace := conserved_of_reach h e (he.tracked (typed_of_reach h).heaps)
  rw [Outbox.stored, countP_ends hlost haccepted] at hplace
  refine ⟨by omega, htoken, fun hop => ?_⟩
  -- an operation that completes the token holds the entry, which is then nowhere else
  have hheld : 0 < held e s.goroutines.ops :=
    List.countP_pos_iff.mpr ⟨_, hop, decide_eq_true rfl⟩
  have hnot : .completed e ∉ s.outbox.log := List.count_eq_zero.mp (by omega)
  exact Bool.eq_false_of_not_eq_true fun hc => hnot (htoken.mp hc)

/-- In a session that is open and whose channel runs, every message that `Publish` has not
refused is in exactly one place. -/
theorem outbound_conserved {s : Solo} (h : (Solo.system cfg).Reachable s)
    (hopen : s.flags.peddingClosed = false) (hrunning : s.flags.isStoped = false)
    {e : EntryRef} (he : s.outbox.Published e)
    (haccepted : ∀ err, .returned e (some err) ∉ s.outbox.log) : Conserved s e := by
  refine conserved_of_not_lost h he (fun hmem => ?_) haccepted
  rcases lost_of_reach h e hmem with hstop | hclosed
  · exact absurd (hrunning.symm.trans hstop) Bool.false_ne_true
  · exact absurd (hopen.symm.trans hclosed) Bool.false_ne_true

/-- A published message that is in flight is in no other place. -/
theorem outbound_conserved_published : ∃ s, (Solo.system {}).Reachable s ∧
    0 ∈ s.outbox.inflightingList ∧ Conserved s 0 := by
  have hend : ((Solo.system {}).exec (Solo.connecting ++
      [.newPacket (Solo.outboundPublish 1), .publish 2] ++ Solo.runs 4 13)
      (Solo.initial true 0)).any (fun s =>
        s.flags.peddingClosed = false ∧ s.flags.isStoped = false ∧
        (0 < s.outbox.entries.next ∧ (s.outbox.entry 0).published = true) ∧
        s.outbox.log = [.returned 0 none, .sent (some (.publish 0)) 2, .called 0, .sent none 1] ∧
        0 ∈ s.outbox.inflightingList) = true := by
    decide
  obtain ⟨s, hs, hc⟩ :=
    StepSystem.exists_reachable_of_any (Solo.initial_init {} true 0) hend
  obtain ⟨hopen, hrunning, hpub, hlog, hmem⟩ := of_decide_eq_true hc
  exact ⟨s, hs, hmem, outbound_conserved hs hopen hrunning hpub (by simp [hlog])⟩

end MqttBroker.Solo

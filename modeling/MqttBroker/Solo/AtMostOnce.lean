import MqttBroker.Solo.Typed

/-!
# QoS 0 messages and retransmission

A message that was given to `Publish` is pushed to the send list by the call itself or by the
refill that takes it out of the pending list, once in either case. The resend loop of the
tick pushes the packets of the entries in flight that have timed out; a QoS 0 message is in
flight until it was written, so it is sent twice when that takes longer than `SentTimeout`.
-/

namespace MqttBroker.Solo

variable {cfg : Config} {f : Flags} {x x' : Outbox}

/-! ## Pushes of a message -/

/-- An operation that leads to one push of packet `r` for entry `e`, or to none. -/
def MsgOp.mayPush (e : EntryRef) (r : PacketRef) : MsgOp → Bool
  | addMsgId e' | setMessageID e' _ | isConnected e' | isClosed e' | inflightLen e' | sendLen e'
  | sendPeddingChan e' | pushPedding e' => e' = e
  | insert2Inflight c | newInflight c | pushInflight c | sendEntry c => c.entry = e
  | channelSend (some c) r' | pushSend (some c) r' => c.entry = e ∧ r' = r
  | _ => false

def Op.mayPush (e : EntryRef) (r : PacketRef) : Op → Bool
  | .msg o => o.mayPush e r
  | .stop _ => false

/-- How often packet `r` was pushed for entry `e`, and will be when the entry is popped. -/
def Outbox.pushes (e : EntryRef) (r : PacketRef) (x : Outbox) : ℕ :=
  x.peddingMsgList.count e + x.log.countP (Event.pushes e r)

/-- A QoS 0 message that was given to `Publish`. -/
def Outbox.Qos0 (x : Outbox) (e : EntryRef) : Prop :=
  x.Published e ∧ (x.packet (x.entry e).msg).details.qos = 0

/-- The time that the resend loop compares with. -/
def MsgOp.collects : MsgOp → Option ℤ
  | collect now => some now
  | _ => none

/-- No entry that the resend loop collects is a QoS 0 message. -/
def NoneOverdue (s : Solo) (t : Solo.Turn) : Prop :=
  ∀ o ∈ t.msgOp s, ∀ now ∈ o.collects, ∀ e ∈ s.outbox.timedOut now,
    (s.outbox.entry e).published = true →
      (s.outbox.packet (s.outbox.entry e).p).kind = PacketType.publish →
      (s.outbox.packet (s.outbox.entry e).p).details.qos ≠ 0

instance (s : Solo) (t : Solo.Turn) : Decidable (NoneOverdue s t) :=
  inferInstanceAs (Decidable (∀ o ∈ t.msgOp s, ∀ now ∈ o.collects, ∀ _ ∈ _, _))

/-- What has not been allocated was not pushed. -/
theorem pushes_eq_zero {e : EntryRef} {r : PacketRef} (hl : x.Lists)
    (he : x.entries.next ≤ e) : x.pushes e r = 0 := by
  have hlog : x.log.countP (Event.pushes e r) = 0 := by
    refine hl.countP_log (fun ev h => ?_) he
    cases ev with
    | sent c r' =>
      cases c with
      | none => exact absurd h Bool.false_ne_true
      | some c => exact congrArg some (of_decide_eq_true h).1
    | _ => exact absurd h Bool.false_ne_true
  rw [Outbox.pushes, hl.count_pedding he, hlog]

/-! ## One operation -/

theorem entry_of_mayPush {e : EntryRef} {r : PacketRef} (o : MsgOp)
    (h : o.mayPush e r = true) : o.entry = some e := by
  cases o with
  | addMsgId e' | setMessageID e' _ | isConnected e' | isClosed e' | inflightLen e' | sendLen e'
  | sendPeddingChan e' | pushPedding e' | insert2Inflight c | newInflight c | pushInflight c
  | sendEntry c => exact congrArg some (of_decide_eq_true h)
  | channelSend c r' | pushSend c r' =>
    cases c with
    | none => exact absurd h Bool.false_ne_true
    | some c => exact congrArg some (of_decide_eq_true h).1
  | _ => exact absurd h Bool.false_ne_true

theorem rest_mayPush (e : EntryRef) (r : PacketRef) (c : Option Caller) :
    (c.elim [] Caller.rest).countP (MsgOp.mayPush e r) = 0 := by
  refine countP_eq_zero_of_false fun o ho => ?_
  obtain ⟨k, -, rfl⟩ := mem_rest_of_mem_elim ho
  rfl

/-- Unless the resend loop is at a QoS 0 message, an operation adds no push of it. -/
theorem MsgOp.Ran.pushes {o : MsgOp} {new : List MsgOp} (h : Ran cfg f x o new x')
    (ho : o.Typed x) {e : EntryRef} (he : (x.entry e).published = true)
    (hresend : ∀ now, o = .resend e now → (x.entry e).p ≠ (x.entry e).msg) :
    new.countP (MsgOp.mayPush e (x.entry e).msg) + x'.pushes e (x.entry e).msg ≤
      [o].countP (MsgOp.mayPush e (x.entry e).msg) + x.pushes e (x.entry e).msg := by
  cases h with
  | send e' _ =>
    -- a call of `Send` has another entry
    have hne : e' ≠ e := fun h => absurd (ho.2.symm.trans (h ▸ he)) Bool.false_ne_true
    have hlog : (assignToken e' (x.packet (x.entry e').msg) x).pushes e (x.entry e).msg =
        x.pushes e (x.entry e).msg := by
      obtain ⟨_, _, _, hpedding, _, hlog⟩ := assignToken_fields e' (x.packet (x.entry e').msg) x
      rw [Outbox.pushes, hpedding, hlog]
      rfl
    rw [hlog, countP_eq_zero_of_false (q := MsgOp.mayPush e _) fun o ho' => ?_]
    · exact Nat.add_le_add_right (Nat.zero_le _) _
    · rcases mem_sendCase ho' with rfl | ⟨rfl, -⟩ | rfl
      · exact decide_eq_false hne
      · exact decide_eq_false hne
      · exact decide_eq_false fun h => hne h.1
  | refused c _ =>
    rw [show c.rest.countP _ = 0 from rest_mayPush e _ (some c)]
    exact Nat.add_le_add_right (Nat.zero_le _) _
  | channelStoped c r _ =>
    rw [rest_mayPush]
    exact Nat.add_le_add_right (Nat.zero_le _) _
  | channelSend c r _ =>
    cases c with
    | none => exact le_refl _
    | some c => exact le_refl _
  | pushSend c r =>
    have hlog : (x.log.countP (Event.pushes e (x.entry e).msg)) + [MsgOp.pushSend c r].countP
        (MsgOp.mayPush e (x.entry e).msg) =
        (Event.sent c r :: x.log).countP (Event.pushes e (x.entry e).msg) := by
      rw [List.countP_singleton, List.countP_cons]
      cases c with
      | none => rfl
      | some c => rfl
    rw [rest_mayPush]
    show 0 + (x.peddingMsgList.count e + (Event.sent c r :: x.log).countP _) ≤ _
    rw [← hlog, Outbox.pushes]
    omega
  | pushInflight c =>
    refine Nat.add_le_add_right ?_ _
    rw [List.countP_singleton, List.countP_singleton]
    cases c with
    | send e' =>
      by_cases he' : e' = e
      · simp [Caller.afterPush, MsgOp.mayPush, Caller.entry, he']
      · simp [Caller.afterPush, MsgOp.mayPush, Caller.entry, he']
    | publish e' | refill e' | resend e' => exact le_refl _
  | sendEntry c =>
    refine Nat.add_le_add_right ?_ _
    rw [List.countP_singleton, List.countP_singleton]
    by_cases hc : c.entry = e
    · simp only [MsgOp.mayPush, hc, decide_true, if_true]
      split <;> omega
    · simp [MsgOp.mayPush, hc]
  | collect now =>
    rw [countP_eq_zero_of_false (q := MsgOp.mayPush e _) fun o ho' => ?_]
    · exact Nat.add_le_add_right (Nat.zero_le _) _
    · obtain ⟨e', -, rfl⟩ := List.mem_map.mp ho'
      rfl
  | resend e' now timeout =>
    have hnot : MsgOp.mayPush e (x.entry e).msg
        (.channelSend (some (.resend e')) (x.entry e').p) = false := by
      refine decide_eq_false fun h => ?_
      obtain ⟨he', hp⟩ := h
      obtain rfl : e' = e := he'
      exact hresend now rfl hp
    rw [List.countP_singleton, hnot]
    exact Nat.add_le_add_right (Nat.zero_le _) _
  | @popPedding e' rest hp =>
    by_cases he' : e' = e
    · simp [Outbox.pushes, hp, MsgOp.mayPush, Caller.entry, he']
      omega
    · simp [Outbox.pushes, hp, MsgOp.mayPush, Caller.entry, he', List.count_cons_of_ne he']
  | pushPedding e' =>
    rw [List.countP_singleton, Outbox.pushes, Outbox.pushes, count_push]
    simp [MsgOp.mayPush]
    omega
  | removeInflight r hfound =>
    rw [countP_eq_zero_of_false (q := MsgOp.mayPush e _) fun o ho' => ?_]
    · exact Nat.add_le_add_right (Nat.zero_le _) _
    · rcases mem_afterRemove ho' with rfl | rfl <;> rfl
  | updateInflight r =>
    obtain ⟨_, _, hpedding, _⟩ := updateInflight_lists r x
    have hlog := updateInflight_induct (P := fun y =>
      y.log.countP (Event.pushes e (x.entry e).msg) =
        x.log.countP (Event.pushes e (x.entry e).msg)) r x rfl fun _ _ _ h => h
    rw [Outbox.pushes, hpedding, hlog]
    exact le_refl _
  | @writedQos0 r _ _ =>
    rw [countP_eq_zero_of_false (q := MsgOp.mayPush e _) fun o ho' => ?_]
    · exact Nat.add_le_add_right (Nat.zero_le _) _
    · rcases mem_onInflightDone ho' with rfl | rfl <;> rfl
  | completeConnect | completeDisconnect =>
    rw [countP_eq_zero_of_false (q := MsgOp.mayPush e _) fun o ho' => ?_]
    · exact Nat.add_le_add_right (Nat.zero_le _) _
    · obtain ⟨e', -, rfl⟩ := mem_handshake ho'
      rfl
  | notConnected e' err | closed e' err | peddingClosed e' _ =>
    exact Nat.add_le_add_right (Nat.zero_le _) _
  | _ => exact le_refl _

/-- Retransmissions are begun by the loop that collects. -/
theorem MsgOp.Ran.collects {o : MsgOp} {new : List MsgOp} (h : Ran cfg f x o new x')
    {e : EntryRef} {now : ℤ} (hmem : .resend e now ∈ new) :
    o = .collect now ∧ e ∈ x.timedOut now ∧ x' = x := by
  cases h.follows hmem with
  | resend he =>
    cases h with
    | collect _ => exact ⟨rfl, he, rfl⟩

/-! ## Runs -/

/-- What is a QoS 0 message has been one since its call. -/
theorem Grows.qos0 (h : Grows x x') (hx : x.Heaps) {e : EntryRef} (he : e < x.entries.next)
    (hq : x'.Qos0 e) : x.Qos0 e := by
  obtain ⟨hmsg, hpub, -⟩ := h.entry e he
  obtain ⟨⟨-, hpub'⟩, hqos⟩ := hq
  rw [hpub] at hpub'
  refine ⟨⟨he, hpub'⟩, ?_⟩
  rw [← h.qos (hx.refs e he).2 (hx.published e he hpub'), ← hmsg]
  exact hqos

/-- A QoS 0 message has been pushed, or will be, once at most, and the resend loop is not at
one. -/
structure PushedOnce (s : Solo) : Prop where
  once : ∀ e, s.outbox.Qos0 e →
    s.goroutines.ops.countP (Op.mayPush e (s.outbox.entry e).msg) +
      s.outbox.pushes e (s.outbox.entry e).msg ≤ 1
  resend : ∀ e now, .msg (.resend e now) ∈ s.goroutines.ops → s.outbox.Qos0 e →
    (s.outbox.entry e).p ≠ (s.outbox.entry e).msg

theorem Exchange.pushes {s : Solo} {t : Solo.Turn} {old new : List Op} {f' : Flags}
    (h : Exchange cfg s t old new x' f') (hold : ∀ o ∈ old, o.Typed s.outbox) {e : EntryRef}
    (he : s.outbox.Published e)
    (hresend : ∀ now, .msg (.resend e now) ∈ old →
      (s.outbox.entry e).p ≠ (s.outbox.entry e).msg) :
    new.countP (Op.mayPush e (s.outbox.entry e).msg) + x'.pushes e (s.outbox.entry e).msg ≤
      old.countP (Op.mayPush e (s.outbox.entry e).msg) +
        s.outbox.pushes e (s.outbox.entry e).msg := by
  have hne : s.outbox.entries.next ≠ e := Nat.ne_of_gt he.1
  cases h with
  | msg _ hran =>
    rw [countP_map_msg]
    exact hran.pushes (hold _ List.mem_cons_self) he.2 fun now h => hresend now (h ▸ by simp)
  | stop _ hrun =>
    rw [(Begins.of_run hrun).countP_eq_zero (fun o ho => by cases ho with | _ => rfl) fun _ => rfl]
    exact Nat.add_le_add_right (Nat.zero_le _) _
  | publish _ _ =>
    have hnot : MsgOp.mayPush e (s.outbox.entry e).msg (.addMsgId s.outbox.entries.next) =
        false := decide_eq_false hne
    rw [List.countP_singleton, Op.mayPush, hnot]
    exact le_refl _
  | round t new hnew =>
    have hbegins : Begins (fun _ => False) (new.map .stop) := .round hnew
    rw [hbegins.countP_eq_zero (fun o ho => by cases ho with | _ => rfl) fun _ => rfl]
    exact le_refl _
  | _ => exact le_refl _

/-- The operations that a turn leaves are at a QoS 0 message only if it was overdue. -/
theorem Exchange.resend {s : Solo} {t : Solo.Turn} {old new : List Op} {f' : Flags}
    (h : Exchange cfg s t old new x' f') (hs : Typed s) (hok : NoneOverdue s t)
    {e : EntryRef} {now : ℤ} (hmem : .msg (.resend e now) ∈ new) (hq : x'.Qos0 e) :
    (x'.entry e).p ≠ (x'.entry e).msg := by
  rcases h.origin hmem with ⟨o, l, hran, ho', hop, -⟩ | hopens
  · obtain ⟨rfl, hover, rfl⟩ := hran.collects ho'
    intro hp
    have hkind := hs.heaps.published e hq.1.1 hq.1.2
    have := hok _ hop now rfl e hover hq.1.2
    rw [hp] at this
    exact this hkind hq.2
  · cases hopens with
    | starts hstarts => cases hstarts

theorem pushedOnce_step {s s' : Solo} {t : Solo.Turn} (hs : Typed s) (hp : PushedOnce s)
    (hok : NoneOverdue s t) (h : Solo.step cfg t s = some s') : PushedOnce s' := by
  have hs' := typed_step hs h
  obtain ⟨old, new, hx, hex⟩ := exchange_of_step h
  have htyped : ∀ o ∈ old, o.Typed s.outbox := fun o ho => hs.ops o (hex.mem_old ho)
  have hg := (hx.typed hs htyped).1
  constructor
  · intro e hq
    by_cases hlt : e < s.outbox.entries.next
    · have hq₀ := hg.qos0 hs.heaps hlt hq
      have hle := hx.pushes htyped hq₀.1 fun now hmem => hp.resend e now (hex.mem_old hmem) hq₀
      have := hp.once e hq₀
      have := hex.countP_eq (Op.mayPush e (s.outbox.entry e).msg)
      rw [(hg.entry e hlt).1]
      omega
    · -- the call that was begun in this turn has not pushed anything
      have hops := hs.countP_eq_zero (q := Op.mayPush e (s'.outbox.entry e).msg)
        entry_of_mayPush (fun _ => rfl) (Nat.not_lt.mp hlt)
      have hpushes := pushes_eq_zero (r := (s'.outbox.entry e).msg) hs.lists (Nat.not_lt.mp hlt)
      have hcount := hex.countP_eq (Op.mayPush e (s'.outbox.entry e).msg)
      rcases hx.entries_next with hsame | ⟨r, published, hlog, hpedding, -, -, -, rfl⟩
      · exact absurd hq.1.1 (hsame ▸ hlt)
      · have hlast : s'.outbox.pushes e (s'.outbox.entry e).msg =
            s.outbox.pushes e (s'.outbox.entry e).msg := by
          rw [Outbox.pushes, hlog, hpedding]
          rfl
        have hone := List.countP_le_length (p := Op.mayPush e (s'.outbox.entry e).msg)
          (l := [Op.msg (if published then .addMsgId s.outbox.entries.next
            else .send s.outbox.entries.next)])
        rw [List.length_singleton] at hone
        omega
  · intro e now hmem hq
    rcases hex.mem_or hmem with hmem | hmem
    · exact hx.resend hs hok hmem hq
    · have hlt : e < s.outbox.entries.next := hs.ops _ hmem
      have hq₀ := hg.qos0 hs.heaps hlt hq
      rcases hx.entry_p htyped hlt with hsame | ⟨hrel, -⟩
      · rw [hsame, (hg.entry e hlt).1]
        exact hp.resend e now hmem hq₀
      · intro hmsg
        have hkind := hs'.heaps.published e hq.1.1 hq.1.2
        rw [← hmsg, hrel] at hkind
        exact absurd hkind (by decide)

/-- In a run that collects no QoS 0 message for retransmission, each is pushed to the send list
once at most. -/
theorem qos0_pushed_once {s : Solo} (h : (Solo.system cfg).Reach NoneOverdue s) {e : EntryRef}
    (he : s.outbox.Qos0 e) :
    s.outbox.log.countP (Event.pushes e (s.outbox.entry e).msg) ≤ 1 := by
  have hinv : Typed s ∧ PushedOnce s := by
    refine h.invariant (I := fun s => Typed s ∧ PushedOnce s) ?_ ?_
    · rintro s ⟨isServer, now, rfl⟩
      refine ⟨typed_initial isServer now, fun e he => ?_, fun e now hmem => ?_⟩
      · exact absurd he.1.1 (Nat.not_lt_zero e)
      · exact absurd hmem (by simp [Solo.initial])
    · exact fun s t s' hs hok hstep =>
        ⟨typed_step hs.1 hstep, pushedOnce_step hs.1 hs.2 hok hstep⟩
  have := hinv.2.once e he
  rw [Outbox.pushes] at this
  omega

/-- A QoS 0 message is published after a CONNECT. -/
def qos0Call : List Solo.Turn :=
  Solo.connecting ++ [.newPacket (Solo.outboundPublish 0), .publish 2] ++ Solo.runs 4 13

/-- A tick comes before `SentTimeout` is over, while the message is still in flight. -/
theorem qos0_pushed_once_call : ∃ s, (Solo.system {}).Reach NoneOverdue s ∧
    s.outbox.inflightingList ≠ [] ∧
    s.outbox.log.countP (Event.pushes 0 (s.outbox.entry 0).msg) = 1 ∧
    s.outbox.log.countP (Event.pushes 0 (s.outbox.entry 0).msg) ≤ 1 := by
  have hok : (Solo.system {}).checkAll (fun s t => decide (NoneOverdue s t))
      (qos0Call ++ [.elapse 4000000000, .tick false] ++ Solo.runs 2 8)
      (Solo.initial true 0) = true := by
    decide
  have hend : ((Solo.system {}).exec
      (qos0Call ++ [.elapse 4000000000, .tick false] ++ Solo.runs 2 8) (Solo.initial true 0)).any
      (fun s => ((0 < s.outbox.entries.next ∧ (s.outbox.entry 0).published = true) ∧
        (s.outbox.packet (s.outbox.entry 0).msg).details.qos = 0) ∧
      s.outbox.inflightingList ≠ [] ∧
      s.outbox.log.countP (Event.pushes 0 (s.outbox.entry 0).msg) = 1) = true := by
    decide
  obtain ⟨s, hs, hc⟩ := StepSystem.exists_reach_of_any (Solo.initial_init {} true 0)
    (StepSystem.along_of_check (fun _ _ h => of_decide_eq_true h) hok) hend
  obtain ⟨hq, hflight, hcount⟩ := of_decide_eq_true hc
  exact ⟨s, hs, hflight, hcount, qos0_pushed_once hs hq⟩

/-- A tick that comes before the packet was written, later than `SentTimeout`, pushes the
message again. -/
theorem qos0_pushed_twice : ¬ ∀ s, (Solo.system {}).Reachable s → ∀ e, s.outbox.Qos0 e →
    s.outbox.log.countP (Event.pushes e (s.outbox.entry e).msg) ≤ 1 := by
  have hend : ((Solo.system {}).exec
      (qos0Call ++ [.elapse 5000000000, .tick false] ++ Solo.runs 2 8) (Solo.initial true 0)).any
      (fun s => ((0 < s.outbox.entries.next ∧ (s.outbox.entry 0).published = true) ∧
        (s.outbox.packet (s.outbox.entry 0).msg).details.qos = 0) ∧
        s.outbox.log.countP (Event.pushes 0 (s.outbox.entry 0).msg) = 2) = true := by
    decide
  obtain ⟨s, hs, hc⟩ := StepSystem.exists_reachable_of_any (Solo.initial_init {} true 0) hend
  obtain ⟨hq, hcount⟩ := of_decide_eq_true hc
  intro hall
  have := hall s hs 0 hq
  omega

end MqttBroker.Solo

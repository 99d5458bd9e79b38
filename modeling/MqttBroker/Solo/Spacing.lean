import MqttBroker.Solo.Retransmission

/-!
# How far apart an entry is sent

An entry's timeout is `SentTimeout` after a reading of the clock: the one by which the entry was
put in flight, or that of the tick which sent it again. The push to the send list comes later. What
lies between two pushes of one entry is `SentTimeout` when the clock stands still from the reading
to the push, and in general when the ticks come after the pushes that are still to come.
-/

namespace MqttBroker.Solo

variable {cfg : Config} {f f' : Flags} {x x' : Outbox}

/-! ## When an entry was sent -/

/-- An operation that is about to push the packet of an entry in flight to the send list. -/
def MsgOp.transmits (e : EntryRef) : MsgOp → Bool
  | resend e' _ => e' = e
  | sendEntry c => c.entry = e
  | channelSend c _ | pushSend c _ => c.any fun c => c.entry = e
  | _ => false

def Op.transmits (e : EntryRef) : Op → Bool
  | .msg o => o.transmits e
  | .stop _ => false

/-- When each entry was last pushed to the send list. -/
def lastSent (s : Solo) (t : Solo.Turn) (last : EntryRef → Option ℤ) : EntryRef → Option ℤ :=
  match t.msgOp s with
  | some (.pushSend (some c) _) => Function.update last c.entry (some s.outbox.now)
  | _ => last

/-- The session with a memory of when each entry was last sent. -/
def timed (cfg : Config) : StepSystem (Solo × (EntryRef → Option ℤ)) Solo.Turn :=
  (Solo.system cfg).remembering (fun _ => none) lastSent

/-- The entry was sent, if at all, `SentTimeout` ago. -/
def Rested (cfg : Config) (e : EntryRef) (p : Solo × (EntryRef → Option ℤ)) : Prop :=
  ∀ sent ∈ p.2 e, sent + cfg.sentTimeout ≤ p.1.outbox.now

/-- The entries that a tick is to send again were sent `SentTimeout` ago, and nobody else is
about to send them. -/
def Prompt (cfg : Config) (p : Solo × (EntryRef → Option ℤ)) (t : Solo.Turn) : Prop :=
  ∀ o ∈ t.msgOp p.1, ∀ now ∈ o.collects, ∀ e ∈ p.1.outbox.timedOut now,
    Rested cfg e p ∧ ∀ o ∈ p.1.goroutines.ops, o.transmits e = false

theorem rest_transmits (e : EntryRef) (c : Option Caller) :
    (c.elim [] Caller.rest).countP (MsgOp.transmits e) = 0 := by
  refine countP_eq_zero_of_false fun o ho => ?_
  obtain ⟨k, -, rfl⟩ := mem_rest_of_mem_elim ho
  rfl

/-- Only the loop of a tick begins to send an entry that was put in flight. -/
theorem MsgOp.Ran.transmits {o : MsgOp} {new : List MsgOp} (h : Ran cfg f x o new x')
    {e : EntryRef} (henters : o.enters e = false) :
    new.countP (MsgOp.transmits e) ≤ [o].countP (MsgOp.transmits e) +
      o.collects.elim 0 fun now => (x.timedOut now).count e := by
  by_cases hnone : ∀ o' ∈ new, o'.transmits e = false
  · rw [countP_eq_zero_of_false hnone]
    exact Nat.zero_le _
  · push Not at hnone
    obtain ⟨o', hmem, htransmits⟩ := hnone
    cases h.follows hmem with
    | notInserted _ | sendPushed _ | afterPush _ | sendAtOnce _ => exact absurd henters htransmits
    | sendEntry _ =>
      cases h with
      | sendEntry _ => exact le_rfl
    | sendAgain _ _ =>
      cases h with
      | resend _ _ _ => exact le_rfl
    | pushSend c r _ =>
      cases h with
      | channelSend _ _ _ => exact le_rfl
      | channelStoped _ _ _ =>
        rw [rest_transmits]
        exact Nat.zero_le _
    | resend _ =>
      cases h with
      | collect now =>
        rw [List.countP_map]
        exact (Nat.zero_add _).ge
    | _ => exact absurd rfl htransmits

section Spacing

variable {s s' : Solo} {t : Solo.Turn} {old new : List Op} {e : EntryRef}
  {p p' : Solo × (EntryRef → Option ℤ)}

/-- So it is for whole turns. -/
theorem Exchange.transmits (h : Exchange cfg s t old new x' f')
    (henters : ∀ o ∈ old, o.enters e = false) (hcollect : ∀ now, .collect now ∉ t.msgOp s) :
    new.countP (Op.transmits e) ≤ old.countP (Op.transmits e) := by
  have hbegins : ∀ {P : PacketRef → Prop} {l : List Op}, Begins P l →
      l.countP (Op.transmits e) = 0 := fun hl =>
    hl.countP_eq_zero (fun o ho => by cases ho with | _ => rfl) fun _ => rfl
  cases h with
  | @msg i o new _ hnext hran =>
    have hle := hran.transmits (henters _ List.mem_cons_self)
    have hnone : o.collects = none := by
      cases o with
      | collect now => exact absurd (Solo.Turn.msgOp_run hnext) (hcollect now)
      | _ => rfl
    rw [hnone] at hle
    rw [countP_map_msg]
    exact hle
  | stop _ hrun => exact (hbegins (Begins.of_run hrun)).le.trans (Nat.zero_le _)
  | round t new hnew =>
    exact (hbegins (P := fun _ => False) (.round hnew)).le.trans (Nat.zero_le _)
  | _ => exact le_rfl

/-- What is sent again and was put in flight is about to be transmitted. -/
theorem MsgOp.transmits_of_resends {o : MsgOp} (ho : o.resends = true) (he : o.entry = some e)
    (henters : o.enters e = false) : o.transmits e = true := by
  cases o with
  | resend e' now => exact decide_eq_true (Option.some.inj he)
  | insert2Inflight c | newInflight c | pushInflight c =>
    exact absurd (Option.some.inj he) (of_decide_eq_false henters)
  | sendEntry c => exact decide_eq_true (Option.some.inj he)
  | channelSend c r | pushSend c r =>
    cases c with
    | none => exact absurd ho Bool.false_ne_true
    | some c => exact decide_eq_true (Option.some.inj he)
  | _ => exact absurd ho Bool.false_ne_true

/-- An entry that is being sent again: nothing else transmits it, and it was not sent for a
while. -/
structure Resting (cfg : Config) (e : EntryRef) (p : Solo × (EntryRef → Option ℤ)) : Prop where
  entered : p.1.outbox.Entered e
  once : p.1.goroutines.ops.countP (Op.transmits e) ≤ 1
  rested : Rested cfg e p

/-- A tick has begun to send the entry again. -/
def SentAgain (s : Solo) (e : EntryRef) : Prop :=
  ∃ o, .msg o ∈ s.goroutines.ops ∧ o.resends = true ∧ o.entry = some e

/-- What happens to the memory of one entry. -/
theorem lastSent_eq {last : EntryRef → Option ℤ}
    (h : ∀ c r, .pushSend (some c) r ∈ t.msgOp s → c.entry ≠ e) :
    lastSent s t last e = last e := by
  have hcases : lastSent s t last = last ∨ ∃ c r, .pushSend (some c) r ∈ t.msgOp s ∧
      lastSent s t last = Function.update last c.entry (some s.outbox.now) := by
    unfold lastSent
    split
    · next c r hop => exact .inr ⟨c, r, hop, rfl⟩
    · exact .inl rfl
  rcases hcases with hsame | ⟨c, r, hop, hupdate⟩
  · rw [hsame]
  · rw [hupdate, Function.update_of_ne (h c r hop).symm]

theorem timed_step (h : (timed cfg).step t p = some p') :
    Solo.step cfg t p.1 = some p'.1 ∧ p'.2 = lastSent p.1 t p.2 := by
  obtain ⟨s', hs', rfl⟩ := Option.map_eq_some_iff.mp h
  exact ⟨hs', rfl⟩

theorem SentAgain.transmits (hs : Once s) (h : SentAgain s e) (he : s.outbox.Entered e) :
    0 < s.goroutines.ops.countP (Op.transmits e) := by
  obtain ⟨o, hmem, hresends, hentry⟩ := h
  have henters : o.enters e = false := he.not_enters hs hmem
  exact List.countP_pos_iff.mpr ⟨_, hmem, MsgOp.transmits_of_resends hresends hentry henters⟩

/-- Until it is sent, it rests. -/
theorem Resting.step (hs : Regular p.1) (hr : Resting cfg e p) (hbefore : SentAgain p.1 e)
    (h : (timed cfg).step t p = some p') (hafter : SentAgain p'.1 e) : Resting cfg e p' := by
  obtain ⟨hstep, hlast⟩ := timed_step h
  have honce' := once_step hs.typed hs.once hstep
  obtain ⟨old, new, hx, hex⟩ := exchange_of_step hstep
  have hentered := hx.entered hr.entered
  have henters : ∀ o ∈ old, o.enters e = false := fun o ho =>
    hr.entered.not_enters hs.once (hex.mem_old ho)
  have hcollect : ∀ now, .collect now ∉ t.msgOp p.1 := by
    intro now hop
    obtain ⟨o, hmem, hresends, -⟩ := hbefore
    have hnot := hs.ticks.not_resends (mem_ops_of_msgOp hop) rfl _ hmem
    exact Bool.false_ne_true (hnot.symm.trans hresends)
  have hcount := hex.countP_eq (Op.transmits e)
  have hle := hx.transmits henters hcollect
  have honce := hr.once
  have hpos := hafter.transmits honce' hentered
  refine ⟨hentered, by omega, fun sent hsent => ?_⟩
  -- the one who is about to transmit the entry has not done so
  have hpush : ∀ c r, .pushSend (some c) r ∈ t.msgOp p.1 → c.entry ≠ e := by
    intro c r hop he
    obtain ⟨i, rfl, hnext⟩ := nextOp_of_msgOp hop
    obtain ⟨new', hrun, hex'⟩ := run_of_nextOp hnext hstep
    obtain ⟨rfl, -⟩ := Prod.mk.inj (Option.some.inj hrun)
    have hcount' := hex'.countP_eq (Op.transmits e)
    have hold : [Op.msg (.pushSend (some c) r)].countP (Op.transmits e) = 1 :=
      List.countP_singleton.trans (if_pos (decide_eq_true he))
    have hnew : ((((some c).elim [] Caller.rest).map Op.msg)).countP (Op.transmits e) = 0 :=
      (countP_map_msg _ _).trans (rest_transmits e (some c))
    rw [hold, hnew] at hcount'
    omega
  rw [hlast, lastSent_eq hpush] at hsent
  exact (hr.rested sent hsent).trans hx.now_le

/-- A tick begins to send again what rests. -/
theorem Resting.of_collect {now : ℤ} (hs : Regular p.1) (hok : Prompt cfg p t)
    (hop : .collect now ∈ t.msgOp p.1) (h : (timed cfg).step t p = some p')
    (hafter : SentAgain p'.1 e) : Resting cfg e p' := by
  obtain ⟨hstep, hlast⟩ := timed_step h
  obtain ⟨i, rfl, hnext⟩ := nextOp_of_msgOp hop
  obtain ⟨new, hrun, hex⟩ := run_of_nextOp hnext hstep
  obtain ⟨rfl, houtbox⟩ := Prod.mk.inj (Option.some.inj hrun)
  obtain ⟨o, hmem, hresends, hentry⟩ := hafter
  have hnew : .msg o ∈ ((p.1.outbox.timedOut now).map (MsgOp.resend · now)).map Op.msg := by
    refine (hex.mem_or hmem).resolve_right fun hbefore => ?_
    have hnot := hs.ticks.not_resends (hex.mem_old List.mem_cons_self) rfl _ hbefore
    exact Bool.false_ne_true (hnot.symm.trans hresends)
  obtain ⟨o', ho', heq⟩ := List.mem_map.mp hnew
  obtain rfl := Op.msg.inj heq
  obtain ⟨e', he', rfl⟩ := List.mem_map.mp ho'
  obtain rfl := Option.some.inj hentry
  obtain ⟨hrested, hnone⟩ := hok _ hop now rfl e' he'
  have hcount := hex.countP_eq (Op.transmits e')
  have hold : [Op.msg (.collect now)].countP (Op.transmits e') = 0 := rfl
  have hcollected : (((p.1.outbox.timedOut now).map (MsgOp.resend · now)).map Op.msg).countP
      (Op.transmits e') = (p.1.outbox.timedOut now).count e' := by
    rw [countP_map_msg, List.countP_map]
    rfl
  -- the loop sends each entry that it collects once
  have hone := hs.once.count_timedOut e' now
  rw [hold, hcollected, hone, countP_eq_zero_of_false hnone] at hcount
  refine ⟨houtbox ▸ .inl (List.mem_of_mem_filter he'), ?_, fun sent hsent => ?_⟩
  · split at hcount <;> omega
  · rw [hlast, lastSent_eq fun c r hpush => absurd (Option.mem_unique hop hpush) (by simp)] at hsent
    rw [← houtbox]
    exact hrested sent hsent

/-- A turn without a collecting loop does not begin to send an entry again. -/
theorem SentAgain.of_step (h : Solo.step cfg t s = some s')
    (hcollect : ∀ now, .collect now ∉ t.msgOp s) (hafter : SentAgain s' e) : SentAgain s e := by
  obtain ⟨old, new, hx, hex⟩ := exchange_of_step h
  obtain ⟨o, hmem, hresends, hentry⟩ := hafter
  rcases hex.mem_or hmem with hnew | hbefore
  · obtain ⟨o', hold, ⟨⟨now, rfl⟩, -⟩ | ⟨hresends', hentry', -⟩⟩ := hx.resends hnew hresends hentry
    · exact absurd (hx.msgOp hold) (hcollect now)
    · exact ⟨o', hex.mem_old hold, hresends', hentry'⟩
  · exact ⟨o, hbefore, hresends, hentry⟩

theorem resting_of_reach (h : (timed cfg).Reach (Prompt cfg) p) :
    ∀ e, SentAgain p.1 e → Resting cfg e p := by
  induction h with
  | init hinit =>
    obtain ⟨⟨isServer, now, hs⟩, -⟩ := hinit
    rintro e ⟨o, hmem, -⟩
    rw [hs] at hmem
    exact absurd hmem (by simp [Solo.initial])
  | @step p p' t hreach hok hstep ih =>
    intro e hafter
    have hs := regular_of_reach hreach.forget
    -- only a tick's collecting loop begins to send an entry again
    by_cases hcollect : ∃ now, .collect now ∈ t.msgOp p.1
    · obtain ⟨now, hop⟩ := hcollect
      exact Resting.of_collect hs hok hop hstep hafter
    · have hbefore := hafter.of_step (timed_step hstep).1 fun now hop => hcollect ⟨now, hop⟩
      exact (ih e hbefore).step hs hbefore hstep hafter

end Spacing

/-! ## While the clock stands still -/

/-- The operation has a reading of the clock by which a timeout is set, or by which one was set for
an entry that goes in flight. -/
def Op.hasRead : Op → Bool
  | .msg (.collect _) | .msg (.resend _ _) | .msg (.pushInflight _) => true
  | _ => false

/-- A goroutine has read the clock for a timeout and has not pushed the packet yet. -/
def Op.Underway (x : Outbox) (o : Op) : Prop :=
  o.hasRead = true ∨ ∃ e ∈ o.sendsFor, x.Entered e

/-- The time that passes in a turn. -/
def Turn.elapsed : Solo.Turn → ℕ
  | .elapse d => d
  | _ => 0

/-- No time passes between the reading of the clock that a timeout is set by and the push that
follows. -/
def Still (p : Solo × (EntryRef → Option ℤ)) (t : Solo.Turn) : Prop :=
  0 < t.elapsed → ∀ o ∈ p.1.goroutines.ops, ¬ o.Underway p.1.outbox

/-- The ticks have the clock as it is, and what is sent while the clock stands still has its
timeout from there. -/
structure Punctual (cfg : Config) (p : Solo × (EntryRef → Option ℤ)) : Prop where
  collect : ∀ now, .msg (.collect now) ∈ p.1.goroutines.ops → now = p.1.outbox.now
  resend : ∀ e now, .msg (.resend e now) ∈ p.1.goroutines.ops → now = p.1.outbox.now
  inserted : ∀ c, .msg (.pushInflight c) ∈ p.1.goroutines.ops →
    (p.1.outbox.entry c.entry).timeout = p.1.outbox.now + cfg.sentTimeout
  sending : ∀ o ∈ p.1.goroutines.ops, ∀ e ∈ o.sendsFor, o.hasRead = false →
    p.1.outbox.Entered e → (p.1.outbox.entry e).timeout = p.1.outbox.now + cfg.sentTimeout
  sent : ∀ e, ∀ sent ∈ p.2 e, sent ≤ p.1.outbox.now ∧
    (p.1.outbox.Entered e → sent + cfg.sentTimeout ≤ (p.1.outbox.entry e).timeout)

section Punctual

variable {s s' : Solo} {t : Solo.Turn} {old new : List Op} {e : EntryRef}
  {p p' : Solo × (EntryRef → Option ℤ)}

theorem timeout_of_newInflight {c : Caller} (hop : .newInflight c ∈ t.msgOp s)
    (h : Solo.step cfg t s = some s') :
    (s'.outbox.entry c.entry).timeout = s.outbox.now + cfg.sentTimeout := by
  obtain ⟨i, rfl, hnext⟩ := nextOp_of_msgOp hop
  obtain ⟨new, hrun, -⟩ := run_of_nextOp hnext h
  obtain ⟨-, houtbox⟩ := Prod.mk.inj (Option.some.inj hrun)
  rw [← houtbox, Outbox.modifyEntry_self]

theorem timeout_of_resend {now : ℤ} (hop : .resend e now ∈ t.msgOp s)
    (h : Solo.step cfg t s = some s') :
    (s'.outbox.entry e).timeout = now + cfg.sentTimeout := by
  obtain ⟨i, rfl, hnext⟩ := nextOp_of_msgOp hop
  obtain ⟨new, hrun, -⟩ := run_of_nextOp hnext h
  obtain ⟨-, houtbox⟩ := Prod.mk.inj (Option.some.inj hrun)
  rw [← houtbox, Outbox.modifyEntry_self]

/-- A timeout is set by the clock as it is. -/
theorem Punctual.timeout (hp : Punctual cfg p) (h : Solo.step cfg t p.1 = some s')
    (he : e < p.1.outbox.entries.next) :
    (s'.outbox.entry e).timeout = (p.1.outbox.entry e).timeout ∨
      (s'.outbox.entry e).timeout = p.1.outbox.now + cfg.sentTimeout := by
  by_cases hnew : ∃ c, .newInflight c ∈ t.msgOp p.1 ∧ c.entry = e
  · obtain ⟨c, hop, rfl⟩ := hnew
    exact .inr (timeout_of_newInflight hop h)
  · by_cases hresend : ∃ now, .resend e now ∈ t.msgOp p.1
    · obtain ⟨now, hop⟩ := hresend
      rw [← hp.resend e now (mem_ops_of_msgOp hop)]
      exact .inr (timeout_of_resend hop h)
    · obtain ⟨old, new, hx, -⟩ := exchange_of_step h
      have htimer := hx.timer he (fun c hmem hc => hnew ⟨c, hx.msgOp hmem, hc⟩)
        fun now hmem => hresend ⟨now, hx.msgOp hmem⟩
      exact .inl (congrArg Prod.fst htimer)

theorem Exchange.now_eq (h : Exchange cfg s t old new x' f') (ht : t.elapsed = 0) :
    x'.now = s.outbox.now := by
  cases h with
  | msg _ hran => exact hran.now_eq
  | elapse d =>
    obtain rfl : d = 0 := ht
    exact Int.add_zero _
  | _ => rfl

/-- An operation with an entry to send that has read the clock is the resend loop. -/
theorem exists_resend_of_sends {o : Op} (hread : o.hasRead = true) (he : o.sendsFor = some e) :
    ∃ now, o = .msg (.resend e now) := by
  cases o with
  | stop o => exact absurd he (by simp [Op.sendsFor])
  | msg o =>
    cases o with
    | resend e' now =>
      obtain rfl := Option.some.inj he
      exact ⟨now, rfl⟩
    | collect _ | pushInflight _ => exact absurd he (by simp [Op.sendsFor, MsgOp.sendsFor])
    | _ => exact absurd hread Bool.false_ne_true

/-- What a turn leaves that sends an entry in flight comes from the goroutine that has put it there
or from the resend loop, or was about to send it before. -/
theorem Exchange.sends (h : Exchange cfg s t old new x' f') (ho : Once s)
    (hold : ∀ o ∈ old, o ∈ s.goroutines.ops) (he : s.outbox.Entered e) {o' : Op}
    (hmem : o' ∈ new) (hread : o'.hasRead = false) (hsends : o'.sendsFor = some e) :
    (∃ c, .msg (.pushInflight c) ∈ old ∧ c.entry = e) ∨ ∃ o ∈ old, o.sendsFor = some e := by
  cases o' with
  | stop o => exact absurd hsends (by simp [Op.sendsFor])
  | msg o' =>
    rcases h.origin hmem with ⟨o, l, hran, hl, -, rfl, -⟩ | hopens
    · have hnot := he.not_enters ho (hold _ List.mem_cons_self)
      rcases hran.sendsFor hl hsends with ⟨hsame, -⟩ | ⟨⟨now, rfl⟩, -⟩ | ⟨c, rfl, hc⟩ |
        ⟨c, rfl, rfl, -⟩ | rfl
      · exact .inr ⟨_, List.mem_cons_self, hsame⟩
      · -- the loop of a tick leaves the resend loop, which has read the clock
        cases hran.follows hl with
        | resend _ => exact absurd hread.symm Bool.false_ne_true
      · exact .inl ⟨c, List.mem_cons_self, hc⟩
      · exact absurd rfl (of_decide_eq_false hnot)
      · exact absurd rfl (of_decide_eq_false hnot)
    · exact absurd (hopens.sends_packet.1.symm.trans hsends) (by simp)

theorem sends_of_transmits {o : Op} (h : o.transmits e = true) : o.sendsFor = some e := by
  cases o with
  | stop o => exact absurd h Bool.false_ne_true
  | msg o =>
    cases o with
    | resend e' now | sendEntry c => exact congrArg some (of_decide_eq_true h)
    | channelSend c r | pushSend c r =>
      cases c with
      | none => exact absurd h Bool.false_ne_true
      | some c => exact congrArg some (of_decide_eq_true h)
    | _ => exact absurd h Bool.false_ne_true

theorem mem_lastSent {last : EntryRef → Option ℤ} {sent : ℤ} (h : sent ∈ lastSent s t last e) :
    sent ∈ last e ∨ sent = s.outbox.now ∧
      ∃ c r, .pushSend (some c) r ∈ t.msgOp s ∧ c.entry = e := by
  by_cases hpush : ∃ c r, .pushSend (some c) r ∈ t.msgOp s ∧ c.entry = e
  · refine .inr ⟨?_, hpush⟩
    obtain ⟨c, r, hop, rfl⟩ := hpush
    have hupdate : lastSent s t last = Function.update last c.entry (some s.outbox.now) := by
      rw [lastSent, Option.mem_def.mp hop]
    rw [hupdate, Option.mem_def, Function.update_self] at h
    exact (Option.some.inj h).symm
  · rw [lastSent_eq fun c r hop hc => hpush ⟨c, r, hop, hc⟩] at h
    exact .inl h

/-- When time passes, nobody is on the way from the clock to the send list. -/
theorem Punctual.elapse (hp : Punctual cfg p) (d : ℕ)
    (hnone : ∀ o ∈ p.1.goroutines.ops, ¬ o.Underway p.1.outbox) :
    Punctual cfg
      ({ p.1 with outbox := { p.1.outbox with now := p.1.outbox.now + d } }, p.2) where
  collect now hmem := absurd (.inl rfl) (hnone _ hmem)
  resend e now hmem := absurd (.inl rfl) (hnone _ hmem)
  inserted c hmem := absurd (.inl rfl) (hnone _ hmem)
  sending o hmem e he _ hentered := absurd (.inr ⟨e, he, hentered⟩) (hnone o hmem)
  sent e sent hsent := by
    obtain ⟨hle, htimeout⟩ := hp.sent e sent hsent
    exact ⟨hle.trans (Int.le_add_of_nonneg_right (Int.natCast_nonneg d)), htimeout⟩

theorem Punctual.step (hs : Regular p.1) (hp : Punctual cfg p) (hok : Still p t)
    (h : (timed cfg).step t p = some p') : Punctual cfg p' := by
  obtain ⟨hstep, hlast⟩ := timed_step h
  by_cases helapsed : 0 < t.elapsed
  · cases t with
    | elapse d =>
      obtain rfl := Option.some.inj h
      exact hp.elapse d (hok helapsed)
    | _ => exact absurd helapsed (Nat.lt_irrefl 0)
  obtain ⟨old, new, hx, hex⟩ := exchange_of_step hstep
  have hnow := hx.now_eq (Nat.eq_zero_of_not_pos helapsed)
  -- what has its timeout by the clock keeps it
  have hkeeps : ∀ e < p.1.outbox.entries.next,
      (p.1.outbox.entry e).timeout = p.1.outbox.now + cfg.sentTimeout →
        (p'.1.outbox.entry e).timeout = p'.1.outbox.now + cfg.sentTimeout := by
    intro e he htimeout
    rw [hnow]
    exact (hp.timeout hstep he).elim (·.trans htimeout) id
  have hinserted : ∀ c, .msg (.pushInflight c) ∈ p.1.goroutines.ops →
      (p'.1.outbox.entry c.entry).timeout = p'.1.outbox.now + cfg.sentTimeout := by
    intro c hmem
    have htyped : MsgOp.Typed p.1.outbox (.pushInflight c) := hs.typed.ops _ hmem
    exact hkeeps _ (htyped.lt rfl) (hp.inserted c hmem)
  have hsending : ∀ o ∈ p.1.goroutines.ops, ∀ e ∈ o.sendsFor, o.hasRead = false →
      p.1.outbox.Entered e →
        (p'.1.outbox.entry e).timeout = p'.1.outbox.now + cfg.sentTimeout :=
    fun o hmem e he hread hin =>
      hkeeps e (hs.typed.lt_of_entered hin) (hp.sending o hmem e he hread hin)
  constructor
  · intro now hmem
    rw [hnow]
    exact (hex.mem_or hmem).elim hx.collects_now (hp.collect now)
  · intro e now hmem
    rw [hnow]
    rcases hex.mem_or hmem with hnew | hmem
    · exact hp.collect now (mem_ops_of_msgOp (hx.collects hnew))
    · exact hp.resend e now hmem
  · intro c hmem
    rcases hex.mem_or hmem with hnew | hmem
    · rcases hx.origin hnew with ⟨o, l, hran, hl, hop, -⟩ | hopens
      · cases hran.follows hl with
        | pushInflight c => rw [timeout_of_newInflight hop hstep, hnow]
      · cases hopens with
        | starts hstarts => cases hstarts
    · exact hinserted c hmem
  · intro o hmem e he hread hentered
    rcases hx.entered_or hentered with hin | ⟨c, hold, rfl⟩
    · rcases hex.mem_or hmem with hnew | hmem
      · rcases hx.sends hs.once (fun o => hex.mem_old) hin hnew hread he with
          ⟨c, hold, rfl⟩ | ⟨o₀, hold, hsends⟩
        · exact hinserted c (hex.mem_old hold)
        · cases hread₀ : o₀.hasRead with
          | true =>
            obtain ⟨now, rfl⟩ := exists_resend_of_sends hread₀ hsends
            rw [timeout_of_resend (hx.msgOp hold) hstep, hp.resend e now (hex.mem_old hold), hnow]
          | false => exact hsending o₀ (hex.mem_old hold) e hsends hread₀ hin
      · exact hsending o hmem e he hread hin
    · exact hinserted c (hex.mem_old hold)
  · intro e sent hsent
    rw [hlast] at hsent
    rcases mem_lastSent hsent with hbefore | ⟨rfl, c, r, hop, rfl⟩
    · obtain ⟨hle, htimeout⟩ := hp.sent e sent hbefore
      refine ⟨hnow ▸ hle, fun hentered => ?_⟩
      rcases hx.entered_or hentered with hin | ⟨c, hold, rfl⟩
      · rcases hp.timeout hstep (hs.typed.lt_of_entered hin) with hsame | hset
        · exact hsame ▸ htimeout hin
        · rw [hset]
          exact Int.add_le_add_right hle _
      · rw [hinserted c (hex.mem_old hold), hnow]
        exact Int.add_le_add_right hle _
    · -- the push itself
      refine ⟨hnow.ge, fun hentered => ?_⟩
      rcases hx.entered_or hentered with hin | ⟨c', hold, -⟩
      · rw [hsending _ (mem_ops_of_msgOp hop) c.entry rfl rfl hin, hnow]
      · exact absurd (Option.mem_unique hop (hx.msgOp hold)) (by simp)

/-- While the clock stands still, the ticks come after the pushes. -/
theorem Punctual.prompt (hs : Regular p.1) (hp : Punctual cfg p) (hpos : 0 < cfg.sentTimeout)
    (t : Solo.Turn) : Prompt cfg p t := by
  intro o hop now hcollects e hover
  obtain rfl : o = .collect now := by
    cases o with
    | collect now' => exact congrArg MsgOp.collect (Option.some.inj hcollects)
    | _ => exact absurd hcollects (by simp [MsgOp.collects])
  obtain ⟨hin, hover⟩ := List.mem_filter.mp hover
  have htimeout : (p.1.outbox.entry e).timeout ≤ now := of_decide_eq_true hover
  have hnow := hp.collect now (mem_ops_of_msgOp hop)
  refine ⟨fun sent hsent => ?_, fun o hmem => Bool.eq_false_of_not_eq_true fun htransmits => ?_⟩
  · have hsent := (hp.sent e sent hsent).2 (.inl hin)
    omega
  · -- whoever sends the entry has its timeout before it
    have hsends := sends_of_transmits htransmits
    cases hread : o.hasRead with
    | true =>
      obtain ⟨now', rfl⟩ := exists_resend_of_sends hread hsends
      exact absurd (hs.ticks.not_resends (mem_ops_of_msgOp hop) rfl _ hmem).symm
        Bool.false_ne_true
    | false =>
      have hahead := hp.sending o hmem e hsends hread (.inl hin)
      omega

theorem punctual_of_reach (h : (timed cfg).Reach Still p) : Punctual cfg p := by
  induction h with
  | @init p hinit =>
    obtain ⟨⟨isServer, now, hs⟩, hlast⟩ := hinit
    have hnone : ∀ o, o ∉ p.1.goroutines.ops := by simp [hs, Solo.initial]
    exact ⟨fun now hmem => absurd hmem (hnone _), fun e now hmem => absurd hmem (hnone _),
      fun c hmem => absurd hmem (hnone _), fun o hmem => absurd hmem (hnone o),
      fun e sent hsent => absurd hsent (by simp [hlast])⟩
  | step hreach hok hstep ih => exact ih.step (regular_of_reach hreach.forget) hok hstep

/-- An entry is sent again `SentTimeout` after it was last sent, if the clock stands still from the
reading that sets a timeout to the push. -/
theorem rested_of_still (h : (timed cfg).Reach Still p) {r : PacketRef}
    (hop : .pushSend (some (.resend e)) r ∈ t.msgOp p.1) : Rested cfg e p := by
  by_cases hpos : 0 < cfg.sentTimeout
  · have hprompt : (timed cfg).Reach (Prompt cfg) p := by
      clear hop
      induction h with
      | init hinit => exact .init hinit
      | @step p p' t hreach _ hstep ih =>
        exact ih.step ((punctual_of_reach hreach).prompt (regular_of_reach hreach.forget) hpos t)
          hstep
    exact (resting_of_reach hprompt e ⟨_, mem_ops_of_msgOp hop, rfl, rfl⟩).rested
  · -- with no timeout at all, what was sent was sent before now
    intro sent hsent
    have hle := ((punctual_of_reach h).sent e sent hsent).1
    omega

end Punctual

/-! ## The bound and the spacing -/

/-- An entry in flight is sent again at most `m` times along a run if and only if the ticks that
find it in flight do not read the clock more than `m` times after its timeout and each time
`SentTimeout` after the time before; there is no other bound. Each entry is sent again `SentTimeout`
after it was last sent where the ticks find only what was sent `SentTimeout` ago, and so it is
where no time passes between the reading of the clock that a timeout is set by and the push. -/
theorem bounded_retransmission (cfg : Config) (m : ℕ) :
    (∀ (s : Solo) (e : EntryRef) (ts : List Solo.Turn), (Solo.system cfg).Reachable s →
      e ∈ s.outbox.inflightingList → (∀ now, .msg (.resend e now) ∉ s.goroutines.ops) →
        ((Solo.system cfg).Always (fun s => s.retried e ≤ m) ts s ↔
          ∀ c : List ℤ, c.Sublist ((Solo.system cfg).shown (reading e) ts s) →
            Deadline.Spaced (· + cfg.sentTimeout) (s.outbox.entry e).timeout c →
              (s.outbox.entry e).retryCnt + c.length ≤ m)) ∧
    (∀ p, (timed cfg).Reach (Prompt cfg) p → ∀ (t : Solo.Turn) (e : EntryRef) (r : PacketRef),
      .pushSend (some (.resend e)) r ∈ t.msgOp p.1 → Rested cfg e p) ∧
    ∀ p, (timed cfg).Reach Still p → ∀ (t : Solo.Turn) (e : EntryRef) (r : PacketRef),
      .pushSend (some (.resend e)) r ∈ t.msgOp p.1 → Rested cfg e p := by
  refine ⟨fun s e ts hs he hidle => always_retried_le_iff hs he hidle, fun p hp t e r hop => ?_,
    fun p hp t e r hop => rested_of_still hp hop⟩
  exact (resting_of_reach hp e ⟨_, mem_ops_of_msgOp hop, rfl, rfl⟩).rested

/-- A QoS 1 message is published after a CONNECT. -/
def qos1Call : List Solo.Turn :=
  Solo.connecting ++ [.newPacket (Solo.outboundPublish 1), .publish 2] ++ Solo.runs 4 13

/-- A tick after five seconds, which sends one entry again. -/
def unansweredTick : List Solo.Turn := [.elapse 5000000000, .tick false] ++ Solo.runs 2 11

instance (p : Solo × (EntryRef → Option ℤ)) (t : Solo.Turn) : Decidable (Prompt cfg p t) :=
  inferInstanceAs (Decidable (∀ o ∈ t.msgOp p.1, ∀ now ∈ o.collects, ∀ e ∈ _,
    (∀ sent ∈ p.2 e, _) ∧ ∀ o ∈ p.1.goroutines.ops, _))

instance (x : Outbox) (e : EntryRef) : Decidable (x.Entered e) :=
  inferInstanceAs (Decidable (_ ∨ ∃ ev ∈ x.log, _))

instance (x : Outbox) (o : Op) : Decidable (o.Underway x) :=
  inferInstanceAs (Decidable (_ ∨ ∃ e ∈ o.sendsFor, _))

instance (p : Solo × (EntryRef → Option ℤ)) (t : Solo.Turn) : Decidable (Still p t) :=
  inferInstanceAs (Decidable (_ → ∀ o ∈ p.1.goroutines.ops, _))

theorem bounded_retransmission_twice :
    (∃ s, (Solo.system {}).Reachable s ∧
      (Solo.system {}).Always (fun s => s.retried 0 ≤ maxRetryTimes)
        (unansweredTick ++ unansweredTick) s) ∧
    ∃ p r, (timed {}).Reach (Prompt {}) p ∧ (timed {}).Reach Still p ∧ p.2 0 = some 0 ∧
      .pushSend (some (.resend 0)) r ∈ (Solo.Turn.run 2).msgOp p.1 ∧ Rested {} 0 p := by
  obtain ⟨hbound, -, hspacing⟩ := bounded_retransmission {} maxRetryTimes
  constructor
  · have hcall : ((Solo.system {}).exec qos1Call (Solo.initial true 0)).any (fun s =>
        0 ∈ s.outbox.inflightingList ∧ s.goroutines.ops = [] ∧
        (s.outbox.entry 0).retryCnt = 0 ∧ ((Solo.system {}).shown (reading 0)
          (unansweredTick ++ unansweredTick) s).length = 2) = true := by
      decide +kernel
    obtain ⟨s, hs, hc⟩ :=
      StepSystem.exists_reachable_of_any (Solo.initial_init {} true 0) hcall
    obtain ⟨hin, hops, hretryCnt, hlength⟩ := of_decide_eq_true hc
    refine ⟨s, hs, (hbound s 0 _ hs hin (by simp [hops])).mpr fun c hsub _ => ?_⟩
    have hle := hsub.length_le
    rw [hretryCnt, maxRetryTimes]
    omega
  · have hinit : (timed {}).init (Solo.initial true 0, fun _ => none) :=
      ⟨Solo.initial_init {} true 0, rfl⟩
    have hok : (timed {}).checkAll (fun p t => decide (Prompt {} p t ∧ Still p t))
        (qos1Call ++ unansweredTick.take 8) (Solo.initial true 0, fun _ => none) = true := by
      decide +kernel
    have hend : ((timed {}).exec (qos1Call ++ unansweredTick.take 8)
        (Solo.initial true 0, fun _ => none)).any (fun p => p.2 0 = some 0 ∧
          .pushSend (some (.resend 0)) 2 ∈ (Solo.Turn.run 2).msgOp p.1) = true := by
      decide +kernel
    obtain ⟨p, hexec, hc⟩ := StepSystem.exists_of_any hend
    have hprompt : (timed {}).Reach (Prompt {}) p := StepSystem.reach_of_exec (.init hinit)
      (StepSystem.along_of_check (fun _ _ h => (of_decide_eq_true h).1) hok) hexec
    have hstill : (timed {}).Reach Still p := StepSystem.reach_of_exec (.init hinit)
      (StepSystem.along_of_check (fun _ _ h => (of_decide_eq_true h).2) hok) hexec
    obtain ⟨hlast, hop⟩ := of_decide_eq_true hc
    exact ⟨p, 2, hprompt, hstill, hlast, hop, hspacing p hstill _ _ _ hop⟩

/-- No acknowledgement is handled. -/
def Unanswered (s : Solo) (t : Solo.Turn) : Prop := ∀ o ∈ t.msgOp s, o.rewrites = false

instance (s : Solo) (t : Solo.Turn) : Decidable (Unanswered s t) :=
  inferInstanceAs (Decidable (∀ o ∈ t.msgOp s, _))

/-- Six ticks, five seconds apart, send an entry of a dead peer again six times. -/
theorem retransmission_not_bounded : ¬ ∀ s, (Solo.system {}).Reach Unanswered s →
    ∀ e ∈ s.outbox.inflightingList, (s.outbox.entry e).retryCnt ≤ maxRetryTimes := by
  have hok : (Solo.system {}).checkAll (fun s t => decide (Unanswered s t))
      (qos1Call ++ (List.replicate 6 unansweredTick).flatten) (Solo.initial true 0) = true := by
    decide +kernel
  have hend : ((Solo.system {}).exec
      (qos1Call ++ (List.replicate 6 unansweredTick).flatten) (Solo.initial true 0)).any
      (fun s => 0 ∈ s.outbox.inflightingList ∧ (s.outbox.entry 0).retryCnt = 6) = true := by
    decide +kernel
  obtain ⟨s, hs, hc⟩ := StepSystem.exists_reach_of_any (Solo.initial_init {} true 0)
    (StepSystem.along_of_check (fun _ _ h => of_decide_eq_true h) hok) hend
  obtain ⟨hin, hretryCnt⟩ := of_decide_eq_true hc
  intro hall
  have hle := hall s hs 0 hin
  rw [hretryCnt] at hle
  exact absurd hle (by decide)

end MqttBroker.Solo

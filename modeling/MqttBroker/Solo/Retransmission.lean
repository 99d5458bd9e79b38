import MqttBroker.Lib.Deadlines
import MqttBroker.Solo.AtMostOnce
import MqttBroker.Solo.Entered
import MqttBroker.Solo.Ticking

/-!
# Retransmission

A tick sends an entry again when its timeout has passed, and then the timeout is set anew. How
often it does so depends on the clock alone: `MaxRetryTimes` is a variable of the configuration
that no function reads.
-/

namespace MqttBroker.Solo

variable {cfg : Config} {f f' : Flags} {x x' : Outbox}

/-- `config.MaxRetryTimes`. -/
def maxRetryTimes : ℕ := 5

/-- When the entry is to be sent again, and how often it was. -/
def Entry.timer (i : Entry) : ℤ × ℕ := (i.timeout, i.retryCnt)

theorem modifyEntry_timer {g : Entry → Entry} {e : EntryRef}
    (hg : (g (x.entry e)).timer = (x.entry e).timer) (e' : EntryRef) :
    ((x.modifyEntry e g).entry e').timer = (x.entry e').timer := by
  by_cases h : e' = e
  · rw [h, Outbox.modifyEntry_self, hg]
  · rw [Outbox.modifyEntry_of_ne g x h]

/-- The loop of a tick, and what puts an entry in flight, set its timeout. -/
theorem MsgOp.Ran.timer {o : MsgOp} {new : List MsgOp} (h : Ran cfg f x o new x') {e : EntryRef}
    (hnew : ∀ c, o = .newInflight c → c.entry ≠ e) (hresend : ∀ now, o ≠ .resend e now) :
    (x'.entry e).timer = (x.entry e).timer := by
  cases h with
  | newInflight c timeout =>
    have hne : e ≠ c.entry := fun h => hnew c rfl h.symm
    exact congrArg Entry.timer (Outbox.modifyEntry_of_ne _ x hne)
  | resend e' now timeout =>
    have hne : e ≠ e' := fun h => hresend now (h ▸ rfl)
    exact congrArg Entry.timer (Outbox.modifyEntry_of_ne _ x hne)
  | subackResults r _ _ | connectErr code _ => exact modifyEntry_timer rfl e
  | flowComplete _ _ =>
    rw [Outbox.note_entry]
    exact modifyEntry_timer rfl e
  | send e' _ =>
    cases x.packet (x.entry e').msg with
    | subscribe m => exact modifyEntry_timer (x := x) (e := e') rfl e
    | _ => rfl
  | updateInflight r =>
    refine updateInflight_induct (P := fun y => (y.entry e).timer = (x.entry e).timer) r x rfl
      fun y e' _ hy => ?_
    rw [Outbox.note_entry, ← hy]
    exact modifyEntry_timer rfl e
  | _ => rfl

section Step

variable {s s' : Solo} {t : Solo.Turn} {old new : List Op} {e : EntryRef}

theorem Exchange.timer (h : Exchange cfg s t old new x' f') (he : e < s.outbox.entries.next)
    (hnew : ∀ c, .msg (.newInflight c) ∈ old → c.entry ≠ e)
    (hresend : ∀ now, .msg (.resend e now) ∉ old) :
    (x'.entry e).timer = (s.outbox.entry e).timer := by
  cases h with
  | msg _ hran =>
    exact hran.timer (fun c h => hnew c (h ▸ List.mem_cons_self))
      fun now h => hresend now (h ▸ List.mem_cons_self)
  | publish _ _ | send p => exact congrArg Entry.timer (Heap.alloc_of_lt _ he)
  | _ => rfl

/-- What holds of a session in every run. -/
structure Regular (s : Solo) : Prop where
  typed : Typed s
  once : Once s
  ticks : Ticks s
  clocked : Clocked s

theorem regular_step (hs : Regular s) (h : Solo.step cfg t s = some s') : Regular s' :=
  ⟨typed_step hs.typed h, once_step hs.typed hs.once h, ticks_step hs.ticks h,
    clocked_step hs.clocked h⟩

theorem regular_of_reach {ok : Solo → Solo.Turn → Prop} (h : (Solo.system cfg).Reach ok s) :
    Regular s := by
  refine ⟨typed_of_reach h, once_of_reach h, ticks_of_reach h, ?_⟩
  refine h.invariant (I := Clocked) ?_ fun s t s' hs _ hstep => clocked_step hs hstep
  rintro s ⟨isServer, now, rfl⟩
  exact fun now hmem => absurd hmem (by simp [Solo.initial])

/-! ## How often an entry is sent again -/

/-- A tick is about to send the entry again. -/
def Op.resending (e : EntryRef) : Op → Bool
  | .msg (.resend e' _) => e' = e
  | _ => false

/-- How often the entry was sent again, with the time that a tick is about to. -/
def retried (s : Solo) (e : EntryRef) : ℕ :=
  (s.outbox.entry e).retryCnt + s.goroutines.ops.countP (Op.resending e)

/-- The clock as a tick has read it that now finds the entry in flight. -/
def reading (e : EntryRef) (s : Solo) (t : Solo.Turn) : Option ℤ :=
  if e ∈ s.outbox.inflightingList then (t.msgOp s).bind MsgOp.collects else none

theorem mem_reading {now : ℤ} :
    now ∈ reading e s t ↔ .collect now ∈ t.msgOp s ∧ e ∈ s.outbox.inflightingList := by
  rw [reading]
  split
  · next hin =>
    rw [Option.mem_def, Option.bind_eq_some_iff]
    constructor
    · rintro ⟨o, ho, hnow⟩
      cases o with
      | collect now' =>
        obtain rfl := Option.some.inj hnow
        exact ⟨ho, hin⟩
      | _ => exact absurd hnow (by simp [MsgOp.collects])
    · exact fun h => ⟨_, h.1, rfl⟩
  · next hout => exact ⟨fun h => absurd h (Option.not_mem_none now), fun h => absurd h.2 hout⟩

/-- The next time that the entry is to be sent again is `deadline`. -/
structure Due (cfg : Config) (e : EntryRef) (deadline : ℤ) (s : Solo) : Prop where
  entered : s.outbox.Entered e
  once : s.goroutines.ops.countP (Op.resending e) ≤ 1
  resend : ∀ now, .msg (.resend e now) ∈ s.goroutines.ops → deadline = now + cfg.sentTimeout
  idle : s.goroutines.ops.countP (Op.resending e) = 0 → (s.outbox.entry e).timeout = deadline

theorem countP_resending (e : EntryRef) (now : ℤ) (l : List EntryRef) :
    ((l.map (MsgOp.resend · now)).map Op.msg).countP (Op.resending e) = l.count e := by
  rw [countP_map_msg, List.countP_map]
  rfl

/-- Only the loop of a tick begins to send an entry again. -/
theorem Exchange.collects (h : Exchange cfg s t old new x' f') {now : ℤ}
    (hmem : .msg (.resend e now) ∈ new) : .collect now ∈ t.msgOp s := by
  rcases h.origin hmem with ⟨o, l, hran, ho, hop, -⟩ | hopens
  · obtain ⟨rfl, -, -⟩ := hran.collects ho
    exact hop
  · cases hopens with
    | starts hstarts => cases hstarts

theorem exists_resend {o : Op} (h : o.resending e = true) : ∃ now, o = .msg (.resend e now) := by
  cases o with
  | msg o =>
    cases o with
    | resend e' now =>
      obtain rfl := of_decide_eq_true h
      exact ⟨now, rfl⟩
    | _ => exact absurd h Bool.false_ne_true
  | stop o => exact absurd h Bool.false_ne_true

theorem countP_resending_eq_zero {l : List Op} (h : ∀ now, .msg (.resend e now) ∉ l) :
    l.countP (Op.resending e) = 0 := by
  refine List.countP_eq_zero.mpr fun o ho hresending => ?_
  obtain ⟨now, rfl⟩ := exists_resend hresending
  exact h now ho

/-- The turns that do not send the entry again and do not look for it leave its deadline. -/
theorem Due.step_other {d : ℤ} (hs : Regular s) (hd : Due cfg e d s)
    (h : Solo.step cfg t s = some s') (hresend : ∀ now, .resend e now ∉ t.msgOp s)
    (hcollect : ∀ now, .collect now ∉ t.msgOp s) :
    Due cfg e d s' ∧ s'.retried e = s.retried e := by
  obtain ⟨old, new, hx, hex⟩ := exchange_of_step h
  have hold := countP_resending_eq_zero fun now hmem => hresend now (hx.msgOp hmem)
  have hnew := countP_resending_eq_zero (e := e) fun now hmem => hcollect now (hx.collects hmem)
  have hcount := hex.countP_eq (Op.resending e)
  have hentering : ∀ c, .msg (.newInflight c) ∈ old → c.entry ≠ e := fun c hmem =>
    of_decide_eq_false (hd.entered.not_enters hs.once (hex.mem_old hmem))
  have htimer := hx.timer (hs.typed.lt_of_entered hd.entered) hentering
    fun now hmem => hresend now (hx.msgOp hmem)
  obtain ⟨htimeout, hretryCnt⟩ := Prod.mk.inj htimer
  have hsame : s'.goroutines.ops.countP (Op.resending e) =
      s.goroutines.ops.countP (Op.resending e) := by omega
  refine ⟨⟨hx.entered hd.entered, hsame ▸ hd.once, fun now hmem => ?_, fun hidle => ?_⟩, ?_⟩
  · exact hd.resend now ((hex.mem_or hmem).resolve_left
      fun hmem => hcollect now (hx.collects hmem))
  · exact htimeout.trans (hd.idle (hsame ▸ hidle))
  · rw [retried, hretryCnt, hsame]
    rfl

/-- Sending the entry again counts it, and sets its timeout. -/
theorem Due.step_resend {d now : ℤ} (hd : Due cfg e d s) (h : Solo.step cfg t s = some s')
    (hop : .resend e now ∈ t.msgOp s) : Due cfg e d s' ∧ s'.retried e = s.retried e := by
  obtain ⟨old, new, hx, -⟩ := exchange_of_step h
  have hentered := hx.entered hd.entered
  obtain ⟨i, rfl, hnext⟩ := nextOp_of_msgOp hop
  obtain ⟨new, hrun, hex⟩ := run_of_nextOp hnext h
  obtain ⟨rfl, houtbox⟩ := Prod.mk.inj (Option.some.inj hrun)
  have hcount := hex.countP_eq (Op.resending e)
  have hold : [Op.msg (.resend e now)].countP (Op.resending e) = 1 :=
    List.countP_singleton.trans (if_pos (decide_eq_true rfl))
  rw [hold, countP_map_msg, List.countP_singleton] at hcount
  simp only [Op.resending, Bool.false_eq_true, if_false] at hcount
  have honce := hd.once
  have hentry : s'.outbox.entry e = { s.outbox.entry e with
      retryCnt := (s.outbox.entry e).retryCnt + 1, timeout := now + cfg.sentTimeout } := by
    rw [← houtbox]
    exact Outbox.modifyEntry_self ..
  have hnone : s'.goroutines.ops.countP (Op.resending e) = 0 := by omega
  refine ⟨⟨hentered, by omega, fun now' hmem => ?_, fun _ => ?_⟩, ?_⟩
  · exact absurd (decide_eq_true rfl) (List.countP_eq_zero.mp hnone _ hmem)
  · rw [hentry]
    exact (hd.resend now (hex.mem_old List.mem_cons_self)).symm
  · rw [retried, retried, hentry]
    show (s.outbox.entry e).retryCnt + 1 + _ = _
    omega

theorem Once.count_timedOut (ho : Once s) (e : EntryRef) (now : ℤ) :
    (s.outbox.timedOut now).count e =
      if e ∈ s.outbox.inflightingList ∧ (s.outbox.entry e).timeout ≤ now then 1 else 0 := by
  split
  · next h =>
    have hplace := ho e
    rw [Outbox.uses] at hplace
    have hpos := List.count_pos_iff.mpr h.1
    have hfilter : (s.outbox.timedOut now).count e = s.outbox.inflightingList.count e :=
      List.count_filter (decide_eq_true h.2)
    omega
  · next h =>
    refine List.count_eq_zero.mpr fun hmem => h ?_
    obtain ⟨hin, htimeout⟩ := List.mem_filter.mp hmem
    exact ⟨hin, of_decide_eq_true htimeout⟩

/-- The loop of a tick begins to send the entry again when it finds it in flight after its
deadline. -/
theorem Due.step_collect {d now : ℤ} (hs : Regular s) (hd : Due cfg e d s)
    (h : Solo.step cfg t s = some s') (hop : .collect now ∈ t.msgOp s) :
    if e ∈ s.outbox.inflightingList ∧ d ≤ now then
      Due cfg e (now + cfg.sentTimeout) s' ∧ s'.retried e = s.retried e + 1
    else Due cfg e d s' ∧ s'.retried e = s.retried e := by
  obtain ⟨i, rfl, hnext⟩ := nextOp_of_msgOp hop
  obtain ⟨new, hrun, hex⟩ := run_of_nextOp hnext h
  obtain ⟨rfl, houtbox⟩ := Prod.mk.inj (Option.some.inj hrun)
  have hnothing : ∀ now', .msg (.resend e now') ∉ s.goroutines.ops := by
    intro now' hmem
    have hresends := hs.ticks.not_resends (hex.mem_old List.mem_cons_self) rfl _ hmem
    exact absurd hresends.symm Bool.false_ne_true
  have hnone := countP_resending_eq_zero hnothing
  have hcount := hex.countP_eq (Op.resending e)
  have hold : [Op.msg (.collect now)].countP (Op.resending e) = 0 := rfl
  rw [hold, countP_resending, hs.once.count_timedOut, hd.idle hnone, hnone] at hcount
  have hentered : s'.outbox.Entered e := houtbox ▸ hd.entered
  have hretried : ∀ n, s'.goroutines.ops.countP (Op.resending e) = n →
      s'.retried e = s.retried e + n := by
    intro n hn
    rw [retried, retried, hn, hnone, ← houtbox]
    rfl
  split at hcount
  · next hdue =>
    rw [if_pos hdue]
    refine ⟨⟨hentered, by omega, fun now' hmem => ?_, fun hidle => by omega⟩, hretried 1 hcount⟩
    obtain ⟨o, ho, heq⟩ := List.mem_map.mp
      ((hex.mem_or hmem).resolve_right (hnothing now'))
    obtain ⟨e', -, rfl⟩ := List.mem_map.mp ho
    obtain ⟨-, rfl⟩ := MsgOp.resend.inj (Op.msg.inj heq)
    rfl
  · next hdue =>
    rw [if_neg hdue]
    refine ⟨⟨hentered, by omega, fun now' hmem => ?_, fun _ => ?_⟩, hretried 0 hcount⟩
    · exact absurd (decide_eq_true rfl) (List.countP_eq_zero.mp hcount _ hmem)
    · rw [← houtbox]
      exact hd.idle hnone

/-- Each reading after the deadline is one more time that the entry is sent again. -/
theorem Due.step {d : ℤ} (hs : Regular s) (hd : Due cfg e d s)
    (h : Solo.step cfg t s = some s') : ∃ d', Due cfg e d' s' ∧ ∀ l,
      s.retried e +
          (Deadline.passed (· + cfg.sentTimeout) d ((reading e s t).toList ++ l)).length =
        s'.retried e + (Deadline.passed (· + cfg.sentTimeout) d' l).length := by
  have hskip : (∀ now, now ∉ reading e s t) → Due cfg e d s' ∧ s'.retried e = s.retried e →
      ∃ d', Due cfg e d' s' ∧ ∀ l,
        s.retried e +
            (Deadline.passed (· + cfg.sentTimeout) d ((reading e s t).toList ++ l)).length =
          s'.retried e + (Deadline.passed (· + cfg.sentTimeout) d' l).length := by
    rintro hnone ⟨hd', hsame⟩
    rw [Option.eq_none_iff_forall_not_mem.mpr hnone, hsame]
    exact ⟨d, hd', fun l => rfl⟩
  by_cases hcollect : ∃ now, .collect now ∈ t.msgOp s
  · obtain ⟨now, hop⟩ := hcollect
    have hstep := hd.step_collect hs h hop
    by_cases hin : e ∈ s.outbox.inflightingList
    · have hreading : reading e s t = some now := mem_reading.mpr ⟨hop, hin⟩
      rw [hreading]
      by_cases hdue : d ≤ now
      · rw [if_pos ⟨hin, hdue⟩] at hstep
        refine ⟨_, hstep.1, fun l => ?_⟩
        have hpassed : Deadline.passed (· + cfg.sentTimeout) d (now :: l) =
            now :: Deadline.passed (· + cfg.sentTimeout) (now + cfg.sentTimeout) l :=
          if_pos hdue
        rw [hstep.2, Option.toList_some, List.singleton_append, hpassed, List.length_cons]
        omega
      · rw [if_neg fun h => hdue h.2] at hstep
        refine ⟨_, hstep.1, fun l => ?_⟩
        have hpassed : Deadline.passed (· + cfg.sentTimeout) d (now :: l) =
            Deadline.passed (· + cfg.sentTimeout) d l := if_neg hdue
        rw [hstep.2, Option.toList_some, List.singleton_append, hpassed]
    · rw [if_neg fun h => hin h.1] at hstep
      exact hskip (fun now hmem => hin (mem_reading.mp hmem).2) hstep
  · refine hskip (fun now hmem => hcollect ⟨now, (mem_reading.mp hmem).1⟩) ?_
    by_cases hresend : ∃ now, .resend e now ∈ t.msgOp s
    · exact hd.step_resend h hresend.choose_spec
    · exact hd.step_other hs h (fun now hop => hresend ⟨now, hop⟩)
        fun now hop => hcollect ⟨now, hop⟩

end Step

section Runs

variable {s : Solo} {e : EntryRef}

/-- Along a run, an entry is sent again once for each reading after its deadline. -/
theorem Due.always_retried_le {m : ℕ} (ts : List Solo.Turn) :
    ∀ {s : Solo} {d : ℤ}, Regular s → Due cfg e d s →
      ((Solo.system cfg).Always (fun s => s.retried e ≤ m) ts s ↔
        s.retried e + (Deadline.passed (· + cfg.sentTimeout) d
          ((Solo.system cfg).shown (reading e) ts s)).length ≤ m) := by
  induction ts with
  | nil => exact fun _ _ => Iff.rfl
  | cons t ts ih =>
    intro s d hs hd
    cases hstep : Solo.step cfg t s with
    | none =>
      rw [StepSystem.shown_stuck (T := Solo.system cfg) hstep]
      exact ⟨fun h => h.1, fun h => ⟨h, fun s' hs' => absurd (hstep.symm.trans hs') (by simp)⟩⟩
    | some s' =>
      obtain ⟨d', hd', hlength⟩ := hd.step hs hstep
      have hrest := ih (regular_step hs hstep) hd'
      rw [StepSystem.shown_cons (T := Solo.system cfg) hstep, hlength]
      constructor
      · exact fun h => hrest.mp (h.2 s' hstep)
      · intro h
        have hmono := hlength []
        rw [Deadline.passed, List.length_nil] at hmono
        refine ⟨by omega, fun s'' hs'' => ?_⟩
        obtain rfl := Option.some.inj (hstep.symm.trans hs'')
        exact hrest.mpr h

/-- The clock does not go back between two readings. -/
theorem pairwise_reading (e : EntryRef) (ts : List Solo.Turn) (hs : Regular s) :
    ((Solo.system cfg).shown (reading e) ts s).Pairwise (· ≤ ·) := by
  refine StepSystem.pairwise_shown (I := Regular) (J := ReadSince)
    (fun s t s' hs h => regular_step hs h) (fun s t s' now hs hmem h => ?_)
    (fun s t s' now hs h => hs.step h) (fun s t now now' hs hmem => ?_) ts hs
  · exact ReadSince.of_collect hs.ticks hs.clocked (mem_reading.mp hmem).1 h
  · exact hs.collect now' (mem_ops_of_msgOp (mem_reading.mp hmem).1)

/-- An entry in flight is sent again at most `m` times if and only if the readings after its
timeout, each `SentTimeout` after the one before, are no more than that. -/
theorem always_retried_le_iff {m : ℕ} {ts : List Solo.Turn}
    (hs : (Solo.system cfg).Reachable s) (he : e ∈ s.outbox.inflightingList)
    (hidle : ∀ now, .msg (.resend e now) ∉ s.goroutines.ops) :
    (Solo.system cfg).Always (fun s => s.retried e ≤ m) ts s ↔
      ∀ c : List ℤ, c.Sublist ((Solo.system cfg).shown (reading e) ts s) →
        Deadline.Spaced (· + cfg.sentTimeout) (s.outbox.entry e).timeout c →
          (s.outbox.entry e).retryCnt + c.length ≤ m := by
  have hregular := regular_of_reach hs
  have hnone := countP_resending_eq_zero hidle
  have hdue : Due cfg e (s.outbox.entry e).timeout s :=
    ⟨.inl he, hnone ▸ Nat.zero_le 1, fun now hmem => absurd hmem (hidle now), fun _ => rfl⟩
  have hretried : s.retried e = (s.outbox.entry e).retryCnt := by
    rw [retried, hnone, Nat.add_zero]
  rw [hdue.always_retried_le ts hregular, hretried]
  exact Deadline.length_passed_le_iff (fun a b h => Int.add_le_add_right h _)
    (pairwise_reading e ts hregular)

end Runs

end MqttBroker.Solo

import MqttBroker.Solo.NoStepBack

/-!
# The ticker

A tick reads the clock, goes through what is in flight, and sends what it has collected again,
one entry after the other. No other goroutine does this, and the ticker begins a tick when the
one before is over: while it has entries to send again, no tick goes through the list.
-/

namespace MqttBroker.Solo

variable {cfg : Config} {f f' : Flags} {x x' : Outbox}

/-- An operation of a tick up to the loop that collects. -/
def Op.looks : Op → Bool
  | .stop (.onTick _) | .msg .checkInflight | .msg .readNow | .msg (.collect _) => true
  | _ => false

/-- The code of the ticker: it is before its loop once, and then has nothing to send again. -/
def Ticking (code : List Op) : Prop :=
  code.countP Op.looks = 0 ∨ code.countP Op.looks = 1 ∧ ∀ o ∈ code, o.resends = false

/-- Only goroutine 2 ticks. -/
structure Ticks (s : Solo) : Prop where
  others : ∀ i ≠ 2, ∀ code, s.goroutines[i]? = some code →
    ∀ o ∈ code, o.looks = false ∧ o.resends = false
  code : ∀ code, s.goroutines[2]? = some code → Ticking code

/-- An operation of the outbound side leads to the loop of a tick once, if it is the tick's own,
and after the loop the tick does not come to it again. -/
theorem MsgOp.Ran.looks {o : MsgOp} {new : List MsgOp} (h : Ran cfg f x o new x') :
    new.countP (fun o' => Op.looks (.msg o')) ≤ [o].countP fun o' => Op.looks (.msg o') := by
  by_cases hnone : ∀ o' ∈ new, Op.looks (.msg o') = false
  · rw [countP_eq_zero_of_false hnone]
    exact Nat.zero_le _
  · push Not at hnone
    obtain ⟨o', hmem, hlooks⟩ := hnone
    cases h.follows hmem with
    | readNow =>
      cases h with
      | inflightNonempty | inflightEmpty => simp [Op.looks]
    | collect =>
      cases h with
      | readNow => exact le_rfl
    | _ => exact absurd rfl hlooks

/-- The loop ends what a tick looks for. -/
theorem MsgOp.Ran.looks_of_collect {now : ℤ} {new : List MsgOp}
    (h : Ran cfg f x (.collect now) new x') :
    new.countP (fun o' => Op.looks (.msg o')) = 0 := by
  cases h with
  | collect _ =>
    refine countP_eq_zero_of_false fun o' ho' => ?_
    obtain ⟨e, -, rfl⟩ := List.mem_map.mp ho'
    rfl

theorem EndOp.Ran.looks {o : EndOp} {next : List Op} {spawned : Pool Op}
    (h : Ran x f o next spawned f') :
    next.countP Op.looks ≤ [Op.stop o].countP Op.looks ∧ ∀ o' ∈ next, o'.resends = false := by
  cases h with
  | @received r cleared _ _ =>
    have hnone : ∀ o' ∈ procFrontRemoteMsg f r cleared (x.packet r),
        o'.looks = false ∧ o'.resends = false := by
      intro o' ho'
      cases handles_of_mem ho' with
      | _ => exact ⟨rfl, rfl⟩
    rw [countP_eq_zero_of_false fun o' ho' => (hnone o' ho').1]
    exact ⟨Nat.zero_le _, fun o' ho' => (hnone o' ho').2⟩
  | onTick timedOut _ =>
    cases timedOut with
    | _ => exact ⟨by decide, by simp [Op.resends, MsgOp.resends]⟩
  | clientTimeout l hl =>
    have hnone : ∀ o' ∈ l.map Op.msg, o'.looks = false ∧ o'.resends = false := by
      refine List.forall_mem_map.mpr fun o ho => ?_
      rw [List.mem_singleton.mp (hl ho)]
      exact ⟨rfl, rfl⟩
    rw [countP_eq_zero_of_false fun o' ho' => (hnone o' ho').1]
    exact ⟨Nat.zero_le _, fun o' ho' => (hnone o' ho').2⟩
  | _ => exact ⟨by simp [Op.looks], by simp [Op.resends, MsgOp.resends]⟩

/-- What is sent again works on an entry. -/
theorem MsgOp.exists_entry {o : MsgOp} (h : o.resends = true) : ∃ e, o.entry = some e := by
  cases o with
  | resend e now => exact ⟨e, rfl⟩
  | insert2Inflight c | newInflight c | pushInflight c | sendEntry c => exact ⟨c.entry, rfl⟩
  | channelSend c r | pushSend c r =>
    cases c with
    | none => exact absurd h.symm Bool.false_ne_true.symm
    | some c => exact ⟨c.entry, rfl⟩
  | _ => exact absurd h Bool.false_ne_true

section Code

variable {s s' : Solo} {t : Solo.Turn} {o : Op} {new rest : List Op} {spawned : Pool Op}

theorem runOp_looks (h : s.runOp cfg o = some (new, spawned, x, f)) :
    new.countP Op.looks ≤ [o].countP Op.looks := by
  cases o with
  | msg o =>
    obtain ⟨l, hran, rfl, -, -⟩ := runOp_msg h
    rw [countP_map_msg]
    exact hran.looks
  | stop o => exact (runOp_stop h).1.looks.1

/-- Only the loop of a tick begins to send again, and then the tick is past it. -/
theorem runOp_resends (h : s.runOp cfg o = some (new, spawned, x, f)) (ho : o.resends = false) :
    (∀ o' ∈ new, o'.resends = false) ∨ (∃ now, o = .msg (.collect now)) ∧
      new.countP Op.looks = 0 := by
  cases o with
  | msg o =>
    obtain ⟨l, hran, rfl, -, -⟩ := runOp_msg h
    by_cases hcollect : ∃ now, o = .collect now
    · obtain ⟨now, rfl⟩ := hcollect
      refine .inr ⟨⟨now, rfl⟩, ?_⟩
      rw [countP_map_msg]
      exact hran.looks_of_collect
    · refine .inl (List.forall_mem_map.mpr fun o' ho' => ?_)
      refine Bool.eq_false_of_not_eq_true fun hresends => ?_
      obtain ⟨e, he⟩ := MsgOp.exists_entry hresends
      rcases hran.resends ho' hresends he with ⟨hnow, -⟩ | ⟨hold, -⟩
      · exact hcollect hnow
      · exact absurd (ho.symm.trans hold) Bool.false_ne_true
  | stop o => exact .inl (runOp_stop h).1.looks.2

theorem Ticking.step (h : Ticking (o :: rest))
    (hrun : s.runOp cfg o = some (new, spawned, x, f)) : Ticking (new ++ rest) := by
  have hlooks := runOp_looks hrun
  have hcount : (o :: rest).countP Op.looks = [o].countP Op.looks + rest.countP Op.looks := by
    rw [← List.countP_append]
    rfl
  rcases h with hzero | ⟨hone, hresends⟩
  · refine .inl ?_
    rw [List.countP_append]
    omega
  · obtain ⟨ho, hrest⟩ := List.forall_mem_cons.mp hresends
    by_cases hafter : (new ++ rest).countP Op.looks = 0
    · exact .inl hafter
    · rw [List.countP_append] at hafter
      refine .inr ⟨by rw [List.countP_append]; omega, ?_⟩
      rcases runOp_resends hrun ho with hnew | ⟨⟨now, rfl⟩, hnone⟩
      · exact List.forall_mem_append.mpr ⟨hnew, hrest⟩
      · -- the tick was in its loop, and is past it
        have hself : [Op.msg (.collect now)].countP Op.looks = 1 := rfl
        omega

theorem Begun.ticking {i : ℕ} {code : List Op} (h : Begun i code) :
    Ticking code ∧ (i ≠ 2 → ∀ o ∈ code, o.looks = false ∧ o.resends = false) := by
  cases h with
  | tick timedOut =>
    exact ⟨.inr ⟨rfl, List.forall_mem_singleton.mpr rfl⟩, fun hi => absurd rfl hi⟩
  | _ => exact ⟨.inl rfl, fun _ => by simp [Op.looks, Op.resends, MsgOp.resends]⟩

theorem ticks_step (hs : Ticks s) (h : Solo.step cfg t s = some s') : Ticks s' where
  others i hi code hcode := by
    rcases code_of_step h hcode with ⟨-, hsame⟩ | hbegun |
      ⟨o, rest, new, spawned, -, hold, hrun, rfl⟩
    · exact hs.others i hi code hsame
    · exact hbegun.ticking.2 hi
    · obtain ⟨⟨hlooks, hresends⟩, hrest⟩ := List.forall_mem_cons.mp (hs.others i hi _ hold)
      refine List.forall_mem_append.mpr ⟨fun o' ho' => ⟨?_, ?_⟩, hrest⟩
      · have hle := runOp_looks hrun
        rw [List.countP_singleton, hlooks] at hle
        exact Bool.eq_false_of_not_eq_true
          (List.countP_eq_zero.mp (Nat.le_zero.mp hle) o' ho')
      · rcases runOp_resends hrun hresends with hnew | ⟨⟨now, rfl⟩, -⟩
        · exact hnew o' ho'
        · exact absurd hlooks.symm Bool.false_ne_true
  code code hcode := by
    rcases code_of_step h hcode with ⟨-, hsame⟩ | hbegun |
      ⟨o, rest, new, spawned, -, hold, hrun, rfl⟩
    · exact hs.code code hsame
    · exact hbegun.ticking.1
    · exact (hs.code _ hold).step hrun

theorem ticks_initial (isServer : Bool) (now : ℤ) : Ticks (Solo.initial isServer now) where
  others i _ code hcode o ho := by
    have hnil : ∀ code ∈ (Solo.initial isServer now).goroutines, code = [] := by
      simp [Solo.initial]
    rw [hnil code (List.mem_of_getElem? hcode)] at ho
    exact absurd ho (by simp)
  code code hcode := Option.some.inj hcode ▸ .inl rfl

theorem ticks_of_reach {ok : Solo → Solo.Turn → Prop} (h : (Solo.system cfg).Reach ok s) :
    Ticks s := by
  refine h.invariant (I := Ticks) ?_ fun s t s' hs _ hstep => ticks_step hs hstep
  rintro s ⟨isServer, now, rfl⟩
  exact ticks_initial isServer now

/-- One tick is before its loop. -/
theorem Ticks.looks_le_one (hs : Ticks s) : s.goroutines.ops.countP Op.looks ≤ 1 := by
  refine Pool.countP_ops_le (i := 2)
    (fun i hi code hcode o ho => (hs.others i hi code hcode o ho).1) fun code hcode => ?_
  rcases hs.code code hcode with hzero | ⟨hone, -⟩
  · omega
  · exact hone.le

/-- While a tick is before its loop or in it, nothing is being sent again. -/
theorem Ticks.not_resends (hs : Ticks s) (ho : o ∈ s.goroutines.ops) (hlooks : o.looks = true) :
    ∀ o' ∈ s.goroutines.ops, o'.resends = false := by
  have hcode : ∀ code, s.goroutines[2]? = some code → ∀ o' ∈ code, o'.resends = false := by
    intro code hcode
    obtain ⟨code₀, hmem, ho⟩ := List.mem_flatten.mp ho
    obtain ⟨i, hi⟩ := List.mem_iff_getElem?.mp hmem
    have htwo : i = 2 := by
      by_contra hne
      exact absurd ((hs.others i hne code₀ hi o ho).1.symm.trans hlooks) Bool.false_ne_true
    subst htwo
    obtain rfl := Option.some.inj (hcode.symm.trans hi)
    have hpos : 0 < code.countP Op.looks := List.countP_pos_iff.mpr ⟨o, ho, hlooks⟩
    exact ((hs.code code hcode).resolve_left hpos.ne').2
  intro o' ho'
  obtain ⟨code, hmem, ho'⟩ := List.mem_flatten.mp ho'
  obtain ⟨i, hi⟩ := List.mem_iff_getElem?.mp hmem
  by_cases htwo : i = 2
  · exact hcode code (htwo ▸ hi) o' ho'
  · exact (hs.others i htwo code hi o' ho').2

end Code

/-! ## The clock that a tick has read -/

/-- The loop of a tick has the clock as `readNow` has found it. -/
theorem MsgOp.Ran.collects_now {o : MsgOp} {new : List MsgOp} (h : Ran cfg f x o new x')
    {now : ℤ} (hmem : .collect now ∈ new) : now = x.now := by
  cases h.follows hmem with
  | collect => rfl

theorem MsgOp.Ran.now_eq {o : MsgOp} {new : List MsgOp} (h : Ran cfg f x o new x') :
    x'.now = x.now := by
  cases h with
  | send e' _ =>
    cases x.packet (x.entry e').msg with
    | _ => rfl
  | updateInflight r =>
    exact updateInflight_induct (P := fun y => y.now = x.now) r x rfl fun _ _ _ h => h
  | _ => rfl

section Clock

variable {s s' : Solo} {t : Solo.Turn} {old new : List Op}

theorem Exchange.collects_now (h : Exchange cfg s t old new x' f') {now : ℤ}
    (hmem : .msg (.collect now) ∈ new) : now = s.outbox.now := by
  rcases h.origin hmem with ⟨o, l, hran, ho, -⟩ | hopens
  · exact hran.collects_now ho
  · cases hopens with
    | starts hstarts => cases hstarts

theorem Exchange.now_le (h : Exchange cfg s t old new x' f') : s.outbox.now ≤ x'.now := by
  cases h with
  | msg _ hran => exact hran.now_eq.ge
  | elapse d => exact Int.le_add_of_nonneg_right (Int.natCast_nonneg d)
  | _ => exact le_rfl

/-- No tick has a clock from the future. -/
def Clocked (s : Solo) : Prop :=
  ∀ now, .msg (.collect now) ∈ s.goroutines.ops → now ≤ s.outbox.now

/-- What the ticks find on the clock is not before `b`, from now on. -/
structure ReadSince (b : ℤ) (s : Solo) : Prop where
  clock : b ≤ s.outbox.now
  collect : ∀ now, .msg (.collect now) ∈ s.goroutines.ops → b ≤ now

theorem clocked_step (hs : Clocked s) (h : Solo.step cfg t s = some s') : Clocked s' := by
  obtain ⟨old, new, hx, hex⟩ := exchange_of_step h
  intro now hmem
  rcases hex.mem_or hmem with hnew | hbefore
  · exact hx.collects_now hnew ▸ hx.now_le
  · exact (hs now hbefore).trans hx.now_le

theorem ReadSince.step {b : ℤ} (hs : ReadSince b s) (h : Solo.step cfg t s = some s') :
    ReadSince b s' := by
  obtain ⟨old, new, hx, hex⟩ := exchange_of_step h
  refine ⟨hs.clock.trans hx.now_le, fun now hmem => ?_⟩
  rcases hex.mem_or hmem with hnew | hbefore
  · exact hx.collects_now hnew ▸ hs.clock
  · exact hs.collect now hbefore

/-- When a tick is in its loop, no other one has read the clock. -/
theorem ReadSince.of_collect {now : ℤ} (hs : Ticks s) (hc : Clocked s)
    (hop : .collect now ∈ t.msgOp s) (h : Solo.step cfg t s = some s') : ReadSince now s' := by
  obtain ⟨i, rfl, hnext⟩ := nextOp_of_msgOp hop
  obtain ⟨new, hran, hex⟩ := ran_of_nextOp hnext h
  have hle : now ≤ s'.outbox.now := hran.now_eq ▸ hc now (hex.mem_old List.mem_cons_self)
  refine ⟨hle, fun now' hmem => ?_⟩
  have hone := hs.looks_le_one
  have hcount := hex.countP_eq Op.looks
  have hnone := hran.looks_of_collect
  have hpos : 0 < s'.goroutines.ops.countP Op.looks :=
    List.countP_pos_iff.mpr ⟨_, hmem, rfl⟩
  have hself : [Op.msg (.collect now)].countP Op.looks = 1 := rfl
  rw [countP_map_msg, hself, hnone] at hcount
  omega

end Clock
end MqttBroker.Solo

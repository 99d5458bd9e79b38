import MqttBroker.Solo.Steps

/-!
# The will

`onDisconnectException` checks a flag, publishes the will and sets the flag, in three steps,
and a goroutine is started for it by each read error, write error and ping timeout that finds
the session running. Two of them can pass the check together, and a session that is closed
before any of them has started publishes no will. Where they pass the check one at a time,
and a session is closed only after it has ended in another way, the will is published exactly
once, unless a DISCONNECT came first.
-/

namespace MqttBroker.Solo

variable {cfg : Config}

/-! ## Where the goroutines of the will are -/

/-- How far an operation is on the way to the will. -/
inductive Phase
  /-- A ping timeout has found the session running and will report it. -/
  | closing
  | telling
  /-- `onDisconnectException` is at its check, at its test of the will, at the publication, or
  at the flag. -/
  | check
  | load
  | publish
  | store
deriving DecidableEq

def EndOp.phase : EndOp → Option Phase
  | storeClosing .pingTimeout => some .closing
  | tellMgr .pingTimeout => some .telling
  | exception _ => some .check
  | loadWill _ => some .load
  | publishWill _ => some .publish
  | storeException _ => some .store
  | _ => none

def Op.phase : Op → Option Phase
  | .msg _ => none
  | .stop o => o.phase

/-- How many operations are in a phase. -/
def count (p : Phase) (l : List Op) : ℕ := l.countP fun o => o.phase = some p

/-- The flag is set. -/
def Flags.had (f : Flags) : ℕ := if f.hadDisconnectException = .ok then 0 else 1

/-! ## What ended the session -/

def EndEvent.ends : EndEvent → Bool
  | disconnected | spawned _ | closed => true
  | _ => false

def EndEvent.isSpawned : EndEvent → Bool
  | spawned _ => true
  | _ => false

/-- The first event that ended the session. -/
def Flags.ending (f : Flags) : Option EndEvent := f.log.reverse.find? EndEvent.ends

theorem note_ending (ev : EndEvent) (f : Flags) :
    (f.note ev).ending = f.ending.or (if ev.ends then some ev else none) := by
  rw [Flags.ending, Flags.note, List.reverse_cons, List.find?_append, List.find?_singleton]
  rfl

theorem not_mem_of_ending_eq_none {f : Flags} (h : f.ending = none) {ev : EndEvent}
    (hev : ev.ends = true) : ev ∉ f.log := by
  intro hmem
  have := List.find?_eq_none.mp h ev (List.mem_reverse.mpr hmem)
  exact this hev

/-- The condition on an operation that is about to be done. -/
def EndOp.KeepsWill (s : Solo) : EndOp → Prop
  | exception _ => s.flags.hadDisconnectException = .ok →
      count .load s.goroutines.ops + count .publish s.goroutines.ops +
        count .store s.goroutines.ops = 0
  | readFailed | writeFailed | load .pingTimeout => s.flags.clostep = .running →
      s.flags.ending ≠ some .disconnected
  | recvMsg r _ => s.flags.clostep = .running →
      (s.outbox.packet r).kind = PacketType.disconnect → s.flags.ending = none →
      count .closing s.goroutines.ops = 0
  | storeClosed => s.flags.ending ≠ none ∨
      0 < count .closing s.goroutines.ops + count .telling s.goroutines.ops
  | setWill willFlag => willFlag = true → s.flags.willFlag = false →
      s.flags.hadDisconnectException = .ok ∧
        count .publish s.goroutines.ops + count .store s.goroutines.ops = 0
  | _ => True

/-- `onDisconnectException` passes its check only when no other one is between its check and
its store; an error or a ping timeout finds the session running only when no DISCONNECT was
handled first; a DISCONNECT is handled first only when no ping timeout is about to be
reported; `Close` closes a session that has ended in another way; and the will is set before
it was looked for. -/
def KeepsWill (s : Solo) (t : Solo.Turn) : Prop := ∀ o ∈ t.endOp s, o.KeepsWill s

instance decidableKeepsWill (s : Solo) : (o : EndOp) → Decidable (o.KeepsWill s)
  | .exception _ | .readFailed | .writeFailed | .load .pingTimeout =>
    inferInstanceAs (Decidable (_ → _))
  | .recvMsg _ _ => inferInstanceAs (Decidable (_ → _ → _ → _))
  | .storeClosed => inferInstanceAs (Decidable (_ ∨ _))
  | .setWill _ => inferInstanceAs (Decidable (_ → _ → _))
  | .load .disconnected | .load .connectTimeout | .storeConnected _ | .onChannelError | .recvExit
  | .storeClosing _ | .tellMgr _ | .onTick _ | .onTimeout | .storeStoped | .sendExit
  | .loadWill _ | .publishWill _ | .storeException _ | .loadClostep | .closePedding | .loadStoped
  | .stopChannel | .closeConn | .openedFiles | .stopSend | .waitSend | .stopRecv | .waitRecv
  | .loadConnected | .loadConnectedZero | .closeReturned => isTrue trivial

instance (s : Solo) (t : Solo.Turn) : Decidable (KeepsWill s t) :=
  inferInstanceAs (Decidable (∀ o ∈ t.endOp s, _))

/-! ## The invariant -/

def EndOp.reason : EndOp → Option DisconnectReason
  | exception reason | loadWill reason | publishWill reason | storeException reason => some reason
  | _ => none

/-- The goroutines of `onDisconnectException`: one at most is between its check and its store,
or the flag is set. -/
structure Publishing (f : Flags) (l : List Op) : Prop where
  one : count .load l + count .publish l + count .store l + f.had ≤ 1
  flagged : 0 < count .publish l → f.willFlag = true
  will : f.log.count .will = if f.willFlag then count .store l + f.had else 0
  spawned : 0 < f.log.countP EndEvent.isSpawned ↔
    0 < count .check l + count .load l + count .publish l + count .store l + f.had
  reasons : ∀ o, .stop o ∈ l → ∀ reason ∈ o.reason, reason ≠ .ok

/-- What ended the session, and what it leads to. -/
structure Ending (f : Flags) (l : List Op) : Prop where
  quiet : f.ending = some .disconnected →
    f.log.countP EndEvent.isSpawned = 0 ∧ count .closing l + count .telling l = 0
  telling : 0 < count .telling l → f.clostep ≠ .running
  closed : .closed ∈ f.log → f.clostep ≠ .running ∧ (.disconnected ∈ f.log ∨
    0 < f.log.countP EndEvent.isSpawned + count .closing l + count .telling l)
  taken : f.ending = some .closed → .disconnected ∉ f.log

/-! ## Events -/

section Events

variable (f : Flags)

theorem countP_spawned (reason : DisconnectReason) :
    (f.note (.spawned reason)).log.countP EndEvent.isSpawned =
      f.log.countP EndEvent.isSpawned + 1 :=
  List.countP_cons_of_pos rfl

theorem countP_not_spawned {ev : EndEvent} (h : ev.isSpawned = false) :
    (f.note ev).log.countP EndEvent.isSpawned = f.log.countP EndEvent.isSpawned :=
  List.countP_cons_of_neg (by rw [h]; exact Bool.false_ne_true)

theorem count_not_will {ev : EndEvent} (h : ev ≠ .will) :
    (f.note ev).log.count .will = f.log.count .will :=
  List.count_cons_of_ne h

variable {f}

/-- An event is the ending only if it was, or if it is the one that comes. -/
theorem ending_of_note {ev ev' : EndEvent} (h : (f.note ev).ending = some ev') :
    f.ending = some ev' ∨ f.ending = none ∧ ev' = ev := by
  rw [note_ending] at h
  cases hf : f.ending with
  | some ev₀ => exact .inl (by rwa [hf, Option.some_or] at h)
  | none =>
    rw [hf, Option.none_or] at h
    split at h
    · exact .inr ⟨rfl, (Option.some.inj h).symm⟩
    · exact absurd h (by simp)

theorem mem_of_ending {ev : EndEvent} (h : f.ending = some ev) : ev ∈ f.log :=
  List.mem_reverse.mp (List.mem_of_find?_eq_some h)

theorem countP_eq_zero_of_ending (h : f.ending = none) :
    f.log.countP EndEvent.isSpawned = 0 := by
  refine List.countP_eq_zero.mpr fun ev hev hs => ?_
  cases ev with
  | spawned reason => exact not_mem_of_ending_eq_none h rfl hev
  | _ => exact absurd hs Bool.false_ne_true

end Events

/-! ## One operation of the end -/

/-- One operation in phase `a` was done, and one in phase `b` is new. -/
def Moves (a b : Option Phase) (l l' : List Op) : Prop :=
  ∀ p, count p l' + (if a = some p then 1 else 0) = count p l + (if b = some p then 1 else 0)

theorem count_stop (p : Phase) (o : EndOp) :
    count p [.stop o] = if o.phase = some p then 1 else 0 := by
  rw [count, List.countP_singleton]
  simp only [decide_eq_true_eq]
  rfl

theorem count_eq_zero {p : Phase} {l : List Op} (h : ∀ o ∈ l, o.phase = none) :
    count p l = 0 := by
  refine List.countP_eq_zero.mpr fun o ho => ?_
  rw [h o ho]
  simp

theorem moves_of_stop {o o' : EndOp} {l l' : List Op}
    (hc : ∀ p, count p l' + count p [.stop o] = count p l + count p [.stop o']) :
    Moves o.phase o'.phase l l' := by
  intro p
  rw [← count_stop, ← count_stop]
  exact hc p

theorem moves_of_none {o : EndOp} {new l l' : List Op} (hnew : ∀ o ∈ new, o.phase = none)
    (hc : ∀ p, count p l' + count p [.stop o] = count p l + count p new) :
    Moves o.phase none l l' := by
  intro p
  rw [← count_stop, hc p, count_eq_zero hnew]
  rfl

namespace Publishing

variable {f f' : Flags} {l l' : List Op}

/-- Ping timeouts do not matter, nor do the fields and events that are not about the will. -/
theorem congr (h : Publishing f l) (hcheck : count .check l' = count .check l)
    (hload : count .load l' = count .load l) (hpublish : count .publish l' = count .publish l)
    (hstore : count .store l' = count .store l)
    (hr : ∀ o, .stop o ∈ l' → ∀ reason ∈ o.reason, reason ≠ .ok)
    (hwill : f'.log.count .will = f.log.count .will)
    (hspawned : f'.log.countP EndEvent.isSpawned = f.log.countP EndEvent.isSpawned)
    (hflag : f'.willFlag = f.willFlag) (hhad : f'.had = f.had) : Publishing f' l' := by
  constructor
  · rw [hload, hpublish, hstore, hhad]
    exact h.one
  · rw [hpublish, hflag]
    exact h.flagged
  · rw [hwill, hflag, hstore, hhad]
    exact h.will
  · rw [hspawned, hcheck, hload, hpublish, hstore, hhad]
    exact h.spawned
  · exact hr

/-- A goroutine is started for `onDisconnectException`. -/
theorem spawn (h : Publishing f l) (hcheck : count .check l' = count .check l + 1)
    (hload : count .load l' = count .load l) (hpublish : count .publish l' = count .publish l)
    (hstore : count .store l' = count .store l)
    (hr : ∀ o, .stop o ∈ l' → ∀ reason ∈ o.reason, reason ≠ .ok) (reason : DisconnectReason) :
    Publishing (f.note (.spawned reason)) l' := by
  constructor
  · rw [hload, hpublish, hstore]
    exact h.one
  · rw [hpublish]
    exact h.flagged
  · rw [count_not_will f (by simp), hstore]
    exact h.will
  · rw [countP_spawned, hcheck]
    omega
  · exact hr

/-- The check finds the flag set. -/
theorem failCheck (h : Publishing f l) (hm : Moves (some .check) none l l')
    (hr : ∀ o, .stop o ∈ l' → ∀ reason ∈ o.reason, reason ≠ .ok)
    (hhad : f.hadDisconnectException ≠ .ok) : Publishing f l' := by
  have hload : count .load l' = count .load l := hm .load
  have hpublish : count .publish l' = count .publish l := hm .publish
  have hstore : count .store l' = count .store l := hm .store
  have hcheck : count .check l' + 1 = count .check l := hm .check
  have hone : f.had = 1 := if_neg hhad
  constructor
  · rw [hload, hpublish, hstore]
    exact h.one
  · rw [hpublish]
    exact h.flagged
  · rw [hstore]
    exact h.will
  · rw [h.spawned, hone]
    omega
  · exact hr

/-- The check succeeds where no other goroutine has passed it. -/
theorem passCheck (h : Publishing f l) (hm : Moves (some .check) (some .load) l l')
    (hr : ∀ o, .stop o ∈ l' → ∀ reason ∈ o.reason, reason ≠ .ok)
    (hhad : f.hadDisconnectException = .ok)
    (hnone : count .load l + count .publish l + count .store l = 0) : Publishing f l' := by
  have hcheck : count .check l' + 1 = count .check l := hm .check
  have hload : count .load l' = count .load l + 1 := hm .load
  have hpublish : count .publish l' = count .publish l := hm .publish
  have hstore : count .store l' = count .store l := hm .store
  have hzero : f.had = 0 := if_pos hhad
  constructor
  · omega
  · rw [hpublish]
    exact h.flagged
  · rw [hstore]
    exact h.will
  · rw [h.spawned]
    omega
  · exact hr

theorem loadWill (h : Publishing f l) (hm : Moves (some .load) (some .publish) l l')
    (hr : ∀ o, .stop o ∈ l' → ∀ reason ∈ o.reason, reason ≠ .ok) (hflag : f.willFlag = true) :
    Publishing f l' := by
  have hcheck : count .check l' = count .check l := hm .check
  have hload : count .load l' + 1 = count .load l := hm .load
  have hpublish : count .publish l' = count .publish l + 1 := hm .publish
  have hstore : count .store l' = count .store l := hm .store
  have hone := h.one
  constructor
  · omega
  · exact fun _ => hflag
  · rw [hstore]
    exact h.will
  · rw [h.spawned]
    omega
  · exact hr

theorem loadNoWill (h : Publishing f l) (hm : Moves (some .load) (some .store) l l')
    (hr : ∀ o, .stop o ∈ l' → ∀ reason ∈ o.reason, reason ≠ .ok) (hflag : f.willFlag = false) :
    Publishing f l' := by
  have hcheck : count .check l' = count .check l := hm .check
  have hload : count .load l' + 1 = count .load l := hm .load
  have hpublish : count .publish l' = count .publish l := hm .publish
  have hstore : count .store l' = count .store l + 1 := hm .store
  have hone := h.one
  constructor
  · omega
  · rw [hpublish]
    exact h.flagged
  · rw [h.will, hflag]
    rfl
  · rw [h.spawned]
    omega
  · exact hr

theorem publishWill (h : Publishing f l) (hm : Moves (some .publish) (some .store) l l')
    (hr : ∀ o, .stop o ∈ l' → ∀ reason ∈ o.reason, reason ≠ .ok) :
    Publishing (f.note .will) l' := by
  have hcheck : count .check l' = count .check l := hm .check
  have hload : count .load l' = count .load l := hm .load
  have hpublish : count .publish l' + 1 = count .publish l := hm .publish
  have hstore : count .store l' = count .store l + 1 := hm .store
  have hone := h.one
  have hflag := h.flagged (by omega)
  have hwill : (f.note .will).log.count .will = f.log.count .will + 1 := List.count_cons_self
  constructor
  · show _ + f.had ≤ 1
    omega
  · exact fun _ => hflag
  · have hbefore := h.will
    rw [if_pos hflag] at hbefore
    rw [hwill, hbefore, hstore]
    show _ = if f.willFlag then count .store l + 1 + f.had else 0
    rw [if_pos hflag]
    omega
  · rw [countP_not_spawned f rfl, h.spawned]
    show _ ↔ 0 < _ + f.had
    omega
  · exact hr

theorem storeException (h : Publishing f l) (hm : Moves (some .store) none l l')
    (hr : ∀ o, .stop o ∈ l' → ∀ reason ∈ o.reason, reason ≠ .ok) {reason : DisconnectReason}
    (hreason : reason ≠ .ok) :
    Publishing { f with hadDisconnectException := reason } l' := by
  have hcheck : count .check l' = count .check l := hm .check
  have hload : count .load l' = count .load l := hm .load
  have hpublish : count .publish l' = count .publish l := hm .publish
  have hstore : count .store l' + 1 = count .store l := hm .store
  have hone := h.one
  have hhad : ({ f with hadDisconnectException := reason } : Flags).had = 1 := if_neg hreason
  constructor
  · omega
  · rw [hpublish]
    exact h.flagged
  · have hbefore := h.will
    rw [hhad]
    show f.log.count .will = if f.willFlag then count .store l' + 1 else 0
    rw [hbefore]
    split
    · omega
    · rfl
  · rw [hhad]
    exact h.spawned.trans (by omega)
  · exact hr

/-- The CONNECT had a will. -/
theorem setWill (h : Publishing f l) (hm : Moves none none l l')
    (hr : ∀ o, .stop o ∈ l' → ∀ reason ∈ o.reason, reason ≠ .ok) {willFlag : Bool}
    (hok : willFlag = true → f.willFlag = false →
      f.hadDisconnectException = .ok ∧ count .publish l + count .store l = 0) :
    Publishing { f with willFlag := willFlag || f.willFlag } l' := by
  by_cases hset : willFlag = true ∧ f.willFlag = false
  · obtain ⟨hhad, hzero⟩ := hok hset.1 hset.2
    have hload : count .load l' = count .load l := hm .load
    have hpublish : count .publish l' = count .publish l := hm .publish
    have hstore : count .store l' = count .store l := hm .store
    have hcheck : count .check l' = count .check l := hm .check
    have hnone : f.had = 0 := if_pos hhad
    have hwill := h.will
    rw [hset.2] at hwill
    constructor
    · rw [hload, hpublish, hstore]
      exact h.one
    · omega
    · show f.log.count .will = if willFlag || f.willFlag then count .store l' + f.had else 0
      rw [hwill, hset.1]
      show 0 = count .store l' + f.had
      omega
    · rw [hcheck, hload, hpublish, hstore]
      exact h.spawned
    · exact hr
  · refine h.congr (hm .check) (hm .load) (hm .publish) (hm .store) hr rfl rfl ?_ rfl
    show (willFlag || f.willFlag) = f.willFlag
    cases willFlag with
    | false => rfl
    | true => simpa using hset

end Publishing

namespace Ending

variable {f f' : Flags} {l l' : List Op}

/-- Other operations, fields and events do not matter. -/
theorem congr (h : Ending f l) (hclosing : count .closing l' = count .closing l)
    (htelling : count .telling l' = count .telling l) (hlog : f'.log = f.log)
    (hs : f.clostep ≠ .running → f'.clostep ≠ .running) : Ending f' l' := by
  have hending : f'.ending = f.ending := by rw [Flags.ending, Flags.ending, hlog]
  constructor
  · rw [hending, hlog, hclosing, htelling]
    exact h.quiet
  · rw [htelling]
    exact fun ht => hs (h.telling ht)
  · rw [hlog, hclosing, htelling]
    exact fun hm => (h.closed hm).imp hs id
  · rw [hending, hlog]
    exact h.taken

/-- An event that does not end the session. -/
theorem note (h : Ending f l) {ev : EndEvent} (hev : ev.ends = false) : Ending (f.note ev) l := by
  have hne : ∀ ev', ev'.ends = true → ev' ≠ ev := fun ev' hev' heq =>
    absurd ((heq ▸ hev').symm.trans hev) Bool.false_ne_true.symm
  have hspawned : (f.note ev).log.countP EndEvent.isSpawned =
      f.log.countP EndEvent.isSpawned := by
    refine countP_not_spawned f ?_
    cases ev with
    | spawned reason => exact absurd hev Bool.false_ne_true.symm
    | _ => rfl
  have hending : (f.note ev).ending = f.ending := by
    rw [note_ending, hev]
    exact Option.or_none
  constructor
  · rw [hending, hspawned]
    exact h.quiet
  · exact h.telling
  · intro hm
    rw [hspawned]
    exact (h.closed (List.mem_of_ne_of_mem (hne _ rfl) hm)).imp id
      (Or.imp (List.mem_cons_of_mem _) id)
  · rw [hending]
    exact fun ht hm => h.taken ht (List.mem_of_ne_of_mem (hne _ rfl) hm)

/-- A ping timeout finds the session running. -/
theorem loadPing (h : Ending f l) (hm : Moves none (some .closing) l l')
    (hok : f.ending ≠ some .disconnected) : Ending f l' := by
  have hclosing : count .closing l' = count .closing l + 1 := hm .closing
  have htelling : count .telling l' = count .telling l := hm .telling
  constructor
  · exact fun hd => absurd hd hok
  · rw [htelling]
    exact h.telling
  · intro hm
    obtain ⟨hs, h⟩ := h.closed hm
    exact ⟨hs, h.imp id fun h => by omega⟩
  · exact h.taken

theorem storePing (h : Ending f l) (hm : Moves (some .closing) (some .telling) l l') :
    Ending { f with clostep := .closing } l' := by
  have hclosing : count .closing l' + 1 = count .closing l := hm .closing
  have htelling : count .telling l' = count .telling l + 1 := hm .telling
  constructor
  · intro hd
    obtain ⟨hnone, hzero⟩ := h.quiet hd
    exact ⟨hnone, by omega⟩
  · exact fun _ => by simp
  · intro hm
    refine ⟨by simp, (h.closed hm).2.imp id fun h => ?_⟩
    show 0 < f.log.countP EndEvent.isSpawned + count .closing l' + count .telling l'
    omega
  · exact h.taken

/-- A goroutine is started for `onDisconnectException`. -/
theorem spawn (h : Ending f l) (htelling : count .telling l' ≤ count .telling l)
    (hok : f.ending ≠ some .disconnected) (reason : DisconnectReason) :
    Ending (f.note (.spawned reason)) l' := by
  constructor
  · exact fun hd =>
      (ending_of_note hd).elim (fun hd => absurd hd hok) fun hd => absurd hd.2 (by simp)
  · exact fun ht => h.telling (lt_of_lt_of_le ht htelling)
  · intro hm
    obtain ⟨hs, -⟩ := h.closed (List.mem_of_ne_of_mem (by simp) hm)
    rw [countP_spawned]
    exact ⟨hs, .inr (by omega)⟩
  · intro ht hm
    rcases ending_of_note ht with ht | ⟨-, ht⟩
    · exact h.taken ht (List.mem_of_ne_of_mem (by simp) hm)
    · exact absurd ht (by simp)

/-- The handler of a DISCONNECT is called. -/
theorem disconnected (h : Ending f l) (hm : Moves none none l l') (hs : f.clostep = .running)
    (hok : f.ending = none → count .closing l = 0) : Ending (f.note .disconnected) l' := by
  have hclosing : count .closing l' = count .closing l := hm .closing
  have htelling : count .telling l' = count .telling l := hm .telling
  have hnotClosed : .closed ∉ f.log := fun hm => (h.closed hm).1 hs
  have hnone : count .telling l = 0 := Nat.eq_zero_of_not_pos fun ht => h.telling ht hs
  constructor
  · intro hd
    rw [countP_not_spawned f rfl, hclosing, htelling]
    rcases ending_of_note hd with hd | ⟨hd, -⟩
    · exact h.quiet hd
    · exact ⟨countP_eq_zero_of_ending hd, by rw [hok hd, hnone]⟩
  · rw [htelling]
    exact h.telling
  · exact fun hm => absurd (List.mem_of_ne_of_mem (by simp) hm) hnotClosed
  · intro ht
    rcases ending_of_note ht with ht | ⟨-, ht⟩
    · exact absurd (mem_of_ending ht) hnotClosed
    · exact absurd ht (by simp)

/-- `Close` closes a session that has ended. -/
theorem storeClosed (h : Ending f l) (hm : Moves none none l l')
    (hok : f.ending ≠ none ∨ 0 < count .closing l + count .telling l) :
    Ending ({ f with clostep := .closed }.note .closed) l' := by
  have hclosing : count .closing l' = count .closing l := hm .closing
  have htelling : count .telling l' = count .telling l := hm .telling
  have hcause : .disconnected ∈ f.log ∨
      0 < f.log.countP EndEvent.isSpawned + count .closing l + count .telling l := by
    rcases hok with hok | hok
    · obtain ⟨ev, hev⟩ := Option.ne_none_iff_exists'.mp hok
      have hmem := mem_of_ending hev
      cases ev with
      | disconnected => exact .inl hmem
      | closed => exact (h.closed hmem).2
      | spawned reason =>
        have hpos : 0 < f.log.countP EndEvent.isSpawned :=
          List.countP_pos_iff.mpr ⟨_, hmem, rfl⟩
        exact .inr (by omega)
      | will | openedFiles | closeReturned =>
        exact absurd (List.find?_some hev) Bool.false_ne_true
    · exact .inr (by omega)
  constructor
  · intro hd
    rw [countP_not_spawned _ rfl, hclosing, htelling]
    exact (ending_of_note hd).elim h.quiet fun hd => absurd hd.2 (by simp)
  · exact fun _ => by simp [Flags.note]
  · intro _
    rw [countP_not_spawned _ rfl, hclosing, htelling]
    exact ⟨by simp [Flags.note], hcause.imp (List.mem_cons_of_mem _) id⟩
  · intro ht hm
    have hmem : .disconnected ∈ f.log := List.mem_of_ne_of_mem (by simp) hm
    rcases ending_of_note ht with ht | ⟨ht, -⟩
    · exact h.taken ht hmem
    · exact not_mem_of_ending_eq_none ht rfl hmem

end Ending

/-! ## One step -/

/-- Nothing that the invariants are about has changed. -/
theorem publishing_ending_congr {f f' : Flags} {l l' : List Op} (hp : Publishing f l)
    (he : Ending f l) (hm : Moves none none l l')
    (hr : ∀ o, .stop o ∈ l' → ∀ reason ∈ o.reason, reason ≠ .ok) (hlog : f'.log = f.log)
    (hw : f'.willFlag = f.willFlag) (hh : f'.had = f.had)
    (hs : f.clostep ≠ .running → f'.clostep ≠ .running) : Publishing f' l' ∧ Ending f' l' :=
  ⟨hp.congr (hm .check) (hm .load) (hm .publish) (hm .store) hr (by rw [hlog]) (by rw [hlog]) hw hh,
    he.congr (hm .closing) (hm .telling) hlog hs⟩

/-- One operation of the end. -/
theorem EndOp.Ran.will {s : Solo} {f' : Flags} {o : EndOp} {next : List Op} {spawned : Pool Op}
    {l' : List Op} (h : Ran s.outbox s.flags o next spawned f')
    (hp : Publishing s.flags s.goroutines.ops) (he : Ending s.flags s.goroutines.ops)
    (hmem : .stop o ∈ s.goroutines.ops) (hok : o.KeepsWill s)
    (hc : ∀ p, count p l' + count p [.stop o] =
      count p s.goroutines.ops + count p (next ++ Pool.ops spawned))
    (hr : ∀ o, .stop o ∈ l' → ∀ reason ∈ o.reason, reason ≠ .ok) :
    Publishing f' l' ∧ Ending f' l' := by
  have hnone : o.phase = none → (∀ o ∈ next ++ Pool.ops spawned, o.phase = none) →
      Moves none none s.goroutines.ops l' := by
    intro ho hnew
    have hmoves := moves_of_none hnew hc
    rwa [ho] at hmoves
  cases h with
  | disconnected cleared hs hk =>
    have hm := hnone rfl (by simp [Op.phase, EndOp.phase])
    exact ⟨hp.congr (hm .check) (hm .load) (hm .publish) (hm .store) hr
      (count_not_will _ (by simp)) (countP_not_spawned _ rfl) rfl rfl,
      he.disconnected hm hs (hok hs hk)⟩
  | received cleared _ _ =>
    refine publishing_ending_congr hp he (hnone rfl fun o' ho' => ?_) hr rfl rfl rfl id
    rw [Pool.ops, List.flatten_nil, List.append_nil] at ho'
    cases o' with
    | msg o' => rfl
    | stop o' =>
      obtain ⟨_, rfl⟩ | ⟨_, rfl⟩ | ⟨rfl, -⟩ := stop_mem_procFrontRemoteMsg ho'
      · rfl
      · rfl
      · rfl
  | setWill willFlag =>
    have hm := hnone rfl (by simp)
    exact ⟨hp.setWill hm hr hok, he.congr (hm .closing) (hm .telling) rfl id⟩
  | readFailed hs | writeFailed hs =>
    have hm : Moves none (some .check) s.goroutines.ops l' := moves_of_stop hc
    exact ⟨hp.spawn (hm .check) (hm .load) (hm .publish) (hm .store) hr _,
      he.spawn (Nat.le_of_eq (hm .telling)) (hok hs) _⟩
  | load k hs =>
    cases k with
    | pingTimeout =>
      have hm : Moves none (some .closing) s.goroutines.ops l' := moves_of_stop hc
      exact ⟨hp.congr (hm .check) (hm .load) (hm .publish) (hm .store) hr rfl rfl rfl rfl,
        he.loadPing hm (hok hs)⟩
    | disconnected | connectTimeout =>
      exact publishing_ending_congr hp he (hnone rfl (by simp [Op.phase, EndOp.phase])) hr
        rfl rfl rfl id
  | storeClosing k =>
    cases k with
    | pingTimeout =>
      have hm : Moves (some .closing) (some .telling) s.goroutines.ops l' := moves_of_stop hc
      exact ⟨hp.congr (hm .check) (hm .load) (hm .publish) (hm .store) hr rfl rfl rfl rfl,
        he.storePing hm⟩
    | disconnected | connectTimeout =>
      exact publishing_ending_congr hp he (hnone rfl (by simp [Op.phase, EndOp.phase])) hr
        rfl rfl rfl fun _ => by simp
  | tellPing =>
    have hm : Moves (some .telling) (some .check) s.goroutines.ops l' := moves_of_stop hc
    have htelling : count .telling l' + 1 = count .telling s.goroutines.ops := hm .telling
    refine ⟨hp.spawn (hm .check) (hm .load) (hm .publish) (hm .store) hr _,
      he.spawn (by omega) (fun hd => ?_) _⟩
    -- after a DISCONNECT no ping timeout is on its way
    have := (he.quiet hd).2
    omega
  | @tellMgr k hk =>
    have ho : (EndOp.tellMgr k).phase = none := by
      cases k with
      | pingTimeout => exact absurd rfl hk
      | _ => rfl
    exact publishing_ending_congr hp he (hnone ho (by simp)) hr rfl rfl rfl id
  | onTick timedOut _ =>
    refine publishing_ending_congr hp he (hnone rfl ?_) hr rfl rfl rfl id
    cases timedOut with
    | _ => simp [Op.phase, EndOp.phase]
  | clientTimeout l _ =>
    exact publishing_ending_congr hp he (hnone rfl (by simp [Op.phase])) hr rfl rfl rfl id
  | hadException reason hhad =>
    have hm : Moves (some .check) none s.goroutines.ops l' := moves_of_none (by simp) hc
    exact ⟨hp.failCheck hm hr hhad, he.congr (hm .closing) (hm .telling) rfl id⟩
  | exception reason hhad =>
    have hm : Moves (some .check) (some .load) s.goroutines.ops l' := moves_of_stop hc
    exact ⟨hp.passCheck hm hr hhad (hok hhad), he.congr (hm .closing) (hm .telling) rfl id⟩
  | loadWill reason hflag =>
    have hm : Moves (some .load) (some .publish) s.goroutines.ops l' := moves_of_stop hc
    exact ⟨hp.loadWill hm hr hflag, he.congr (hm .closing) (hm .telling) rfl id⟩
  | loadNoWill reason hflag =>
    have hm : Moves (some .load) (some .store) s.goroutines.ops l' := moves_of_stop hc
    exact ⟨hp.loadNoWill hm hr hflag, he.congr (hm .closing) (hm .telling) rfl id⟩
  | publishWill reason =>
    have hm : Moves (some .publish) (some .store) s.goroutines.ops l' := moves_of_stop hc
    exact ⟨hp.publishWill hm hr, (he.congr (hm .closing) (hm .telling) rfl id).note rfl⟩
  | storeException reason =>
    have hm : Moves (some .store) none s.goroutines.ops l' := moves_of_none (by simp) hc
    exact ⟨hp.storeException hm hr (hp.reasons _ hmem reason rfl),
      he.congr (hm .closing) (hm .telling) rfl id⟩
  | storeClosed =>
    have hm := hnone rfl (by simp [Op.phase, EndOp.phase])
    exact ⟨hp.congr (hm .check) (hm .load) (hm .publish) (hm .store) hr
      (count_not_will _ (by simp)) (countP_not_spawned _ rfl) rfl rfl, he.storeClosed hm hok⟩
  | openedFiles =>
    have hm := hnone rfl (by simp [Op.phase, EndOp.phase])
    have hf' : Ending { s.flags with openedFiles := s.flags.openedFiles - 1 } l' :=
      he.congr (hm .closing) (hm .telling) rfl id
    exact ⟨hp.congr (hm .check) (hm .load) (hm .publish) (hm .store) hr
      (count_not_will _ (by simp)) (countP_not_spawned _ rfl) rfl rfl, hf'.note rfl⟩
  | closeReturned =>
    have hm := hnone rfl (by simp)
    exact ⟨hp.congr (hm .check) (hm .load) (hm .publish) (hm .store) hr
      (count_not_will _ (by simp)) (countP_not_spawned _ rfl) rfl rfl,
      (he.congr (hm .closing) (hm .telling) rfl id).note rfl⟩
  | _ =>
    exact publishing_ending_congr hp he (hnone rfl (by simp [Op.phase, EndOp.phase])) hr
      rfl rfl rfl id

/-- `onDisconnectException` is called with the reason that it is given, which is never `ok`. -/
theorem EndOp.Ran.reasons {x : Outbox} {f f' : Flags} {o : EndOp} {next : List Op}
    {spawned : Pool Op} (h : Ran x f o next spawned f') (ho : ∀ reason ∈ o.reason, reason ≠ .ok)
    {o' : EndOp} (hmem : .stop o' ∈ next ++ Pool.ops spawned) :
    ∀ reason ∈ o'.reason, reason ≠ .ok := by
  cases h with
  | received cleared _ _ =>
    rw [Pool.ops, List.flatten_nil, List.append_nil] at hmem
    obtain ⟨_, rfl⟩ | ⟨_, rfl⟩ | ⟨rfl, -⟩ := stop_mem_procFrontRemoteMsg hmem
    · simp [reason]
    · simp [reason]
    · simp [reason]
  | onTick timedOut _ =>
    cases timedOut with
    | false => exact absurd hmem (by simp)
    | true =>
      obtain rfl : o' = .onTimeout := by simpa using hmem
      simp [reason]
  | clientTimeout l _ => exact absurd hmem (by simp)
  | exception r _ | loadWill r _ | loadNoWill r _ | publishWill r =>
    obtain rfl := Op.stop.inj (List.mem_singleton.mp hmem)
    exact ho
  | clientConnected _ _ | connectTimeout _ =>
    obtain rfl : o' = .closeReturned := by simpa using hmem
    simp [reason]
  | recvIgnored | storeConnected | setWill | readMuted | recvExit | loadMuted | tellMgr
  | tickMuted | writeMuted | storeStoped | sendExit | hadException | storeException
  | closeReturned => exact absurd hmem (by simp)
  | _ =>
    obtain rfl := Op.stop.inj (List.mem_singleton.mp hmem)
    simp [reason]

theorem will_step {s s' : Solo} {t : Solo.Turn} (hp : Publishing s.flags s.goroutines.ops)
    (he : Ending s.flags s.goroutines.ops) (hok : KeepsWill s t)
    (h : Solo.step cfg t s = some s') :
    Publishing s'.flags s'.goroutines.ops ∧ Ending s'.flags s'.goroutines.ops := by
  obtain ⟨old, new, hx, hex⟩ := exchange_of_step h
  have hcount : ∀ p, count p s'.goroutines.ops + count p old =
      count p s.goroutines.ops + count p new := fun p => hex.countP_eq _
  have hreasons : (∀ o, .stop o ∈ new → ∀ reason ∈ o.reason, reason ≠ .ok) →
      ∀ o, .stop o ∈ s'.goroutines.ops → ∀ reason ∈ o.reason, reason ≠ .ok :=
    fun hnew o ho => (hex.mem_or ho).elim (hnew o) (hp.reasons o)
  have hold : ∀ o ∈ old, o ∈ s.goroutines.ops := fun o => hex.mem_old
  have hquiet : old = [] ∨ (∃ o, old = [.msg o]) → (∀ o ∈ new, o.phase = none) →
      Moves none none s.goroutines.ops s'.goroutines.ops := by
    intro ho hnew p
    have hzero : count p old = 0 := by
      rcases ho with rfl | ⟨o, rfl⟩ <;> rfl
    have := hcount p
    rw [hzero, count_eq_zero hnew] at this
    exact this
  generalize s'.goroutines.ops = l' at hcount hreasons hquiet ⊢
  generalize hx' : s'.outbox = x' at hx
  generalize hf' : s'.flags = f' at hx ⊢
  cases hx with
  | msg _ _ =>
    exact publishing_ending_congr hp he (hquiet (.inr ⟨_, rfl⟩) (by simp [Op.phase]))
      (hreasons (by simp)) rfl rfl rfl id
  | stop hnext hrun =>
    have hran := EndOp.ran_of_run hrun
    have hmem := hold _ (List.mem_singleton_self _)
    exact hran.will hp he hmem (hok _ (Solo.Turn.endOp_run hnext)) hcount
      (hreasons fun o' ho' => hran.reasons (hp.reasons _ hmem) ho')
  | round t new hnew =>
    refine publishing_ending_congr hp he (hquiet (.inl rfl) ?_) (hreasons ?_) rfl rfl rfl id
    · refine List.forall_mem_map.mpr fun o ho => ?_
      have hround := hnew o ho
      cases o with
      | readFailed | onChannelError | recvExit | storeStoped | sendExit | onTick _ => rfl
      | _ => exact hround.elim
    · intro o ho
      have hround := hnew o (by simpa using ho)
      cases o with
      | readFailed | onChannelError | recvExit | storeStoped | sendExit | onTick _ =>
        simp [EndOp.reason]
      | _ => exact hround.elim
  | _ =>
    exact publishing_ending_congr hp he
      (hquiet (.inl rfl) (by simp [Op.phase, EndOp.phase]))
      (hreasons (by simp [EndOp.reason])) rfl rfl rfl id

/-! ## Runs -/

/-- No goroutine is in `onDisconnectException` or about to start one for a ping timeout. -/
def Settled (s : Solo) : Prop := ∀ o ∈ s.goroutines.ops, o.phase = none

instance (s : Solo) : Decidable (Settled s) :=
  inferInstanceAs (Decidable (∀ o ∈ s.goroutines.ops, _))

/-- In a closed and settled session with a will, the will was published once if no DISCONNECT
was handled before the session ended otherwise, and never if one was. -/
theorem will_exactly_once {s : Solo} (h : (Solo.system cfg).Reach KeepsWill s)
    (hwill : s.flags.willFlag = true) (hclosed : .closed ∈ s.flags.log) (hsettled : Settled s) :
    s.flags.log.count .will = if s.flags.ending = some .disconnected then 0 else 1 := by
  obtain ⟨hp, he⟩ : Publishing s.flags s.goroutines.ops ∧ Ending s.flags s.goroutines.ops := by
    refine h.invariant (I := fun s => Publishing s.flags s.goroutines.ops ∧
      Ending s.flags s.goroutines.ops) ?_ fun s t s' hs hok hstep => will_step hs.1 hs.2 hok hstep
    rintro s ⟨isServer, now, rfl⟩
    constructor
    · constructor <;> simp [Solo.initial, count, Flags.had]
    · constructor <;> simp [Solo.initial, count, Flags.ending]
  have hzero : ∀ p, count p s.goroutines.ops = 0 := fun p => count_eq_zero hsettled
  have hcount := hp.will
  have hspawned := hp.spawned
  rw [if_pos hwill] at hcount
  simp only [hzero, Nat.zero_add, Nat.add_zero] at hcount hspawned
  have hone := hp.one
  simp only [hzero, Nat.zero_add] at hone
  split
  · next hd =>
    have hnone := (he.quiet hd).1
    omega
  · next hd =>
    -- something else came first, and it has led to `onDisconnectException`
    have hcause := (he.closed hclosed).2
    simp only [hzero, Nat.add_zero] at hcause
    have hpos : 0 < s.flags.log.countP EndEvent.isSpawned := by
      cases hend : s.flags.ending with
      | none => exact absurd hclosed (not_mem_of_ending_eq_none hend rfl)
      | some ev =>
        cases ev with
        | disconnected => exact absurd hend hd
        | spawned reason => exact List.countP_pos_iff.mpr ⟨_, mem_of_ending hend, rfl⟩
        | closed => exact hcause.resolve_left (he.taken hend)
        | will | openedFiles | closeReturned =>
          exact absurd (List.find?_some hend) Bool.false_ne_true
    omega

/-- A server session is started and handles a CONNECT with a will. -/
def connectingWithWill : List Solo.Turn :=
  [.start, .recvPacket ⟨.connect { header := { messageType := PacketType.connect }
                                   clientIdentifier := []
                                   willFlag := true },
    .other _ rfl (by rw [ControlPacket.kind]; decide)⟩ true] ++ Solo.runs 0 6

/-- A read error publishes the will, and then the session is closed. -/
def endingByReadError : List Solo.Turn :=
  connectingWithWill ++ [.recvError] ++ Solo.runs 0 6 ++ Solo.runs 4 4 ++ [.close] ++
    Solo.runs 3 2

theorem will_exactly_once_readError : ∃ s, (Solo.system {}).Reach KeepsWill s ∧
    s.flags.log.count .will = if s.flags.ending = some .disconnected then 0 else 1 := by
  have hok : (Solo.system {}).checkAll (fun s t => decide (KeepsWill s t)) endingByReadError
      (Solo.initial true 0) = true := by
    decide
  have hend : ((Solo.system {}).exec endingByReadError (Solo.initial true 0)).any (fun s =>
      s.flags.willFlag = true ∧ EndEvent.closed ∈ s.flags.log ∧ Settled s) = true := by
    decide
  obtain ⟨s, hs, hc⟩ := StepSystem.exists_reach_of_any (Solo.initial_init {} true 0)
    (StepSystem.along_of_check (fun _ _ h => of_decide_eq_true h) hok) hend
  obtain ⟨hwill, hclosed, hsettled⟩ := of_decide_eq_true hc
  exact ⟨s, hs, will_exactly_once hs hwill hclosed hsettled⟩

/-- A read error and a write error: both goroutines pass the check before one has set the
flag. -/
def endingTwice : List Solo.Turn :=
  connectingWithWill ++ [.recvError] ++ Solo.runs 0 1 ++ [.sendRound false] ++ Solo.runs 1 3 ++
    Solo.runs 4 1 ++ Solo.runs 5 1 ++ Solo.runs 4 3 ++ Solo.runs 5 3 ++ [.close] ++ Solo.runs 3 2

theorem will_published_twice : ¬ ∀ s, (Solo.system {}).Reachable s →
    s.flags.willFlag = true → .closed ∈ s.flags.log → Settled s →
    s.flags.log.count .will = if s.flags.ending = some .disconnected then 0 else 1 := by
  have hend : ((Solo.system {}).exec endingTwice (Solo.initial true 0)).any (fun s =>
      (s.flags.willFlag = true ∧ EndEvent.closed ∈ s.flags.log ∧ Settled s) ∧
        s.flags.log.count .will = 2) = true := by
    decide
  intro hall
  obtain ⟨s, hs, hc⟩ :=
    StepSystem.exists_reachable_of_any (Solo.initial_init {} true 0) hend
  obtain ⟨⟨hwill, hclosed, hsettled⟩, htwice⟩ := of_decide_eq_true hc
  have := hall s hs hwill hclosed hsettled
  rw [htwice] at this
  split at this <;> omega

end MqttBroker.Solo

import MqttBroker.Lib.Fifo
import MqttBroker.Utils.SharedList

/-!
# The send loop of a channel

`Channel.Send` appends to the send list unless the channel is stopped, and `sendRun` waits for a
value from the list, pops until the list is empty and passes each element to `writeMsg`. Any
number of goroutines call `Send`, `Len` and `Close` meanwhile, the write may fail, and the loop
may be stopped between any two operations.

For what is written all of this is an ideal queue: the packets passed to `writeMsg` are at any
time a prefix of those that `Send` has appended.
-/

namespace MqttBroker
namespace SendLoop

variable {P : Type}

/-! ## The loop and its callers -/

/-- What `sendRun` does next, with what `SafeRuntine.Go` does before and after it. -/
inductive SendRun (P : Type)
  | idle
  | starting
  | outer
  | select
  | inner
  | popping (g : SharedList.Goroutine P Unit)
  | writing (msg : P)
  | exiting
  | closing
  | stopping
  | exited

/-- What a goroutine that calls `Send`, `Len` of the send list or `Close` does next. -/
inductive Caller (P : Type)
  | send (msg : P)
  | list (g : SharedList.Goroutine P Unit)
  | close
  | closeStore
  | stop
  | stopStore
  | stopInterrupt
  | stopWait
  | returned

/-- The part of a `Channel` that sends: `running` is `sendRuntine.stoped` and `interrupted` and
`ended` are its closed channels `IsInterrupt` and `stopingChan`. What was appended and what was
passed to `writeMsg` is recorded. -/
structure Channel (P : Type) where
  isStoped : Bool
  iSendList : SharedList P
  running : Bool
  interrupted : Bool
  ended : Bool
  sendRun : SendRun P
  callers : List (Caller P)
  appended : List P
  written : List P

/-- `NewChannel`. -/
def newChannel : Channel P := ⟨false, SharedList.newList, false, false, false, .idle, [], [], []⟩

/-- How a turn of the loop goes where it is not determined. -/
inductive Choice
  | plain
  /-- `select` takes the interrupt. -/
  | interrupted
  /-- The write fails. -/
  | failed
  deriving DecidableEq, Repr

/-- The next operation of `sendRun`; `none` while it waits. -/
def Channel.stepLoop (choice : Choice) (s : Channel P) : Option (Channel P) :=
  match s.sendRun, choice with
  | .idle, .plain => some { s with sendRun := .starting }
  | .starting, .plain => some { s with running := true, sendRun := .outer }
  | .outer, .plain => some { s with sendRun := if s.running then .select else .exiting }
  | .select, .plain => s.iSendList.receive.map fun x => { s with iSendList := x, sendRun := .inner }
  | .select, .interrupted => if s.interrupted then some { s with sendRun := .outer } else none
  | .inner, .plain => some { s with sendRun := if s.running then .popping (.pop true) else .outer }
  | .popping (.returned none), .plain => some { s with sendRun := .outer }
  | .popping (.returned (some msg)), .plain =>
    some { s with sendRun := .writing msg, written := s.written ++ [msg] }
  | .popping g, .plain =>
    (g.step s.iSendList).map fun next =>
      { s with iSendList := next.1, sendRun := .popping next.2 }
  | .writing _, .plain => some { s with sendRun := .inner }
  | .writing _, .failed => some { s with sendRun := .exiting }
  | .exiting, .plain => some { s with isStoped := true, sendRun := .closing }
  | .closing, .plain => some { s with ended := true, sendRun := .stopping }
  | .stopping, .plain => some { s with running := false, sendRun := .exited }
  | _, _ => none

/-- The next operation of a caller; `none` while it waits, and where `IsInterrupt` is closed for
the second time, which panics. -/
def Channel.stepCaller (s : Channel P) : Caller P → Option (Channel P × Caller P)
  | .send msg => some (s, if s.isStoped then .returned else .list (.push msg))
  | .list g =>
    (g.step s.iSendList).map fun next =>
      ({ s with iSendList := next.1, appended := s.appended ++ g.appends.toList }, .list next.2)
  | .close => some (s, if s.isStoped then .returned else .closeStore)
  | .closeStore => some ({ s with isStoped := true }, .stop)
  | .stop => some (s, if s.running then .stopStore else .returned)
  | .stopStore => some ({ s with running := false }, .stopInterrupt)
  | .stopInterrupt =>
    if s.interrupted then none else some ({ s with interrupted := true }, .stopWait)
  | .stopWait => if s.ended then some (s, .returned) else none
  | .returned => none

/-- A call of one of the methods begins. -/
def Caller.begins : Caller P → Bool
  | send _ | list .len | close => true
  | _ => false

inductive Turn (P : Type)
  | start (c : Caller P)
  | caller (i : ℕ)
  | loop (choice : Choice)

def Channel.step : Turn P → Channel P → Option (Channel P)
  | .start c, s => if c.begins then some { s with callers := s.callers ++ [c] } else none
  | .caller i, s =>
    match s.callers[i]? with
    | none => none
    | some c => (s.stepCaller c).map fun next => { next.1 with callers := s.callers.set i next.2 }
  | .loop choice, s => s.stepLoop choice

def system (P : Type) : StepSystem (Channel P) (Turn P) where
  init s := s = newChannel
  step := Channel.step

/-! ## The queue that a channel stands for -/

/-- The packet between the list and `writeMsg`. -/
def SendRun.inHand : SendRun P → Option P
  | popping g => g.taken
  | _ => none

def Channel.fifo (s : Channel P) : Fifo P where
  queue := s.sendRun.inHand.toList ++ s.iSendList.l
  entered := s.appended
  left := s.written

/-- The loop pops and nothing else, and the callers do not pop. -/
structure Roles (s : Channel P) : Prop where
  loop : ∀ g, s.sendRun = .popping g → g.takes = true
  callers : ∀ g, .list g ∈ s.callers → g.adds = true

variable {s s' : Channel P}

/-- A step of a caller is that of its `Push`, or it leaves the list alone. -/
theorem stepCaller_cases {c c' : Caller P} (h : s.stepCaller c = some (s', c')) :
    (∃ g x g', c = .list g ∧ g.step s.iSendList = some (x, g') ∧ c' = .list g' ∧
      s' = { s with iSendList := x, appended := s.appended ++ g.appends.toList }) ∨
    (∀ g, c' = .list g → g.adds = true) ∧ s'.fifo = s.fifo ∧ s'.sendRun = s.sendRun := by
  cases c with
  | list g =>
    obtain ⟨next, hnext, heq⟩ := Option.map_eq_some_iff.mp h
    obtain ⟨rfl, rfl⟩ := Prod.mk.inj heq
    exact .inl ⟨g, next.1, next.2, rfl, hnext, rfl, rfl⟩
  | send msg =>
    obtain ⟨rfl, rfl⟩ := Prod.mk.inj (Option.some.inj h)
    refine .inr ⟨fun g hg => ?_, rfl, rfl⟩
    split at hg
    · exact absurd hg (by simp)
    · rw [← Caller.list.inj hg]
      rfl
  | close =>
    obtain ⟨rfl, rfl⟩ := Prod.mk.inj (Option.some.inj h)
    refine .inr ⟨fun g hg => ?_, rfl, rfl⟩
    split at hg
    · exact absurd hg (by simp)
    · exact absurd hg (by simp)
  | stop =>
    obtain ⟨rfl, rfl⟩ := Prod.mk.inj (Option.some.inj h)
    refine .inr ⟨fun g hg => ?_, rfl, rfl⟩
    split at hg
    · exact absurd hg (by simp)
    · exact absurd hg (by simp)
  | closeStore | stopStore =>
    obtain ⟨rfl, rfl⟩ := Prod.mk.inj (Option.some.inj h)
    exact .inr ⟨fun g hg => absurd hg (by simp), rfl, rfl⟩
  | stopInterrupt =>
    rw [Channel.stepCaller] at h
    split at h
    · exact absurd h (by simp)
    · obtain ⟨rfl, rfl⟩ := Prod.mk.inj (Option.some.inj h)
      exact .inr ⟨fun g hg => absurd hg (by simp), rfl, rfl⟩
  | stopWait =>
    rw [Channel.stepCaller] at h
    split at h
    · obtain ⟨rfl, rfl⟩ := Prod.mk.inj (Option.some.inj h)
      exact .inr ⟨fun g hg => absurd hg (by simp), rfl, rfl⟩
    · exact absurd h (by simp)
  | returned => exact absurd h (by simp [Channel.stepCaller])

/-- The step only moves the loop on, to the beginning of a `Pop` if to one at all. -/
def MovesOn (s s' : Channel P) : Prop :=
  s'.callers = s.callers ∧ (∀ g, s'.sendRun = .popping g → g = .pop true) ∧ s'.fifo = s.fifo

theorem movesOn {r : SendRun P} {x : SharedList P} (isStoped running ended : Bool)
    (hpop : ∀ g, r = .popping g → g = .pop true) (hhand : r.inHand = s.sendRun.inHand)
    (hl : x.l = s.iSendList.l) :
    MovesOn s { s with isStoped, iSendList := x, running, ended, sendRun := r } := by
  refine ⟨rfl, hpop, ?_⟩
  unfold Channel.fifo
  rw [← hhand, ← hl]

/-- A step of the loop is that of its `Pop`, or it passes what was popped to `writeMsg`, or it
only moves the loop on. -/
theorem stepLoop_cases {choice : Choice} (h : s.stepLoop choice = some s') :
    (∃ g x g', s.sendRun = .popping g ∧ g.step s.iSendList = some (x, g') ∧
        s' = { s with iSendList := x, sendRun := .popping g' }) ∨
      (∃ msg, s.sendRun = .popping (.returned (some msg)) ∧
        s' = { s with sendRun := .writing msg, written := s.written ++ [msg] }) ∨
      MovesOn s s' := by
  -- the loop goes from a place without a packet to another one
  have hmove : ∀ {r : SendRun P} {x : SharedList P} (isStoped running ended : Bool),
      (∀ g, r = .popping g → g = .pop true) → r.inHand = none → s.sendRun.inHand = none →
      x.l = s.iSendList.l →
      some { s with isStoped, iSendList := x, running, ended, sendRun := r } = some s' →
      MovesOn s s' := by
    intro r x _ _ _ hpop hr hs hl heq
    rw [← Option.some.inj heq]
    exact movesOn _ _ _ hpop (hr.trans hs.symm) hl
  unfold Channel.stepLoop at h
  split at h
  · next hrun => exact .inr (.inr (hmove _ _ _ (by simp) rfl (by rw [hrun]; rfl) rfl h))
  · next hrun => exact .inr (.inr (hmove _ _ _ (by simp) rfl (by rw [hrun]; rfl) rfl h))
  · next hrun =>
    -- `outer`
    by_cases hrunning : s.running = true
    · rw [if_pos hrunning] at h
      exact .inr (.inr (hmove _ _ _ (by simp) rfl (by rw [hrun]; rfl) rfl h))
    · rw [if_neg hrunning] at h
      exact .inr (.inr (hmove _ _ _ (by simp) rfl (by rw [hrun]; rfl) rfl h))
  · next hrun =>
    -- `select` with a value from the list
    obtain ⟨x, hx, heq⟩ := Option.map_eq_some_iff.mp h
    exact .inr (.inr (hmove _ _ _ (by simp) rfl (by rw [hrun]; rfl) (SharedList.receive_l hx)
      (congrArg some heq)))
  · next hrun =>
    -- `select` with the interrupt
    by_cases hinterrupted : s.interrupted = true
    · rw [if_pos hinterrupted] at h
      exact .inr (.inr (hmove _ _ _ (by simp) rfl (by rw [hrun]; rfl) rfl h))
    · rw [if_neg hinterrupted] at h
      exact absurd h (by simp)
  · next hrun =>
    -- `inner`
    by_cases hrunning : s.running = true
    · rw [if_pos hrunning] at h
      refine .inr (.inr (hmove _ _ _ (fun g hg => ?_) rfl (by rw [hrun]; rfl) rfl h))
      exact (SendRun.popping.inj hg).symm
    · rw [if_neg hrunning] at h
      exact .inr (.inr (hmove _ _ _ (by simp) rfl (by rw [hrun]; rfl) rfl h))
  · next hrun => exact .inr (.inr (hmove _ _ _ (by simp) rfl (by rw [hrun]; rfl) rfl h))
  · next msg hrun => exact .inr (.inl ⟨msg, hrun, (Option.some.inj h).symm⟩)
  · next g _ _ hrun =>
    obtain ⟨next, hnext, heq⟩ := Option.map_eq_some_iff.mp h
    exact .inl ⟨g, next.1, next.2, hrun, hnext, heq.symm⟩
  · next hrun => exact .inr (.inr (hmove _ _ _ (by simp) rfl (by rw [hrun]; rfl) rfl h))
  · next hrun => exact .inr (.inr (hmove _ _ _ (by simp) rfl (by rw [hrun]; rfl) rfl h))
  · next hrun => exact .inr (.inr (hmove _ _ _ (by simp) rfl (by rw [hrun]; rfl) rfl h))
  · next hrun => exact .inr (.inr (hmove _ _ _ (by simp) rfl (by rw [hrun]; rfl) rfl h))
  · next hrun => exact .inr (.inr (hmove _ _ _ (by simp) rfl (by rw [hrun]; rfl) rfl h))
  · exact absurd h (by simp)

/-! ## The simulation -/

theorem roles_newChannel : Roles (newChannel : Channel P) :=
  ⟨fun _ hg => absurd hg (by simp [newChannel]), fun _ hg => absurd hg (by simp [newChannel])⟩

/-- A turn of the loop lets the packet that it passes to `writeMsg` leave. -/
theorem stepLoop_simulates {choice : Choice} (hr : Roles s) (h : s.stepLoop choice = some s') :
    Roles s' ∧ Fifo.Step s.fifo s'.fifo := by
  obtain ⟨g, x, g', hrun, hstep, rfl⟩ | ⟨msg, hrun, rfl⟩ | ⟨hcallers, hpop, hfifo⟩ :=
    stepLoop_cases h
  · obtain ⟨htakes, hl⟩ := SharedList.step_takes hstep (hr.loop g hrun)
    refine ⟨⟨fun g₁ hg₁ => ?_, hr.callers⟩, ?_⟩
    · rw [← SendRun.popping.inj hg₁]
      exact htakes
    · have hsame : s.fifo = Channel.fifo { s with iSendList := x, sendRun := .popping g' } := by
        unfold Channel.fifo
        rw [hrun]
        exact congrArg (Fifo.mk · s.appended s.written) hl.symm
      rw [← hsame]
      exact .stay
  · refine ⟨⟨fun g hg => absurd hg (by simp), hr.callers⟩, ?_⟩
    have hleave : Channel.fifo { s with sendRun := .writing msg, written := s.written ++ [msg] } =
        s.fifo.leave := by
      unfold Channel.fifo Fifo.leave
      rw [hrun]
      rfl
    rw [hleave]
    exact .leave
  · refine ⟨⟨fun g hg => ?_, fun g hg => hr.callers g (hcallers ▸ hg)⟩, ?_⟩
    · rw [hpop g hg]
      rfl
    · rw [hfifo]
      exact .stay

/-- A turn of a caller lets the packet that it appends enter. -/
theorem stepCaller_simulates {i : ℕ} {c c' : Caller P} (hr : Roles s)
    (hi : s.callers[i]? = some c) (h : s.stepCaller c = some (s', c')) :
    Roles { s' with callers := s.callers.set i c' } ∧
      Fifo.Step s.fifo (Channel.fifo { s' with callers := s.callers.set i c' }) := by
  have hmem : ∀ g, .list g ∈ s.callers.set i c' → .list g ∈ s.callers ∨ c' = .list g := by
    intro g hg
    obtain hg | hg := List.mem_or_eq_of_mem_set hg
    · exact .inl hg
    · exact .inr hg.symm
  obtain ⟨g, x, g', rfl, hstep, rfl, rfl⟩ | ⟨hadds, hfifo, hrun⟩ := stepCaller_cases h
  · obtain ⟨hg', hl⟩ := SharedList.step_adds hstep (hr.callers g (List.mem_of_getElem? hi))
    refine ⟨⟨hr.loop, fun g₁ hg₁ => ?_⟩, ?_⟩
    · obtain hg₁ | hg₁ := hmem g₁ hg₁
      · exact hr.callers g₁ hg₁
      · rw [← Caller.list.inj hg₁]
        exact hg'
    · unfold Channel.fifo
      rw [hl]
      cases g.appends with
      | none =>
        rw [Option.toList_none, List.append_nil, List.append_nil]
        exact .stay
      | some msg =>
        rw [Option.toList_some, ← List.append_assoc]
        exact .enter msg
  · refine ⟨⟨fun g hg => hr.loop g (hrun ▸ hg), fun g hg => ?_⟩, ?_⟩
    · obtain hg | hg := hmem g hg
      · exact hr.callers g hg
      · exact hadds g hg
    · show Fifo.Step s.fifo s'.fifo
      rw [hfifo]
      exact .stay

theorem step_simulates (t : Turn P) (hr : Roles s) (h : s.step t = some s') :
    Roles s' ∧ Fifo.Step s.fifo s'.fifo := by
  cases t with
  | start c =>
    rw [Channel.step] at h
    by_cases hc : c.begins = true
    · rw [if_pos hc] at h
      obtain rfl := Option.some.inj h
      refine ⟨⟨hr.loop, fun g hg => ?_⟩, .stay⟩
      obtain hg | hg := List.mem_append.mp hg
      · exact hr.callers g hg
      · rw [← List.mem_singleton.mp hg] at hc
        cases g with
        | len => rfl
        | _ => exact absurd hc (by simp [Caller.begins])
    · rw [if_neg hc] at h
      exact absurd h (by simp)
  | caller i =>
    rw [Channel.step] at h
    cases hi : s.callers[i]? with
    | none =>
      rw [hi] at h
      exact absurd h (by simp)
    | some c =>
      rw [hi] at h
      obtain ⟨next, hnext, rfl⟩ := Option.map_eq_some_iff.mp h
      exact stepCaller_simulates hr hi hnext
  | loop choice => exact stepLoop_simulates hr h

/-! ## Every run -/

/-- In every run, with any number of goroutines that call `Send`: what `sendRun` has passed to
`writeMsg` is at any time a prefix of what `Send` has appended, in the order of the appends; and
what was appended after it is the packet between the list and `writeMsg`, if there is one, and
then the list. -/
theorem written_prefix_appended (h : (system P).Reachable s) :
    s.written <+: s.appended ∧
      s.appended = s.written ++ (s.sendRun.inHand.toList ++ s.iSendList.l) := by
  have hconserves : s.fifo.Conserves := by
    refine Fifo.conserves_of_simulates Channel.fifo (I := Roles) ?_ ?_ h
    · intro s hs
      rw [hs]
      exact ⟨roles_newChannel, rfl⟩
    · exact fun s t s' hr hs => step_simulates t hr hs
  exact ⟨hconserves.left_prefix, hconserves⟩

/-- Two calls of `Send` return, and `sendRun` takes the first packet. -/
def twoSent : List (Turn ℕ) :=
  [.loop .plain, .loop .plain, .loop .plain, .start (.send 7), .start (.send 8)] ++
    List.replicate 5 (.caller 0) ++ List.replicate 5 (.caller 1) ++
    List.replicate 7 (.loop .plain)

/-- Of two packets that were sent, the first is passed to `writeMsg` and the second is in the
list. -/
theorem written_prefix_appended_two : ∃ s : Channel ℕ, (system ℕ).Reachable s ∧
    s.written = [7] ∧ s.appended = [7, 8] ∧ s.written <+: s.appended := by
  have hrun : ∃ s, (system ℕ).exec twoSent newChannel = some s ∧ s.written = [7] ∧
      s.appended = [7, 8] := ⟨_, rfl, rfl, rfl⟩
  obtain ⟨s, hexec, hwritten, happended⟩ := hrun
  have hs : (system ℕ).Reachable s := StepSystem.reachable_of_exec rfl hexec
  exact ⟨s, hs, hwritten, happended, (written_prefix_appended hs).1⟩

end SendLoop
end MqttBroker

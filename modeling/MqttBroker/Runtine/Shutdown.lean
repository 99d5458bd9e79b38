import Mathlib.Logic.Function.Basic
import MqttBroker.Lib.Paths
import MqttBroker.Runtine.SafeRuntine

/-!
# Shutting the manager down

The manager has five goroutines, each with a loop around one select, and `Close` stops them one
after another. The selects differ in the interrupt that they have a case for, and in what the
case does: the `break` of `run` leaves the select only, `tickerRun` has no such case, and
`sessionInfoRun` waits for the interrupt of the overview, which `Close` stops after it. The
bodies of the other cases are operations here that may return or not.
-/

namespace MqttBroker
namespace Shutdown

open SafeRuntine (Routine Stop)

/-- The goroutines of `sessionMgr`. -/
inductive Loop
  | run
  | closer
  | ticker
  | overview
  | sessionInfo
deriving DecidableEq

/-- The interrupt that the select of a loop has a case for, and whether that case returns. -/
def Loop.interruptCase : Loop → Option (Loop × Bool)
  | run => some (run, false)
  | closer => some (closer, true)
  | ticker => none
  | overview => some (overview, true)
  | sessionInfo => some (overview, true)

/-- The goroutine that `Close` stops after this one. -/
def Loop.next : Loop → Option Loop
  | sessionInfo => some overview
  | overview => some ticker
  | ticker => some closer
  | closer => some run
  | run => none

/-- Where a loop is: at its select, or in the body of one of the other cases. -/
inductive Place
  | select
  | body
deriving DecidableEq

structure Goroutine where
  runtine : SafeRuntine := { stoped := 1 }
  routine : Routine Place := .running .select
deriving DecidableEq

/-- What a call of `sessionMgr.Close` does next. -/
inductive Closing
  | checking
  | stopping (l : Loop) (p : Stop)
  | returned
deriving DecidableEq

/-- `sessionMgr`, as far as it is about its goroutines, and the calls of `Close`. -/
structure Manager where
  loops : Loop → Goroutine
  calls : List Closing

namespace Closing

/-- The call when a `Stop` has come to `p`. -/
def after (l : Loop) : Stop → Closing
  | .returned =>
    match l.next with
    | none => returned
    | some l' => stopping l' .loading
  | p => stopping l p

/-- The next operation, and the operation after it; `none` while it waits. -/
def step (loops : Loop → Goroutine) : Closing → Option ((Loop → Goroutine) × Closing)
  | checking =>
    some (loops, if (loops .run).runtine.isStoped then returned
      else stopping .sessionInfo .loading)
  | stopping l p =>
    (p.step (loops l).runtine).map fun next =>
      (Function.update loops l { loops l with runtine := next.1 }, after l next.2)
  | returned => none

end Closing

inductive Turn
  | close
  | call (i : ℕ)
  | interrupt (l : Loop)
  | event (l : Loop)
  | work (l : Loop)

/-- The case of the interrupt, when it is ready. -/
def interrupted (loops : Loop → Goroutine) (l : Loop) : Option (Routine Place) :=
  match l.interruptCase with
  | none => none
  | some (l', returns) =>
    if (loops l').runtine.isInterrupt then
      some (if returns then .closing else .running .select)
    else none

/-- A body returns to the select; the goroutine goes on after its function. -/
def Goroutine.work (g : Goroutine) : Option Goroutine :=
  match g.routine with
  | .running .body => some { g with routine := .running .select }
  | r => (r.step .select g.runtine).map fun next => ⟨next.1, next.2⟩

def Manager.set (l : Loop) (g : Goroutine) (s : Manager) : Manager :=
  { s with loops := Function.update s.loops l g }

def Manager.step : Turn → Manager → Option Manager
  | .close, s => some { s with calls := s.calls ++ [.checking] }
  | .call i, s =>
    match s.calls[i]? with
    | none => none
    | some c => (c.step s.loops).map fun next => ⟨next.1, s.calls.set i next.2⟩
  | .interrupt l, s =>
    if (s.loops l).routine = .running .select then
      (interrupted s.loops l).map fun routine => s.set l { s.loops l with routine }
    else none
  | .event l, s =>
    if (s.loops l).routine = .running .select then
      some (s.set l { s.loops l with routine := .running .body })
    else none
  | .work l, s => ((s.loops l).work).map fun g => s.set l g

/-- `GetMgr` has started the goroutines. -/
def started : Manager := ⟨fun _ => {}, []⟩

def manager : StepSystem Manager Turn where
  init s := s = started
  step := Manager.step

/-- The loop has been left. -/
def Manager.left (s : Manager) (l : Loop) : Prop := (s.loops l).routine.fnReturned = true

/-- The loop has been asked to stop. -/
def Manager.asked (s : Manager) (l : Loop) : Prop := (s.loops l).runtine.isInterrupt = true

/-- A way out: the loop has been left, or its select has a case that returns, and it is ready. -/
def Manager.hasExit (s : Manager) (l : Loop) : Prop :=
  s.left l ∨ ∃ l', l.interruptCase = some (l', true) ∧ s.asked l'

variable {s s' : Manager} {l : Loop} {t : Turn}

/-! ## One step -/

theorem step_call {i : ℕ} (hs : s.step (.call i) = some s') :
    ∃ (hi : i < s.calls.length) (next : (Loop → Goroutine) × Closing),
      s.calls[i].step s.loops = some next ∧ s' = ⟨next.1, s.calls.set i next.2⟩ := by
  rw [Manager.step] at hs
  cases hget : s.calls[i]? with
  | none =>
    rw [hget] at hs
    exact absurd hs (by simp)
  | some c =>
    rw [hget] at hs
    obtain ⟨next, hnext, rfl⟩ := Option.map_eq_some_iff.mp hs
    obtain ⟨hi, rfl⟩ := List.getElem?_eq_some_iff.mp hget
    exact ⟨hi, next, hnext, rfl⟩

theorem Manager.loops_set_self (l : Loop) (g : Goroutine) (s : Manager) :
    (s.set l g).loops l = g := Function.update_self ..

theorem Manager.loops_set_of_ne {l l' : Loop} (h : l' ≠ l) (g : Goroutine) (s : Manager) :
    (s.set l g).loops l' = s.loops l' := Function.update_of_ne h ..

/-- What `Stop` leaves of the interrupt. -/
theorem isInterrupt_of_step {p p' : Stop} {o o' : SafeRuntine} (h : p.step o = some (o', p')) :
    (o.isInterrupt = true → o'.isInterrupt = true) ∧
      (p' = .receiving → o'.isInterrupt = true) := by
  cases p with
  | loading =>
    obtain ⟨rfl, rfl⟩ := Prod.mk.inj (Option.some.inj h)
    refine ⟨id, fun hp => ?_⟩
    split at hp
    · exact absurd hp (by simp)
    · exact absurd hp (by simp)
  | storing =>
    obtain ⟨rfl, rfl⟩ := Prod.mk.inj (Option.some.inj h)
    exact ⟨id, fun hp => absurd hp (by simp)⟩
  | closing =>
    rw [Stop.step] at h
    split at h
    · next hclosed =>
      obtain ⟨rfl, rfl⟩ := Prod.mk.inj (Option.some.inj h)
      exact ⟨id, fun hp => absurd hp (by simp)⟩
    · obtain ⟨rfl, rfl⟩ := Prod.mk.inj (Option.some.inj h)
      exact ⟨fun _ => rfl, fun _ => rfl⟩
  | receiving =>
    rw [Stop.step] at h
    split at h
    · obtain ⟨rfl, rfl⟩ := Prod.mk.inj (Option.some.inj h)
      exact ⟨id, fun hp => absurd hp (by simp)⟩
    · exact absurd h (by simp)
  | returned | panicked => exact absurd h (by simp [Stop.step])

/-- What a call of `Close` does to the goroutines. -/
theorem Closing.step_cases {loops loops' : Loop → Goroutine} {c c' : Closing}
    (h : c.step loops = some (loops', c')) :
    (loops' = loops ∧ ∀ l, c' ≠ .stopping l .receiving) ∨
    ∃ l p p' o', p.step (loops l).runtine = some (o', p') ∧ c = .stopping l p ∧
      c' = Closing.after l p' ∧
      loops' = Function.update loops l { loops l with runtine := o' } := by
  cases c with
  | checking =>
    obtain ⟨rfl, rfl⟩ := Prod.mk.inj (Option.some.inj h)
    refine .inl ⟨rfl, fun l hl => ?_⟩
    split at hl
    · exact absurd hl (by simp)
    · exact absurd hl (by simp)
  | stopping l p =>
    obtain ⟨⟨o', p'⟩, hp, hnext⟩ := Option.map_eq_some_iff.mp h
    obtain ⟨rfl, rfl⟩ := Prod.mk.inj hnext
    exact .inr ⟨l, p, p', o', hp, rfl, rfl, rfl⟩
  | returned => exact absurd h (by simp [Closing.step])

theorem Goroutine.work_cases {g g' : Goroutine} (h : g.work = some g') :
    (g.runtine.isInterrupt = true → g'.runtine.isInterrupt = true) ∧
      (¬ g.routine.fnReturned = true ∧ g'.routine = .running .select ∨
        g.routine.fnReturned = true ∧ g'.routine.fnReturned = true) := by
  unfold work at h
  cases hroutine : g.routine with
  | starting =>
    rw [hroutine] at h
    obtain rfl := Option.some.inj h
    exact ⟨id, .inl ⟨Bool.false_ne_true, rfl⟩⟩
  | running place =>
    rw [hroutine] at h
    cases place with
    | select => exact absurd h (by simp [Routine.step])
    | body =>
      obtain rfl := Option.some.inj h
      exact ⟨id, .inl ⟨Bool.false_ne_true, rfl⟩⟩
  | closing | storing =>
    rw [hroutine] at h
    obtain rfl := Option.some.inj h
    exact ⟨id, .inr ⟨rfl, rfl⟩⟩
  | exited =>
    rw [hroutine] at h
    exact absurd h (by simp [Routine.step])

/-- The turns of a loop, and what they do to it. -/
inductive Moves (s : Manager) (l : Loop) : Turn → Routine Place → Prop
  | interrupt {l' : Loop} {returns : Bool} : (s.loops l).routine = .running .select →
      l.interruptCase = some (l', returns) → s.asked l' →
      Moves s l (.interrupt l) (if returns then .closing else .running .select)
  | event : (s.loops l).routine = .running .select → Moves s l (.event l) (.running .body)
  | back : ¬ s.left l → Moves s l (.work l) (.running .select)
  | ended {r : Routine Place} : s.left l → r.fnReturned = true → Moves s l (.work l) r

/-- An interrupt that is closed stays closed, and a loop moves in its own turns only. -/
theorem step_loops (hs : s.step t = some s') (l : Loop) :
    (s.asked l → s'.asked l) ∧
      ((s'.loops l).routine = (s.loops l).routine ∨ Moves s l t (s'.loops l).routine) := by
  -- a turn of the loop `l₀` that gives it the routine `r`
  have hown : ∀ (l₀ : Loop) (g : Goroutine),
      ((s.loops l₀).runtine.isInterrupt = true → g.runtine.isInterrupt = true) →
      (l = l₀ → g.routine = (s.loops l).routine ∨ Moves s l t g.routine) → s' = s.set l₀ g →
      (s.asked l → s'.asked l) ∧
        ((s'.loops l).routine = (s.loops l).routine ∨ Moves s l t (s'.loops l).routine) := by
    rintro l₀ g hkeeps hmoves rfl
    unfold Manager.asked
    by_cases hl : l = l₀
    · subst hl
      rw [Manager.loops_set_self]
      exact ⟨hkeeps, hmoves rfl⟩
    · rw [Manager.loops_set_of_ne hl]
      exact ⟨id, .inl rfl⟩
  cases t with
  | close =>
    obtain rfl := Option.some.inj hs
    exact ⟨id, .inl rfl⟩
  | call i =>
    obtain ⟨hi, ⟨loops', c'⟩, hnext, rfl⟩ := step_call hs
    obtain ⟨rfl, -⟩ | ⟨l₀, p, p', o', hp, -, -, rfl⟩ := Closing.step_cases hnext
    · exact ⟨id, .inl rfl⟩
    · unfold Manager.asked
      by_cases hl : l = l₀
      · subst hl
        simp only [Function.update_self]
        exact ⟨(isInterrupt_of_step hp).1, .inl trivial⟩
      · simp only [Function.update_of_ne hl]
        exact ⟨id, .inl trivial⟩
  | interrupt l₀ =>
    rw [Manager.step] at hs
    split at hs
    · next hselect =>
      obtain ⟨routine, hready, rfl⟩ := Option.map_eq_some_iff.mp hs
      refine hown l₀ { s.loops l₀ with routine } id (fun hl => .inr ?_) rfl
      subst hl
      unfold interrupted at hready
      split at hready
      · exact absurd hready (by simp)
      · next hcase =>
        split at hready
        · next hasked =>
          rw [← Option.some.inj hready]
          exact .interrupt hselect hcase hasked
        · exact absurd hready (by simp)
    · exact absurd hs (by simp)
  | event l₀ =>
    rw [Manager.step] at hs
    split at hs
    · next hselect =>
      refine hown l₀ { s.loops l₀ with routine := .running .body } id (fun hl => .inr ?_)
        (Option.some.inj hs).symm
      subst hl
      exact .event hselect
    · exact absurd hs (by simp)
  | work l₀ =>
    obtain ⟨g, hwork, rfl⟩ := Option.map_eq_some_iff.mp hs
    obtain ⟨hkeeps, hroutine⟩ := Goroutine.work_cases hwork
    refine hown l₀ g hkeeps (fun hl => .inr ?_) rfl
    subst hl
    obtain ⟨hin, hselect⟩ | ⟨hleft, hafter⟩ := hroutine
    · rw [hselect]
      exact .back hin
    · exact .ended hleft hafter

/-- A call of `Close` that comes to wait for a loop has closed its interrupt. -/
theorem step_calls (hs : s.step t = some s') {c : Closing} (hc : c ∈ s'.calls) :
    c ∈ s.calls ∨ ∀ l, c = .stopping l .receiving → s'.asked l := by
  cases t with
  | close =>
    obtain rfl := Option.some.inj hs
    obtain hc | hc := List.mem_append.mp hc
    · exact .inl hc
    · refine .inr fun l hl => ?_
      rw [List.mem_singleton.mp hc] at hl
      exact absurd hl (by simp)
  | call i =>
    obtain ⟨hi, ⟨loops', c'⟩, hnext, rfl⟩ := step_call hs
    obtain hc | rfl := List.mem_or_eq_of_mem_set hc
    · exact .inl hc
    · refine .inr fun l hl => ?_
      obtain ⟨-, hnot⟩ | ⟨l₀, p, p', o', hp, -, hafter, rfl⟩ := Closing.step_cases hnext
      · exact absurd hl (hnot l)
      · have hreceiving : l₀ = l ∧ p' = .receiving := by
          rw [hl] at hafter
          unfold Closing.after at hafter
          split at hafter
          · split at hafter
            · exact absurd hafter (by simp)
            · exact absurd hafter (by simp)
          · obtain ⟨rfl, rfl⟩ := Closing.stopping.inj hafter
            exact ⟨rfl, rfl⟩
        obtain ⟨rfl, rfl⟩ := hreceiving
        unfold Manager.asked
        simp only [Function.update_self]
        exact (isInterrupt_of_step hp).2 rfl
  | interrupt l =>
    rw [Manager.step] at hs
    split at hs
    · obtain ⟨routine, -, rfl⟩ := Option.map_eq_some_iff.mp hs
      exact .inl hc
    · exact absurd hs (by simp)
  | event l =>
    rw [Manager.step] at hs
    split at hs
    · obtain rfl := Option.some.inj hs
      exact .inl hc
    · exact absurd hs (by simp)
  | work l =>
    obtain ⟨g, -, rfl⟩ := Option.map_eq_some_iff.mp hs
    exact .inl hc

/-! ## Every run -/

/-- A loop is at its select or in a body, or it has been left through a case that returns; and
what `Close` waits for has been asked to stop. -/
structure Sound (s : Manager) : Prop where
  routine : ∀ l, ((s.loops l).routine = .running .select ∨ (s.loops l).routine = .running .body) ∨
    s.left l ∧ ∃ l', l.interruptCase = some (l', true) ∧ s.asked l'
  waiting : ∀ l, .stopping l .receiving ∈ s.calls → s.asked l

theorem started_sound : Sound started where
  routine _ := .inl (.inl rfl)
  waiting _ h := absurd h List.not_mem_nil

theorem Sound.step (h : Sound s) (hs : s.step t = some s') : Sound s' where
  routine l := by
    obtain heq | hmoves := (step_loops hs l).2
    · unfold Manager.left
      rw [heq]
      exact (h.routine l).imp id fun ⟨hleft, l', hcase, hasked⟩ =>
        ⟨hleft, l', hcase, (step_loops hs l').1 hasked⟩
    · unfold Manager.left
      generalize (s'.loops l).routine = r at hmoves
      cases hmoves with
      | @interrupt l' returns _ hcase hasked =>
        cases returns with
        | false => exact .inl (.inl rfl)
        | true => exact .inr ⟨rfl, l', hcase, (step_loops hs l').1 hasked⟩
      | event => exact .inl (.inr rfl)
      | back => exact .inl (.inl rfl)
      | ended hleft hafter =>
        obtain hin | ⟨-, l', hcase, hasked⟩ := h.routine l
        · unfold Manager.left at hleft
          obtain hin | hin := hin
          · rw [hin] at hleft
            exact absurd hleft (by simp [Routine.fnReturned])
          · rw [hin] at hleft
            exact absurd hleft (by simp [Routine.fnReturned])
        · exact .inr ⟨hafter, l', hcase, (step_loops hs l').1 hasked⟩
  waiting l hmem := (step_calls hs hmem).elim
    (fun hold => (step_loops hs l).1 (h.waiting l hold)) fun hnew => hnew l rfl

/-- The loop is at its select. -/
def Manager.selecting (s : Manager) (l : Loop) : Prop := (s.loops l).routine = .running .select

/-- The loop is in the body of a case. -/
def Manager.inBody (s : Manager) (l : Loop) : Prop := (s.loops l).routine = .running .body

theorem not_left_of_running {place : Place} (h : (s.loops l).routine = .running place) :
    ¬ s.left l := by
  unfold Manager.left
  rw [h]
  exact Bool.false_ne_true

theorem left_step (h : s.left l) (hs : s.step t = some s') : s'.left l := by
  obtain heq | hmoves := (step_loops hs l).2
  · unfold Manager.left
    rw [heq]
    exact h
  · unfold Manager.left
    generalize (s'.loops l).routine = r at hmoves
    cases hmoves with
    | interrupt hselect _ _ | event hselect => exact absurd h (not_left_of_running hselect)
    | back hin => exact absurd h hin
    | ended _ hafter => exact hafter

/-- A body returns to the select. -/
theorem inBody_step (h : s.inBody l) (hs : s.step t = some s') : s'.inBody l ∨ s'.selecting l := by
  obtain heq | hmoves := (step_loops hs l).2
  · exact .inl (heq.trans h)
  · unfold Manager.inBody Manager.selecting
    generalize (s'.loops l).routine = r at hmoves
    cases hmoves with
    | interrupt hselect _ _ | event hselect =>
      exact absurd (h.symm.trans hselect) (by simp)
    | back => exact .inr rfl
    | ended hleft => exact absurd hleft (not_left_of_running h)

/-- The select takes a case that returns. -/
theorem left_of_interrupt {l' : Loop} (hcase : l.interruptCase = some (l', true))
    (hs : s.step (.interrupt l) = some s') : s'.left l := by
  rw [Manager.step] at hs
  split at hs
  · obtain ⟨routine, hready, rfl⟩ := Option.map_eq_some_iff.mp hs
    unfold interrupted at hready
    simp only [hcase] at hready
    split at hready
    · obtain rfl := Option.some.inj hready
      unfold Manager.left
      rw [Manager.loops_set_self]
      rfl
    · exact absurd hready (by simp)
  · exact absurd hs (by simp)

/-! ## Fair runs -/

section Runs

variable (π : manager.Path) (l)

/-- At this time the select of the loop takes one of its cases. -/
def Selects (n : ℕ) : Prop := π.turn n = some (.interrupt l) ∨ π.turn n = some (.event l)

/-- At this time the loop is at its select, and the case of the interrupt is ready. -/
def Ready (n : ℕ) : Prop :=
  (π.state n).selecting l ∧ (interrupted (π.state n).loops l).isSome = true

/-- What the language promises of a select: one that has a ready case goes on, and a case that is
ready again and again is taken at some time. -/
structure Fair : Prop where
  goes : ∀ n, Ready l π n → ∃ m ≥ n, Selects l π m
  takes : ∀ N, (∀ m ≥ N, ∃ n ≥ m, Selects l π n ∧ Ready l π n) →
    ∃ n ≥ N, π.turn n = some (.interrupt l)

/-- From some time on, a body that the loop is in returns. -/
def BodiesReturn (n : ℕ) : Prop :=
  ∀ m ≥ n, (π.state m).inBody l → ∃ m' ≥ m, (π.state m').selecting l

variable {π l} {n : ℕ}

theorem sound_state (n : ℕ) : Sound (π.state n) :=
  π.invariant (I := Sound) (fun _ hs => hs ▸ started_sound) (fun _ _ _ h hs => h.step hs) n

theorem asked_later {m : ℕ} (hnm : n ≤ m) (h : (π.state n).asked l) : (π.state m).asked l :=
  π.stable (I := fun s => s.asked l) (fun _ _ _ h hs => (step_loops hs l).1 h) hnm h

theorem left_later {m : ℕ} (hnm : n ≤ m) (h : (π.state n).left l) : (π.state m).left l :=
  π.stable (I := fun s => s.left l) (fun _ _ _ h hs => left_step h hs) hnm h

/-- A case is taken at the select. -/
theorem selecting_of_selects (h : Selects l π n) : (π.state n).selecting l := by
  obtain hturn | hturn := h
  · have hs : Manager.step (.interrupt l) (π.state n) = _ := π.step_of_turn hturn
    rw [Manager.step] at hs
    split at hs
    · next hselect => exact hselect
    · exact absurd hs (by simp)
  · have hs : Manager.step (.event l) (π.state n) = _ := π.step_of_turn hturn
    rw [Manager.step] at hs
    split at hs
    · next hselect => exact hselect
    · exact absurd hs (by simp)

/-- The body that the loop is in, or has been in when it was left, returns. -/
theorem exists_selecting {m₁ m₂ : ℕ} (hin : (π.state m₁).inBody l) (hleft : (π.state m₂).left l) :
    ∃ m ≥ m₁, (π.state m).selecting l := by
  by_contra hnever
  have hstay : ∀ d, (π.state (m₁ + d)).inBody l := by
    intro d
    induction d with
    | zero => exact hin
    | succ d ih =>
      have hnext : (π.state (m₁ + d + 1)).inBody l ∨ (π.state (m₁ + d + 1)).selecting l := by
        cases hturn : π.turn (m₁ + d) with
        | none =>
          have hsame := π.next (m₁ + d)
          rw [hturn] at hsame
          rw [show π.state (m₁ + d + 1) = π.state (m₁ + d) from hsame]
          exact .inl ih
        | some t => exact inBody_step ih (π.step_of_turn hturn)
      exact hnext.resolve_right fun hselect => hnever ⟨m₁ + (d + 1), Nat.le_add_right _ _, hselect⟩
  have hlate : (π.state (m₁ + m₂)).left l := left_later (Nat.le_add_left m₂ m₁) hleft
  exact not_left_of_running (hstay m₂) hlate

/-- A loop whose select has a case that returns, and that is ready, is left. -/
theorem exists_left {l' : Loop} (hfair : Fair l π) (hcase : l.interruptCase = some (l', true))
    (hasked : (π.state n).asked l') (hreturn : BodiesReturn l π n) :
    ∃ m ≥ n, (π.state m).left l := by
  by_contra hnever
  have hrunning : ∀ m ≥ n, ¬ (π.state m).left l := fun m hm hleft => hnever ⟨m, hm, hleft⟩
  have hready : ∀ m ≥ n, (π.state m).selecting l → Ready l π m := by
    intro m hm hselect
    refine ⟨hselect, ?_⟩
    have hasked' : ((π.state m).loops l').runtine.isInterrupt = true := asked_later hm hasked
    unfold interrupted
    simp only [hcase, if_pos hasked', Option.isSome_some]
  have hselects : ∀ m ≥ n, ∃ k ≥ m, Selects l π k ∧ Ready l π k := by
    intro m hm
    obtain ⟨m', hm', hselecting⟩ : ∃ m' ≥ m, (π.state m').selecting l := by
      obtain hselect | hbody := ((sound_state m).routine l).resolve_right
        fun hleft => hrunning m hm hleft.1
      · exact ⟨m, Nat.le_refl m, hselect⟩
      · exact hreturn m hm hbody
    obtain ⟨k, hk, htakes⟩ := hfair.goes m' (hready m' (Nat.le_trans hm hm') hselecting)
    have hmk : m ≤ k := Nat.le_trans hm' hk
    exact ⟨k, hmk, htakes, hready k (Nat.le_trans hm hmk) (selecting_of_selects htakes)⟩
  obtain ⟨k, hk, hturn⟩ := hfair.takes n hselects
  exact hrunning (k + 1) (Nat.le_trans hk (Nat.le_succ k))
    (left_of_interrupt hcase (π.step_of_turn hturn))

/-- **A loop that has been asked to stop is left exactly where it is the one of the closer or of
the overview, or the one of the session infos and the overview has been asked to stop too, and
the bodies that it is in return.** So `Close` may wait for a loop that has no way out. -/
theorem leaves_iff (hfair : Fair l π) (hasked : (π.state n).asked l) :
    ((∃ m ≥ n, (π.state m).left l) ↔
      (l = .closer ∨ l = .overview ∨
        l = .sessionInfo ∧ ∃ m ≥ n, (π.state m).asked .overview) ∧ BodiesReturn l π n) ∧
    ∀ l', .stopping l' .receiving ∈ (π.state n).calls → (π.state n).asked l' ∧
      ((π.state n).hasExit l' ↔ l' = .closer ∨ l' = .overview ∨
        l' = .sessionInfo ∧ (π.state n).asked .overview) := by
  refine ⟨⟨?_, ?_⟩, fun l' hwaiting => ?_⟩
  · rintro ⟨m, hm, hleft⟩
    refine ⟨?_, fun m₁ _ hin => exists_selecting hin hleft⟩
    obtain hin | ⟨-, l', hcase, hasked'⟩ := (sound_state m).routine l
    · exact absurd hleft (hin.elim not_left_of_running not_left_of_running)
    · cases l with
      | run | ticker => exact absurd hcase (by simp [Loop.interruptCase])
      | closer => exact .inl rfl
      | overview => exact .inr (.inl rfl)
      | sessionInfo =>
        obtain rfl : Loop.overview = l' := (Prod.mk.inj (Option.some.inj hcase)).1
        exact .inr (.inr ⟨rfl, m, hm, hasked'⟩)
  · rintro ⟨rfl | rfl | ⟨rfl, m, hm, hoverview⟩, hreturn⟩
    · exact exists_left hfair rfl hasked hreturn
    · exact exists_left hfair rfl hasked hreturn
    · obtain ⟨k, hk, hleft⟩ := exists_left hfair rfl hoverview
        fun m' hm' hin => hreturn m' (Nat.le_trans hm hm') hin
      exact ⟨k, Nat.le_trans hm hk, hleft⟩
  · have hsound := sound_state (π := π) n
    have hasked' := hsound.waiting l' hwaiting
    refine ⟨hasked', ?_⟩
    have hway : ((π.state n).hasExit l' ↔
        ∃ l₁, l'.interruptCase = some (l₁, true) ∧ (π.state n).asked l₁) := by
      refine or_iff_right_of_imp fun hleft => ?_
      obtain hin | ⟨-, hcase⟩ := hsound.routine l'
      · exact absurd hleft (hin.elim not_left_of_running not_left_of_running)
      · exact hcase
    rw [hway]
    cases l' with
    | run | ticker => simp [Loop.interruptCase]
    | closer => exact iff_of_true ⟨.closer, rfl, hasked'⟩ (.inl rfl)
    | overview => exact iff_of_true ⟨.overview, rfl, hasked'⟩ (.inr (.inl rfl))
    | sessionInfo => simp [Loop.interruptCase]

end Runs

/-! ## Two calls of Close -/

/-- A call waits for the loop of the session infos, and a second one, for which that loop counts
as stopped, gets to the overview. -/
def closedTwice : List Turn :=
  [.close, .call 0, .call 0, .call 0, .call 0, .close, .call 1, .call 1, .call 1, .call 1, .call 1,
    .interrupt .overview, .work .overview, .work .overview]

def closedTwicePath : manager.Path := .ofExec closedTwice rfl rfl

instance (s : Manager) (l : Loop) : Decidable (s.left l) :=
  inferInstanceAs (Decidable (_ = true))

instance (s : Manager) (l : Loop) : Decidable (s.selecting l) :=
  inferInstanceAs (Decidable (_ = _))

instance (s : Manager) (l : Loop) : Decidable (s.inBody l) :=
  inferInstanceAs (Decidable (_ = _))

instance (s : Manager) (l : Loop) : Decidable (s.asked l) :=
  inferInstanceAs (Decidable (_ = true))

theorem left_closedTwicePath : ∀ n ≥ 12, (closedTwicePath.state n).left .overview := by
  intro n hn
  exact left_later hn (by decide)

theorem closedTwicePath_fair : Fair .overview closedTwicePath := by
  have hready : ∀ n, Ready .overview closedTwicePath n → n = 11 := by
    rintro n ⟨hselect, hsome⟩
    have hlate : n < 12 := by
      by_contra hlate
      exact not_left_of_running hselect (left_closedTwicePath n (Nat.le_of_not_lt hlate))
    have hearly : ∀ n < 11, ¬ (closedTwicePath.state n).asked .overview := by decide
    by_contra hne
    refine hearly n (by omega) ?_
    unfold interrupted at hsome
    simp only [Loop.interruptCase] at hsome
    split at hsome
    · next hasked => exact hasked
    · exact absurd hsome (by simp)
  constructor
  · intro n h
    rw [hready n h]
    exact ⟨11, Nat.le_refl 11, .inl rfl⟩
  · intro N h
    obtain ⟨n, hn, -, hagain⟩ := h (max N 12) (Nat.le_max_left N 12)
    have := hready n hagain
    have := Nat.le_trans (Nat.le_max_right N 12) hn
    omega

/-- The loop of the overview is left. -/
theorem leaves_iff_closedTwice : ∃ m ≥ 11, (closedTwicePath.state m).left .overview := by
  refine ((leaves_iff (n := 11) closedTwicePath_fair (by decide)).1).mpr
    ⟨.inr (.inl rfl), fun m hm hin => ?_⟩
  obtain rfl | hlate := Nat.eq_or_lt_of_le hm
  · exact absurd hin (by decide)
  · exact absurd (left_closedTwicePath m hlate) (not_left_of_running hin)

/-- One call of `Close` waits for the loop of the session infos, which has been asked to stop and
has no way out: nobody has asked the overview. -/
theorem not_hasExit_sessionInfo :
    ∃ s, manager.exec [.close, .call 0, .call 0, .call 0, .call 0] started = some s ∧
      s.calls = [.stopping .sessionInfo .receiving] ∧ s.asked .sessionInfo ∧
      ¬ s.hasExit .sessionInfo := by
  refine ⟨_, rfl, rfl, by decide, ?_⟩
  rintro (hleft | ⟨l', hcase, hasked⟩)
  · exact absurd hleft (by decide)
  · obtain rfl : Loop.overview = l' := (Prod.mk.inj (Option.some.inj hcase)).1
    exact absurd hasked (by decide)

end Shutdown
end MqttBroker

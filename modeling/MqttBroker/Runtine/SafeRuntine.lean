import MqttBroker.Lib.HeldBy
import MqttBroker.Lib.StepSystem

/-!
# Stopping a goroutine

`Go` starts a goroutine that counts itself in, calls its function, closes `stopingChan` and
stores 0. `Stop` loads the same number, returns when it is 0, and otherwise stores 0, closes
`IsInterrupt` and waits for `stopingChan`. The load and the store are two operations: two calls
may both load 1, and a call that comes after the store of another one returns at once.
-/

namespace MqttBroker

/-- `SafeRuntine`; of its channels, whether they are closed. -/
structure SafeRuntine where
  stoped : ℕ := 0
  isInterrupt : Bool := false
  stopingChan : Bool := false
deriving DecidableEq

namespace SafeRuntine

/-- What the goroutine of `Go` does next; `φ` is where its function is. -/
inductive Routine (φ : Type)
  | starting
  | running (at_ : φ)
  | closing
  | storing
  | exited
deriving DecidableEq

/-- What a call of `Stop` does next; closing a closed channel panics. -/
inductive Stop
  | loading
  | storing
  | closing
  | receiving
  | returned
  | panicked
deriving DecidableEq

variable {φ : Type}

/-- `IsStoped`. -/
def isStoped (o : SafeRuntine) : Bool := o.stoped = 0

namespace Routine

/-- The function has returned. -/
def fnReturned : Routine φ → Bool
  | closing | storing | exited => true
  | _ => false

/-- The goroutine before and after its function. -/
def step (fn : φ) (o : SafeRuntine) : Routine φ → Option (SafeRuntine × Routine φ)
  | starting => some ({ o with stoped := o.stoped + 1 }, running fn)
  | running _ => none
  | closing => some ({ o with stopingChan := true }, storing)
  | storing => some ({ o with stoped := 0 }, exited)
  | exited => none

end Routine

namespace Stop

/-- The next operation, and the operation after it; `none` while it waits. -/
def step (o : SafeRuntine) : Stop → Option (SafeRuntine × Stop)
  | loading => some (o, if o.isStoped then returned else storing)
  | storing => some ({ o with stoped := 0 }, closing)
  | closing =>
    some (if o.isInterrupt then (o, panicked) else ({ o with isInterrupt := true }, receiving))
  | receiving => if o.stopingChan then some (o, returned) else none
  | returned | panicked => none

/-- A call that goes on to close `IsInterrupt`. -/
def closes : Stop → Bool
  | storing | closing => true
  | _ => false

end Stop

/-! ## One call of Go -/

/-- A goroutine, and the calls of `Stop` on it. -/
structure Life where
  runtine : SafeRuntine
  routine : Routine Unit
  stops : List Stop
deriving DecidableEq

/-- The goroutine goes on; its function may return at any time. -/
inductive Turn
  | routine
  | stop
  | run (i : ℕ)

def Life.step : Turn → Life → Option Life
  | .routine, s =>
    match s.routine with
    | .running _ => some { s with routine := .closing }
    | r => (r.step () s.runtine).map fun next => { s with runtine := next.1, routine := next.2 }
  | .stop, s => some { s with stops := s.stops ++ [.loading] }
  | .run i, s =>
    match s.stops[i]? with
    | none => none
    | some p => (p.step s.runtine).map fun next =>
        { s with runtine := next.1, stops := s.stops.set i next.2 }

/-- `Go` has made the channels and the goroutine. -/
def go : Life := ⟨{}, .starting, []⟩

/-- One call of `Go`, and any number of calls of `Stop`. -/
def life : StepSystem Life Turn where
  init s := s = go
  step := Life.step

/-- `IsInterrupt` has been closed once at most, and the calls of `Stop` that have returned have
done so after the function. -/
def Synchronous (s : Life) : Prop :=
  .panicked ∉ s.stops ∧ (.returned ∈ s.stops → s.routine.fnReturned = true)

instance (s : Life) : Decidable (Synchronous s) := inferInstanceAs (Decidable (_ ∧ _))

/-- A call of `Stop` loads 1 while no other call is between its load and its store, and 0 when
the function has returned. -/
def Spaced (s : Life) : Turn → Prop
  | .run i => s.stops[i]? = some .loading →
    if s.runtine.isStoped then s.routine.fnReturned = true else .storing ∉ s.stops
  | _ => True

instance (s : Life) : ∀ t, Decidable (Spaced s t)
  | .run i => inferInstanceAs (Decidable (s.stops[i]? = some .loading →
      if s.runtine.isStoped then s.routine.fnReturned = true else .storing ∉ s.stops))
  | .routine | .stop => .isTrue trivial

variable {s s' : Life} {t : Turn} {o o' : SafeRuntine} {p p' : Stop}

theorem step_run {i : ℕ} (hs : s.step (.run i) = some s') :
    ∃ (hi : i < s.stops.length) (next : SafeRuntine × Stop),
      s.stops[i].step s.runtine = some next ∧
      s' = { s with runtine := next.1, stops := s.stops.set i next.2 } := by
  rw [Life.step] at hs
  cases hget : s.stops[i]? with
  | none =>
    rw [hget] at hs
    exact absurd hs (by simp)
  | some p =>
    rw [hget] at hs
    obtain ⟨next, hnext, rfl⟩ := Option.map_eq_some_iff.mp hs
    obtain ⟨hi, rfl⟩ := List.getElem?_eq_some_iff.mp hget
    exact ⟨hi, next, hnext, rfl⟩

theorem run_at {i : ℕ} (hget : s.stops[i]? = some p) (hp : p.step s.runtine = some (o', p')) :
    s.step (.run i) = some { s with runtine := o', stops := s.stops.set i p' } := by
  rw [Life.step, hget]
  exact congrArg (Option.map _) hp

/-! ## What every run keeps -/

/-- The calls that go on to close `IsInterrupt` are one at most, and none when it is closed. -/
structure Once (s : Life) : Prop where
  count : s.runtine.isInterrupt.toNat + s.stops.countP Stop.closes ≤ 1
  fresh : s.runtine.stoped ≠ 0 → s.runtine.isInterrupt = false ∧ .closing ∉ s.stops
  starting : s.routine = .starting → s.runtine = {} ∧ s.stops.countP Stop.closes = 0
  stoping : s.runtine.stopingChan = true → s.routine.fnReturned = true
  synchronous : Synchronous s

theorem go_once : Once go where
  count := by decide
  fresh h := absurd rfl h
  starting _ := ⟨rfl, rfl⟩
  stoping h := absurd h (by decide)
  synchronous := by decide

theorem closing_mem (h : .closing ∈ s.stops) : 0 < s.stops.countP Stop.closes :=
  List.countP_pos_iff.mpr ⟨_, h, rfl⟩

/-- Without a call between its load and its close, none closes. -/
theorem countP_closes_eq_zero (hstoring : .storing ∉ s.stops) (hclosing : .closing ∉ s.stops) :
    s.stops.countP Stop.closes = 0 := by
  rw [List.countP_eq_zero]
  intro p hp hcloses
  cases p with
  | storing => exact hstoring hp
  | closing => exact hclosing hp
  | _ => exact absurd hcloses (by simp [Stop.closes])

theorem Once.routine (h : Once s) (hs : s.step .routine = some s') : Once s' := by
  rw [Life.step] at hs
  cases hroutine : s.routine with
  | starting =>
    rw [hroutine] at hs
    obtain rfl := Option.some.inj hs
    obtain ⟨hnew, hnone⟩ := h.starting hroutine
    refine ⟨h.count, fun _ => ⟨congrArg isInterrupt hnew, fun hmem => ?_⟩, fun h => ?_, fun h => ?_,
      h.synchronous.1, fun hmem => ?_⟩
    · exact Nat.ne_of_gt (closing_mem hmem) hnone
    · cases h
    · exact absurd (congrArg stopingChan hnew ▸ h) (by simp)
    · have hreturned := h.synchronous.2 hmem
      rw [hroutine] at hreturned
      exact absurd hreturned (by simp [Routine.fnReturned])
  | running x =>
    rw [hroutine] at hs
    obtain rfl := Option.some.inj hs
    exact ⟨h.count, h.fresh, nofun, fun _ => rfl, h.synchronous.1, fun _ => rfl⟩
  | closing =>
    rw [hroutine] at hs
    obtain rfl := Option.some.inj hs
    exact ⟨h.count, h.fresh, nofun, fun _ => rfl, h.synchronous.1, fun _ => rfl⟩
  | storing =>
    rw [hroutine] at hs
    obtain rfl := Option.some.inj hs
    exact ⟨h.count, fun h => absurd rfl h, nofun, fun _ => rfl, h.synchronous.1,
      fun _ => rfl⟩
  | exited =>
    rw [hroutine] at hs
    exact absurd hs (by simp [Routine.step])

theorem Once.stop (h : Once s) (hs : s.step .stop = some s') : Once s' := by
  obtain rfl := Option.some.inj hs
  have hmem : ∀ {p : Stop}, p ≠ .loading → p ∈ s.stops ++ [.loading] → p ∈ s.stops := by
    intro p hp hmem
    obtain hmem | hmem := List.mem_append.mp hmem
    · exact hmem
    · exact absurd (List.mem_singleton.mp hmem) hp
  have hcount : (s.stops ++ [Stop.loading]).countP Stop.closes = s.stops.countP Stop.closes := by
    rw [List.countP_append]
    rfl
  refine ⟨hcount ▸ h.count, fun hne => ⟨(h.fresh hne).1, fun hclosing => ?_⟩, fun hstart => ?_,
    h.stoping, fun hpanicked => ?_, fun hreturned => ?_⟩
  · exact (h.fresh hne).2 (hmem (by simp) hclosing)
  · exact ⟨(h.starting hstart).1, hcount.trans (h.starting hstart).2⟩
  · exact h.synchronous.1 (hmem (by simp) hpanicked)
  · exact h.synchronous.2 (hmem (by simp) hreturned)

/-- What an operation of a call of `Stop` has to show. -/
theorem Once.set (h : Once s) {i : ℕ} (hi : i < s.stops.length)
    (hcount : o'.isInterrupt.toNat + p'.closes.toNat + s.stops.countP Stop.closes ≤
      1 + s.stops[i].closes.toNat)
    (hfresh : o'.stoped ≠ 0 → o'.isInterrupt = false ∧ .closing ∉ s.stops ∧ p' ≠ .closing)
    (hstarting : s.routine = .starting → o' = {} ∧ p'.closes = false)
    (hstoping : o'.stopingChan = s.runtine.stopingChan) (hpanicked : p' ≠ .panicked)
    (hreturned : p' = .returned → s.routine.fnReturned = true) :
    Once { s with runtine := o', stops := s.stops.set i p' } := by
  have hset : (s.stops.set i p').countP Stop.closes + s.stops[i].closes.toNat =
      s.stops.countP Stop.closes + p'.closes.toNat := List.countP_set_add hi
  have hmem : ∀ {p : Stop}, p ∈ s.stops.set i p' → p ∈ s.stops ∨ p = p' :=
    List.mem_or_eq_of_mem_set
  refine ⟨?_, fun hne => ?_, fun hstart => ?_, fun hchan => h.stoping (hstoping ▸ hchan),
    fun hp => ?_, fun hp => ?_⟩
  · show o'.isInterrupt.toNat + (s.stops.set i p').countP Stop.closes ≤ 1
    omega
  · obtain ⟨hinterrupt, hclosing, hp'⟩ := hfresh hne
    exact ⟨hinterrupt, fun hp => (hmem hp).elim hclosing fun heq => hp' heq.symm⟩
  · obtain ⟨hnew, hcloses⟩ := hstarting hstart
    refine ⟨hnew, ?_⟩
    have hzero := (h.starting hstart).2
    rw [hcloses, Bool.toNat_false] at hset
    show (s.stops.set i p').countP Stop.closes = 0
    omega
  · exact (hmem hp).elim h.synchronous.1 fun heq => hpanicked heq.symm
  · exact (hmem hp).elim h.synchronous.2 fun heq => hreturned heq.symm

theorem Once.run (h : Once s) {i : ℕ} (hok : Spaced s (.run i)) (hs : s.step (.run i) = some s') :
    Once s' := by
  obtain ⟨hi, next, hnext, rfl⟩ := step_run hs
  have hget : s.stops[i]? = some s.stops[i] := List.getElem?_eq_getElem hi
  have hmem : s.stops[i] ∈ s.stops := List.getElem_mem hi
  have hpos : s.stops[i].closes = true → 0 < s.stops.countP Stop.closes := fun hp =>
    List.countP_pos_iff.mpr ⟨_, hmem, hp⟩
  have hcount := h.count
  cases hp : s.stops[i] with
  | loading =>
    rw [hp] at hnext hget
    have hok := hok hget
    by_cases hstoped : s.runtine.isStoped = true
    · rw [if_pos hstoped] at hok
      rw [Stop.step, if_pos hstoped] at hnext
      obtain rfl := Option.some.inj hnext
      refine h.set hi ?_ (fun hne => ?_) (fun hstart => ⟨(h.starting hstart).1, rfl⟩) rfl (by simp)
        fun _ => hok
      · simpa [Stop.closes, hp] using hcount
      · exact ⟨(h.fresh hne).1, (h.fresh hne).2, by simp⟩
    · rw [if_neg hstoped] at hok
      rw [Stop.step, if_neg hstoped] at hnext
      obtain rfl := Option.some.inj hnext
      have hne : s.runtine.stoped ≠ 0 := fun h0 => hstoped (decide_eq_true h0)
      obtain ⟨hinterrupt, hclosing⟩ := h.fresh hne
      have hzero := countP_closes_eq_zero hok hclosing
      refine h.set hi ?_ (fun _ => ⟨hinterrupt, hclosing, by simp⟩) (fun hstart => ?_) rfl (by simp)
        (by simp)
      · rw [hzero, hinterrupt, hp]
        exact Nat.le_refl 1
      · exact absurd (congrArg stoped (h.starting hstart).1) hne
  | storing =>
    rw [hp] at hnext hpos
    obtain rfl := Option.some.inj hnext
    refine h.set hi ?_ (fun hne => absurd rfl hne) (fun hstart => ?_) rfl (by simp) (by simp)
    · simp only [hp, Stop.closes, Bool.toNat_true]
      omega
    · exact absurd (h.starting hstart).2 (Nat.ne_of_gt (hpos rfl))
  | closing =>
    rw [hp] at hnext hpos hmem
    have hinterrupt : s.runtine.isInterrupt = false := by
      by_contra hclosed
      rw [Bool.not_eq_false] at hclosed
      rw [hclosed, Bool.toNat_true] at hcount
      have := hpos rfl
      omega
    rw [Stop.step, hinterrupt, if_neg Bool.false_ne_true] at hnext
    obtain rfl := Option.some.inj hnext
    refine h.set hi ?_ (fun hne => absurd hmem (h.fresh hne).2) (fun hstart => ?_) rfl (by simp)
      (by simp)
    · rw [hinterrupt, Bool.toNat_false] at hcount
      simp only [hp, Stop.closes, Bool.toNat_true, Bool.toNat_false]
      omega
    · exact absurd (h.starting hstart).2 (Nat.ne_of_gt (hpos rfl))
  | receiving =>
    rw [hp, Stop.step] at hnext
    by_cases hchan : s.runtine.stopingChan = true
    · rw [if_pos hchan] at hnext
      obtain rfl := Option.some.inj hnext
      refine h.set hi ?_ (fun hne => ?_) (fun hstart => ⟨(h.starting hstart).1, rfl⟩) rfl (by simp)
        fun _ => h.stoping hchan
      · simpa [Stop.closes, hp] using hcount
      · exact ⟨(h.fresh hne).1, (h.fresh hne).2, by simp⟩
    · rw [if_neg hchan] at hnext
      exact absurd hnext (by simp)
  | returned | panicked =>
    rw [hp] at hnext
    exact absurd hnext (by simp [Stop.step])

theorem Once.step (h : Once s) (hok : Spaced s t) (hs : s.step t = some s') : Once s' := by
  cases t with
  | routine => exact h.routine hs
  | stop => exact h.stop hs
  | run i => exact h.run hok hs

theorem reach_once (h : life.Reach Spaced s) : Once s :=
  StepSystem.Reach.invariant (fun _ hs => hs ▸ go_once) (fun _ _ _ hI hok hs => hI.step hok hs) h

/-! ## Two calls of Stop -/

/-- Two calls between their loads and their stores both close `IsInterrupt`. -/
theorem panics_of_storing {i j : ℕ} (hij : i ≠ j) (hi : s.stops[i]? = some .storing)
    (hj : s.stops[j]? = some .storing) (hopen : s.runtine.isInterrupt = false) :
    ∃ ts s', life.exec ts s = some s' ∧ .panicked ∈ s'.stops := by
  obtain ⟨hi', -⟩ := List.getElem?_eq_some_iff.mp hi
  let stored : SafeRuntine := { s.runtine with stoped := 0 }
  let closed : SafeRuntine := { stored with isInterrupt := true }
  -- the first call stores 0 and closes the channel
  let l₁ := s.stops.set i .closing
  let l₂ := l₁.set i .receiving
  have h₁ : life.step (.run i) s = some { s with runtine := stored, stops := l₁ } := run_at hi rfl
  have hi₁ : l₁[i]? = some .closing := List.getElem?_set_self hi'
  have hclose : Stop.closing.step stored = some (closed, .receiving) := by
    rw [Stop.step, if_neg (by rw [hopen]; exact Bool.false_ne_true)]
  have h₂ : life.step (.run i) { s with runtine := stored, stops := l₁ } =
      some { s with runtine := closed, stops := l₂ } := run_at hi₁ hclose
  -- and so does the second one
  let l₃ := l₂.set j .closing
  let l₄ := l₃.set j .panicked
  have hj₂ : l₂[j]? = some .storing :=
    (List.getElem?_set_ne hij).trans ((List.getElem?_set_ne hij).trans hj)
  obtain ⟨hj', -⟩ := List.getElem?_eq_some_iff.mp hj₂
  have h₃ : life.step (.run j) { s with runtine := closed, stops := l₂ } =
      some { s with runtine := closed, stops := l₃ } := run_at hj₂ rfl
  have hj₃ : l₃[j]? = some .closing := List.getElem?_set_self hj'
  have h₄ : life.step (.run j) { s with runtine := closed, stops := l₃ } =
      some { s with runtine := closed, stops := l₄ } := run_at hj₃ rfl
  refine ⟨[.run i, .run i, .run j, .run j], { s with runtine := closed, stops := l₄ }, ?_, ?_⟩
  · rw [StepSystem.exec_cons h₁, StepSystem.exec_cons h₂, StepSystem.exec_cons h₃,
      StepSystem.exec_cons h₄]
    rfl
  · exact List.mem_of_getElem? (List.getElem?_set_self
      (List.getElem?_eq_some_iff.mp hj₃).1)

/-- **`Stop` is synchronous and repeatable in the runs where each call loads 1 while no other call
is between its load and its store, and 0 when the function has returned**, and a run that leaves
this condition goes on to one where it is not. -/
theorem synchronous_of_spaced (h : life.Reach Spaced s) :
    Synchronous s ∧ ∀ t s', life.step t s = some s' → ¬ Spaced s t →
      ∃ ts s'', life.exec ts s' = some s'' ∧ ¬ Synchronous s'' := by
  have honce := reach_once h
  refine ⟨honce.synchronous, fun t s' hs hnot => ?_⟩
  cases t with
  | routine | stop => exact absurd trivial hnot
  | run i =>
    obtain ⟨hi, next, hnext, rfl⟩ := step_run hs
    unfold Spaced at hnot
    rw [Classical.not_imp] at hnot
    obtain ⟨hget, hnot⟩ := hnot
    have hload : s.stops[i] = .loading :=
      Option.some.inj ((List.getElem?_eq_getElem hi).symm.trans hget)
    rw [hload, Stop.step] at hnext
    obtain rfl := Option.some.inj hnext
    by_cases hstoped : s.runtine.isStoped = true
    · -- the call returns at once
      rw [if_pos hstoped] at hnot ⊢
      exact ⟨[], _, rfl, fun hsync => hnot (hsync.2 (List.mem_set hi _))⟩
    · rw [if_neg hstoped, not_not] at hnot
      rw [if_neg hstoped]
      obtain ⟨j, hj⟩ := List.mem_iff_getElem?.mp hnot
      have hij : i ≠ j := by
        rintro rfl
        rw [hget] at hj
        exact absurd hj (by simp)
      have hopen := (honce.fresh fun h0 => hstoped (decide_eq_true h0)).1
      obtain ⟨ts, s'', hexec, hpanicked⟩ := panics_of_storing
        (s := { s with stops := s.stops.set i .storing }) hij (List.getElem?_set_self hi)
        ((List.getElem?_set_ne hij).trans hj) hopen
      exact ⟨ts, s'', hexec, fun hsync => hsync.1 hpanicked⟩

/-- A call of `Stop` on a running function, from its load to its return; when the function has
returned, a second call loads 0 before the first one has received, and a third one after the
goroutine has ended. -/
def stoppedAgain : List Turn :=
  [.routine, .stop, .run 0, .run 0, .run 0, .routine, .stop, .run 1, .routine, .run 0, .routine,
    .stop, .run 2]

theorem synchronous_of_spaced_stoppedAgain : ∃ s, life.exec stoppedAgain go = some s ∧
    s.stops = [.returned, .returned, .returned] ∧ s.routine = .exited ∧ Synchronous s := by
  obtain ⟨s, hexec, hstops, hroutine⟩ : ∃ s, life.exec stoppedAgain go = some s ∧
      s.stops = [.returned, .returned, .returned] ∧ s.routine = .exited := ⟨_, rfl, rfl, rfl⟩
  have hspaced : life.Along Spaced stoppedAgain go :=
    StepSystem.along_of_check (c := fun s t => decide (Spaced s t)) (fun _ _ => of_decide_eq_true)
      (by decide)
  exact ⟨s, hexec, hstops, hroutine,
    (synchronous_of_spaced (StepSystem.reach_of_exec (.init rfl) hspaced hexec)).1⟩

/-- Two calls of `Stop` load 1, one after the other. -/
def stoppedTwice : List Turn :=
  [.routine, .stop, .stop, .run 0, .run 1, .run 0, .run 0, .run 1, .run 1]

/-- A call of `Stop` loads 0 after the store of another one. -/
def stoppedLate : List Turn :=
  [.routine, .stop, .stop, .run 0, .run 0, .run 1]

/-- In the first run `IsInterrupt` is closed twice, in the second one a call returns while the
function is running. -/
theorem not_synchronous :
    (∃ s, life.exec stoppedTwice go = some s ∧ .panicked ∈ s.stops ∧ ¬ Synchronous s) ∧
    ∃ s, life.exec stoppedLate go = some s ∧ s.routine = .running () ∧ ¬ Synchronous s :=
  ⟨⟨_, rfl, by decide, by decide⟩, _, rfl, rfl, by decide⟩

end SafeRuntine
end MqttBroker
